/-
What is emitted is read again.

The file for a plan has a package clause and nothing that declares a type, as far as
the parser is concerned; so it may stand among the inputs and adds nothing to them
(`compile_reread`).  This takes names that are still names once a letter in them has
another case (`Plan.IsRenderable`): a letter with two marks is written with marks that
stand alone where it is a capital, and these are no letters (`compile_reread_accented`).
-/
import FieldRules.Proofs.Emitted
import FieldRules.Proofs.Items
import FieldRules.Proofs.Keys
import FieldRules.Proofs.RoundTrip
import FieldRules.Proofs.TypeText

namespace FieldRules

open Go

/-! ### What is taken over from a source -/

namespace Go

/-- Every type of a source is written with its brackets in pairs, as far as it is closed. -/
theorem parse_allNested {source : List Char} {file : SourceFile}
    (parsed : SourceFile.parse source = .ok file) : ∀ decl ∈ file.decls, decl.type.AllNested := by
  obtain ⟨lexemes, hlex, read⟩ := parse_isReadIn parsed
  intro decl hdecl
  obtain ⟨place, last, within, reads⟩ := read decl hdecl
  exact reads.allNested (isLexed_of_suffix hlex within)

theorem Passes.isLexed {place next : Place} {comments : List Comment} {names : List String}
    (h : Passes place next comments names) (lexed : IsLexed place.rest) : IsLexed next.rest := by
  obtain ⟨taken, split, -⟩ := h
  rw [split] at lexed
  exact lexed.behind

theorem ReadsItem.isLexed {place next : Place} {item : Item} (h : ReadsItem place item next)
    (lexed : IsLexed place.rest) : IsLexed next.rest := by
  cases h with
  | package hdoc =>
    have behind : IsLexed (_ :: _ :: _) := (Parser.leadingComments_passes hdoc).isLexed lexed
    exact behind.tail.tail
  | types hdoc _ hdecls =>
    have behind : IsLexed (_ :: _) := (Parser.leadingComments_passes hdoc).isLexed lexed
    exact (Parser.typeDecls_reads hdecls).passes.isLexed behind.tail
  | @other previous l ls _ hdoc =>
    have behind : IsLexed (l :: ls) := (Parser.leadingComments_passes hdoc).isLexed lexed
    obtain ⟨taken, split⟩ := passDeclaration_append 0 previous (l :: ls)
    rw [split] at behind
    exact behind.behind

/-- A package that is named among some items is a word. -/
theorem ReadsItems.isWord {place : Place} {is : List Item} (h : ReadsItems place is)
    (lexed : IsLexed place.rest) {before : Option String} {package : String}
    (named : Item.lastPackage before is = some package) :
    before = some package ∨ IsWord package := by
  induction h generalizing before with
  | done => exact .inl named
  | @next place mid item is here _ ih =>
    rcases ih (here.isLexed lexed) named with first | word
    · cases here with
      | package hdoc _ hm =>
        cases first
        have behind : IsLexed (_ :: _ :: _) := (Parser.leadingComments_passes hdoc).isLexed lexed
        exact .inr (behind.tail.isWord hm)
      | types => exact .inl first
      | other => exact .inl first
    · exact .inr word

theorem parse_package_isWord {source : List Char} {file : SourceFile}
    (parsed : SourceFile.parse source = .ok file) : IsWord file.package := by
  obtain ⟨lexemes, is, hlex, reads, package, -⟩ := parse_iff.1 parsed
  rcases reads.isWord (isLexed_of_suffix hlex (List.suffix_refl _)) package with none | word
  · cases none
  · exact word

/-- What lies within the struct that a type opens lies within the type. -/
theorem TypeExpr.partsOf_fields? {t : TypeExpr} {fields : List Field} (h : t.fields? = some fields) :
    partsOf fields ⊆ t.parts := by
  unfold fields? at h
  split at h
  · cases h
    rw [parts]
    exact List.subset_cons_self _ _
  · cases h
    rw [parts, parts]
    exact fun t ht => List.mem_cons_of_mem _ (List.mem_cons_of_mem _ ht)
  · cases h

theorem Declares.type_mem {fields : List Field} {chain : Chain} (h : Declares fields chain) :
    ∀ step ∈ chain, step.2 ∈ TypeExpr.partsOf fields := by
  have own {fields : List Field} {field : Field} (hfield : field ∈ fields) :
      field.type.parts ⊆ TypeExpr.partsOf fields :=
    fun t ht => TypeExpr.mem_partsOf.2 ⟨field, hfield, ht⟩
  induction h with
  | @last fields field name hfield _ =>
    exact List.forall_mem_singleton.2 (own hfield field.type.self_mem_parts)
  | @more fields inner field name chain hfield _ hinner _ ih =>
    refine List.forall_mem_cons.2 ⟨own hfield field.type.self_mem_parts, fun step hstep => ?_⟩
    exact own hfield (TypeExpr.partsOf_fields? hinner (ih step hstep))

/-- The guards of a check stand on the way to it. -/
theorem Chain.LeadsTo.guards_within {decls : List TypeDecl} {fields : List Field} {chain : Chain}
    {leaf : String × TypeExpr} {check : Check} (h : LeadsTo decls fields chain leaf check) :
    ∀ guard ∈ check.guards, guard.segments ⊆ check.path.segments := by
  intro guard hguard
  rw [h.guards] at hguard
  obtain ⟨before, step, after, rfl, -, place⟩ := mem_pointers_iff.1 hguard
  have place : guard.segments = names before ++ [step.1] := place
  rw [place, h.path, names, names, List.map_append, List.map_cons, List.append_assoc]
  intro name hname
  rcases List.mem_append.1 hname with above | here
  · exact List.mem_append_left _ above
  · rw [List.mem_singleton.1 here]
    exact List.mem_append_right _ List.mem_cons_self

end Go

theorem Occurrence.type_mem {decl : TypeDecl} {occurrence : Occurrence}
    (h : occurrence ∈ inRecord decl) : occurrence.type ∈ decl.type.parts := by
  rw [Site.inRecord_occurrences] at h
  obtain ⟨site, hsite, h⟩ := List.mem_flatMap.1 h
  obtain ⟨reading, -, rfl⟩ := List.mem_map.1 h
  obtain ⟨fields, hfields, chain, name, declared, -⟩ := Site.inRecord_reached hsite
  rw [Site.recordFields?_type hfields, TypeExpr.parts]
  exact List.mem_cons_of_mem _ (declared.type_mem (name, site.type) (by simp))

/-! ### Plans of a source -/

/-- The names that are made for a plan are names, and the texts in the types of anonymous structs
that it compares with zero have their brackets in pairs. -/
structure Plan.IsRenderable (file : SourceFile) (plan : Plan) : Prop where
  errors : ∀ check ∈ plan.checks, check.delegate = none → ∀ segment ∈ check.path.segments,
    (Emission.pascal segment).all continuesName = true
  patterns : (plan.uses .email || plan.uses .uuid) = true →
    isName (Emission.lowerFirst plan.record).toList = true
  types : ∀ check ∈ plan.checks, check.rule = .required → check.kind = .record none true →
    ∀ decl ∈ file.decls, decl.name = plan.record → ∀ occurrence ∈ Occurrence.inRecord decl,
      occurrence.path = check.path → occurrence.type.IsClosed

namespace Plan

variable {file : SourceFile} {plan : Plan}

instance : Decidable (plan.IsRenderable file) :=
  decidable_of_iff
    ((∀ check ∈ plan.checks, check.delegate = none → ∀ segment ∈ check.path.segments,
        (Emission.pascal segment).all continuesName = true) ∧
      ((plan.uses .email || plan.uses .uuid) = true →
        isName (Emission.lowerFirst plan.record).toList = true) ∧
      ∀ check ∈ plan.checks, check.rule = .required → check.kind = .record none true →
        ∀ decl ∈ file.decls, decl.name = plan.record → ∀ occurrence ∈ Occurrence.inRecord decl,
          occurrence.path = check.path → occurrence.type.IsClosed)
    ⟨fun ⟨errors, patterns, types⟩ => ⟨errors, patterns, types⟩,
      fun ⟨errors, patterns, types⟩ => ⟨errors, patterns, types⟩⟩

/-- The type of a struct that is compared with its zero value is written with its brackets in
pairs. -/
theorem ofFile_zero {source : List Char} (parsed : SourceFile.parse source = .ok file)
    (hplan : plan ∈ (ofFile file).1) (renderable : plan.IsRenderable file) {check : Check}
    (hcheck : check ∈ plan.checks) (required : check.rule = .required) {owner : Option String}
    {comparable : Bool} (hkind : check.kind = .record owner comparable) :
    Lexes check.goType.toList (· != '\x7b') IsNested := by
  obtain ⟨decl, hdecl, hname, occurrence, hoccurrence, path, kind, goType, never⟩ :=
    ofFile_occurrence hplan hcheck
  have nested := parse_allNested parsed decl hdecl _ (Occurrence.type_mem hoccurrence)
  rw [goType]
  rcases Kind.kindWith_record (kind.symm.trans hkind) with ⟨fields, struct, rfl⟩ | ⟨name, named, -⟩
  · cases comparable with
    | false =>
      rw [required, hkind] at never
      cases never
    | true =>
      have closed := renderable.types check hcheck required hkind decl hdecl hname occurrence
        hoccurrence path.symm
      rw [struct] at nested closed ⊢
      exact (nested closed).imp (fun _ _ _ _ => rfl) fun _ hls => hls
  · have brace : continuesName '\x7b' = false := by decide +kernel
    rw [named] at nested ⊢
    refine (nested fun _ htext => nomatch htext).imp (fun rest ends c hc => ?_) fun _ hls => hls
    rw [bne_eq_false_iff_eq.1 (ends c hc)]
    exact brace

theorem ofFile_isWritable {source : List Char} (parsed : SourceFile.parse source = .ok file)
    (hplan : plan ∈ (ofFile file).1) (renderable : plan.IsRenderable file) : plan.IsWritable := by
  have names : ∀ plan ∈ (ofFile file).1, isName plan.record.toList = true := by
    intro plan hplan
    obtain ⟨decl, hdecl, named⟩ := List.mem_map.1 (ofFile_record hplan)
    rw [← named]
    exact parse_isName parsed decl (List.mem_filter.1 hdecl).1
  refine ⟨names plan hplan, fun check hcheck => ?_, renderable.patterns⟩
  have path := ofFile_isName parsed hplan check hcheck
  constructor
  case path => exact path
  case guards =>
    obtain ⟨decl, -, -, fields, -, chain, leaf, leads⟩ := ofFile_leadsTo hplan hcheck
    exact fun guard hguard segment hsegment =>
      path segment (leads.guards_within guard hguard hsegment)
  case target =>
    intro target delegate
    obtain ⟨inner, hinner, rfl⟩ := List.mem_map.1 (ofFile_delegate hplan hcheck delegate).2
    exact names inner hinner
  case argument =>
    obtain ⟨_, _, _, _, _, marker, made, _, hcheckOf, same⟩ := mem_ofFile_marker hplan hcheck
    rw [same]
    exact Rule.typeArgument_takes (checkOf_typed hcheckOf).2
  case zero =>
    exact fun required owner comparable hkind =>
      ofFile_zero parsed hplan renderable hcheck required hkind
  case error => exact renderable.errors check hcheck

end Plan

namespace CompiledUnit

variable {options : Emission.Options} {sourceName source : String} {unit : CompiledUnit}

/-- What is emitted for a source is parsed to its package and nothing else, and compiled to nothing,
as far as the names and types are such that they can be written. -/
theorem compile_reread (compiled : compile options sourceName source = .ok unit)
    (oneLine : '\n' ∉ sourceName.toList) :
    ∃ file, SourceFile.parse source.toList = .ok file ∧
      ∀ a ∈ unit.artifacts, ∃ plan ∈ unit.plans, plan.record = a.record ∧
        (plan.IsRenderable file →
          SourceFile.parse a.source.toList = .ok ⟨unit.package, []⟩ ∧
          ∀ again name,
            compile again name a.source = .ok ⟨name, unit.package, [], [], [], []⟩) := by
  obtain ⟨file, parsed, rfl⟩ := compile_eq_ok.1 compiled
  refine ⟨file, parsed, fun a ha => ?_⟩
  obtain ⟨plan, hplan, made⟩ := List.mem_map.1 ha
  have source : a.source = Emission.emit options file.package sourceName plan := by rw [← made]; rfl
  refine ⟨plan, hplan, by rw [← made]; rfl, fun renderable => ?_⟩
  have sound := Emission.isSound_codeFile (Plan.ofFile_isWritable parsed hplan renderable) options
    (parse_package_isWord parsed) oneLine
  have reparsed : SourceFile.parse a.source.toList = .ok ⟨file.package, []⟩ := by
    rw [source]
    exact sound.parse
  exact ⟨reparsed, fun again name => compile_of_parse reparsed⟩

/-- A source with letters of other alphabets in names, with an anonymous struct that holds arrays, and
with a record that hands over to another. -/
def measures : String :=
  "package p
  type Größe struct \x7b
    // +govalid:required
    länge struct \x7b At, To [2 * (n + 1)]q.Pair[int, string]; Ok bool \x60json:\"ok\"\x60 \x7d
    // +govalid:uuid
    fremd_schlüssel string
    Teil *struct \x7b
      // +govalid:required
      Maß Einheit
    \x7d
  \x7d
  type Einheit struct \x7b
    // +govalid:enum=m \" \\
    Kürzel string
    // +govalid:gt=-0.5
    Faktor float64
    // +govalid:ipv6
    Quelle Text
  \x7d
  type Text string
  "

set_option maxRecDepth 4000 in
theorem compile_reread_measures :
    ∃ unit, compile .default "a.go" measures = .ok unit ∧
      unit.artifacts.map (·.fileName) = ["größe_validator.go", "einheit_validator.go"] ∧
      unit.plans.map (fun plan => plan.checks.map (·.delegate)) =
        [[none, none, some "Einheit"], [none, none, none]] ∧
      ∀ a ∈ unit.artifacts, SourceFile.parse a.source.toList = .ok ⟨"p", []⟩ ∧
        ∀ again name, compile again name a.source = .ok ⟨name, "p", [], [], [], []⟩ := by
  obtain ⟨file, parsed, facts⟩ := exists_parse (rfl : measures = _)
    (p := fun file => let unit := ofFile .default "a.go" file
      decide (file.package = "p" ∧
        unit.artifacts.map (·.fileName) = ["größe_validator.go", "einheit_validator.go"] ∧
        unit.plans.map (fun plan => plan.checks.map (·.delegate)) =
          [[none, none, some "Einheit"], [none, none, none]] ∧
        ∀ plan ∈ unit.plans, plan.IsRenderable file))
    (by decide +kernel)
  obtain ⟨package, fileNames, delegates, renderable⟩ := of_decide_eq_true facts
  have compiled : compile .default "a.go" measures = .ok (ofFile .default "a.go" file) :=
    compile_of_parse parsed
  refine ⟨_, compiled, fileNames, delegates, fun a ha => ?_⟩
  obtain ⟨other, parsedOther, reread⟩ := compile_reread compiled (by decide)
  cases parsed.symm.trans parsedOther
  obtain ⟨plan, hplan, -, again⟩ := reread a ha
  rw [← package]
  exact again (renderable plan hplan)

/-- A source with a small letter that has two marks and no capital of one character. -/
def accented : String :=
  "package p\n\ntype T struct \x7b\n\t// +govalid:required\n\tΐ string\n\x7d\n"

/-- What is emitted for it is no text that can be read. -/
theorem compile_reread_accented :
    ∃ unit, compile .default "a.go" accented = .ok unit ∧
      ∃ a ∈ unit.artifacts, ∃ error, SourceFile.parse a.source.toList = .error error := by
  obtain ⟨file, parsed, facts⟩ := exists_parse (rfl : accented = _)
    (p := fun file => (ofFile .default "a.go" file).plans.any fun plan =>
      (lex (linesText (Emission.codeFile .default file.package "a.go" plan).lines)).toOption.isNone)
    (by decide +kernel)
  obtain ⟨plan, hplan, fails⟩ := List.any_eq_true.1 facts
  refine ⟨_, compile_of_parse parsed, _, List.mem_map_of_mem hplan, ?_⟩
  rw [← CodeFile.render_toList] at fails
  cases hlex : lex (Emission.codeFile .default file.package "a.go" plan).render.toList with
  | ok lexemes =>
    rw [hlex] at fails
    cases fails
  | error e =>
    have unread : SourceFile.parse (Emission.emit .default file.package "a.go" plan).toList =
        .error e := by
      unfold SourceFile.parse Emission.emit
      rw [hlex]
    exact ⟨e, unread⟩

end CompiledUnit
end FieldRules
