/-
What types keep as it was written.

Such a text is a piece of the source, without the white space at both ends
(`parse_kept`).  Where a source is written in another way, but no such text and no
marker line changes, plans and diagnostics stay (`ofFile_recast`).
-/
import FieldRules.Proofs.Blanking
import FieldRules.Proofs.Ownership
import FieldRules.Proofs.Recasting
import FieldRules.Proofs.RoundTrip
import FieldRules.Proofs.Separation

namespace FieldRules

open Go Text

namespace Go

namespace TypeExpr

/-- The text that a type keeps as it was written. -/
def verbatim? : TypeExpr → Option String
  | instantiated _ arguments => some arguments
  | array length _ => some length
  | func text => some text
  | interface text => some text
  | _ => none

/-- All texts that are kept of a type. -/
def kept (t : TypeExpr) : List String := t.parts.filterMap verbatim?

theorem kept_map (key value : TypeExpr) : (map key value).kept = key.kept ++ value.kept :=
  List.filterMap_append

theorem mem_kept_struct {fields : List Field} {text : String} :
    text ∈ (struct fields).kept ↔ ∃ field ∈ fields, text ∈ field.type.kept := by
  show text ∈ (partsOf fields).filterMap verbatim? ↔ _
  simp only [kept, List.mem_filterMap, mem_partsOf]
  constructor
  · rintro ⟨t, ⟨field, hfield, ht⟩, text⟩
    exact ⟨field, hfield, t, ht, text⟩
  · rintro ⟨field, hfield, t, ht, text⟩
    exact ⟨t, ⟨field, hfield, ht⟩, text⟩

end TypeExpr

/-! ### Pieces of a source -/

/-- A text is that of neighbouring lexemes, without the white space at both ends. -/
def IsPiece (lexemes : List Lexeme) (text : String) : Prop :=
  ∃ run, run <:+: lexemes ∧ text = String.ofList (trim (spanText run))

/-- What is kept of a tree is in the source. -/
def Tree.IsKeptIn (lexemes : List Lexeme) : Tree → Prop
  | .type t => ∀ text ∈ t.kept, IsPiece lexemes text
  | .field f => ∀ text ∈ f.type.kept, IsPiece lexemes text
  | .fields fs => ∀ f ∈ fs, ∀ text ∈ f.type.kept, IsPiece lexemes text

section

variable {lexemes run rest : List Lexeme}

/-- There is no white space at the ends of a text that neither starts nor ends with a comment or a
newline. -/
theorem isPiece_of_run (scanned : ∀ l ∈ lexemes, l.IsScanned) (within : run ++ rest <:+ lexemes)
    (first : ∀ l ∈ run.head?, l.token ≠ .newline)
    (last : ∀ l ∈ run.getLast?, l.token.isTrivia = false) :
    IsPiece lexemes (String.ofList (spanText run)) := by
  have inside : run <:+: lexemes := (List.infix_append [] run rest).trans within.isInfix
  have scannedRun : ∀ l ∈ run, l.IsScanned := fun l hl => scanned l (inside.subset hl)
  have plain (token : Token) (trivia : token.isTrivia = true) :
      ∀ l ∈ run.getLast?, l.token ≠ token := by
    rintro l hl rfl
    rw [last l hl] at trivia
    cases trivia
  have ends := spanText_last scannedRun (plain .newline rfl)
    (fun l hl text => plain (.lineComment text) rfl l hl)
  refine ⟨run, inside, ?_⟩
  have trimmed := trim_eq (List.forall_mem_nil _) (List.forall_mem_nil _)
    (spanText_head scannedRun first) ends
  rw [List.nil_append, List.append_nil] at trimmed
  rw [trimmed]

theorem Reads.isPiece {previous : Option Lexeme} {l : Lexeme} {ls : List Lexeme} {next : Place}
    {tree : Tree} (h : Reads ⟨previous, l :: ls⟩ tree next)
    (scanned : ∀ l ∈ lexemes, l.IsScanned) (within : l :: ls <:+ lexemes)
    (plain : l.token ≠ .newline) :
    IsPiece lexemes (Place.textTo ⟨previous, l :: ls⟩ next) := by
  obtain ⟨before, k, split, -, last⟩ := h.takes
  have whole : l :: ls = (before ++ [k]) ++ next.rest := by
    rw [show l :: ls = _ from split, List.append_assoc]
    rfl
  rw [Place.textTo_eq whole]
  rw [whole] at within
  refine isPiece_of_run scanned within (fun m hm => ?_) fun m hm => ?_
  · have front := congrArg List.head? whole
    rw [List.head?_append, Option.mem_def.1 hm] at front
    cases front
    exact plain
  · rw [List.getLast?_concat] at hm
    cases hm
    exact last

theorem isPiece_group {n : Lexeme} {ns taken : List Lexeme}
    (scanned : ∀ l ∈ lexemes, l.IsScanned) (within : n :: ns <:+ lexemes)
    (bracket : n.token = .leftBracket) (htaken : takeGroup 0 (n :: ns) = some (taken, rest)) :
    IsPiece lexemes (String.ofList (spanText taken)) := by
  have split := takeGroup_append htaken
  obtain ⟨inner, k, last, closing⟩ := takeGroup_closed htaken
  rw [split] at within
  refine isPiece_of_run scanned within (fun m hm => ?_) fun m hm => ?_
  · have front := congrArg List.head? split
    rw [List.head?_append, Option.mem_def.1 hm] at front
    cases front
    rw [bracket]
    nofun
  · rw [last, List.getLast?_concat] at hm
    cases hm
    cases htoken : k.token <;> rw [htoken] at closing <;> first
      | rfl
      | cases closing

/-- What is kept of what is read is in the source. -/
theorem Reads.isKeptIn {place next : Place} {tree : Tree} (h : Reads place tree next)
    (scanned : ∀ l ∈ lexemes, l.IsScanned) (within : place.rest <:+ lexemes) :
    tree.IsKeptIn lexemes := by
  induction h with
  | name _ base _ =>
    cases base <;> exact fun text ht => (List.not_mem_nil ht).elim
  | «instance» hl base bracket htaken =>
    have behind := (base.takes hl).within within
    refine List.forall_mem_cons.2 ⟨isPiece_group scanned behind bracket htaken, ?_⟩
    cases base <;> exact fun text ht => (List.not_mem_nil ht).elim
  | pointer _ _ ih => exact ih (suffix_of_cons within)
  | slice _ _ _ ih => exact ih (suffix_of_cons (suffix_of_cons within))
  | @array _ l m size ls t _ _ _ _ _ ih =>
    refine List.forall_mem_cons.2 ⟨⟨size, ?_, rfl⟩, ih ?_⟩
    · exact List.IsInfix.trans ⟨[l], m :: ls, by simp⟩ within.isInfix
    · exact List.IsSuffix.trans ⟨l :: (size ++ [m]), by simp⟩ within
  | map _ _ hkey _ _ key value =>
    have start := suffix_of_cons (suffix_of_cons within)
    intro text ht
    rw [TypeExpr.kept_map] at ht
    rcases List.mem_append.1 ht with ht | ht
    · exact key start text ht
    · exact value (suffix_of_cons (hkey.takes.within start)) text ht
  | chan _ _ _ ih => exact ih (suffix_of_cons within)
  | send _ _ _ ih | receive _ _ _ ih => exact ih (suffix_of_cons (suffix_of_cons within))
  | func hl hm htaken ends =>
    exact List.forall_mem_singleton.2
      ((Reads.func hl hm htaken ends).isPiece scanned within (by rw [hl]; nofun))
  | funcMany hl hm htaken hn hmany =>
    exact List.forall_mem_singleton.2
      ((Reads.funcMany hl hm htaken hn hmany).isPiece scanned within (by rw [hl]; nofun))
  | funcOne hl hm htaken starts result =>
    exact List.forall_mem_singleton.2
      ((Reads.funcOne hl hm htaken starts result).isPiece scanned within (by rw [hl]; nofun))
  | interface hl hm htaken =>
    exact List.forall_mem_singleton.2
      ((Reads.interface hl hm htaken).isPiece scanned within (by rw [hl]; nofun))
  | struct _ _ _ ih =>
    intro text ht
    obtain ⟨field, hfield, ht⟩ := TypeExpr.mem_kept_struct.1 ht
    exact ih (suffix_of_cons (suffix_of_cons within)) field hfield text ht
  | paren _ _ _ ih => exact ih (suffix_of_cons within)
  | embedded _ _ _ _ ih => exact ih within
  | named htoken _ names _ _ ih =>
    exact ih ((names.takes (.one (isTrivia_of_name htoken))).within within)
  | closed => exact fun f hf => nomatch hf
  | more hdoc hfirst htrail _ _ first fields =>
    have start := (Parser.leadingComments_passes hdoc).within within
    have behind := (Parser.trailingComment_passes htrail).within (hfirst.takes.within start)
    exact List.forall_mem_cons.2 ⟨first start, fields behind⟩

end

/-- What is kept of the types of a source are pieces of it. -/
theorem parse_kept {source : List Char} {file : SourceFile}
    (parsed : SourceFile.parse source = .ok file) :
    ∃ lexemes, lex source = .ok lexemes ∧
      ∀ decl ∈ file.decls, ∀ text ∈ decl.type.kept, IsPiece lexemes text := by
  obtain ⟨lexemes, hlex, read⟩ := parse_isReadIn parsed
  refine ⟨lexemes, hlex, fun decl hdecl => ?_⟩
  obtain ⟨place, last, within, reads⟩ := read decl hdecl
  exact reads.isKeptIn (lex_lexed hlex).isScanned within

/-- Neighbouring lexemes are written next to each other. -/
theorem Lexed.run_within {spot : Spot} {cs : List Char} {lexemes run : List Lexeme}
    (h : Lexed spot cs lexemes) (inside : run <:+: lexemes) : spanText run <:+: cs := by
  obtain ⟨before, after, rfl⟩ := inside
  induction before generalizing spot cs with
  | nil =>
    cases run with
    | nil => exact List.nil_infix
    | cons l ls =>
      obtain ⟨rest, rfl, -⟩ := Lexed.recurs (show Lexed spot cs (l :: (ls ++ after)) from h)
      exact ⟨l.gap, rest, by simp⟩
  | cons l before ih =>
    obtain ⟨rest, rfl, -, -, -, more⟩ := Lexed.first h
    exact (ih more).trans ⟨l.gap ++ l.text, [], by simp⟩

theorem trim_within (cs : List Char) : trim cs <:+: cs := by
  obtain ⟨front, core, behind, rfl, blankFront, blankBehind, head, last⟩ := exists_core isBlank cs
  rw [trim_eq blankFront blankBehind head last]
  exact ⟨front, behind, by simp⟩

/-! ### The same types -/

section

variable {r : Recast}

mutual

/-- Where no kept text changes only comments do. -/
theorem Recast.type_eq (place : ∀ p, r.place p = p) (t : TypeExpr)
    (same : ∀ text ∈ t.kept, r.text text = text) :
    r.type t = t.mapDocs (List.map r.comment) := by
  match t with
  | .named _ | .qualified _ _ => rfl
  | .instantiated base arguments =>
    obtain ⟨here, inner⟩ := List.forall_mem_cons.1 same
    rw [type, TypeExpr.mapDocs, type_eq place base inner, here]
  | .pointer target => rw [type, TypeExpr.mapDocs, type_eq place target same]
  | .slice element => rw [type, TypeExpr.mapDocs, type_eq place element same]
  | .array length element =>
    obtain ⟨here, inner⟩ := List.forall_mem_cons.1 same
    rw [type, TypeExpr.mapDocs, type_eq place element inner, here]
  | .map key value =>
    rw [TypeExpr.kept_map] at same
    obtain ⟨inKey, inValue⟩ := List.forall_mem_append.1 same
    rw [type, TypeExpr.mapDocs, type_eq place key inKey, type_eq place value inValue]
  | .chan _ element => rw [type, TypeExpr.mapDocs, type_eq place element same]
  | .struct fs =>
    rw [type, TypeExpr.mapDocs, fields_eq place fs fun f hf text ht =>
      same text (TypeExpr.mem_kept_struct.2 ⟨f, hf, ht⟩)]
  | .func text => exact congrArg _ (same text List.mem_cons_self)
  | .interface text => exact congrArg _ (same text List.mem_cons_self)

theorem Recast.field_same (place : ∀ p, r.place p = p) (f : Field)
    (same : ∀ text ∈ f.type.kept, r.text text = text) :
    r.field f = TypeExpr.mapDocsIn (List.map r.comment) f := by
  match f with
  | ⟨_, _, type, _, _, _⟩ => rw [field, TypeExpr.mapDocsIn, type_eq place type same, place]

theorem Recast.fields_eq (place : ∀ p, r.place p = p) (fs : List Field)
    (same : ∀ f ∈ fs, ∀ text ∈ f.type.kept, r.text text = text) :
    r.fields fs = TypeExpr.mapDocsOf (List.map r.comment) fs := by
  match fs with
  | [] => rfl
  | f :: fs =>
    obtain ⟨first, more⟩ := List.forall_mem_cons.1 same
    rw [fields, TypeExpr.mapDocsOf, field_same place f first, fields_eq place fs more]

end

variable (r)

mutual

theorem Recast.kept_type (t : TypeExpr) : (r.type t).kept = t.kept.map r.text := by
  match t with
  | .named _ | .qualified _ _ | .func _ | .interface _ => rfl
  | .instantiated base arguments => exact congrArg (r.text arguments :: ·) (kept_type base)
  | .pointer target => exact kept_type target
  | .slice element => exact kept_type element
  | .array length element => exact congrArg (r.text length :: ·) (kept_type element)
  | .map key value =>
    rw [type, TypeExpr.kept_map, TypeExpr.kept_map, List.map_append, kept_type key,
      kept_type value]
  | .chan _ element => exact kept_type element
  | .struct fs => exact kept_fields fs

theorem Recast.kept_fields (fs : List Field) :
    (TypeExpr.partsOf (r.fields fs)).filterMap TypeExpr.verbatim? =
      ((TypeExpr.partsOf fs).filterMap TypeExpr.verbatim?).map r.text := by
  match fs with
  | [] => rfl
  | ⟨_, _, type, _, _, _⟩ :: fs =>
    rw [fields, TypeExpr.partsOf, TypeExpr.partsOf, List.filterMap_append, List.filterMap_append,
      List.map_append, kept_fields fs]
    exact congrArg (· ++ _) (kept_type type)

end

end

end Go

/-! ### The same kinds -/

/-- Declarations stay the same in all that counts for kinds. -/
structure Go.KeepsKinds (g : TypeDecl → TypeDecl) : Prop where
  name : ∀ decl, (g decl).name = decl.name
  generic : ∀ decl, (g decl).typeParameters.isSome = decl.typeParameters.isSome
  isAlias : ∀ decl, (g decl).isAlias = decl.isAlias
  type : ∀ decl, (g decl).type = decl.type

namespace Kind

variable {g : TypeDecl → TypeDecl} (h : KeepsKinds g) (decls : List TypeDecl)

include h

theorem declaration?_map (name : String) :
    declaration? (decls.map g) name = (declaration? decls name).map g := by
  have names : ((fun decl : TypeDecl => decl.name == name) ∘ g) = fun decl => decl.name == name :=
    funext fun decl => congrArg (· == name) (h.name decl)
  unfold declaration?
  rw [← List.map_reverse, List.find?_map, names]

theorem comparableName_map (depth : Nat) :
    comparableName (decls.map g) depth = comparableName decls depth := by
  induction depth with
  | zero => rfl
  | succ depth ih =>
    funext visiting name
    rw [comparableName, comparableName, declaration?_map h, ih]
    cases declaration? decls name with
    | none => rfl
    | some decl => simp only [Option.map_some, h.type]

theorem isComparable_map : isComparable (decls.map g) = isComparable decls := by
  funext visiting t
  unfold isComparable fullDepth
  rw [comparableName_map h, List.length_map]

theorem kindOfName_map (depth : Nat) :
    kindOfName (decls.map g) depth = kindOfName decls depth := by
  induction depth with
  | zero => rfl
  | succ depth ih =>
    funext visiting name
    rw [kindOfName, kindOfName, declaration?_map h, ih, isComparable_map h]
    cases declaration? decls name with
    | none => rfl
    | some decl =>
      have declared : declaredKind (g decl) = declaredKind decl := by
        funext kind
        unfold declaredKind
        simp only [h.type, h.name, h.isAlias]
      simp only [Option.map_some, h.generic, h.type, declared]

/-- The kinds of types stay, too. -/
theorem ofType_map (t : TypeExpr) : ofType (decls.map g) t = ofType decls t := by
  unfold ofType fullDepth
  rw [kindOfName_map h, isComparable_map h, List.length_map]

end Kind

/-! ### The same plans -/

namespace Plan

variable {r : Recast}

/-- A source that is written in another way, as far as what it declares is the same: places stay,
kept texts stay, and what is read from the comments above fields stays. -/
structure Rereads (r : Recast) (decls : List TypeDecl) : Prop where
  place : ∀ p, r.place p = p
  kept : ∀ decl ∈ decls, ∀ text ∈ decl.type.kept, r.text text = text
  docs : ∀ decl ∈ decls, ∀ site ∈ Site.inRecord decl,
    Marker.ofDoc (site.doc.map r.comment) = Marker.ofDoc site.doc

/-- What is recast of a declaration besides its type. -/
def headed (r : Recast) (decl : TypeDecl) : TypeDecl :=
  { decl with typeParameters := decl.typeParameters.map r.text, doc := decl.doc.map r.comment }

theorem headed_keeps (r : Recast) : KeepsKinds (headed r) :=
  ⟨fun _ => rfl, fun _ => Option.isSome_map, fun _ => rfl, fun _ => rfl⟩

section

variable {decls : List TypeDecl} (h : Rereads r decls)

include h

theorem Rereads.decl_eq {decl : TypeDecl} (hdecl : decl ∈ decls) :
    r.decl decl = headed r (decl.mapDocs (List.map r.comment)) := by
  unfold Recast.decl headed TypeDecl.mapDocs
  rw [Recast.type_eq h.place decl.type (h.kept decl hdecl), h.place]

theorem Rereads.ofType_eq (t : TypeExpr) : Kind.ofType (decls.map r.decl) t =
    Kind.ofType (decls.map (TypeDecl.mapDocs (List.map r.comment))) t := by
  have split : decls.map r.decl =
      (decls.map (TypeDecl.mapDocs (List.map r.comment))).map (headed r) := by
    rw [List.map_map]
    exact List.map_congr_left fun decl hdecl => h.decl_eq hdecl
  rw [split, Kind.ofType_map (headed_keeps r)]

theorem Rereads.isRecord {decl : TypeDecl} (hdecl : decl ∈ decls) :
    (r.decl decl).isRecord = decl.isRecord := by
  have headed (decl : TypeDecl) : (headed r decl).isRecord = decl.isRecord := by
    unfold TypeDecl.isRecord TypeDecl.recordFields? Plan.headed
    simp only [Option.isSome_map]
  rw [h.decl_eq hdecl, headed, TypeDecl.mapDocs_isRecord]

theorem Rereads.records :
    (decls.map r.decl).filter (·.isRecord) = (decls.filter (·.isRecord)).map r.decl := by
  rw [List.filter_map]
  congr 1
  exact List.filter_congr fun decl hdecl => h.isRecord hdecl

theorem Rereads.sites {decl : TypeDecl} (hdecl : decl ∈ decls) :
    Site.inRecord (r.decl decl) =
      (Site.inRecord decl).map (Site.mapDocs (List.map r.comment)) := by
  have headed (decl : TypeDecl) : Site.inRecord (headed r decl) = Site.inRecord decl := by
    unfold Site.inRecord TypeDecl.recordFields? Plan.headed
    simp only [Option.isSome_map]
  rw [h.decl_eq hdecl, headed, Site.inRecord_mapDocs]

theorem Rereads.ofRecord {decl : TypeDecl} (hdecl : decl ∈ decls) :
    ofRecord (decls.map r.decl) (r.decl decl) = ofRecord decls decl := by
  have markers : wellFormed (r.decl decl) =
      (wellFormed decl).map (retype (List.map r.comment)) := by
    rw [Site.wellFormed_eq, Site.wellFormed_eq, h.sites hdecl, List.flatMap_map, List.map_flatMap]
    refine List.flatMap_congr fun site hsite => ?_
    unfold Site.markers Site.mapDocs
    rw [h.docs decl hdecl site hsite, List.map_filterMap]
    refine List.filterMap_congr fun reading _ => ?_
    cases reading <;> rfl
  have bad : malformed (r.decl decl) = malformed decl := by
    rw [Site.malformed_eq, Site.malformed_eq, h.sites hdecl, List.flatMap_map]
    refine List.flatMap_congr fun site hsite => ?_
    unfold Site.malformed Site.mapDocs
    rw [h.docs decl hdecl site hsite]
    rfl
  have name : (r.decl decl).name = decl.name := rfl
  have position : (r.decl decl).position = decl.position := h.place _
  unfold Plan.ofRecord
  rw [markers, bad, name, position, ofMarkers_congr h.ofType_eq, ofMarkers_retype]

theorem Rereads.ofRecords (before : List Plan) {records : List TypeDecl} (within : records ⊆ decls) :
    ofRecords (decls.map r.decl) before (records.map r.decl) = ofRecords decls before records := by
  induction records generalizing before with
  | nil => rfl
  | cons decl records ih =>
    obtain ⟨hdecl, more⟩ := List.cons_subset.1 within
    rw [List.map_cons, Plan.ofRecords, Plan.ofRecords, h.ofRecord hdecl]
    simp only [ih _ more]

end

/-- Plans and diagnostics stay. -/
theorem ofFile_recast {file : SourceFile} (h : Rereads r file.decls) (package : String) :
    ofFile ⟨package, file.decls.map r.decl⟩ = ofFile file := by
  unfold ofFile
  simp only [h.records, h.ofRecords [] (List.filter_subset_self _)]

end Plan

/-- A source that is written in another way compiles to the same. -/
theorem CompiledUnit.ofFile_recast {r : Recast} {file : SourceFile}
    (h : Plan.Rereads r file.decls) (options : Emission.Options) (sourceName : String) :
    ofFile options sourceName ⟨file.package, file.decls.map r.decl⟩ =
      ofFile options sourceName file := by
  have records : ((file.decls.map r.decl).filter (·.isRecord)).map (·.name) =
      (file.decls.filter (·.isRecord)).map (·.name) := by
    rw [h.records, List.map_map]
    rfl
  unfold ofFile
  simp only [Plan.ofFile_recast h, records]

end FieldRules
