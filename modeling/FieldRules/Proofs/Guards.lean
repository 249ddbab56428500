/-
Which pointers guard a marker, and when its check is made.

A marker is guarded by the pointers to anonymous structs above its field, outermost
first (`Chain.ArePointers`).  Going down an instance finds such a pointer nil where
the field is missing or nil in the record above it; everything else that is no
record reads as the empty one.  A check is about nothing exactly where one of its
guards is nil in that sense, and otherwise about the value at its path
(`compile_guards`).
-/
import FieldRules.Proofs.Agreement
import FieldRules.Proofs.Descent

namespace FieldRules

open Go

namespace Go.Chain

variable {chain : Chain} {walked : FieldPath}

/-- The paths are those of the pointers to anonymous structs on a chain, outermost first. -/
structure ArePointers (chain : Chain) (guards : List FieldPath) : Prop where
  outermostFirst : guards.Pairwise fun a b => a.segments.length < b.segments.length
  mem_iff : ∀ guard, guard ∈ guards ↔ ∃ before name inner after,
    chain = before ++ (name, .pointer (.struct inner)) :: after ∧
      guard.segments = names before ++ [name]

theorem pairwise_pointers (chain : Chain) (walked : FieldPath) :
    (pointers walked chain).Pairwise fun a b => a.segments.length < b.segments.length := by
  induction chain generalizing walked with
  | nil => exact .nil
  | cons step chain ih =>
    rw [pointers]
    split
    · exact List.pairwise_cons.2 ⟨fun guard => pointers_longer, ih _⟩
    · exact ih _

theorem pointer_of_fields? {type : TypeExpr} (pointer : type.isPointer = true)
    (opened : type.fields?.isSome = true) : ∃ inner, type = .pointer (.struct inner) := by
  unfold TypeExpr.fields? at opened
  split at opened
  · cases pointer
  · exact ⟨_, rfl⟩
  · cases opened

theorem arePointers_of_opens {fields last : List Field} (opens : Opens fields chain last) :
    ArePointers chain (pointers FieldPath.root chain) := by
  refine ⟨pairwise_pointers chain _, fun guard => mem_pointers_iff.trans ?_⟩
  constructor
  · rintro ⟨before, ⟨name, type⟩, after, rfl, pointer, place⟩
    have opened := opens.fields? (name, type) (List.mem_append_right _ List.mem_cons_self)
    obtain ⟨inner, rfl⟩ := pointer_of_fields? pointer opened
    exact ⟨before, name, inner, after, rfl, place⟩
  · rintro ⟨before, name, inner, after, rfl, place⟩
    exact ⟨before, _, after, rfl, rfl, place⟩

end Go.Chain

/-- Where a path leads, a record has no field or a nil one. -/
def Record.LacksAt (record : Record) (path : FieldPath) : Prop :=
  ∃ names name, path.segments = names ++ [name] ∧ (record.recordAt names).isNilAt name = true

namespace Validator

variable {record : Record} {check : Check}

/-- With the guards that are on its way a check is behind a nil guard if one of them is nil. -/
theorem isBehindNil_iff {chain : Chain} {leaf : String}
    (path : check.path.segments = Chain.names chain ++ [leaf])
    (guards : chain.ArePointers check.guards) :
    IsBehindNil record check ↔ ∃ guard ∈ check.guards, record.LacksAt guard := by
  unfold IsBehindNil
  rw [path, List.dropLast_concat]
  constructor
  · rintro ⟨before, name, after, -, guarded, nil⟩
    exact ⟨_, guarded, before, name, rfl, nil⟩
  · rintro ⟨guard, guarded, names, name, place, nil⟩
    obtain ⟨before, last, inner, after, rfl, place'⟩ := (guards.mem_iff guard).1 guarded
    obtain ⟨rfl, same⟩ := List.append_inj' (place.symm.trans place') rfl
    cases same
    have onWay : (⟨FieldPath.root.segments ++ Chain.names before ++ [name]⟩ : FieldPath) = guard :=
      congrArg FieldPath.mk place.symm
    refine ⟨Chain.names before, name, Chain.names after, ?_, onWay ▸ guarded, nil⟩
    rw [Chain.names, List.map_append]
    rfl

/-- What a check is about, where none of its guards is nil: the value at its path, zero where it is
missing. -/
def IsAbout (record : Record) (check : Check) (value : Value) : Prop :=
  ∃ names leaf, check.path.segments = names ++ [leaf] ∧
    value = ((record.recordAt names).get? leaf).getD (Value.zero check.kind)

/-- The check is not made on the record, whatever other validators there are. -/
def IsSkipped (record : Record) (check : Check) : Prop :=
  ∀ lookup handOver above, runCheck lookup handOver record above check = some []

/-- The check is made on the value: its delegate is run on it, or else the value is judged. -/
def IsMadeOn (record : Record) (check : Check) (value : Value) : Prop :=
  ∀ lookup handOver above, runCheck lookup handOver record above check =
    match check.delegate.bind lookup with
    | some inner => handOver inner (asRecord value) (above.append check.path)
    | none => some (judge check (above.append check.path) value)

theorem isSkipped_of_resolve (found : resolve record check = none) : IsSkipped record check := by
  intro lookup handOver above
  rw [runCheck, found]

theorem isMadeOn_of_resolve {value : Value} (found : resolve record check = some value) :
    IsMadeOn record check value := by
  intro lookup handOver above
  cases delegate : check.delegate.bind lookup <;> simp only [runCheck, found, delegate]

/-- The check is skipped if one of its guards is nil, and made on the value at its path if none
is. -/
def ObeysGuards (record : Record) (check : Check) : Prop :=
  (resolve record check = none ∧ IsSkipped record check ∧
      ∃ guard ∈ check.guards, record.LacksAt guard) ∨
    ∃ value, resolve record check = some value ∧ IsMadeOn record check value ∧
      IsAbout record check value ∧ ∀ guard ∈ check.guards, ¬ record.LacksAt guard

theorem obeysGuards {chain : Chain} {leaf : String}
    (path : check.path.segments = Chain.names chain ++ [leaf])
    (guards : chain.ArePointers check.guards) : ObeysGuards record check := by
  rcases resolve_eq record path with ⟨behind, found⟩ | ⟨free, found⟩
  · exact .inl ⟨found, isSkipped_of_resolve found, (isBehindNil_iff path guards).1 behind⟩
  · refine .inr ⟨_, found, isMadeOn_of_resolve found, ⟨_, _, path, rfl⟩, ?_⟩
    exact fun guard guarded lacks => free ((isBehindNil_iff path guards).2 ⟨guard, guarded, lacks⟩)

end Validator

namespace Occurrence

/-- A marker is on a field that some fields lead to, and has the pointers on the way there as its
guards. -/
def IsGuarded (occurrence : Occurrence) (fields : List Field) : Prop :=
  ∃ chain last field name, Opens fields chain last ∧ field ∈ last ∧ name ∈ field.names ∧
    occurrence.reading ∈ Marker.ofDoc field.doc ∧
    occurrence.path.segments = Chain.names chain ++ [name] ∧
    chain.ArePointers occurrence.guards

theorem isGuarded {decl : TypeDecl} {occurrence : Occurrence}
    (found : occurrence ∈ inRecord decl) :
    ∃ fields, decl.recordFields? = some fields ∧ occurrence.IsGuarded fields := by
  rw [Site.inRecord_occurrences] at found
  obtain ⟨site, hsite, found⟩ := List.mem_flatMap.1 found
  obtain ⟨reading, read, rfl⟩ := List.mem_map.1 found
  obtain ⟨fields, record, chain, last, field, name, opens, own, named, -, doc, path, guards⟩ :=
    Site.inRecord_opens hsite
  refine ⟨fields, record, chain, last, field, name, opens, own, named, doc ▸ read, path, ?_⟩
  rw [show site.guards = _ from guards]
  exact Chain.arePointers_of_opens opens

end Occurrence

/-- The check is what a marker of a record comes to, with the path and the guards of the marker. -/
def Check.IsOf (check : Check) (decl : TypeDecl) : Prop :=
  ∃ occurrence ∈ Occurrence.inRecord decl, ∃ marker, occurrence.reading = .ok marker ∧
    check.position = marker.position ∧ check.path = occurrence.path ∧
    check.guards = occurrence.guards

namespace CompiledUnit

/-- A source that can be read compiles; the markers of its records have as guards the pointers to
anonymous structs above their fields, outermost first, and a check has those of its marker.  On every
record a check is skipped if one of its guards is missing or nil there, and otherwise made on the
value at its path. -/
theorem compile_guards {source : String} {file : SourceFile}
    (parsed : SourceFile.parse source.toList = .ok file) (options : Emission.Options)
    (sourceName : String) :
    (∀ decl ∈ file.decls, ∀ occurrence ∈ Occurrence.inRecord decl,
      ∃ fields, decl.recordFields? = some fields ∧ occurrence.IsGuarded fields) ∧
    ∃ unit, compile options sourceName source = .ok unit ∧
      ∀ plan ∈ unit.plans, ∀ check ∈ plan.checks,
        (∃ decl ∈ file.decls, decl.name = plan.record ∧ check.IsOf decl) ∧
        ∀ record : Record, Validator.ObeysGuards record check := by
  refine ⟨fun decl _ occurrence => Occurrence.isGuarded, _, compile_of_parse parsed, ?_⟩
  intro plan hplan check hcheck
  obtain ⟨decl, hdecl, named, occurrence, found, marker, made, read, hmade, settled⟩ :=
    Plan.mem_ofFile_marker hplan hcheck
  obtain ⟨path, guards, -, -, position, -⟩ := Plan.checkOf_ok hmade
  have samePath : check.path = occurrence.path := by rw [settled]; exact path
  have sameGuards : check.guards = occurrence.guards := by rw [settled]; exact guards
  refine ⟨⟨decl, hdecl, named, occurrence, found, marker, read, ?_, samePath, sameGuards⟩,
    fun record => ?_⟩
  · rw [settled]
    exact position
  · obtain ⟨fields, -, chain, last, field, name, -, -, -, -, place, pointers⟩ :=
      Occurrence.isGuarded found
    exact Validator.obeysGuards (samePath ▸ place) (sameGuards ▸ pointers)

/-- A source with pointers above and below a struct that is held by value. -/
def mixedLevels : String :=
  "package p
  type A struct \x7b
    P *struct \x7b
      V struct \x7b
        Q *struct \x7b
          // +govalid:gte=1
          N int
        \x7d
      \x7d
    \x7d
  \x7d
  "

set_option maxRecDepth 4000 in
theorem compile_guards_mixedLevels :
    ∃ file, SourceFile.parse mixedLevels.toList = .ok file ∧
      (file.decls.flatMap Occurrence.inRecord).map (fun occurrence =>
          (occurrence.path.segments, occurrence.guards.map (·.segments))) =
        [(["P", "V", "Q", "N"], [["P"], ["P", "V", "Q"]])] ∧
      (∀ decl ∈ file.decls, ∀ occurrence ∈ Occurrence.inRecord decl,
        ∃ fields, decl.recordFields? = some fields ∧ occurrence.IsGuarded fields) ∧
      ∃ unit, compile .default "a.go" mixedLevels = .ok unit ∧
        ∀ plan ∈ unit.plans, ∀ check ∈ plan.checks,
          (∃ decl ∈ file.decls, decl.name = plan.record ∧ check.IsOf decl) ∧
          ∀ record : Record, Validator.ObeysGuards record check := by
  obtain ⟨file, parsed, facts⟩ := exists_parse (rfl : mixedLevels = _)
    (p := fun file => (file.decls.flatMap Occurrence.inRecord).map (fun occurrence =>
        (occurrence.path.segments, occurrence.guards.map (·.segments))) ==
      [(["P", "V", "Q", "N"], [["P"], ["P", "V", "Q"]])])
    (by decide +kernel)
  exact ⟨file, parsed, beq_iff_eq.1 facts, compile_guards parsed .default "a.go"⟩

end CompiledUnit
end FieldRules
