/-
Emitted code reports a check exactly where the validator does.

Both walk down the chain of the check's field.  The validator stops at a pointer
that is nil and guarded; emitted code tests the guards first, so that nothing
behind a nil pointer is read.  By induction over the chain the two stop at the
same pointer or find the same field (`Walk.descend_agrees`).  There the condition
of the check decides as the validator does, and so the whole statement that is
emitted for the check does (`compile_agrees`).
-/
import FieldRules.CompiledUnit
import FieldRules.Proofs.Conditions
import FieldRules.Proofs.Delegates

namespace FieldRules

open Go

namespace Go
namespace Chain

/-! ### One step down -/

variable {decls : List TypeDecl} {chain : Chain} {name : String} {type : TypeExpr}
  {record : Record}

theorem conforms_nil (chain : Chain) : Conforms decls [] chain := by
  cases chain <;> trivial

theorem found_conforms (h : Conforms decls record ((name, type) :: chain)) :
    (found decls record (name, type)).conforms (Kind.ofType decls type) = true ∧
      Conforms decls (Validator.asRecord (found decls record (name, type))) chain := by
  unfold Conforms at h
  unfold found
  cases hget : record.get? name with
  | some value =>
    rw [hget] at h
    exact h
  | none =>
    have empty : ∀ kind, Validator.asRecord (Value.zero kind) = [] := by
      intro kind
      cases kind <;> rfl
    refine ⟨Kind.ofType_holdsZero decls type, ?_⟩
    show Conforms decls (Validator.asRecord (Value.zero _)) chain
    rw [empty]
    exact conforms_nil chain

/-- Where a type has fields, a value of it is a record or a nil pointer. -/
theorem record_or_null {fields : List Field} (hfields : type.fields? = some fields) {value : Value}
    (conforms : value.conforms (Kind.ofType decls type) = true) :
    (∃ inner, value = .record inner) ∨ (type.isPointer = true ∧ value = .null) := by
  unfold TypeExpr.fields? at hfields
  split at hfields
  · cases value with
    | record inner => exact Or.inl ⟨inner, rfl⟩
    | _ => cases conforms
  · cases value with
    | record inner => exact Or.inl ⟨inner, rfl⟩
    | null => exact Or.inr ⟨rfl, rfl⟩
    | _ => cases conforms
  · cases hfields

theorem ofType_pointer (decls : List TypeDecl) (h : type.isPointer = true) :
    ∃ target, Kind.ofType decls type = .pointer target := by
  cases type with
  | pointer target => exact ⟨_, rfl⟩
  | _ => cases h

theorem read_last (step : String × TypeExpr) :
    read decls (step :: chain) record [step.1] =
      Datum.ofValue (Kind.ofType decls step.2) (found decls record step) := by
  rw [read, if_neg (not_not_intro rfl)]
  exact if_pos rfl

theorem read_below {step : String × TypeExpr} {inner : Record} {names : List String}
    (hfound : found decls record step = .record inner) (ne : names ≠ []) :
    read decls (step :: chain) record (step.1 :: names) = read decls chain inner names := by
  have below : names.isEmpty = false := List.isEmpty_eq_false_iff.2 ne
  rw [read, if_neg (not_not_intro rfl), below, hfound]
  rfl

/-- One step of the validator: it goes into the record that is found, or ends at a nil pointer. -/
theorem descend_step {fields : List Field} (hfields : type.fields? = some fields)
    (conforms : Conforms decls record ((name, type) :: chain)) {guards : List FieldPath}
    {walked : FieldPath} (guarded : guards.contains (walked.child name) = type.isPointer)
    (names : List String) :
    (∃ inner, found decls record (name, type) = .record inner ∧
      Validator.descend guards walked record (name :: names) =
        Validator.descend guards (walked.child name) inner names) ∨
    (type.isPointer = true ∧ found decls record (name, type) = .null ∧
      Validator.descend guards walked record (name :: names) = none) := by
  have shape := record_or_null hfields (found_conforms conforms).1
  have hfound : found decls record (name, type) =
    (record.get? name).getD (Value.zero (Kind.ofType decls type)) := rfl
  rw [Validator.descend, guarded]
  cases hget : record.get? name with
  | some value =>
    rw [hget] at hfound
    rw [hfound] at shape ⊢
    rcases shape with ⟨inner, hrecord⟩ | ⟨pointer, hnull⟩
    · have hvalue : value = .record inner := hrecord
      rw [hvalue]
      exact Or.inl ⟨inner, rfl, rfl⟩
    · have hvalue : value = .null := hnull
      rw [hvalue]
      exact Or.inr ⟨pointer, rfl, if_pos pointer⟩
  | none =>
    rw [hget] at hfound
    rw [hfound]
    unfold TypeExpr.fields? at hfields
    split at hfields
    · exact Or.inl ⟨[], rfl, rfl⟩
    · exact Or.inr ⟨rfl, rfl, rfl⟩
    · cases hfields

/-! ### All the way down -/

theorem pointers_longer {walked guard : FieldPath} (h : guard ∈ pointers walked chain) :
    walked.segments.length < guard.segments.length := by
  induction chain generalizing walked with
  | nil => cases h
  | cons step chain ih =>
    obtain ⟨name, type⟩ := step
    have child : (walked.child name).segments.length = walked.segments.length + 1 :=
      List.length_append
    rw [pointers] at h
    rcases List.mem_append.1 h with h | h
    · split at h
      · rw [List.mem_singleton.1 h]
        omega
      · cases h
    · have longer := ih h
      omega

/-- A field on the way down is guarded exactly where it is a pointer; lengths tell it from the other
guards. -/
theorem contains_child {walked : FieldPath} {before : List FieldPath}
    (short : ∀ guard ∈ before, guard.segments.length ≤ walked.segments.length) :
    (before ++ pointers walked ((name, type) :: chain)).contains (walked.child name) =
      type.isPointer := by
  have child : (walked.child name).segments.length = walked.segments.length + 1 :=
    List.length_append
  rw [Bool.eq_iff_iff, List.contains_iff_mem, pointers]
  constructor
  · intro h
    rcases List.mem_append.1 h with h | h
    · have bound := short _ h
      omega
    · rcases List.mem_append.1 h with h | h
      · split at h
        · assumption
        · cases h
      · have longer := pointers_longer h
        omega
  · intro pointer
    rw [if_pos pointer]
    exact List.mem_append_right _ List.mem_cons_self

theorem pointers_subset {walked guard : FieldPath} (h : guard ∈ pointers walked chain) :
    guard.segments ⊆ walked.segments ++ names chain := by
  induction chain generalizing walked with
  | nil => cases h
  | cons step chain ih =>
    obtain ⟨name, type⟩ := step
    have here : (walked.child name).segments ++ names chain =
        walked.segments ++ names ((name, type) :: chain) := List.append_assoc _ _ _
    rw [← here]
    rw [pointers] at h
    rcases List.mem_append.1 h with h | h
    · split at h
      · rw [List.mem_singleton.1 h]
        exact List.subset_append_left _ _
      · cases h
    · exact ih h

theorem declares_tail {fields : List Field} {step : String × TypeExpr} {rest : Chain}
    (h : Declares fields (step :: rest)) (ne : rest ≠ []) :
    ∃ inner, step.2.fields? = some inner ∧ Declares inner rest := by
  cases h with
  | last => exact absurd rfl ne
  | more _ _ hinner hrest => exact ⟨_, hinner, hrest⟩

variable {memory : List String → Option Datum}

def guardOf (guard : FieldPath) : Expr := Emission.isNotNil (Emission.fieldExpr guard)

theorem guardOf_decided {guard : FieldPath} {isNil : Bool}
    (hnames : ∀ name ∈ guard.segments, isName name.toList = true)
    (hread : memory guard.segments = some (.pointer isNil)) :
    IsDecided memory (guardOf guard) (!isNil) :=
  (HasValue.field hnames hread).compare .nil .notEqual rfl

theorem guardOf_isTest {guard : FieldPath}
    (hnames : ∀ name ∈ guard.segments, isName name.toList = true) :
    ∃ t, IsTest (guardOf guard).render t := by
  -- Whether a text is a test does not depend on what it is evaluated over.
  have decided : IsDecided (fun _ => some (.pointer false)) (guardOf guard) (!false) :=
    guardOf_decided hnames rfl
  obtain ⟨t, hread, -⟩ := decided
  exact ⟨t, hread⟩

/-- The tests of the guards agree with the record that is found above a field: where there is none
they are false, and else they are true and the field is read from it. -/
def Agrees (decls : List TypeDecl) (memory : List String → Option Datum) (tests : List Expr)
    (place : List String) (leaf : String × TypeExpr) : Option Record → Prop
  | none => AreJoined memory tests false
  | some parent => AreJoined memory tests true ∧
      memory place = Datum.ofValue (Kind.ofType decls leaf.2) (found decls parent leaf) ∧
      (found decls parent leaf).conforms (Kind.ofType decls leaf.2) = true

theorem Agrees.more {test : Expr} {tests : List Expr} {place : List String}
    {leaf : String × TypeExpr} {outcome : Option Record} (h : IsDecided memory test true)
    (agrees : Agrees decls memory tests place leaf outcome) :
    Agrees decls memory (test :: tests) place leaf outcome := by
  cases outcome with
  | none => exact AreJoined.more h agrees
  | some parent => exact ⟨.more h agrees.1, agrees.2⟩

/-- The walk stands at a place with the record that was found there, and a chain is left to go. -/
structure Walk (decls : List TypeDecl) (memory : List String → Option Datum)
    (guards : List FieldPath) (leaf : String × TypeExpr) (chain : Chain) (walked : FieldPath)
    (record : Record) : Prop where
  declared : ∃ fields, Declares fields (chain ++ [leaf])
  conforms : Conforms decls record (chain ++ [leaf])
  guarded : ∃ before, guards = before ++ pointers walked chain ∧
    ∀ guard ∈ before, guard.segments.length ≤ walked.segments.length
  holds : ∀ names, names ≠ [] →
    memory (walked.segments ++ names) = read decls (chain ++ [leaf]) record names
  spelled : ∀ name ∈ walked.segments ++ Chain.names chain, isName name.toList = true

namespace Walk

variable {guards : List FieldPath} {leaf : String × TypeExpr} {walked : FieldPath}

theorem value (walk : Walk decls memory guards leaf ((name, type) :: chain) walked record) :
    memory (walked.child name).segments =
      Datum.ofValue (Kind.ofType decls type) (found decls record (name, type)) := by
  have here : (walked.child name).segments = walked.segments ++ [name] := rfl
  rw [here, walk.holds _ (List.cons_ne_nil _ _)]
  exact read_last (name, type)

theorem fields (walk : Walk decls memory guards leaf ((name, type) :: chain) walked record) :
    ∃ inner, type.fields? = some inner ∧ Declares inner (chain ++ [leaf]) := by
  obtain ⟨fields, declared⟩ := walk.declared
  exact declares_tail declared (List.append_ne_nil_of_right_ne_nil _ (List.cons_ne_nil _ _))

theorem contains (walk : Walk decls memory guards leaf ((name, type) :: chain) walked record) :
    guards.contains (walked.child name) = type.isPointer := by
  obtain ⟨before, hguards, short⟩ := walk.guarded
  rw [hguards]
  exact contains_child short

theorem step (walk : Walk decls memory guards leaf ((name, type) :: chain) walked record)
    {below : Record} (hfound : found decls record (name, type) = .record below) :
    Walk decls memory guards leaf chain (walked.child name) below := by
  have here : (walked.child name).segments = walked.segments ++ [name] := rfl
  constructor
  case declared =>
    obtain ⟨inner, -, declared⟩ := walk.fields
    exact ⟨inner, declared⟩
  case conforms =>
    have next := (found_conforms walk.conforms).2
    rw [hfound] at next
    exact next
  case guarded =>
    obtain ⟨before, hguards, short⟩ := walk.guarded
    refine ⟨before ++ (if type.isPointer then [walked.child name] else []), ?_, ?_⟩
    · rw [hguards, pointers, List.append_assoc]
    · intro guard hguard
      rcases List.mem_append.1 hguard with hguard | hguard
      · have bound := short guard hguard
        rw [here, List.length_append]
        omega
      · split at hguard
        · have same := List.mem_singleton.1 hguard
          exact Nat.le_of_eq (congrArg (·.segments.length) same)
        · cases hguard
  case holds =>
    intro names ne
    rw [here, List.append_assoc, walk.holds _ (List.append_ne_nil_of_right_ne_nil _ ne)]
    exact read_below hfound ne
  case spelled =>
    rw [here, List.append_assoc]
    exact walk.spelled

theorem readable (walk : Walk decls memory guards leaf chain walked record) :
    ∀ test ∈ (pointers walked chain).map guardOf, ∃ t, IsTest test.render t := by
  intro test htest
  obtain ⟨guard, hguard, rfl⟩ := List.mem_map.1 htest
  exact guardOf_isTest fun name hname => walk.spelled name (pointers_subset hguard hname)

/-- The validator stops at a nil pointer where a guard is false, and finds the record above the
field where all are true. -/
theorem descend_agrees {chain : Chain} {record : Record}
    (walk : Walk decls memory guards leaf chain walked record) :
    Agrees decls memory ((pointers walked chain).map guardOf)
      (walked.segments ++ Chain.names chain ++ [leaf.1]) leaf
      (Validator.descend guards walked record (Chain.names chain)) := by
  induction chain generalizing record walked with
  | nil =>
    refine ⟨.nil, ?_, (found_conforms walk.conforms).1⟩
    rw [Chain.names, List.map_nil, List.append_nil, walk.holds _ (List.cons_ne_nil _ _)]
    exact read_last leaf
  | cons first chain ih =>
    obtain ⟨name, type⟩ := first
    obtain ⟨inner, hinner, -⟩ := walk.fields
    have place : walked.segments ++ Chain.names ((name, type) :: chain) =
        (walked.child name).segments ++ Chain.names chain := (List.append_assoc _ [name] _).symm
    have spelled : ∀ other ∈ (walked.child name).segments, isName other.toList = true := by
      intro other ho
      exact walk.spelled other (place ▸ List.mem_append_left _ ho)
    rw [place, pointers]
    rcases descend_step hinner walk.conforms walk.contains (Chain.names chain) with
      ⟨below, hfound, hdescend⟩ | ⟨pointer, hnull, hdescend⟩
    · have agrees := ih (walk.step hfound)
      rw [← hdescend] at agrees
      split
      · next pointer =>
        obtain ⟨target, htarget⟩ := ofType_pointer decls pointer
        have there := guardOf_decided spelled (walk.value.trans (by rw [hfound, htarget]; rfl))
        exact agrees.more there
      · exact agrees
    · obtain ⟨target, htarget⟩ := ofType_pointer decls pointer
      have missing := guardOf_decided spelled (walk.value.trans (by rw [hnull, htarget]; rfl))
      have readable := walk.readable
      rw [pointers, if_pos pointer] at readable
      have outcome : Validator.descend guards walked record (Chain.names ((name, type) :: chain)) =
          none := hdescend
      rw [if_pos pointer, outcome]
      exact AreJoined.stop missing fun other ho => readable other (List.mem_cons_of_mem _ ho)

end Walk

end Chain

/-- The tests that stand one inside the other before something is done; none behind a binding. -/
def Stmt.tests : Stmt → List Expr
  | .when none test [inner] => test :: inner.tests
  | .when none test _ => [test]
  | _ => []

end Go

/-! ### Checks of plans -/

namespace Plan

/-- Every plan is that of a record of its name: its checks come from sites of the record. -/
theorem ofFile_sites {file : SourceFile} {plan : Plan} (hplan : plan ∈ (ofFile file).1) :
    ∃ decl ∈ file.decls, decl.isRecord = true ∧ decl.name = plan.record ∧
      ∀ check ∈ plan.checks, ∃ site ∈ Site.inRecord decl,
        check.path = site.path ∧ check.guards = site.guards ∧
        check.kind = Kind.ofType file.decls site.type ∧ check.rule.accepts check.kind = true ∧
        ∃ raw, typeArgument check.rule raw check.kind = .ok check.argument := by
  obtain ⟨decl, hdecl, isRecord, hname, markers⟩ := ofFile_markers hplan
  refine ⟨decl, hdecl, isRecord, hname, fun check hcheck => ?_⟩
  obtain ⟨occurrence, hoccurrence, marker, made, -, hcheckOf, same⟩ := markers check hcheck
  rw [Site.inRecord_occurrences] at hoccurrence
  obtain ⟨site, hsite, hoccurrence⟩ := List.mem_flatMap.1 hoccurrence
  obtain ⟨reading, -, rfl⟩ := List.mem_map.1 hoccurrence
  obtain ⟨hpath, hguards, hkind, -⟩ := checkOf_ok hcheckOf
  obtain ⟨accepted, typed⟩ := checkOf_typed hcheckOf
  refine ⟨site, hsite, ?_⟩
  rw [same]
  exact ⟨hpath, hguards, hkind, accepted, marker.argument, typed⟩

/-- Every check of a plan comes from a site of a record of the plan's name. -/
theorem mem_ofFile_checks {file : SourceFile} {plan : Plan} (hplan : plan ∈ (ofFile file).1)
    {check : Check} (hcheck : check ∈ plan.checks) :
    ∃ decl ∈ file.decls, decl.name = plan.record ∧ ∃ site ∈ Site.inRecord decl,
      check.path = site.path ∧ check.guards = site.guards ∧
      check.kind = Kind.ofType file.decls site.type ∧ check.rule.accepts check.kind = true ∧
      ∃ raw, typeArgument check.rule raw check.kind = .ok check.argument := by
  obtain ⟨decl, hdecl, -, hname, sites⟩ := ofFile_sites hplan
  exact ⟨decl, hdecl, hname, sites check hcheck⟩

end Plan

namespace Emission

variable {check : Check}

theorem unlisted_binding : (unlisted check).binding = none := by
  unfold unlisted
  split <;> rfl

theorem condition_binding (formless : check.rule.isFormat = false) (record : String) :
    (condition record check).binding = none := by
  unfold condition
  cases hrule : check.rule with
  | enum => exact unlisted_binding
  | email | uuid | ipv4 | ipv6 =>
    rw [hrule] at formless
    cases formless
  | _ => rfl

/-- The tests behind the guards count where all guards are there. -/
theorem passes_guards {memory : List String → Option Datum} {guards : List FieldPath} {truth : Bool}
    (h : AreJoined memory (guards.map Chain.guardOf) truth) (tests : List Expr) :
    passes memory (((if guards.isEmpty then [] else [guardTest guards]) ++ tests).map Expr.render) =
      if truth then passes memory (tests.map Expr.render) else some false := by
  cases guards with
  | nil =>
    cases h
    rfl
  | cons guard guards =>
    have first : meaning memory (guardTest (guard :: guards)).render = some (.bool truth) :=
      h.meaning (List.cons_ne_nil _ _)
    rw [List.isEmpty_cons, if_neg Bool.false_ne_true, List.map_append, List.map_singleton,
      List.singleton_append, passes, first]
    cases truth <;> rfl

/-- What is tested for a check: its guards, where it has any, and its condition. -/
theorem guarded_tests (own : check.delegate = none) (formless : check.rule.isFormat = false)
    (record : String) (name : Option String) :
    (guarded record check name).tests =
      (if check.guards.isEmpty then [] else [guardTest check.guards]) ++
        [(condition record check).test] := by
  unfold guarded unguarded
  rw [own]
  simp only [condition_binding formless]
  split <;> rfl

end Emission

/-! ### Runs of a check -/

/-- The chain leads from a struct with some fields to the field that a check is about. -/
structure Go.Chain.LeadsTo (decls : List TypeDecl) (fields : List Field) (chain : Chain)
    (leaf : String × TypeExpr) (check : Check) : Prop where
  declared : Declares fields (chain ++ [leaf])
  path : check.path.segments = Chain.names chain ++ [leaf.1]
  guards : check.guards = Chain.pointers FieldPath.root chain
  kind : check.kind = Kind.ofType decls leaf.2

/-- Every plan is that of a record of its name: from the struct of that record a chain leads to the
field of every check. -/
theorem Plan.ofFile_declared {file : SourceFile} {plan : Plan} (hplan : plan ∈ (ofFile file).1) :
    ∃ decl ∈ file.decls, decl.name = plan.record ∧
      ∃ fields, decl.recordFields? = some fields ∧
        ∀ check ∈ plan.checks, ∃ chain leaf, Chain.LeadsTo file.decls fields chain leaf check := by
  obtain ⟨decl, hdecl, isRecord, hname, sites⟩ := ofFile_sites hplan
  obtain ⟨fields, hfields⟩ := Option.isSome_iff_exists.1 isRecord
  refine ⟨decl, hdecl, hname, fields, hfields, fun check hcheck => ?_⟩
  obtain ⟨site, hsite, hpath, hguards, hkind, -⟩ := sites check hcheck
  obtain ⟨_, hfields', chain, leaf, declared, hplace, above⟩ := Site.inRecord_reached hsite
  cases hfields.symm.trans hfields'
  exact ⟨chain, (leaf, site.type), declared, hpath ▸ hplace, hguards.trans above, hkind⟩

/-- A chain leads to the field of every check, from the struct of a record of the plan's name. -/
theorem Plan.ofFile_leadsTo {file : SourceFile} {plan : Plan} (hplan : plan ∈ (ofFile file).1)
    {check : Check} (hcheck : check ∈ plan.checks) :
    ∃ decl ∈ file.decls, decl.name = plan.record ∧
      ∃ fields, decl.recordFields? = some fields ∧
        ∃ chain leaf, Chain.LeadsTo file.decls fields chain leaf check := by
  obtain ⟨decl, hdecl, hname, fields, hfields, leads⟩ := ofFile_declared hplan
  exact ⟨decl, hdecl, hname, fields, hfields, leads check hcheck⟩

namespace Validator

open Chain

variable {decls : List TypeDecl} {chain : Chain} {leaf : String × TypeExpr} {record : Record}
  {check : Check}

/-- The tests of the emitted statement come out true exactly where the validator reports
something. -/
theorem runCheck_agrees {fields : List Field} (leads : LeadsTo decls fields chain leaf check)
    (conforms : Conforms decls record (chain ++ [leaf]))
    (spelled : ∀ name ∈ check.path.segments, isName name.toList = true)
    (own : check.delegate = none) (plain : check.kind.isPlain = true)
    (formless : check.rule.isFormat = false)
    (suits : check.rule.Suits check.kind check.argument)
    (lookup : String → Option Validator)
    (handOver : Validator → Record → FieldPath → Option (List Violation)) (above : FieldPath)
    (owner : String) (name : Option String) :
    ∃ reported, runCheck lookup handOver record above check = some reported ∧
      passes (read decls (chain ++ [leaf]) record)
        ((Emission.guarded owner check name).tests.map Expr.render) =
          some (!reported.isEmpty) := by
  have walk : Walk decls (read decls (chain ++ [leaf]) record) check.guards leaf chain
      FieldPath.root record := by
    constructor
    case declared => exact ⟨fields, leads.declared⟩
    case conforms => exact conforms
    case guarded => exact ⟨[], leads.guards, fun guard h => nomatch h⟩
    case holds => exact fun names _ => rfl
    case spelled =>
      intro other ho
      refine spelled other ?_
      rw [leads.path]
      exact List.mem_append_left _ ho
  have agrees := walk.descend_agrees
  have last : check.path.segments.getLast? = some leaf.1 := by
    rw [leads.path, List.getLast?_concat]
  have front : check.path.segments.dropLast = Chain.names chain := by
    rw [leads.path, List.dropLast_concat]
  have resolved : resolve record check =
      (descend check.guards FieldPath.root record (Chain.names chain)).map fun parent =>
        found decls parent leaf := by
    unfold resolve
    rw [last, front, leads.kind]
    rfl
  rw [← leads.guards] at agrees
  rw [Emission.guarded_tests own formless]
  unfold runCheck
  rw [resolved, own]
  cases hdescend : descend check.guards FieldPath.root record (Chain.names chain) with
  | none =>
    rw [hdescend] at agrees
    exact ⟨[], rfl, Emission.passes_guards agrees _⟩
  | some parent =>
    rw [hdescend] at agrees
    obtain ⟨joined, hread, fits⟩ := agrees
    have place :
        FieldPath.root.segments ++ Chain.names chain ++ [leaf.1] = check.path.segments := by
      rw [leads.path]
      rfl
    rw [place, ← leads.kind] at hread
    rw [← leads.kind] at fits
    have decided := Emission.condition_meaning owner suits plain fits spelled hread
    refine ⟨_, rfl, ?_⟩
    rw [Emission.passes_guards joined, if_pos rfl, List.map_singleton, passes, decided, judge, fits]
    cases broken check (found decls parent leaf) <;> rfl

end Validator

namespace CompiledUnit

open Chain

/-- Of every plan that is compiled, the emitted statement for a check on whole numbers, text, truth
values or pointers, rules for forms of text apart, acts exactly where the validator reports the
check: on every instance whose values on the way to the field are of the declared kinds, what the
statement tests has a truth value, and is true if and only if something is reported. -/
theorem compile_agrees {options : Emission.Options} {sourceName source : String}
    {unit : CompiledUnit} (compiled : compile options sourceName source = .ok unit) {plan : Plan}
    (hplan : plan ∈ unit.plans) {check : Check} (hcheck : check ∈ plan.checks)
    (own : check.delegate = none) (plain : check.kind.isPlain = true)
    (formless : check.rule.isFormat = false) :
    ∃ file, SourceFile.parse source.toList = .ok file ∧
      ∃ decl ∈ file.decls, decl.name = plan.record ∧
        ∃ fields, decl.recordFields? = some fields ∧
          ∃ chain leaf, LeadsTo file.decls fields chain leaf check ∧
            ∀ record, Conforms file.decls record (chain ++ [leaf]) →
              ∀ lookup handOver above name, ∃ reported,
                Validator.runCheck lookup handOver record above check = some reported ∧
                passes (read file.decls (chain ++ [leaf]) record)
                  ((Emission.guarded plan.record check name).tests.map Expr.render) =
                    some (!reported.isEmpty) := by
  unfold compile at compiled
  cases parsed : SourceFile.parse source.toList with
  | error e => rw [parsed] at compiled; cases compiled
  | ok file =>
    rw [parsed] at compiled
    cases compiled
    obtain ⟨decl, hdecl, hname, site, hsite, hpath, hguards, hkind, accepted, raw, typed⟩ :=
      Plan.mem_ofFile_checks hplan hcheck
    obtain ⟨fields, hfields, chain, leaf, declared, hplace, above⟩ := Site.inRecord_reached hsite
    have leads : LeadsTo file.decls fields chain (leaf, site.type) check :=
      ⟨declared, hpath ▸ hplace, hguards.trans above, hkind⟩
    have spelled : ∀ name ∈ check.path.segments, isName name.toList = true := by
      intro name hmem
      have declares : name ∈ Chain.names (chain ++ [(leaf, site.type)]) := by
        rw [leads.path] at hmem
        rw [Chain.names, List.map_append]
        exact hmem
      refine parse_names parsed decl hdecl name ?_
      rw [Site.recordFields?_type hfields, TypeExpr.names]
      exact declared.names_subset declares
    have suits := Rule.typeArgument_suits typed accepted plain formless
    refine ⟨file, rfl, decl, hdecl, hname, fields, hfields, chain, _, leads, ?_⟩
    intro record conforms lookup handOver from' name
    exact Validator.runCheck_agrees leads conforms spelled own plain formless suits lookup handOver
      from' plan.record name

/-- A source with a field behind a pointer. -/
def behindPointer : String :=
  "package p
  type A struct \x7b
    N *struct \x7b
      // +govalid:gte=-2
      Z int
    \x7d
  \x7d
  "

set_option maxRecDepth 4000 in
theorem compile_agrees_behindPointer :
    ∃ unit, compile .default "a.go" behindPointer = .ok unit ∧
      ∃ plan ∈ unit.plans, ∃ check ∈ plan.checks, check.delegate = none ∧
        check.kind.isPlain = true ∧ check.rule.isFormat = false ∧
        (Emission.guarded plan.record check none).tests.map Expr.render =
          ["t.N != nil", "t.N.Z < -2"] ∧
        ∃ file, SourceFile.parse behindPointer.toList = .ok file ∧
          ∃ decl ∈ file.decls, decl.name = plan.record ∧
            ∃ fields, decl.recordFields? = some fields ∧
              ∃ chain leaf, LeadsTo file.decls fields chain leaf check ∧
                ∀ record, Conforms file.decls record (chain ++ [leaf]) →
                  ∀ lookup handOver above name, ∃ reported,
                    Validator.runCheck lookup handOver record above check = some reported ∧
                    passes (read file.decls (chain ++ [leaf]) record)
                      ((Emission.guarded plan.record check name).tests.map Expr.render) =
                        some (!reported.isEmpty) := by
  obtain ⟨file, parsed, facts⟩ := exists_parse (rfl : behindPointer = _)
    (p := fun file => (Plan.ofFile file).1.any fun plan => plan.checks.any fun check =>
      check.delegate.isNone && check.kind.isPlain && !check.rule.isFormat &&
        (Emission.guarded plan.record check none).tests.map Expr.render ==
          ["t.N != nil", "t.N.Z < -2"])
    (by decide +kernel)
  have compiled : compile .default "a.go" behindPointer = .ok (ofFile .default "a.go" file) := by
    unfold compile
    rw [parsed]
    rfl
  obtain ⟨plan, hplan, facts⟩ := List.any_eq_true.1 facts
  obtain ⟨check, hcheck, facts⟩ := List.any_eq_true.1 facts
  simp only [Bool.and_eq_true, Bool.not_eq_true', Option.isNone_iff_eq_none, beq_iff_eq] at facts
  obtain ⟨⟨⟨own, plain⟩, formless⟩, written⟩ := facts
  exact ⟨_, compiled, plan, hplan, check, hcheck, own, plain, formless, written,
    compile_agrees compiled hplan hcheck own plain formless⟩

end CompiledUnit

end FieldRules
