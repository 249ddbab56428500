/-
Records that are zero, by their values and by their kinds.

A validator asks a record whether all its values look like zero and knows no kinds;
the comparison with the zero value in emitted code goes by the kinds of the fields.
A value of a declared type is a record of its declared fields, down to what is no
struct (`Composed`), and both questions are put to what is found there
(`Composed.isZero_iff`).  They have the same answer but for values that look like zero
and are not, as a pointer to zero, and values that round to zero (`IsClear`).
-/
import FieldRules.Proofs.Agreement
import FieldRules.Proofs.Descent
import FieldRules.Proofs.Resolution

namespace FieldRules

open Go

/-! ### Fields of records -/

namespace Record

variable {record : Record}

/-- Whether no name is there twice. -/
def IsKeyed (record : Record) : Prop := (record.map (·.1)).Nodup

theorem mem_of_get? {name : String} {value : Value} (h : record.get? name = some value) :
    (name, value) ∈ record := by
  unfold Record.get? at h
  induction record with
  | nil => cases h
  | cons member record ih =>
    rw [Json.getMember?] at h
    split at h
    · next same =>
      cases h
      rw [← same]
      exact List.mem_cons_self
    · exact List.mem_cons_of_mem _ (ih h)

theorem IsKeyed.get? (keyed : record.IsKeyed) {name : String} {value : Value}
    (h : (name, value) ∈ record) : record.get? name = some value := by
  unfold Record.get?
  induction record with
  | nil => cases h
  | cons member record ih =>
    obtain ⟨fresh, rest⟩ := List.nodup_cons.1 keyed
    rw [Json.getMember?]
    rcases List.mem_cons.1 h with rfl | h
    · exact if_pos rfl
    · have ne : member.1 ≠ name := by
        rintro rfl
        exact fresh (List.mem_map_of_mem (f := (·.1)) h)
      rw [if_neg ne]
      exact ih rest h

end Record

theorem Value.allZero_iff {record : Record} :
    Value.allZero record = true ↔ ∀ member ∈ record, member.2.isZero = true := by
  induction record with
  | nil => simp [Value.allZero]
  | cons member record ih =>
    rw [Value.allZero, Bool.and_eq_true, ih, List.forall_mem_cons]

/-- In a keyed record all values are zero if what is found under every name is. -/
theorem Record.IsKeyed.isZero_iff {record : Record} (keyed : record.IsKeyed) :
    (Value.record record).isZero = true ↔
      ∀ name value, record.get? name = some value → value.isZero = true := by
  rw [Value.isZero, Value.allZero_iff]
  constructor
  · intro all name value found
    exact all _ (Record.mem_of_get? found)
  · intro all member hmem
    exact all member.1 member.2 (keyed.get? hmem)

/-! ### Values of declared types -/

/-- A value of a type: a record that gives every declared field a value of its type, down to values
of the kinds of types that are no structs, for which something holds.  Of values of fields that are
not declared something else holds. -/
inductive Composed (decls : List TypeDecl) (holds : Kind → Value → Prop) (extra : Value → Prop) :
    TypeExpr → Value → Prop where
  | struct {type : TypeExpr} {owner : Option String} {fields : List Field} {record : Record} :
      StandsFor decls type owner fields → record.IsKeyed →
      (∀ field ∈ fields, ∀ name ∈ field.names, (record.get? name).isSome = true) →
      (∀ field name value, field ∈ fields → name ∈ field.names → record.get? name = some value →
        Composed decls holds extra field.type value) →
      (∀ name value, record.get? name = some value →
        (∃ field ∈ fields, name ∈ field.names) ∨ extra value) →
      Composed decls holds extra type (.record record)
  | plain {type : TypeExpr} {value : Value} :
      (∀ owner fields, ¬ StandsFor decls type owner fields) →
      value.conforms (Kind.ofType decls type) = true → holds (Kind.ofType decls type) value →
      Composed decls holds extra type value

/-- A type stands for one struct only. -/
theorem Go.StandsFor.unique {decls : List TypeDecl} {type : TypeExpr} {owner other : Option String}
    {fields more : List Field} (h : StandsFor decls type owner fields)
    (h' : StandsFor decls type other more) : fields = more := by
  induction h generalizing other more with
  | anonymous =>
    cases h'
    rfl
  | declared hdecl _ htype =>
    cases h' with
    | declared hdecl' _ htype' =>
      cases Option.some.inj (hdecl.symm.trans hdecl')
      cases htype.symm.trans htype'
      rfl
    | aliased hdecl' _ _ htype' | anew hdecl' _ _ htype' =>
      cases Option.some.inj (hdecl.symm.trans hdecl')
      cases htype.symm.trans htype'
  | aliased hdecl _ _ htype _ ih | anew hdecl _ _ htype _ ih =>
    cases h' with
    | declared hdecl' _ htype' =>
      cases Option.some.inj (hdecl.symm.trans hdecl')
      cases htype.symm.trans htype'
    | aliased hdecl' _ _ htype' stands | anew hdecl' _ _ htype' stands =>
      cases Option.some.inj (hdecl.symm.trans hdecl')
      cases htype.symm.trans htype'
      exact ih stands

variable {decls : List TypeDecl} {type : TypeExpr} {value : Value}

/-- A value looks like zero exactly where all that it is made of is zero in some sense, if in that
sense zero is what looks like it among the values it is made of. -/
theorem Composed.isZero_iff {clear zero : Kind → Value → Prop} {extra other : Value → Prop}
    (agree : ∀ type value, (∀ owner fields, ¬ StandsFor decls type owner fields) →
      value.conforms (Kind.ofType decls type) = true → clear (Kind.ofType decls type) value →
        (value.isZero = true ↔ zero (Kind.ofType decls type) value))
    (undeclared : ∀ value, extra value → (value.isZero = true ↔ other value))
    (h : Composed decls clear extra type value) :
    value.isZero = true ↔ Composed decls zero other type value := by
  induction h with
  | @plain type value plain conforms isClear =>
    rw [agree type value plain conforms isClear]
    constructor
    · exact fun isZero => .plain plain conforms isZero
    · intro composed
      cases composed with
      | struct stands => exact absurd stands (plain _ _)
      | plain _ _ isZero => exact isZero
  | @struct type owner fields record stands keyed given _ declared ih =>
    rw [keyed.isZero_iff]
    constructor
    · intro all
      refine .struct stands keyed given ?_ ?_
      · intro field name value hfield hname found
        exact (ih field name value hfield hname found).1 (all name value found)
      · intro name value found
        exact (declared name value found).imp_right fun isExtra =>
          (undeclared value isExtra).1 (all name value found)
    · intro composed name value found
      cases composed with
      | plain plain => exact absurd stands (plain _ _)
      | struct stands' _ _ each declared' =>
        rw [← stands.unique stands'] at each declared'
        have ofDeclared : (∃ field ∈ fields, name ∈ field.names) → value.isZero = true := by
          rintro ⟨field, hfield, hname⟩
          have isZero := each field name value hfield hname found
          exact (ih field name value hfield hname found).2 isZero
        rcases declared name value found with isDeclared | isExtra
        · exact ofDeclared isDeclared
        · rcases declared' name value found with isDeclared | isOther
          · exact ofDeclared isDeclared
          · exact (undeclared value isExtra).2 isOther

/-- A record of one field is made of the value of that field. -/
theorem composed_single {holds : Kind → Value → Prop} {extra : Value → Prop} {field : Field}
    {name : String} (names : field.names = [name])
    (plain : ∀ owner fields, ¬ StandsFor decls field.type owner fields)
    (conforms : value.conforms (Kind.ofType decls field.type) = true) :
    Composed decls holds extra (.struct [field]) (.record [(name, value)]) ↔
      holds (Kind.ofType decls field.type) value := by
  have here : Record.get? [(name, value)] name = some value := if_pos rfl
  constructor
  · intro composed
    cases composed with
    | struct stands _ _ each _ =>
      rw [stands.unique (.anonymous [field])] at each
      have inner := each field name value List.mem_cons_self (names ▸ List.mem_cons_self) here
      cases inner with
      | struct stands => exact absurd stands (plain _ _)
      | plain _ _ h => exact h
    | plain none => exact absurd (.anonymous [field]) (none _ _)
  · intro h
    refine .struct (.anonymous [field]) (List.nodup_singleton name) ?_ ?_ ?_
    · intro other hother given hgiven
      rw [List.mem_singleton.1 hother, names] at hgiven
      rw [List.mem_singleton.1 hgiven, here]
      rfl
    · intro other given found hother hgiven hfound
      rw [List.mem_singleton.1 hother] at hgiven ⊢
      rw [names] at hgiven
      rw [List.mem_singleton.1 hgiven, here] at hfound
      cases hfound
      exact .plain plain conforms h
    · intro given found hfound
      have only := List.mem_singleton.1 (Record.mem_of_get? hfound)
      have same : given = name := congrArg Prod.fst only
      exact .inl ⟨field, List.mem_cons_self, by rw [same, names]; exact List.mem_cons_self⟩

/-! ### Zero values of kinds -/

/-- The value is the zero value of a kind: of a pointer only nil, and of single precision what
rounds to zero.  Nothing is known of collections and foreign types. -/
def IsZeroOf : Kind → Value → Prop
  | .integer _ _, value => value = .int 0
  | .float bits, value => (if bits = 32 then value.toSingle else value).isZero = true
  | .text, value => value = .text ""
  | .bool, value => value = .bool false
  | .pointer _, value => value = .null
  | _, value => value.isZero = true

/-- The value does not look like zero without being it: a pointer that is not nil is to something
that is not zero, and rounding to single precision makes nothing zero. -/
def IsClear : Kind → Value → Prop
  | .pointer _, value => value = .null ∨ value.isZero = false
  | .float bits, value => bits = 32 → value.toSingle.isZero = value.isZero
  | _, _ => True

theorem isZero_iff_isZeroOf {kind : Kind} {value : Value} (conforms : value.conforms kind = true)
    (clear : IsClear kind value) : value.isZero = true ↔ IsZeroOf kind value := by
  cases kind with
  | integer min max =>
    cases value with
    | int value => simp [Value.isZero, IsZeroOf]
    | _ => cases conforms
  | text =>
    cases value with
    | text value => simp [Value.isZero, IsZeroOf]
    | _ => cases conforms
  | bool =>
    cases value with
    | bool value => simp [Value.isZero, IsZeroOf]
    | _ => cases conforms
  | float bits =>
    show _ ↔ (if bits = 32 then value.toSingle else value).isZero = true
    split
    · next single => rw [clear single]
    · rfl
  | pointer target =>
    rcases clear with rfl | positive
    · exact ⟨fun _ => rfl, fun _ => rfl⟩
    · rw [positive]
      constructor
      · exact fun h => nomatch h
      · intro null
        rw [null] at positive
        cases positive
  | record | collection | foreign => rfl

/-- The value gives every declared field of the type a value of its kind, whatever else it has. -/
def IsInstance (decls : List TypeDecl) (type : TypeExpr) (value : Value) : Prop :=
  Composed decls (fun _ _ => True) (fun _ => True) type value

/-- Every field looks like zero, declared or not. -/
def LooksZero (decls : List TypeDecl) (type : TypeExpr) (value : Value) : Prop :=
  Composed decls (fun _ value => value.isZero = true) (fun value => value.isZero = true) type value

/-- Every declared field holds the zero value of its kind. -/
def IsZeroInstance (decls : List TypeDecl) (type : TypeExpr) (value : Value) : Prop :=
  Composed decls IsZeroOf (fun _ => True) type value

/-- No declared field looks like zero without being it, and no other field looks like anything
else. -/
def IsClearInstance (decls : List TypeDecl) (type : TypeExpr) (value : Value) : Prop :=
  Composed decls IsClear (fun value => value.isZero = true) type value

theorem IsInstance.isZero_iff (h : IsInstance decls type value) :
    value.isZero = true ↔ LooksZero decls type value :=
  Composed.isZero_iff (fun _ _ _ _ _ => Iff.rfl) (fun _ _ => Iff.rfl) h

theorem IsClearInstance.isZero_iff (h : IsClearInstance decls type value) :
    value.isZero = true ↔ IsZeroInstance decls type value :=
  Composed.isZero_iff (fun _ _ _ conforms clear => isZero_iff_isZeroOf conforms clear)
    (fun _ isZero => iff_of_true isZero trivial) h

/-! ### Compiled checks -/

namespace Validator

/-- A required record is reported where it looks like zero. -/
theorem runCheck_required {check : Check} (own : check.delegate = none)
    (required : check.rule = .required) {owner : Option String} {comparable : Bool}
    (isRecord : check.kind = .record owner comparable) {record inner : Record}
    (resolved : resolve record check = some (.record inner)) (lookup : String → Option Validator)
    (handOver : Validator → Record → FieldPath → Option (List Violation)) (above : FieldPath) :
    ∃ reported, runCheck lookup handOver record above check = some reported ∧
      (reported ≠ [] ↔ (Value.record inner).isZero = true) := by
  have conforms : (Value.record inner).conforms check.kind = true := by
    rw [isRecord]
    rfl
  have judged : broken check (.record inner) = (Value.record inner).isZero := by
    unfold broken
    rw [required, isRecord]
    rfl
  refine ⟨judge check (above.append check.path) (.record inner), ?_, ?_⟩
  · unfold runCheck
    rw [resolved, own]
    rfl
  · rw [judge, conforms, judged]
    cases (Value.record inner).isZero <;> simp

end Validator

namespace Go.TypeExpr

/-- The field of a struct that has one only. -/
def soleField? : TypeExpr → Option Field
  | struct [field] => some field
  | _ => none

theorem soleField?_some {type : TypeExpr} {field : Field} (h : type.soleField? = some field) :
    type = .struct [field] := by
  unfold soleField? at h
  split at h
  · cases h
    rfl
  · cases h

theorem isPointer_target {type : TypeExpr} (h : type.isPointer = true) :
    ∃ target, type = .pointer target := by
  cases type with
  | pointer target => exact ⟨target, rfl⟩
  | _ => cases h

end Go.TypeExpr

namespace CompiledUnit

open Chain

/-- A required field whose type is a struct, where no other validator is run, is reported on a value
of that type if and only if all that the value is made of looks like zero; and if nothing in it
looks like zero without being it, if and only if every field holds the zero value of its kind. -/
theorem compile_zeros {options : Emission.Options} {sourceName source : String}
    {unit : CompiledUnit} (compiled : compile options sourceName source = .ok unit) {plan : Plan}
    (hplan : plan ∈ unit.plans) {check : Check} (hcheck : check ∈ plan.checks)
    (own : check.delegate = none) (required : check.rule = .required) {owner : Option String}
    {comparable : Bool} (isRecord : check.kind = .record owner comparable) :
    ∃ file, SourceFile.parse source.toList = .ok file ∧
      ∃ decl ∈ file.decls, decl.name = plan.record ∧
        ∃ fields, decl.recordFields? = some fields ∧
          ∃ chain leaf, LeadsTo file.decls fields chain leaf check ∧
            ∀ record value, Validator.resolve record check = some value →
              IsInstance file.decls leaf.2 value →
                ∀ lookup handOver above, ∃ reported,
                  Validator.runCheck lookup handOver record above check = some reported ∧
                  (reported ≠ [] ↔ LooksZero file.decls leaf.2 value) ∧
                  (IsClearInstance file.decls leaf.2 value →
                    (reported ≠ [] ↔ IsZeroInstance file.decls leaf.2 value)) := by
  obtain ⟨file, parsed, rfl⟩ := compile_eq_ok.1 compiled
  obtain ⟨decl, hdecl, hname, fields, hfields, chain, leaf, leads⟩ :=
    Plan.ofFile_leadsTo hplan hcheck
  refine ⟨file, parsed, decl, hdecl, hname, fields, hfields, chain, leaf, leads, ?_⟩
  intro record value resolved isInstance lookup handOver from'
  obtain ⟨inner, rfl⟩ : ∃ inner, value = .record inner := by
    obtain ⟨_, stands⟩ := Kind.ofType_record (leads.kind.symm.trans isRecord)
    cases isInstance with
    | struct => exact ⟨_, rfl⟩
    | plain plain => exact absurd stands (plain _ _)
  obtain ⟨reported, hreported, zero⟩ :=
    Validator.runCheck_required own required isRecord resolved lookup handOver from'
  exact ⟨reported, hreported, zero.trans isInstance.isZero_iff,
    fun clear => zero.trans clear.isZero_iff⟩

/-- A source with a pointer in a required struct. -/
def pointerInside : String :=
  "package p
  type T struct \x7b
    // +govalid:required
    F struct \x7b
      P *int
    \x7d
  \x7d
  "

set_option maxRecDepth 4000 in
theorem parse_pointerInside :
    ∃ file, SourceFile.parse pointerInside.toList = .ok file ∧
      (∀ decl ∈ file.decls, ∃ field inner target, decl.recordFields? = some [field] ∧
        field.names = ["F"] ∧ field.type = .struct [inner] ∧ inner.names = ["P"] ∧
        inner.type = .pointer target ∧
        (Value.int 0).conforms (Kind.ofType file.decls inner.type) = true) ∧
      ∃ plan ∈ (Plan.ofFile file).1, ∃ check ∈ plan.checks, check.path = ⟨["F"]⟩ ∧
        check.guards = [] ∧ check.rule = .required ∧ check.delegate = none ∧
        check.kind = .record none true := by
  obtain ⟨file, parsed, facts⟩ := exists_parse (rfl : pointerInside = _)
    (p := fun file =>
      (file.decls.all fun decl => decl.isRecord && decl.type.soleField?.any fun field =>
        field.names == ["F"] && field.type.soleField?.any fun inner =>
          inner.names == ["P"] && inner.type.isPointer &&
            (Value.int 0).conforms (Kind.ofType file.decls inner.type)) &&
      (Plan.ofFile file).1.any fun plan => plan.checks.any fun check =>
        check.path == ⟨["F"]⟩ && check.guards.isEmpty && check.rule == .required &&
          check.delegate.isNone && check.kind == .record none true)
    (by decide +kernel)
  rw [Bool.and_eq_true, List.all_eq_true] at facts
  obtain ⟨shape, planned⟩ := facts
  obtain ⟨plan, hplan, planned⟩ := List.any_eq_true.1 planned
  obtain ⟨check, hcheck, planned⟩ := List.any_eq_true.1 planned
  simp only [Bool.and_eq_true, beq_iff_eq, List.isEmpty_iff, Option.isNone_iff_eq_none] at planned
  obtain ⟨⟨⟨⟨hpath, hguards⟩, hrule⟩, own⟩, hkind⟩ := planned
  refine ⟨file, parsed, fun decl hdecl => ?_, plan, hplan, check, hcheck, hpath, hguards, hrule,
    own, hkind⟩
  have facts := shape decl hdecl
  simp only [Bool.and_eq_true, Option.any_eq_true, beq_iff_eq] at facts
  obtain ⟨isRecord, field, hfield, hnames, inner, hinner, ⟨hinnerNames, pointer⟩, conforms⟩ := facts
  obtain ⟨fields, hfields⟩ := Option.isSome_iff_exists.1 isRecord
  have same : fields = [field] := by
    have htype := (Site.recordFields?_type hfields).symm.trans (TypeExpr.soleField?_some hfield)
    cases htype
    rfl
  obtain ⟨target, htarget⟩ := TypeExpr.isPointer_target pointer
  exact ⟨field, inner, target, same ▸ hfields, hnames, TypeExpr.soleField?_some hinner, hinnerNames,
    htarget, conforms⟩

theorem not_standsFor_pointer {decls : List TypeDecl} {type target : TypeExpr}
    (pointer : type = .pointer target) (owner : Option String) (fields : List Field) :
    ¬ StandsFor decls type owner fields := by
  rw [pointer]
  intro stands
  cases stands

/-- A check of a record with one field is about that field. -/
theorem leaf_of_single {decls : List TypeDecl} {field : Field} {chain : Chain}
    {leaf : String × TypeExpr} {check : Check} (leads : LeadsTo decls [field] chain leaf check)
    {name : String} (path : check.path = ⟨[name]⟩) : leaf.2 = field.type := by
  have place := leads.path
  rw [path] at place
  have short : chain = [] := by
    have lengths : 1 = (names chain ++ [leaf.1]).length := congrArg List.length place
    rw [List.length_append, List.length_singleton, names, List.length_map] at lengths
    exact List.length_eq_zero_iff.1 (by omega)
  have declared := leads.declared
  rw [short, List.nil_append] at declared
  cases declared with
  | last hfield => rw [List.mem_singleton.1 hfield]
  | more _ _ _ rest => cases rest

set_option maxRecDepth 4000 in
theorem compile_zeros_pointerInside :
    ∃ unit, compile .default "a.go" pointerInside = .ok unit ∧
      ∃ plan ∈ unit.plans, ∃ check ∈ plan.checks, check.delegate = none ∧
        check.rule = .required ∧ check.kind = .record none true ∧
        ∃ file, SourceFile.parse pointerInside.toList = .ok file ∧
          ∃ decl ∈ file.decls, decl.name = plan.record ∧
            ∃ fields, decl.recordFields? = some fields ∧
              ∃ chain leaf, LeadsTo file.decls fields chain leaf check ∧
                (∃ record value, Validator.resolve record check = some value ∧
                  IsInstance file.decls leaf.2 value ∧ IsClearInstance file.decls leaf.2 value) ∧
                ∀ record value, Validator.resolve record check = some value →
                  IsInstance file.decls leaf.2 value →
                    ∀ lookup handOver above, ∃ reported,
                      Validator.runCheck lookup handOver record above check = some reported ∧
                      (reported ≠ [] ↔ LooksZero file.decls leaf.2 value) ∧
                      (IsClearInstance file.decls leaf.2 value →
                        (reported ≠ [] ↔ IsZeroInstance file.decls leaf.2 value)) := by
  obtain ⟨file, parsed, shape, plan, hplan, check, hcheck, hpath, hguards, required, own, hkind⟩ :=
    parse_pointerInside
  have compiled : compile .default "a.go" pointerInside = _ := compile_of_parse parsed
  obtain ⟨other, parsed', decl, hdecl, hname, fields, hfields, chain, leaf, leads, agrees⟩ :=
    compile_zeros compiled hplan hcheck own required hkind
  cases parsed.symm.trans parsed'
  obtain ⟨field, inner, target, hrecord, -, htype, hinnerNames, hinner, -⟩ := shape decl hdecl
  cases hfields.symm.trans hrecord
  have hleaf : leaf.2 = .struct [inner] := (leaf_of_single leads hpath).trans htype
  have conforms : Value.null.conforms (Kind.ofType file.decls inner.type) = true := by
    rw [hinner]
    rfl
  have plain : ∀ owner fields, ¬ StandsFor file.decls inner.type owner fields :=
    not_standsFor_pointer hinner
  have clear : IsClear (Kind.ofType file.decls inner.type) .null := by
    rw [hinner]
    exact .inl rfl
  have resolved : Validator.resolve [("F", .record [("P", .null)])] check =
      some (.record [("P", .null)]) := by
    unfold Validator.resolve
    rw [hpath, hguards]
    rfl
  refine ⟨_, compiled, plan, hplan, check, hcheck, own, required, hkind, file, parsed, decl, hdecl,
    hname, [field], hfields, chain, leaf, leads, ?_, agrees⟩
  rw [hleaf]
  exact ⟨_, _, resolved, (composed_single hinnerNames plain conforms).2 trivial,
    (composed_single hinnerNames plain conforms).2 clear⟩

/-- A required struct with a pointer to zero in it is reported, though the pointer is not nil. -/
theorem compile_zeros_pointerToZero :
    ∃ unit, compile .default "a.go" pointerInside = .ok unit ∧
      ∃ plan ∈ unit.plans, ∃ check ∈ plan.checks, check.delegate = none ∧
        check.rule = .required ∧ check.kind = .record none true ∧
        ∃ file, SourceFile.parse pointerInside.toList = .ok file ∧
          ∃ decl ∈ file.decls, decl.name = plan.record ∧
            ∃ fields, decl.recordFields? = some fields ∧
              ∃ chain leaf, LeadsTo file.decls fields chain leaf check ∧
                ∃ value,
                  Validator.resolve [("F", .record [("P", .int 0)])] check = some value ∧
                  IsInstance file.decls leaf.2 value ∧
                  ¬ IsZeroInstance file.decls leaf.2 value ∧
                  ∀ lookup handOver above, ∃ reported,
                    Validator.runCheck lookup handOver [("F", .record [("P", .int 0)])] above check =
                      some reported ∧
                    reported ≠ [] := by
  obtain ⟨file, parsed, shape, plan, hplan, check, hcheck, hpath, hguards, required, own, hkind⟩ :=
    parse_pointerInside
  obtain ⟨decl, hdecl, hname⟩ := List.mem_map.1 (Plan.ofFile_record hplan)
  have hmem := (List.mem_filter.1 hdecl).1
  obtain ⟨field, inner, target, hfields, hnames, htype, hinnerNames, hinner, conforms⟩ :=
    shape decl hmem
  have compiled : compile .default "a.go" pointerInside = _ := compile_of_parse parsed
  have resolved : Validator.resolve [("F", .record [("P", .int 0)])] check =
      some (.record [("P", .int 0)]) := by
    unfold Validator.resolve
    rw [hpath, hguards]
    rfl
  have kind : check.kind = Kind.ofType file.decls field.type := by
    rw [hkind, htype]
    show Kind.record none true = .record none (Kind.isComparable file.decls [] (.struct [inner]))
    cases inner
    cases hinner
    rfl
  have leads : LeadsTo file.decls [field] [] ("F", field.type) check :=
    ⟨.last List.mem_cons_self (hnames ▸ List.mem_cons_self), by rw [hpath]; rfl, hguards, kind⟩
  have plain : ∀ owner fields, ¬ StandsFor file.decls inner.type owner fields :=
    not_standsFor_pointer hinner
  refine ⟨_, compiled, plan, hplan, check, hcheck, own, required, hkind, file, parsed, decl, hmem,
    hname, [field], hfields, [], _, leads, _, resolved, ?_, ?_, fun lookup handOver above => ?_⟩
  · rw [htype]
    exact (composed_single hinnerNames plain conforms).2 trivial
  · rw [htype, IsZeroInstance, composed_single hinnerNames plain conforms, hinner]
    exact fun h => nomatch h
  · obtain ⟨reported, hreported, zero⟩ :=
      Validator.runCheck_required own required hkind resolved lookup handOver above
    exact ⟨reported, hreported, zero.2 rfl⟩

end CompiledUnit

end FieldRules
