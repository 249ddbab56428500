/-
Structs behind kinds, and what they hold by value.

A kind of a record comes from a struct: the type itself is one, or its name is
declared for one, over aliases and names declared anew (`StandsFor`).  The other way
round a record whose kind a field has is held by value by the struct of that field, if
no pointer is on the way to it: from the names in its type aliases lead on to the
record (`StandsFor.reaches`).
-/
import FieldRules.Proofs.Instances
import Mathlib.Logic.Relation

namespace FieldRules
namespace Go

variable {decls : List TypeDecl}

/-- The type is a struct with some fields, or its name is declared for one; with the record whose
kind that makes. -/
inductive StandsFor (decls : List TypeDecl) : TypeExpr → Option String → List Field → Prop where
  | anonymous (fields : List Field) : StandsFor decls (.struct fields) none fields
  | declared {name : String} {decl : TypeDecl} {fields : List Field} :
      Kind.declaration? decls name = some decl → decl.typeParameters = none →
      decl.type = .struct fields → StandsFor decls (.named name) (some decl.name) fields
  | aliased {name other owner : String} {decl : TypeDecl} {fields : List Field} :
      Kind.declaration? decls name = some decl → decl.typeParameters = none →
      decl.isAlias = true → decl.type = .named other →
      StandsFor decls (.named other) (some owner) fields →
      StandsFor decls (.named name) (some owner) fields
  | anew {name other owner : String} {decl : TypeDecl} {fields : List Field} :
      Kind.declaration? decls name = some decl → decl.typeParameters = none →
      decl.isAlias = false → decl.type = .named other →
      StandsFor decls (.named other) (some owner) fields →
      StandsFor decls (.named name) (some decl.name) fields

/-- A name declared for another one stands for the same struct. -/
theorem StandsFor.over {name other owner : String} {decl : TypeDecl} {fields : List Field}
    (h : StandsFor decls (.named other) (some owner) fields)
    (hdecl : Kind.declaration? decls name = some decl) (parameters : decl.typeParameters = none)
    (htype : decl.type = .named other) :
    StandsFor decls (.named name) (some (if decl.isAlias then owner else decl.name)) fields := by
  cases halias : decl.isAlias with
  | true => exact .aliased hdecl parameters halias htype h
  | false => exact .anew hdecl parameters halias htype h

end Go

namespace Kind

open Go

variable {decls : List TypeDecl}

theorem declaration?_some {name : String} {decl : TypeDecl}
    (h : declaration? decls name = some decl) : decl ∈ decls ∧ decl.name = name := by
  unfold declaration? at h
  have same := List.find?_some h
  exact ⟨List.mem_reverse.1 (List.mem_of_find?_eq_some h), beq_iff_eq.1 same⟩

theorem predeclared?_ne_record {name : String} {owner : Option String} {comparable : Bool} :
    predeclared? name ≠ some (.record owner comparable) := by
  intro h
  unfold predeclared? at h
  split at h <;> cases h

/-- Only a struct and a name have the kind of a record. -/
theorem kindWith_record {named : String → Kind} {compares : TypeExpr → Bool} {type : TypeExpr}
    {owner : Option String} {comparable : Bool}
    (h : kindWith named compares type = .record owner comparable) :
    (∃ fields, type = .struct fields ∧ owner = none) ∨
      ∃ name, type = .named name ∧ named name = .record owner comparable := by
  cases type with
  | struct fields =>
    cases h
    exact .inl ⟨fields, rfl, rfl⟩
  | named name => exact .inr ⟨name, rfl, h⟩
  | _ => cases h

/-- A name of the kind of a record is declared for a struct, or for another name of the kind of a
record. -/
theorem kindOfName_record_cases {depth : Nat} {visiting : List String} {name : String}
    {owner : Option String} {comparable : Bool}
    (h : kindOfName decls (depth + 1) visiting name = .record owner comparable) :
    ∃ decl, declaration? decls name = some decl ∧ decl.typeParameters = none ∧
      name ∉ visiting ∧
      ((∃ fields, decl.type = .struct fields ∧ owner = some decl.name ∧
          comparable = isComparable decls (name :: visiting) (.struct fields)) ∨
        ∃ other inner, decl.type = .named other ∧
          kindOfName decls depth (name :: visiting) other = .record inner comparable ∧
          owner = inner.map fun owner => if decl.isAlias then owner else decl.name) := by
  rw [kindOfName] at h
  cases hdecl : declaration? decls name with
  | none =>
    rw [hdecl] at h
    cases hkind : predeclared? name with
    | none => rw [hkind] at h; cases h
    | some kind =>
      rw [hkind] at h
      exact absurd (hkind.trans (congrArg some h)) predeclared?_ne_record
  | some decl =>
    simp only [hdecl] at h
    split at h
    · cases h
    next plain =>
    rw [Bool.or_eq_true, not_or, List.contains_iff_mem, Option.not_isSome_iff_eq_none] at plain
    refine ⟨decl, rfl, plain.1, plain.2, ?_⟩
    unfold declaredKind at h
    split at h
    · next inner compares hinner =>
      rcases kindWith_record hinner with ⟨fields, htype, -⟩ | ⟨other, htype, hother⟩
      · rw [htype] at h hinner
        cases h
        cases hinner
        exact .inl ⟨fields, htype, rfl, rfl⟩
      · rw [htype] at h
        cases inner <;> cases h <;> exact .inr ⟨other, _, htype, hother, rfl⟩
    · next other =>
      exact absurd h (other owner comparable)

/-- A name of the kind of a record stands for a struct. -/
theorem kindOfName_record {depth : Nat} {visiting : List String} {name : String}
    {owner : Option String} {comparable : Bool}
    (h : kindOfName decls depth visiting name = .record owner comparable) :
    ∃ record fields, owner = some record ∧ StandsFor decls (.named name) (some record) fields := by
  induction depth generalizing visiting name owner comparable with
  | zero => cases h
  | succ depth ih =>
    obtain ⟨decl, hdecl, parameters, -, hcases⟩ := kindOfName_record_cases h
    rcases hcases with ⟨fields, htype, rfl, -⟩ | ⟨other, inner, htype, hother, rfl⟩
    · exact ⟨_, fields, rfl, .declared hdecl parameters htype⟩
    · obtain ⟨record, fields, rfl, stands⟩ := ih hother
      exact ⟨_, fields, rfl, stands.over hdecl parameters htype⟩

/-- A type of the kind of a record stands for a struct. -/
theorem ofType_record {type : TypeExpr} {owner : Option String} {comparable : Bool}
    (h : ofType decls type = .record owner comparable) :
    ∃ fields, StandsFor decls type owner fields := by
  rcases kindWith_record h with ⟨fields, rfl, rfl⟩ | ⟨name, rfl, hname⟩
  · exact ⟨fields, .anonymous fields⟩
  · obtain ⟨record, fields, rfl, stands⟩ := kindOfName_record hname
    exact ⟨fields, stands⟩

end Kind

/-! ### What is held by value -/

namespace Go

namespace TypeExpr

mutual

/-- The names of the types of which every value of a type has one in it: those of its fields, of
anonymous structs as well.  What is behind a pointer is not in it. -/
def held : TypeExpr → List String
  | named name => [name]
  | struct fields => heldOf fields
  | _ => []

def heldIn : Field → List String
  | ⟨_, _, type, _, _, _⟩ => type.held

def heldOf : List Field → List String
  | [] => []
  | field :: fields => heldIn field ++ heldOf fields

end

theorem heldIn_eq (field : Field) : heldIn field = field.type.held := by
  cases field
  rw [heldIn]

theorem held_subset {fields : List Field} {field : Field} (h : field ∈ fields) :
    field.type.held ⊆ heldOf fields := by
  induction fields with
  | nil => cases h
  | cons first fields ih =>
    rw [heldOf, heldIn_eq]
    rcases List.mem_cons.1 h with rfl | h
    · exact List.subset_append_left _ _
    · exact List.subset_append_of_subset_right _ (ih h)

end TypeExpr

/-- A relation along which a rank goes down has no circles. -/
theorem not_transGen_of_rank {α : Type} {related : α → α → Prop} (rank : α → Nat)
    (descends : ∀ outer inner, related outer inner → rank inner < rank outer) (a : α) :
    ¬ Relation.TransGen related a a := by
  intro circle
  have less : rank a < rank a :=
    Relation.TransGen.trans_induction_on (motive := fun {a b} _ => rank b < rank a) circle
      (fun h => descends _ _ h) (fun _ _ first second => Nat.lt_trans second first)
  exact Nat.lt_irrefl _ less

/-- A struct is declared under one name with the other by value in it, or the one name is an alias
of such a type. -/
def Contains (decls : List TypeDecl) (outer inner : String) : Prop :=
  ∃ decl ∈ decls, decl.name = outer ∧ (decl.isRecord = true ∨ decl.isAlias = true) ∧
    inner ∈ decl.type.held

variable {decls : List TypeDecl}

/-- From a name that stands for a struct aliases lead to the record that it counts as. -/
theorem StandsFor.reaches {name owner : String} {fields : List Field}
    (h : StandsFor decls (.named name) (some owner) fields) :
    Relation.ReflTransGen (Contains decls) name owner := by
  generalize htype : TypeExpr.named name = type at h
  generalize howner : some owner = record at h
  induction h generalizing name owner with
  | anonymous => cases htype
  | declared hdecl =>
    cases htype
    cases howner
    rw [(Kind.declaration?_some hdecl).2]
  | aliased hdecl _ halias hother _ ih =>
    cases htype
    cases howner
    obtain ⟨hmem, hname⟩ := Kind.declaration?_some hdecl
    refine .head ⟨_, hmem, hname, .inr halias, ?_⟩ (ih rfl rfl)
    rw [hother]
    exact List.mem_singleton_self _
  | anew hdecl =>
    cases htype
    cases howner
    rw [(Kind.declaration?_some hdecl).2]

/-- What stands at the end of a chain without pointers is held by value. -/
theorem Declares.held {fields : List Field} {chain : Chain} {leaf : String × TypeExpr}
    (h : Declares fields (chain ++ [leaf])) (byValue : ∀ step ∈ chain, step.2.isPointer = false) :
    leaf.2.held ⊆ TypeExpr.heldOf fields := by
  induction chain generalizing fields with
  | nil =>
    cases h with
    | last hfield => exact TypeExpr.held_subset hfield
    | more _ _ _ hrest => cases hrest
  | cons step chain ih =>
    rw [List.cons_append] at h
    generalize hrest : chain ++ [leaf] = rest at h
    cases h with
    | last =>
      cases chain <;> cases hrest
    | @more _ inner field name _ hfield _ hinner declared =>
      subst hrest
      have through : field.type = .struct inner := by
        have direct := byValue _ List.mem_cons_self
        unfold TypeExpr.fields? at hinner
        split at hinner
        · next htype =>
          cases hinner
          exact htype
        · next htype =>
          rw [htype] at direct
          cases direct
        · cases hinner
      have rest := ih declared fun other h => byValue other (List.mem_cons_of_mem _ h)
      have sub := TypeExpr.held_subset hfield
      rw [through, TypeExpr.held] at sub
      exact List.Subset.trans rest sub

end Go
end FieldRules
