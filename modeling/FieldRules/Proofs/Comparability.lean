/-
Which records can be compared, on declarations that run in circles.

Kinds are found by two searches that keep one set of the names being resolved: a name
is put in before its declaration is followed and taken out after (`findKind`,
`findComparable`).  Nothing but that set ends them.  It always does, as each name
followed leaves fewer declared names outside the set (`card_pending_insert`), and the
set is left as it was found; what they answer is what `ofType` and `isComparable` say
(`findKind_ends`, `findComparable_ends`).

A search that meets a name in the set answers that its values can be compared.  That
hides nothing: what the declaration of a name leads to past that name, it leads to
without (`isBlocked_cons`).  The search for a kind has names in its set when it asks
whether a struct can be compared, and each of them leads to nothing but what it is
declared for, so they hide nothing either (`Covers.inside`).
-/
import FieldRules.Proofs.Resolution
import Mathlib.Data.Finset.Card
import Mathlib.Data.Finset.SDiff

namespace FieldRules
namespace Kind

open Go

/-! ### The two searches -/

mutual

/-- Whether values of a type can be compared, with the names being resolved before and after; `fuel`
bounds the calls within each other, and with none left there is no answer. -/
def findComparable (decls : List TypeDecl) :
    Nat → TypeExpr → Finset String → Option (Bool × Finset String)
  | 0, _, _ => none
  | fuel + 1, type, visiting =>
    match type with
    | .slice _ => some (false, visiting)
    | .map _ _ => some (false, visiting)
    | .func _ => some (false, visiting)
    | .array _ element => findComparable decls fuel element visiting
    | .struct fields => findFieldsComparable decls fuel fields visiting
    | .named name =>
      match declaration? decls name with
      | none => some (true, visiting)
      | some decl =>
        if name ∈ visiting then some (true, visiting)
        else do
          let (answer, after) ← findComparable decls fuel decl.type (insert name visiting)
          some (answer, after.erase name)
    | _ => some (true, visiting)

/-- Fields are looked at up to the first that cannot be compared. -/
def findFieldsComparable (decls : List TypeDecl) :
    Nat → List Field → Finset String → Option (Bool × Finset String)
  | 0, _, _ => none
  | _ + 1, [], visiting => some (true, visiting)
  | fuel + 1, field :: fields, visiting => do
    let (answer, after) ← findComparable decls fuel field.type visiting
    if answer then findFieldsComparable decls fuel fields after else some (false, after)

end

/-- The kind of a type, with the names being resolved before and after. -/
def findKind (decls : List TypeDecl) :
    Nat → TypeExpr → Finset String → Option (Kind × Finset String)
  | 0, _, _ => none
  | fuel + 1, type, visiting =>
    match type with
    | .named name =>
      match declaration? decls name with
      | none => some ((predeclared? name).getD foreign, visiting)
      | some decl =>
        if decl.typeParameters.isSome || name ∈ visiting then some (foreign, visiting)
        else do
          let (kind, after) ← findKind decls fuel decl.type (insert name visiting)
          some (declaredKind decl kind, after.erase name)
    | .struct fields => do
      let (answer, after) ← findComparable decls fuel (.struct fields) visiting
      some (record none answer, after)
    | .pointer target => do
      let (kind, after) ← findKind decls fuel target visiting
      some (pointer kind, after)
    | .slice _ => some (collection, visiting)
    | .array _ _ => some (collection, visiting)
    | .map _ _ => some (collection, visiting)
    | .chan _ _ => some (collection, visiting)
    | .qualified _ _ => some (foreign, visiting)
    | .instantiated _ _ => some (foreign, visiting)
    | .func _ => some (foreign, visiting)
    | .interface _ => some (foreign, visiting)

/-- From some bound on a search comes to one answer. -/
def Ends {α : Type} (search : Nat → Option α) (answer : α) : Prop :=
  ∃ enough, ∀ fuel, enough ≤ fuel → search fuel = some answer

section

variable {α β : Type} {search : Nat → Option α} {a : α}

theorem Ends.now : Ends (fun _ => some a) a := ⟨0, fun _ _ => rfl⟩

/-- One call costs one. -/
theorem Ends.step {body : Nat → Option α} (calls : ∀ fuel, search (fuel + 1) = body fuel)
    (h : Ends body a) : Ends search a := by
  obtain ⟨enough, ends⟩ := h
  refine ⟨enough + 1, fun fuel more => ?_⟩
  obtain ⟨fuel, rfl⟩ : ∃ n, fuel = n + 1 := ⟨fuel - 1, by omega⟩
  rw [calls, ends fuel (by omega)]

theorem Ends.bind {next : Nat → α → Option β} {b : β} (h : Ends search a)
    (h' : Ends (fun fuel => next fuel a) b) :
    Ends (fun fuel => (search fuel).bind (next fuel)) b := by
  obtain ⟨few, first⟩ := h
  obtain ⟨many, second⟩ := h'
  refine ⟨max few many, fun fuel more => ?_⟩
  show (search fuel).bind (next fuel) = some b
  rw [first fuel (by omega)]
  exact second fuel (by omega)

end

variable {decls : List TypeDecl}

/-! ### The searches end -/

/-- The declared names that are not being resolved. -/
def pending (decls : List TypeDecl) (visiting : Finset String) : Finset String :=
  (decls.map (·.name)).toFinset \ visiting

theorem card_pending_lt_fullDepth (visiting : Finset String) :
    (pending decls visiting).card < fullDepth decls := by
  calc (pending decls visiting).card
      ≤ (decls.map (·.name)).toFinset.card := Finset.card_le_card Finset.sdiff_subset
    _ ≤ (decls.map (·.name)).length := List.toFinset_card_le _
    _ < fullDepth decls := by rw [List.length_map]; exact Nat.lt_succ_self _

theorem card_pending_insert {name : String} {decl : TypeDecl} {visiting : Finset String}
    (hdecl : declaration? decls name = some decl) (fresh : name ∉ visiting) :
    (pending decls (insert name visiting)).card < (pending decls visiting).card := by
  obtain ⟨declared, rfl⟩ := declaration?_some hdecl
  have outside : decl.name ∈ pending decls visiting :=
    Finset.mem_sdiff.2 ⟨List.mem_toFinset.2 (List.mem_map_of_mem declared), fresh⟩
  refine Finset.card_lt_card (Finset.ssubset_iff_subset_ne.2 ⟨?_, fun same => ?_⟩)
  · exact Finset.sdiff_subset_sdiff (Finset.Subset.refl _) (Finset.subset_insert _ _)
  · rw [← same] at outside
    exact (Finset.mem_sdiff.1 outside).2 (Finset.mem_insert_self _ _)

section

variable {visiting : Finset String} {named : String → Bool}

mutual

/-- The search goes through a type as `comparableWith` does, if it does so for names. -/
theorem findComparable_of_names
    (answers : ∀ name,
      Ends (findComparable decls · (.named name) visiting) (named name, visiting)) :
    ∀ type, Ends (findComparable decls · type visiting) (comparableWith named type, visiting)
  | .named name => answers name
  | .array _ element => .step (fun _ => rfl) (findComparable_of_names answers element)
  | .struct fields => .step (fun _ => rfl) (findFieldsComparable_of_names answers fields)
  | .slice _ => .step (fun _ => rfl) .now
  | .map _ _ => .step (fun _ => rfl) .now
  | .func _ => .step (fun _ => rfl) .now
  | .qualified _ _ => .step (fun _ => rfl) .now
  | .instantiated _ _ => .step (fun _ => rfl) .now
  | .pointer _ => .step (fun _ => rfl) .now
  | .chan _ _ => .step (fun _ => rfl) .now
  | .interface _ => .step (fun _ => rfl) .now

theorem findFieldsComparable_of_names
    (answers : ∀ name,
      Ends (findComparable decls · (.named name) visiting) (named name, visiting)) :
    ∀ fields, Ends (findFieldsComparable decls · fields visiting)
      (comparableFields named fields, visiting)
  | [] => .step (fun _ => rfl) .now
  | ⟨_, _, type, _, _, _⟩ :: fields => by
    refine .step (fun _ => rfl) ((findComparable_of_names answers type).bind ?_)
    rw [comparableFields, comparableField]
    cases comparableWith named type with
    | false => exact .now
    | true => exact findFieldsComparable_of_names answers fields

end

end

/-- A depth of more than the declared names that are left is never used up. -/
theorem findComparable_named {depth : Nat} {visiting : List String}
    (enough : (pending decls visiting.toFinset).card < depth) (name : String) :
    Ends (findComparable decls · (.named name) visiting.toFinset)
      (comparableName decls depth visiting name, visiting.toFinset) := by
  induction depth generalizing visiting name with
  | zero => exact absurd enough (Nat.not_lt_zero _)
  | succ depth ih =>
    rw [comparableName]
    cases hdecl : declaration? decls name with
    | none => exact .step (fun _ => by rw [findComparable, hdecl]) .now
    | some decl =>
      by_cases fresh : name ∈ visiting.toFinset
      · have met : visiting.contains name = true := by simpa using fresh
        simp only [met, if_true]
        exact .step (fun _ => by simp only [findComparable, hdecl, fresh, if_true]) .now
      · have met : visiting.contains name = false := by simpa using fresh
        have fewer := card_pending_insert hdecl fresh
        have inside := findComparable_of_names
          (@ih (name :: visiting) (by rw [List.toFinset_cons]; omega)) decl.type
        rw [List.toFinset_cons] at inside
        simp only [met, Bool.false_eq_true, if_false]
        refine .step (fun _ => by simp only [findComparable, hdecl, fresh, if_false]; rfl)
          (inside.bind ?_)
        rw [Finset.erase_insert fresh]
        exact .now

/-- The search gives `isComparable`, and the names being resolved are again the same. -/
theorem findComparable_ends (decls : List TypeDecl) (visiting : List String) (type : TypeExpr) :
    Ends (findComparable decls · type visiting.toFinset)
      (isComparable decls visiting type, visiting.toFinset) :=
  findComparable_of_names (findComparable_named (card_pending_lt_fullDepth _)) type

/-- The search goes through a type as `kindWith` does, if it does so for names. -/
theorem findKind_of_names {visiting : List String} {named : String → Kind}
    (answers : ∀ name,
      Ends (findKind decls · (.named name) visiting.toFinset) (named name, visiting.toFinset))
    (type : TypeExpr) :
    Ends (findKind decls · type visiting.toFinset)
      (kindWith named (isComparable decls visiting) type, visiting.toFinset) := by
  induction type using TypeExpr.rec (motive_2 := fun _ => True) (motive_3 := fun _ => True) with
  | named name => exact answers name
  | pointer target ih => exact .step (fun _ => rfl) (ih.bind .now)
  | struct fields =>
    exact .step (fun _ => rfl) ((findComparable_ends decls visiting (.struct fields)).bind .now)
  | _ => first | trivial | exact .step (fun _ => rfl) .now

theorem findKind_named {depth : Nat} {visiting : List String}
    (enough : (pending decls visiting.toFinset).card < depth) (name : String) :
    Ends (findKind decls · (.named name) visiting.toFinset)
      (kindOfName decls depth visiting name, visiting.toFinset) := by
  induction depth generalizing visiting name with
  | zero => exact absurd enough (Nat.not_lt_zero _)
  | succ depth ih =>
    rw [kindOfName]
    cases hdecl : declaration? decls name with
    | none => exact .step (fun _ => by rw [findKind, hdecl]) .now
    | some decl =>
      have same : decide (name ∈ visiting.toFinset) = visiting.contains name := by simp
      cases hleft : decl.typeParameters.isSome || visiting.contains name with
      | true =>
        simp only [hleft, if_true]
        exact .step (fun _ => by simp only [findKind, hdecl, same, hleft, if_true]) .now
      | false =>
        have fresh : name ∉ visiting.toFinset := by
          simpa using (Bool.or_eq_false_iff.1 hleft).2
        have fewer := card_pending_insert hdecl fresh
        have inside := findKind_of_names
          (@ih (name :: visiting) (by rw [List.toFinset_cons]; omega)) decl.type
        rw [List.toFinset_cons] at inside
        simp only [hleft, Bool.false_eq_true, if_false]
        refine .step (fun _ => by
          simp only [findKind, hdecl, same, hleft, Bool.false_eq_true, if_false]; rfl)
          (inside.bind ?_)
        rw [Finset.erase_insert fresh]
        exact .now

/-- The search gives `ofType`, and the names being resolved are again the same. -/
theorem findKind_ends (decls : List TypeDecl) (visiting : List String) (type : TypeExpr) :
    Ends (findKind decls · type visiting.toFinset)
      (kindWith (kindOfName decls (fullDepth decls) visiting) (isComparable decls visiting) type,
        visiting.toFinset) :=
  findKind_of_names (findKind_named (card_pending_lt_fullDepth _)) type

/-! ### What a type leads to -/

/-- Types whose values cannot be compared. -/
inductive IsIncomparable : TypeExpr → Prop where
  | slice (element : TypeExpr) : IsIncomparable (.slice element)
  | map (key value : TypeExpr) : IsIncomparable (.map key value)
  | func (text : String) : IsIncomparable (.func text)

/-- From a struct to the types of its fields, from an array to that of its elements, and from a
declared name to what it is declared for. -/
inductive LeadsTo (decls : List TypeDecl) : TypeExpr → TypeExpr → Prop where
  | field {fields : List Field} {field : Field} :
      field ∈ fields → LeadsTo decls (.struct fields) field.type
  | element (length : String) (element : TypeExpr) : LeadsTo decls (.array length element) element
  | declared {name : String} {decl : TypeDecl} :
      declaration? decls name = some decl → LeadsTo decls (.named name) decl.type

/-- A step that is not from one of some names. -/
def LeadsPast (decls : List TypeDecl) (visiting : List String) (outer inner : TypeExpr) : Prop :=
  LeadsTo decls outer inner ∧ ∀ name ∈ visiting, outer ≠ .named name

/-- Without going past some names the type leads to one whose values cannot be compared. -/
def IsBlocked (decls : List TypeDecl) (visiting : List String) (type : TypeExpr) : Prop :=
  ∃ bad, IsIncomparable bad ∧ Relation.ReflTransGen (LeadsPast decls visiting) type bad

variable {visiting : List String}

theorem isBlocked_of_isIncomparable {type : TypeExpr} (h : IsIncomparable type) :
    IsBlocked decls visiting type :=
  ⟨type, h, .refl⟩

/-- A type that can itself be compared is blocked where one that it leads to is. -/
theorem isBlocked_iff {type : TypeExpr} (plain : ¬ IsIncomparable type) :
    IsBlocked decls visiting type ↔
      ∃ inner, LeadsPast decls visiting type inner ∧ IsBlocked decls visiting inner := by
  constructor
  · rintro ⟨bad, hbad, path⟩
    rcases path.cases_head with rfl | ⟨inner, first, rest⟩
    · exact absurd hbad plain
    · exact ⟨inner, first, bad, hbad, rest⟩
  · rintro ⟨inner, first, bad, hbad, rest⟩
    exact ⟨bad, hbad, .head first rest⟩

theorem not_isBlocked (type : TypeExpr) (plain : ¬ IsIncomparable type)
    (leaf : ∀ inner, ¬ LeadsTo decls type inner) : ¬ IsBlocked decls visiting type := by
  rw [isBlocked_iff plain]
  rintro ⟨inner, step, -⟩
  exact leaf inner step.1

theorem isBlocked_array {length : String} {element : TypeExpr} :
    IsBlocked decls visiting (.array length element) ↔ IsBlocked decls visiting element := by
  have plain : ¬ IsIncomparable (.array length element) := nofun
  rw [isBlocked_iff plain]
  constructor
  · rintro ⟨_, ⟨⟨⟩, -⟩, h⟩
    exact h
  · exact fun h => ⟨element, ⟨.element length element, nofun⟩, h⟩

theorem isBlocked_struct {fields : List Field} :
    IsBlocked decls visiting (.struct fields) ↔
      ∃ field ∈ fields, IsBlocked decls visiting field.type := by
  have plain : ¬ IsIncomparable (.struct fields) := nofun
  rw [isBlocked_iff plain]
  constructor
  · rintro ⟨_, ⟨⟨hfield⟩, -⟩, h⟩
    exact ⟨_, hfield, h⟩
  · rintro ⟨field, hfield, h⟩
    exact ⟨field.type, ⟨.field hfield, nofun⟩, h⟩

theorem isBlocked_named {name : String} :
    IsBlocked decls visiting (.named name) ↔
      ∃ decl, declaration? decls name = some decl ∧ name ∉ visiting ∧
        IsBlocked decls visiting decl.type := by
  have plain : ¬ IsIncomparable (.named name) := nofun
  rw [isBlocked_iff plain]
  constructor
  · rintro ⟨_, ⟨step, past⟩, h⟩
    cases step with
    | declared hdecl => exact ⟨_, hdecl, fun hname => past name hname rfl, h⟩
  · rintro ⟨decl, hdecl, fresh, h⟩
    refine ⟨decl.type, ⟨.declared hdecl, fun other hother same => ?_⟩, h⟩
    cases same
    exact fresh hother

/-- The last time that a path passes a name, it goes on from the declaration of that name. -/
theorem leadsPast_cons {name : String} {decl : TypeDecl}
    (hdecl : declaration? decls name = some decl) {type bad : TypeExpr}
    (path : Relation.ReflTransGen (LeadsPast decls visiting) type bad) :
    Relation.ReflTransGen (LeadsPast decls (name :: visiting)) type bad ∨
      Relation.ReflTransGen (LeadsPast decls (name :: visiting)) decl.type bad := by
  induction path using Relation.ReflTransGen.head_induction_on with
  | refl => exact .inl .refl
  | @head outer inner step rest ih =>
    by_cases passed : outer = .named name
    · subst passed
      cases step.1 with
      | declared hsame =>
        cases hdecl.symm.trans hsame
        exact .inr (ih.elim id id)
    · refine ih.imp_left fun rest => .head ⟨step.1, ?_⟩ rest
      exact List.forall_mem_cons.2 ⟨passed, step.2⟩

/-- What a declaration leads to past its own name, it leads to without. -/
theorem isBlocked_cons {name : String} {decl : TypeDecl}
    (hdecl : declaration? decls name = some decl) :
    IsBlocked decls (name :: visiting) decl.type ↔ IsBlocked decls visiting decl.type := by
  constructor
  · rintro ⟨bad, hbad, path⟩
    refine ⟨bad, hbad, Relation.ReflTransGen.mono (fun outer inner step => ?_) _ _ path⟩
    exact ⟨step.1, fun other h => step.2 other (List.mem_cons_of_mem _ h)⟩
  · rintro ⟨bad, hbad, path⟩
    exact ⟨bad, hbad, (leadsPast_cons hdecl path).elim id id⟩

/-! ### Comparability is that nothing is in the way -/

section

variable {named : String → Bool}

mutual

theorem comparableWith_eq_false
    (answers : ∀ name, named name = false ↔ IsBlocked decls visiting (.named name)) :
    ∀ type, comparableWith named type = false ↔ IsBlocked decls visiting type
  | .named name => by rw [comparableWith, answers]
  | .array _ element => by
    rw [comparableWith, comparableWith_eq_false answers element, isBlocked_array]
  | .struct fields => by
    rw [comparableWith, comparableFields_eq_false answers fields, isBlocked_struct]
  | .slice element =>
    iff_of_true (by rw [comparableWith]) (isBlocked_of_isIncomparable (.slice element))
  | .map key value =>
    iff_of_true (by rw [comparableWith]) (isBlocked_of_isIncomparable (.map key value))
  | .func code =>
    iff_of_true (by rw [comparableWith]) (isBlocked_of_isIncomparable (.func code))
  | .qualified package name =>
    iff_of_false (by simp [comparableWith]) (not_isBlocked (.qualified package name) nofun nofun)
  | .instantiated base arguments =>
    iff_of_false (by simp [comparableWith])
      (not_isBlocked (.instantiated base arguments) nofun nofun)
  | .pointer target =>
    iff_of_false (by simp [comparableWith]) (not_isBlocked (.pointer target) nofun nofun)
  | .chan direction element =>
    iff_of_false (by simp [comparableWith]) (not_isBlocked (.chan direction element) nofun nofun)
  | .interface code =>
    iff_of_false (by simp [comparableWith]) (not_isBlocked (.interface code) nofun nofun)

theorem comparableFields_eq_false
    (answers : ∀ name, named name = false ↔ IsBlocked decls visiting (.named name)) :
    ∀ fields, comparableFields named fields = false ↔
      ∃ field ∈ fields, IsBlocked decls visiting field.type
  | [] => by simp [comparableFields]
  | ⟨_, _, type, _, _, _⟩ :: fields => by
    rw [comparableFields, comparableField, Bool.and_eq_false_iff, List.exists_mem_cons_iff,
      comparableWith_eq_false answers type, comparableFields_eq_false answers fields]

end

end

/-- A depth of more than the declared names that are left tells a name that is blocked. -/
theorem comparableName_eq_false {depth : Nat}
    (enough : (pending decls visiting.toFinset).card < depth) (name : String) :
    comparableName decls depth visiting name = false ↔
      IsBlocked decls visiting (.named name) := by
  induction depth generalizing visiting name with
  | zero => exact absurd enough (Nat.not_lt_zero _)
  | succ depth ih =>
    rw [comparableName, isBlocked_named]
    cases hdecl : declaration? decls name with
    | none => simp
    | some decl =>
      by_cases fresh : name ∈ visiting
      · simp [fresh]
      · have fewer := card_pending_insert hdecl (mt List.mem_toFinset.1 fresh)
        have inside := comparableWith_eq_false
          (@ih (name :: visiting) (by rw [List.toFinset_cons]; omega)) decl.type
        rw [isBlocked_cons hdecl] at inside
        simp [fresh, inside]

theorem isComparable_eq_false (visiting : List String) (type : TypeExpr) :
    isComparable decls visiting type = false ↔ IsBlocked decls visiting type :=
  comparableWith_eq_false (comparableName_eq_false (card_pending_lt_fullDepth _)) type

/-- Passing some names takes nothing from what a type leads to. -/
def Covers (decls : List TypeDecl) (visiting : List String) (type : TypeExpr) : Prop :=
  IsBlocked decls [] type → IsBlocked decls visiting type

/-- Inside the declaration of a name the search passes that name as well. -/
theorem Covers.inside {name : String} {decl : TypeDecl}
    (h : Covers decls visiting (.named name)) (hdecl : declaration? decls name = some decl) :
    Covers decls (name :: visiting) decl.type := by
  intro blocked
  obtain ⟨same, hsame, -, rest⟩ :=
    isBlocked_named.1 (h (isBlocked_named.2 ⟨decl, hdecl, List.not_mem_nil, blocked⟩))
  cases hdecl.symm.trans hsame
  exact (isBlocked_cons hdecl).2 rest

theorem Covers.isComparable {type : TypeExpr} (h : Covers decls visiting type) :
    isComparable decls visiting type = false ↔ IsBlocked decls [] type := by
  rw [isComparable_eq_false]
  refine ⟨fun ⟨bad, hbad, path⟩ => ?_, h⟩
  exact ⟨bad, hbad, Relation.ReflTransGen.mono (fun _ _ step => ⟨step.1, nofun⟩) _ _ path⟩

/-- A name of the kind of a record stands for a struct, and is comparable as that struct is. -/
theorem kindOfName_comparable {depth : Nat} {name : String} {owner : Option String}
    {comparable : Bool} (covers : Covers decls visiting (.named name))
    (h : kindOfName decls depth visiting name = .record owner comparable) :
    ∃ record fields, owner = some record ∧
      StandsFor decls (.named name) (some record) fields ∧
      (comparable = false ↔ IsBlocked decls [] (.struct fields)) := by
  induction depth generalizing visiting name owner comparable with
  | zero => cases h
  | succ depth ih =>
    obtain ⟨decl, hdecl, parameters, -, hcases⟩ := kindOfName_record_cases h
    have inside := covers.inside hdecl
    rcases hcases with ⟨fields, htype, rfl, rfl⟩ | ⟨other, inner, htype, hother, rfl⟩
    · rw [htype] at inside
      exact ⟨_, fields, rfl, .declared hdecl parameters htype, inside.isComparable⟩
    · rw [htype] at inside
      obtain ⟨record, fields, rfl, stands, same⟩ := ih inside hother
      exact ⟨_, fields, rfl, stands.over hdecl parameters htype, same⟩

theorem ofType_comparable {type : TypeExpr} {owner : Option String} {comparable : Bool}
    (h : ofType decls type = .record owner comparable) :
    ∃ fields, StandsFor decls type owner fields ∧
      (comparable = false ↔ IsBlocked decls [] (.struct fields)) := by
  have covers : ∀ type, Covers decls [] type := fun type => id
  rcases kindWith_record h with ⟨fields, rfl, rfl⟩ | ⟨name, rfl, hname⟩
  · cases h
    exact ⟨fields, .anonymous fields, (covers _).isComparable⟩
  · obtain ⟨record, fields, rfl, stands, same⟩ := kindOfName_comparable (covers _) hname
    exact ⟨fields, stands, same⟩

theorem isBlocked_nil {type : TypeExpr} :
    IsBlocked decls [] type ↔
      ∃ bad, IsIncomparable bad ∧ Relation.ReflTransGen (LeadsTo decls) type bad := by
  have same : LeadsPast decls [] = LeadsTo decls := by
    funext outer inner
    exact propext ⟨fun step => step.1, fun step => ⟨step, nofun⟩⟩
  rw [IsBlocked, same]

/-- Over every set of declarations both searches end, leave the names being resolved as they found
them, and give the kind of a type.  The kind of a record says that its values cannot be compared
just where the struct that the type stands for leads to a slice, a map or a function. -/
theorem record_comparable_iff (decls : List TypeDecl) :
    (∀ type visiting, ∃ answer, Ends (findComparable decls · type visiting) (answer, visiting)) ∧
      (∀ type visiting, ∃ kind, Ends (findKind decls · type visiting) (kind, visiting)) ∧
      (∀ type, Ends (findKind decls · type ∅) (ofType decls type, ∅)) ∧
      ∀ type owner comparable, ofType decls type = .record owner comparable →
        ∃ fields, StandsFor decls type owner fields ∧
          (comparable = false ↔
            ∃ bad, IsIncomparable bad ∧
              Relation.ReflTransGen (LeadsTo decls) (.struct fields) bad) := by
  refine ⟨fun type visiting => ?_, fun type visiting => ?_, findKind_ends decls [], ?_⟩
  · have found := findComparable_ends decls visiting.toList type
    rw [Finset.toList_toFinset] at found
    exact ⟨_, found⟩
  · have found := findKind_ends decls visiting.toList type
    rw [Finset.toList_toFinset] at found
    exact ⟨_, found⟩
  · intro type owner comparable h
    obtain ⟨fields, stands, same⟩ := ofType_comparable h
    exact ⟨fields, stands, same.trans isBlocked_nil⟩

/-- Two structs that hold each other, the second with a slice, and a name for the first. -/
def knotted : List TypeDecl :=
  let struct fields := TypeExpr.struct <| fields.map fun type =>
    ⟨["F"], false, type, none, [], ⟨1, 1⟩⟩
  let outer := struct [.named "Inner", .named "int"]
  let inner := struct [.array "2" (.named "Outer"), .slice (.named "Inner")]
  [⟨"Alias", none, true, .named "Outer", [], ⟨1, 1⟩⟩,
    ⟨"Outer", none, false, outer, [], ⟨2, 1⟩⟩, ⟨"Inner", none, false, inner, [], ⟨3, 1⟩⟩]

theorem record_comparable_iff_knotted :
    ofType knotted (.named "Alias") = .record (some "Outer") false ∧
      ∃ fields, StandsFor knotted (.named "Alias") (some "Outer") fields ∧
        ∃ bad, IsIncomparable bad ∧
          Relation.ReflTransGen (LeadsTo knotted) (.struct fields) bad := by
  have hkind : ofType knotted (.named "Alias") = .record (some "Outer") false := by decide +kernel
  obtain ⟨fields, stands, same⟩ := (record_comparable_iff knotted).2.2.2 _ _ _ hkind
  exact ⟨hkind, fields, stands, same.1 rfl⟩

end Kind
end FieldRules
