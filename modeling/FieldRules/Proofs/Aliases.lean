/-
What an alias stands for.

An alias is another name for the type that it is declared for, so neither its own kind
nor that of a type with the alias in it should show it.  There is one case where it
does: an alias of a struct as it is written has the kind of a record of that name, as
if the name were declared anew (`ofType_alias_struct`).  In all other cases a type has
the kind that it has with what the alias is declared for in its place, and in this one
as well but for the names of records (`ofType_alias`).

To find the kind of an alias the search goes on from what it is declared for with the
alias among the names being resolved, and from the type itself without it.  The two
come to the same (`Agree.kind`): the search meets the alias again only if it is
declared for itself, and to pass a name hides no struct that cannot be compared
(`Spares`).
-/
import FieldRules.Proofs.Comparability

namespace FieldRules

open Go

/-! ### Aliases in types -/

namespace Go

namespace TypeDecl

mutual

/-- A type with what an alias is declared for in the place of the alias; `text` is what becomes of
all that is kept as it was written, such as the arguments of a generic type. -/
def expand (decl : TypeDecl) (text : String → String) : TypeExpr → TypeExpr
  | .named name => if name = decl.name then decl.type else .named name
  | .qualified package name => .qualified package name
  | .instantiated base arguments => .instantiated (decl.expand text base) (text arguments)
  | .pointer target => .pointer (decl.expand text target)
  | .slice element => .slice (decl.expand text element)
  | .array length element => .array (text length) (decl.expand text element)
  | .map key value => .map (decl.expand text key) (decl.expand text value)
  | .chan direction element => .chan direction (decl.expand text element)
  | .struct fields => .struct (decl.expandFields text fields)
  | .func code => .func (text code)
  | .interface code => .interface (text code)

def expandField (decl : TypeDecl) (text : String → String) : Field → Field
  | ⟨names, embedded, type, tag, doc, position⟩ =>
    ⟨names, embedded, decl.expand text type, tag, doc, position⟩

def expandFields (decl : TypeDecl) (text : String → String) : List Field → List Field
  | [] => []
  | field :: fields => decl.expandField text field :: decl.expandFields text fields

end

end TypeDecl

namespace TypeExpr

mutual

/-- The names that a type refers to, at any depth, but for those in what is kept as it was
written. -/
def references : TypeExpr → List String
  | named name => [name]
  | instantiated base _ => base.references
  | pointer target => target.references
  | slice element => element.references
  | array _ element => element.references
  | map key value => key.references ++ value.references
  | chan _ element => element.references
  | struct fields => referencesOf fields
  | _ => []

def referencesIn : Field → List String
  | ⟨_, _, type, _, _, _⟩ => type.references

def referencesOf : List Field → List String
  | [] => []
  | field :: fields => referencesIn field ++ referencesOf fields

end

/-- The name that a type is, or points to. -/
def aim? : TypeExpr → Option String
  | named name => some name
  | pointer target => target.aim?
  | _ => none

theorem aim?_mem_references {name : String} (type : TypeExpr) (h : type.aim? = some name) :
    name ∈ type.references := by
  induction type using TypeExpr.rec (motive_2 := fun _ => True) (motive_3 := fun _ => True) with
  | named other =>
    cases h
    exact List.mem_singleton_self name
  | pointer target ih => exact ih h
  | _ => trivial

end TypeExpr

/-- The declaration of a name refers to another one. -/
def Refers (decls : List TypeDecl) (outer inner : String) : Prop :=
  ∃ decl, Kind.declaration? decls outer = some decl ∧ inner ∈ decl.type.references

/-- A name is declared for another one, or for a pointer to it. -/
def Resolves (decls : List TypeDecl) (outer inner : String) : Prop :=
  ∃ decl, Kind.declaration? decls outer = some decl ∧ decl.type.aim? = some inner

theorem Resolves.refers {decls : List TypeDecl} {outer inner : String}
    (h : Resolves decls outer inner) : Refers decls outer inner := by
  obtain ⟨decl, hdecl, aims⟩ := h
  exact ⟨decl, hdecl, decl.type.aim?_mem_references aims⟩

/-- Where names have ranks, and a declaration a higher one than what it refers to, no name refers to
itself. -/
theorem refers_acyclic_of_rank {decls : List TypeDecl} (rank : String → Nat)
    (lower : ∀ decl ∈ decls, ∀ inner ∈ decl.type.references, rank inner < rank decl.name) :
    ∀ name, ¬ Relation.TransGen (Refers decls) name name := by
  refine not_transGen_of_rank rank ?_
  rintro outer inner ⟨decl, hdecl, hinner⟩
  obtain ⟨hmem, rfl⟩ := Kind.declaration?_some hdecl
  exact lower decl hmem inner hinner

end Go

namespace Kind

/-- A kind without the names of records. -/
def unnamed : Kind → Kind
  | record _ comparable => record none comparable
  | pointer target => pointer target.unnamed
  | kind => kind

variable {decls : List TypeDecl} {visiting : List String}

/-! ### Names being resolved hide nothing -/

/-- Where a name being resolved leads to a type that cannot be compared, the type leads to one
without passing such a name. -/
def Spares (decls : List TypeDecl) (visiting : List String) (type : TypeExpr) : Prop :=
  ∀ name ∈ visiting, IsBlocked decls [] (.named name) → IsBlocked decls visiting type

/-- A path to a type that cannot be compared passes none of some names, or starts from one of
them somewhere. -/
theorem isBlocked_or_passes {type bad : TypeExpr} (hbad : IsIncomparable bad)
    (path : Relation.ReflTransGen (LeadsPast decls []) type bad) :
    IsBlocked decls visiting type ∨ ∃ name ∈ visiting, IsBlocked decls [] (.named name) := by
  induction path using Relation.ReflTransGen.head_induction_on with
  | refl => exact .inl (isBlocked_of_isIncomparable hbad)
  | @head outer inner step rest ih =>
    by_cases passed : ∃ name ∈ visiting, outer = .named name
    · obtain ⟨name, hname, rfl⟩ := passed
      exact .inr ⟨name, hname, bad, hbad, .head step rest⟩
    · refine ih.imp_left fun ⟨bad, hbad, path⟩ => ⟨bad, hbad, .head ⟨step.1, ?_⟩ path⟩
      exact fun name hname same => passed ⟨name, hname, same⟩

theorem Spares.covers {type : TypeExpr} (h : Spares decls visiting type) :
    Covers decls visiting type := by
  rintro ⟨bad, hbad, path⟩
  rcases isBlocked_or_passes hbad path with blocked | ⟨name, hname, blocked⟩
  · exact blocked
  · exact h name hname blocked

theorem spares_nil (type : TypeExpr) : Spares decls [] type := nofun

theorem Spares.inside {name : String} {decl : TypeDecl}
    (h : Spares decls visiting (.named name)) (hdecl : declaration? decls name = some decl) :
    Spares decls (name :: visiting) decl.type := by
  intro other hother blocked
  have through : IsBlocked decls visiting (.named name) := by
    rcases List.mem_cons.1 hother with rfl | hother
    · exact h.covers blocked
    · exact h other hother blocked
  obtain ⟨same, hsame, -, rest⟩ := isBlocked_named.1 through
  cases hdecl.symm.trans hsame
  exact (isBlocked_cons hdecl).2 rest

/-- Nothing is in the way of comparing pointers. -/
theorem not_isBlocked_pointer (target : TypeExpr) :
    ¬ IsBlocked decls visiting (.pointer target) := by
  refine not_isBlocked (.pointer target) (fun bad => ?_) fun inner step => ?_
  · cases bad
  · cases step

theorem Spares.target {target : TypeExpr} (h : Spares decls visiting (.pointer target)) :
    Spares decls visiting target := fun name hname blocked =>
  absurd (h name hname blocked) (not_isBlocked_pointer target)

theorem Spares.isComparable {type : TypeExpr} (h : Spares decls visiting type) :
    isComparable decls visiting type = isComparable decls [] type := by
  rw [Bool.eq_iff_iff, ← not_iff_not, Bool.not_eq_true, Bool.not_eq_true, h.covers.isComparable,
    (spares_nil type).covers.isComparable]

/-! ### States of the search that agree -/

/-- The searches for the kind of a type in two states come to the same: the names being resolved
hide nothing, and of those that the type leads to they are the same. -/
structure Agree (decls : List TypeDecl) (visiting others : List String) (type : TypeExpr) :
    Prop where
  spares : Spares decls visiting type
  spares' : Spares decls others type
  same : ∀ first ∈ type.aim?, ∀ name, Relation.ReflTransGen (Resolves decls) first name →
    (name ∈ visiting ↔ name ∈ others)

variable {others : List String}

theorem Agree.target {target : TypeExpr} (h : Agree decls visiting others (.pointer target)) :
    Agree decls visiting others target :=
  ⟨h.spares.target, h.spares'.target, h.same⟩

theorem Agree.inside {name : String} {decl : TypeDecl}
    (h : Agree decls visiting others (.named name)) (hdecl : declaration? decls name = some decl) :
    Agree decls (name :: visiting) (name :: others) decl.type := by
  refine ⟨h.spares.inside hdecl, h.spares'.inside hdecl, fun first hfirst other leads => ?_⟩
  have step : Resolves decls name first := ⟨decl, hdecl, hfirst⟩
  rw [List.mem_cons, List.mem_cons, h.same name rfl other (.head step leads)]

/-- With depth enough the two searches give the same kind. -/
theorem Agree.kind {depth depth' : Nat} {type : TypeExpr}
    (h : Agree decls visiting others type)
    (enough : (pending decls visiting.toFinset).card < depth)
    (enough' : (pending decls others.toFinset).card < depth') :
    kindWith (kindOfName decls depth visiting) (isComparable decls visiting) type =
      kindWith (kindOfName decls depth' others) (isComparable decls others) type := by
  -- Into a declaration the induction is on the depth, to the target of a pointer on the type.
  induction depth generalizing depth' visiting others type with
  | zero => exact absurd enough (Nat.not_lt_zero _)
  | succ depth ih =>
    obtain ⟨depth', rfl⟩ : ∃ n, depth' = n + 1 := ⟨depth' - 1, by omega⟩
    induction type using TypeExpr.rec (motive_2 := fun _ => True) (motive_3 := fun _ => True) with
    | named name =>
      rw [kindWith, kindWith, kindOfName, kindOfName]
      cases hdecl : declaration? decls name with
      | none => rfl
      | some decl =>
        have met : visiting.contains name = others.contains name := by
          rw [Bool.eq_iff_iff, List.contains_iff_mem, List.contains_iff_mem]
          exact h.same name rfl name .refl
        simp only [met]
        by_cases stops : (decl.typeParameters.isSome || others.contains name) = true
        · rw [if_pos stops, if_pos stops]
        · rw [if_neg stops, if_neg stops]
          rw [Bool.or_eq_true, not_or, ← met, List.contains_iff_mem] at stops
          have fresh : name ∉ others := mt (h.same name rfl name .refl).2 stops.2
          have fewer := card_pending_insert hdecl (mt List.mem_toFinset.1 stops.2)
          have fewer' := card_pending_insert hdecl (mt List.mem_toFinset.1 fresh)
          refine congrArg (declaredKind decl) (ih (h.inside hdecl) ?_ ?_)
          · rw [List.toFinset_cons]
            omega
          · rw [List.toFinset_cons]
            omega
    | pointer target ih' => exact congrArg pointer (ih' h.target)
    | struct fields =>
      rw [kindWith, kindWith, h.spares.isComparable, h.spares'.isComparable]
    | _ => trivial

/-! ### What an alias stands for -/

variable {decl : TypeDecl}

/-- The kind of a name that does not run in a circle is found from that of the type it is declared
for. -/
theorem ofType_named (hdecl : declaration? decls decl.name = some decl)
    (plain : decl.typeParameters = none)
    (acyclic : ¬ Relation.TransGen (Resolves decls) decl.name decl.name) :
    ofType decls (.named decl.name) = declaredKind decl (ofType decls decl.type) := by
  have agree : Agree decls [decl.name] [] decl.type := by
    refine ⟨(spares_nil _).inside hdecl, spares_nil _, fun first hfirst other leads => ?_⟩
    refine iff_of_false (fun hother => acyclic ?_) List.not_mem_nil
    rw [List.mem_singleton.1 hother] at leads
    exact .head' ⟨decl, hdecl, hfirst⟩ leads
  have enough : (pending decls [].toFinset).card < fullDepth decls := card_pending_lt_fullDepth _
  have fewer : (pending decls [decl.name].toFinset).card < decls.length :=
    lt_of_lt_of_le (card_pending_insert hdecl (Finset.notMem_empty decl.name))
      (Nat.lt_succ_iff.1 enough)
  have inside := agree.kind fewer enough
  rw [ofType, ofType, kindWith, fullDepth, kindOfName]
  simp only [hdecl, plain]
  exact congrArg (declaredKind decl) inside

/-- An alias gives the name that it is declared for its kind, but for a struct. -/
theorem declaredKind_alias (isAlias : decl.isAlias = true)
    (other : ∀ fields, decl.type ≠ .struct fields) (kind : Kind) :
    declaredKind decl kind = kind := by
  unfold declaredKind
  split
  · split
    · next _ fields htype => exact absurd htype (other fields)
    · rw [isAlias, if_pos rfl]
    · rfl
  · rfl

theorem declaredKind_unnamed (decl : TypeDecl) (kind : Kind) :
    (declaredKind decl kind).unnamed = kind.unnamed := by
  unfold declaredKind
  split
  · split <;> rfl
  · rfl

/-- A name can be compared as the type that it is declared for. -/
theorem isComparable_named (hdecl : declaration? decls decl.name = some decl) :
    isComparable decls [] decl.type = isComparable decls [] (.named decl.name) := by
  rw [Bool.eq_iff_iff, ← not_iff_not, Bool.not_eq_true, Bool.not_eq_true, isComparable_eq_false,
    isComparable_eq_false, isBlocked_named]
  constructor
  · exact fun blocked => ⟨decl, hdecl, List.not_mem_nil, blocked⟩
  · rintro ⟨same, hsame, -, blocked⟩
    cases hdecl.symm.trans hsame
    exact blocked

section

variable {named : String → Bool} (text : String → String)

mutual

theorem comparableWith_expand (same : comparableWith named decl.type = named decl.name) :
    ∀ type, comparableWith named (decl.expand text type) = comparableWith named type
  | .named name => by
    rw [TypeDecl.expand]
    split
    · next found => rw [found, same, comparableWith]
    · rfl
  | .array _ element => by
    rw [TypeDecl.expand, comparableWith, comparableWith, comparableWith_expand same element]
  | .struct fields => by
    rw [TypeDecl.expand, comparableWith, comparableWith, comparableFields_expand same fields]
  | .slice _ => rfl
  | .map _ _ => rfl
  | .func _ => rfl
  | .qualified _ _ => rfl
  | .instantiated _ _ => rfl
  | .pointer _ => rfl
  | .chan _ _ => rfl
  | .interface _ => rfl

theorem comparableFields_expand (same : comparableWith named decl.type = named decl.name) :
    ∀ fields, comparableFields named (decl.expandFields text fields) = comparableFields named fields
  | [] => rfl
  | ⟨_, _, type, _, _, _⟩ :: fields => by
    rw [TypeDecl.expandFields, TypeDecl.expandField, comparableFields, comparableFields,
      comparableField, comparableField, comparableWith_expand same type,
      comparableFields_expand same fields]

end

end

/-- What relates the kind of a type to that of a name declared for it, and passes pointers, relates
the kinds of types with the one and the other in them. -/
theorem ofType_expand (related : Kind → Kind → Prop) (refl : ∀ kind, related kind kind)
    (pointers : ∀ kind other, related kind other → related (pointer kind) (pointer other))
    (hdecl : declaration? decls decl.name = some decl)
    (same : related (ofType decls decl.type) (ofType decls (.named decl.name)))
    (text : String → String) (type : TypeExpr) :
    related (ofType decls (decl.expand text type)) (ofType decls type) := by
  induction type using TypeExpr.rec (motive_2 := fun _ => True) (motive_3 := fun _ => True) with
  | named name =>
    rw [TypeDecl.expand]
    split
    · next found => exact found ▸ same
    · exact refl _
  | pointer target ih => exact pointers _ _ ih
  | struct fields =>
    have compares := comparableWith_expand text (isComparable_named hdecl) (.struct fields)
    have equal : ofType decls (decl.expand text (.struct fields)) = ofType decls (.struct fields) :=
      congrArg (record none) compares
    exact equal ▸ refl _
  | _ => first | trivial | exact refl _

/-- An alias that does not run in a circle, declared for anything but a struct as it is written, has
the kind of what it is declared for, and any type has the kind that it has with the one in place of
the other.  An alias of a struct as it is written has the kind of a record of its own name; but for
the names of records putting the struct in its place still leaves all kinds as they are. -/
theorem ofType_alias (hdecl : declaration? decls decl.name = some decl)
    (isAlias : decl.isAlias = true) (plain : decl.typeParameters = none)
    (acyclic : ¬ Relation.TransGen (Resolves decls) decl.name decl.name) :
    ((∀ fields, decl.type ≠ .struct fields) →
        ofType decls (.named decl.name) = ofType decls decl.type ∧
        ∀ text type, ofType decls (decl.expand text type) = ofType decls type) ∧
      (∀ text type, (ofType decls (decl.expand text type)).unnamed = (ofType decls type).unnamed) ∧
      ∀ fields, decl.type = .struct fields → ∃ comparable,
        ofType decls decl.type = record none comparable ∧
        ofType decls (.named decl.name) = record (some decl.name) comparable := by
  have hkind := ofType_named hdecl plain acyclic
  refine ⟨fun other => ?_, ?_, fun fields htype => ?_⟩
  · rw [declaredKind_alias isAlias other] at hkind
    exact ⟨hkind, ofType_expand Eq (fun _ => rfl) (fun _ _ => congrArg pointer) hdecl hkind.symm⟩
  · refine ofType_expand (fun kind other => kind.unnamed = other.unnamed) (fun _ => rfl)
      (fun _ _ => congrArg pointer) hdecl ?_
    rw [hkind, declaredKind_unnamed]
  · refine ⟨isComparable decls [] decl.type, ?_, ?_⟩
    · rw [htype]
      rfl
    · rw [hkind, htype]
      unfold declaredKind
      rw [htype]
      rfl

/-- An alias of an alias, over a pointer to a record that cannot be compared. -/
def renamed : List TypeDecl :=
  let tags := TypeExpr.struct [⟨["Tags"], false, .slice (.named "string"), none, [], ⟨4, 3⟩⟩]
  [⟨"Here", none, true, .named "Home", [], ⟨1, 6⟩⟩,
    ⟨"Home", none, true, .pointer (.named "Place"), [], ⟨2, 6⟩⟩,
    ⟨"Place", none, false, tags, [], ⟨3, 6⟩⟩]

/-- A rank for its names, by which a declaration is above the names that it refers to. -/
def renamedRank (name : String) : Nat :=
  if name = "Here" then 3 else if name = "Home" then 2 else if name = "Place" then 1 else 0

theorem ofType_alias_chain :
    ∃ decl, declaration? renamed "Here" = some decl ∧
      (∀ name, ¬ Relation.TransGen (Refers renamed) name name) ∧
      ofType renamed (.named "Here") = ofType renamed (.named "Home") ∧
      (∀ text type, ofType renamed (decl.expand text type) = ofType renamed type) ∧
      ofType renamed (.named "Here") = .pointer (.record (some "Place") false) := by
  have acyclic : ∀ name, ¬ Relation.TransGen (Refers renamed) name name :=
    refers_acyclic_of_rank renamedRank (by decide)
  have resolves : ¬ Relation.TransGen (Resolves renamed) "Here" "Here" := fun circle =>
    acyclic _ (Relation.TransGen.mono (fun _ _ => Resolves.refers) _ _ circle)
  have hdecl : declaration? renamed renamed[0].name = some renamed[0] := rfl
  obtain ⟨same, everywhere⟩ := (ofType_alias hdecl rfl rfl resolves).1 nofun
  exact ⟨renamed[0], rfl, acyclic, same, everywhere, by decide +kernel⟩

/-- An alias of a struct as it is written, with nothing that it refers to declared, has another kind
than the struct. -/
theorem ofType_alias_struct :
    ∃ decl : TypeDecl, decl.isAlias = true ∧ decl.typeParameters = none ∧
      declaration? [decl] decl.name = some decl ∧
      (∀ name, ¬ Relation.TransGen (Refers [decl]) name name) ∧
      ofType [decl] (.named decl.name) ≠ ofType [decl] decl.type := by
  let decl : TypeDecl :=
    ⟨"A", none, true, .struct [⟨["X"], false, .named "int", none, [], ⟨2, 19⟩⟩], [], ⟨2, 6⟩⟩
  have acyclic : ∀ name, ¬ Relation.TransGen (Refers [decl]) name name :=
    refers_acyclic_of_rank (fun name => if name = "A" then 1 else 0) (by decide)
  exact ⟨decl, rfl, rfl, rfl, acyclic, by decide +kernel⟩

end Kind
end FieldRules
