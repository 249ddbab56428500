/-
What JSON becomes as a value.

There are no arrays in values.  Reading fails exactly on JSON with an array in it, at any
depth, with the names on the way to the first one in document order; without one, at every
path of the value stands what stands there in the JSON, or nothing in both
(`ofJson_shape`).  The way to where the reading stands can be kept in one place, where a
name is added before each member and taken off behind it: it is exact at every member,
whatever was read before (`run_readKeeping`).
-/
import FieldRules.Value
import Mathlib.Data.List.Forall2

namespace FieldRules

/-! ### Arrays in JSON -/

namespace Json

/-- An array stands somewhere in a value. -/
inductive HasArray : Json → Prop where
  | here (items : List Json) : HasArray (.array items)
  | member {members : List (String × Json)} {name : String} {json : Json} :
      (name, json) ∈ members → HasArray json → HasArray (.object members)

mutual

/-- What stands in a value, each with the names on the way to it, as one meets it in the document.
An array comes before its items, which have no names and are left out. -/
def nodes (path : List String) : Json → List (List String × Json)
  | .object members => (path, .object members) :: nodesOf path members
  | json => [(path, json)]

def nodesOf (path : List String) : List (String × Json) → List (List String × Json)
  | [] => []
  | (name, json) :: members => nodes (path ++ [name]) json ++ nodesOf path members

end

def isArray : Json → Bool
  | .array _ => true
  | _ => false

/-- The names on the way to the first of some nodes that is an array. -/
def arrayAmong? (nodes : List (List String × Json)) : Option (List String) :=
  (nodes.find? fun node => node.2.isArray).map (·.1)

/-- What stands at a path. -/
def at? (json : Json) : List String → Option Json
  | [] => some json
  | name :: names => (json.member? name).bind (·.at? names)

end Json

namespace Value

open Json

def at? (value : Value) : List String → Option Value
  | [] => some value
  | name :: names =>
    match value with
    | .record fields => (Record.get? fields name).bind (·.at? names)
    | _ => none

/-- A value says what JSON says, as far as one looks at its outside: a number is whole where it is a
whole number that fits into 64 bits with its sign, and a record has the names of the object. -/
inductive Mirrors : Json → Value → Prop where
  | null : Mirrors .null .null
  | bool (b : Bool) : Mirrors (.bool b) (.bool b)
  | text (s : String) : Mirrors (.text s) (.text s)
  | whole {i : Int} : -9223372036854775808 ≤ i → i ≤ 9223372036854775807 →
      Mirrors (.integer i) (.int i)
  | beyond {i : Int} : ¬ (-9223372036854775808 ≤ i ∧ i ≤ 9223372036854775807) →
      Mirrors (.integer i) (.float (Number.ofInteger i))
  | double (x : Float) : Mirrors (.double x) (.float x)
  | record {members : List (String × Json)} {fields : List (String × Value)} :
      members.map (·.1) = fields.map (·.1) → Mirrors (.object members) (.record fields)

/-! ### Where reading fails -/

/-- The path that a reading fails with. -/
def failure? {α : Type} : Except (List String) α → Option (List String)
  | .error path => some path
  | .ok _ => none

theorem failure?_map {α β : Type} (f : α → β) (reading : Except (List String) α) :
    failure? (reading.map f) = failure? reading := by
  cases reading <;> rfl

theorem arrayAmong?_append (before after : List (List String × Json)) :
    arrayAmong? (before ++ after) = (arrayAmong? before).or (arrayAmong? after) := by
  unfold arrayAmong?
  rw [List.find?_append, Option.map_or]

mutual

/-- Reading fails with the path of the first array there is, and only with that. -/
theorem failure?_ofJson (path : List String) (json : Json) :
    failure? (ofJson path json) = arrayAmong? (json.nodes path) := by
  match json with
  | .null | .bool _ | .integer _ | .double _ | .text _ | .array _ => rfl
  | .object members =>
    rw [ofJson, failure?_map, failure?_ofMembers path members]
    rfl

theorem failure?_ofMembers (path : List String) (members : List (String × Json)) :
    failure? (ofMembers path members) = arrayAmong? (nodesOf path members) := by
  match members with
  | [] => rfl
  | (name, json) :: members =>
    have first := failure?_ofJson (path ++ [name]) json
    rw [nodesOf, arrayAmong?_append, ← first, ← failure?_ofMembers path members, ofMembers]
    cases ofJson (path ++ [name]) json with
    | error found => rfl
    | ok value => rw [failure?_map]; rfl

end

mutual

/-- There is a first array exactly if there is an array. -/
theorem hasArray_iff (path : List String) (json : Json) :
    json.HasArray ↔ (arrayAmong? (json.nodes path)).isSome = true := by
  match json with
  | .null | .bool _ | .integer _ | .double _ | .text _ =>
    exact iff_of_false (fun h => by cases h) Bool.false_ne_true
  | .array items => exact iff_of_true (.here items) rfl
  | .object members =>
    have inside := hasArrayAmong_iff path members
    constructor
    · intro h
      cases h with
      | member found h => exact inside.1 ⟨_, found, h⟩
    · intro h
      obtain ⟨⟨name, json⟩, found, h⟩ := inside.2 h
      exact .member found h

theorem hasArrayAmong_iff (path : List String) (members : List (String × Json)) :
    (∃ member ∈ members, member.2.HasArray) ↔
      (arrayAmong? (nodesOf path members)).isSome = true := by
  match members with
  | [] => exact iff_of_false (fun h => by simp at h) Bool.false_ne_true
  | (name, json) :: members =>
    rw [nodesOf, arrayAmong?_append, Option.isSome_or, Bool.or_eq_true,
      ← hasArray_iff (path ++ [name]) json, ← hasArrayAmong_iff path members]
    simp

end

/-! ### What reading keeps -/

theorem mirrors_ofWhole (i : Int) : Mirrors (.integer i) (ofWhole i) := by
  unfold ofWhole
  split
  · next within => exact .whole within.1 within.2
  · next beyond => exact .beyond beyond

/-- Members are read one by one, under their names. -/
theorem ofMembers_names {members : List (String × Json)} {fields : List (String × Value)}
    (h : ofMembers path members = .ok fields) :
    List.Forall₂ (fun member field => member.1 = field.1 ∧
      ofJson (path ++ [member.1]) member.2 = .ok field.2) members fields := by
  induction members generalizing fields with
  | nil =>
    cases h
    exact .nil
  | cons member members ih =>
    obtain ⟨name, json⟩ := member
    rw [ofMembers] at h
    cases first : ofJson (path ++ [name]) json with
    | error found => rw [first] at h; cases h
    | ok value =>
      rw [first] at h
      cases later : ofMembers path members with
      | error found => rw [later] at h; cases h
      | ok fields =>
        rw [later] at h
        cases h
        exact .cons ⟨rfl, first⟩ (ih later)

theorem ofJson_object {members : List (String × Json)} {value : Value}
    (h : ofJson path (.object members) = .ok value) :
    ∃ fields, ofMembers path members = .ok fields ∧ value = .record fields := by
  rw [ofJson] at h
  cases read : ofMembers path members with
  | error found => rw [read] at h; cases h
  | ok fields =>
    rw [read] at h
    cases h
    exact ⟨fields, rfl, rfl⟩

/-- Under a name stands what was read there. -/
theorem get?_ofMembers {members : List (String × Json)} {fields : List (String × Value)}
    (h : ofMembers path members = .ok fields) (name : String) :
    Option.Rel (fun json value => ofJson (path ++ [name]) json = .ok value)
      (getMember? name members) (Record.get? fields name) := by
  unfold Record.get?
  have read := ofMembers_names h
  clear h
  induction read with
  | nil => exact .none
  | @cons member field members fields here _ ih =>
    obtain ⟨same, read⟩ := here
    unfold getMember?
    rw [← same]
    split
    · next found => exact .some (found ▸ read)
    · exact ih

theorem mirrors_of_ofJson {json : Json} {value : Value} (h : ofJson path json = .ok value) :
    Mirrors json value := by
  cases json with
  | array => cases h
  | null => cases h; exact .null
  | bool b => cases h; exact .bool b
  | integer i => cases h; exact mirrors_ofWhole i
  | double x => cases h; exact .double x
  | text s => cases h; exact .text s
  | object members =>
    obtain ⟨fields, read, rfl⟩ := ofJson_object h
    have same := (ofMembers_names read).imp fun _ _ h => h.1
    rw [← List.forall₂_map_right_iff, ← List.forall₂_map_left_iff, List.forall₂_eq_eq_eq] at same
    exact .record same

theorem rel_bind {α β γ δ : Type} {r : α → β → Prop} {s : γ → δ → Prop}
    {a : Option α} {b : Option β} {f : α → Option γ} {g : β → Option δ} (h : Option.Rel r a b)
    (next : ∀ x y, r x y → Option.Rel s (f x) (g y)) : Option.Rel s (a.bind f) (b.bind g) := by
  cases h with
  | none => exact .none
  | some h => exact next _ _ h

/-- At every path stands what stood there. -/
theorem at?_ofJson {json : Json} {value : Value} (h : ofJson path json = .ok value)
    (names : List String) : Option.Rel Mirrors (json.at? names) (value.at? names) := by
  induction names generalizing path json value with
  | nil => exact .some (mirrors_of_ofJson h)
  | cons name names ih =>
    have outside := mirrors_of_ofJson h
    cases outside with
    | record =>
      obtain ⟨fields, read, same⟩ := ofJson_object h
      cases same
      exact rel_bind (get?_ofMembers read name) fun json value h => ih h
    | _ => exact .none

/-! ### One path for the whole reading -/

/-- A reading that keeps the way to where it stands. -/
abbrev Keeping := ExceptT (List String) (StateM (List String))

theorem run_bind {α β : Type} (reading : Keeping α) (next : α → Keeping β) (path : List String) :
    (reading >>= next).run.run path =
      match reading.run.run path with
      | (.ok a, path) => (next a).run.run path
      | (.error found, path) => (.error found, path) := by
  rw [ExceptT.run_bind, StateT.run_bind]
  generalize reading.run.run path = ended
  obtain ⟨ended, path⟩ := ended
  cases ended <;> rfl

theorem run_modify (change : List String → List String) (path : List String) :
    (modify change : Keeping PUnit).run.run path = (.ok ⟨⟩, change path) := rfl

mutual

/-- Reads a value with one path, which a name is added to before each member and taken off behind
it. -/
def readKeeping : Json → Keeping Value
  | .null => pure null
  | .bool b => pure (bool b)
  | .integer i => pure (ofWhole i)
  | .double x => pure (float x)
  | .text s => pure (text s)
  | .array _ => do throw (← get)
  | .object members => do return record (← readMembersKeeping members)

def readMembersKeeping : List (String × Json) → Keeping (List (String × Value))
  | [] => pure []
  | (name, json) :: members => do
    modify (· ++ [name])
    let value ← readKeeping json
    modify List.dropLast
    let fields ← readMembersKeeping members
    return (name, value) :: fields

end

/-- How a reading ends that started at a path: there again, or where it failed. -/
def ending {α : Type} (path : List String) (reading : Except (List String) α) :
    Except (List String) α × List String :=
  (reading, (failure? reading).getD path)

mutual

/-- The path is that of the member at every member, and the one it was behind a whole reading. -/
theorem run_readKeeping (path : List String) (json : Json) :
    (readKeeping json).run.run path = ending path (ofJson path json) := by
  match json with
  | .null | .bool _ | .integer _ | .double _ | .text _ | .array _ => rfl
  | .object members =>
    have inside := run_readMembersKeeping path members
    rw [readKeeping, run_bind, inside, ofJson]
    cases ofMembers path members <;> rfl

theorem run_readMembersKeeping (path : List String) (members : List (String × Json)) :
    (readMembersKeeping members).run.run path = ending path (ofMembers path members) := by
  match members with
  | [] => rfl
  | (name, json) :: members =>
    have first := run_readKeeping (path ++ [name]) json
    have later := run_readMembersKeeping path members
    simp only [readMembersKeeping, run_bind, run_modify, first, ofMembers]
    cases ofJson (path ++ [name]) json with
    | error found => rfl
    | ok value =>
      simp only [ending, failure?, Option.getD_none, List.dropLast_concat, later]
      cases ofMembers path members <;> rfl

end

/-! ### What reading comes to -/

/-- What JSON is to be read as: an objection to its first array, with the names on the way to it, or
a value that says the same at every path. -/
inductive Answers (json : Json) : Except (List String) Value → Prop where
  | array {path : List String} : json.HasArray → arrayAmong? (json.nodes []) = some path →
      arrayMessage path = "at `" ++ String.intercalate "." path ++
        "`: arrays are not supported in record instances" →
      Answers json (.error path)
  | value {value : Value} : ¬ json.HasArray →
      (∀ names, Option.Rel Mirrors (json.at? names) (value.at? names)) → Answers json (.ok value)

/-- JSON with an array in it is refused, with the path of the first one, and other JSON becomes a
value of the same shape; and so it is read with one path that grows and shrinks. -/
theorem ofJson_shape (json : Json) :
    Answers json (ofJson [] json) ∧
      (readKeeping json).run.run [] = ending [] (ofJson [] json) := by
  refine ⟨?_, run_readKeeping [] json⟩
  have first := failure?_ofJson [] json
  have any := hasArray_iff [] json
  rw [← first] at any
  cases read : ofJson [] json with
  | error path =>
    rw [read] at first any
    exact .array (any.2 rfl) first.symm rfl
  | ok value =>
    rw [read] at any
    exact .value (fun h => Bool.false_ne_true (any.1 h)) (at?_ofJson read)

example : ofJson [] (.object [("a", .object [("x", .integer 1), ("y", .array [.array []])]),
    ("b", .array [])]) = .error ["a", "y"] := rfl

end Value
end FieldRules
