/-
The condition of a check is true exactly where the check is broken.

Emitted expressions are put together from operands (`HasValue`), tests
(`IsDecided`) and rows of tests (`AreJoined`); each of the three says what a
rendered expression evaluates to.  The condition of a check compares the other
way round than its rule (`opposite?`).  What arguments a rule has on the kinds
that are compared here is said by `Suits`, and the cases of `Suits` are the cases
of `condition_meaning`.
-/
import FieldRules.Argument
import FieldRules.Emission.Condition
import FieldRules.Proofs.Instances
import FieldRules.Proofs.Reading

namespace FieldRules
namespace Emission

open Go

theorem selection_render (names : List String) (e : Expr) :
    (names.foldl Expr.select e).render = selection e.render names := by
  induction names generalizing e with
  | nil => rfl
  | cons name names ih => exact ih (e.select name)

theorem isOperand_field {path : FieldPath}
    (hnames : ∀ name ∈ path.segments, isName name.toList = true) :
    IsOperand (fieldExpr path).render (.path ("t" :: path.segments)) := by
  rw [fieldExpr, selection_render]
  exact IsOperand.path (by decide +kernel) hnames

theorem fieldExpr_head (path : FieldPath) :
    ∀ c ∈ (fieldExpr path).render.toList.head?, isOperatorChar c = false := by
  obtain ⟨tail, htail⟩ := selection_toList subject.render path.segments
  rw [fieldExpr, selection_render, htail]
  intro c hc
  cases hc
  decide

end Emission

namespace Go

/-! ### Values of rendered expressions -/

variable {memory : List String → Option Datum} {e left right : Expr} {value a b : Datum}
  {truth : Bool}

/-- The expression is read as an operand of some value. -/
def HasValue (memory : List String → Option Datum) (e : Expr) (value : Datum) : Prop :=
  ∃ t, IsOperand e.render t ∧ t.eval memory = some value

/-- The expression is read as a test that is true or false. -/
def IsDecided (memory : List String → Option Datum) (e : Expr) (truth : Bool) : Prop :=
  ∃ t, IsTest e.render t ∧ t.eval memory = some (.bool truth)

/-- What some tests joined by `&&` come to; behind the first that is false they need no values. -/
inductive AreJoined (memory : List String → Option Datum) : List Expr → Bool → Prop where
  | nil : AreJoined memory [] true
  | more {test : Expr} {tests : List Expr} {truth : Bool} : IsDecided memory test true →
      AreJoined memory tests truth → AreJoined memory (test :: tests) truth
  | stop {test : Expr} {tests : List Expr} : IsDecided memory test false →
      (∀ other ∈ tests, ∃ t, IsTest other.render t) → AreJoined memory (test :: tests) false

namespace HasValue

theorem decided (h : HasValue memory e (.bool truth)) : IsDecided memory e truth := by
  obtain ⟨t, hread, hvalue⟩ := h
  exact ⟨t, hread.test, hvalue⟩

theorem compare (h : HasValue memory left a) (h' : HasValue memory right b) (c : Comparison)
    (hc : Datum.compare c a b = some truth) : IsDecided memory (.compare c left right) truth := by
  obtain ⟨t, hread, hvalue⟩ := h
  obtain ⟨u, hread', hvalue'⟩ := h'
  refine ⟨.compare c t u, hread.compare hread' c, ?_⟩
  rw [Term.eval, hvalue, hvalue']
  show (Datum.compare c a b).map Datum.bool = _
  rw [hc]
  rfl

theorem not (h : HasValue memory e (.bool truth))
    (ends : ∀ c ∈ e.render.toList.head?, isOperatorChar c = false) :
    HasValue memory (.not e) (.bool !truth) := by
  obtain ⟨t, hread, hvalue⟩ := h
  refine ⟨.not t, hread.not ends, ?_⟩
  rw [Term.eval, hvalue]

/-- A conversion to the plain string type. -/
theorem string {s : String} (h : HasValue memory e (.text s)) :
    HasValue memory (.call (.name "string") [e]) (.text s) := by
  obtain ⟨t, hread, hvalue⟩ := h
  have called := IsOperand.call "string" [] (by decide +kernel) (fun _ hn => nomatch hn)
    hread.test.whole
  refine ⟨_, called, ?_⟩
  rw [Term.eval, hvalue]

theorem runes {s : String} (h : HasValue memory e (.text s)) :
    HasValue memory (.call (.qualified .utf8 "RuneCountInString") [e]) (.int s.toList.length) := by
  obtain ⟨t, hread, hvalue⟩ := h
  have called := IsOperand.call "utf8" ["RuneCountInString"] (by decide +kernel)
    (fun n hn => by rw [List.mem_singleton.1 hn]; decide +kernel) hread.test.whole
  refine ⟨_, called, ?_⟩
  rw [Term.eval, hvalue]

/-- A field of the record that is validated. -/
theorem field {path : FieldPath} (hnames : ∀ name ∈ path.segments, isName name.toList = true)
    (hvalue : memory path.segments = some value) :
    HasValue memory (Emission.fieldExpr path) value := by
  exact ⟨_, Emission.isOperand_field hnames, hvalue⟩

theorem int (v : Int) : HasValue memory (.literal (some (.int v))) (.int v) :=
  ⟨_, IsOperand.int v, rfl⟩

theorem count (n : Nat) : HasValue memory (.literal (some (.count n))) (.int n) :=
  ⟨_, IsOperand.count n, rfl⟩

theorem text (s : String) : HasValue memory (.literal (some (.text s))) (.text s) :=
  ⟨_, IsOperand.text s, rfl⟩

theorem nil : HasValue memory Emission.nil .nil := by
  have read : IsOperand (selection "nil" []) (.path ["nil"]) :=
    IsOperand.path (by decide +kernel) fun _ hn => nomatch hn
  exact ⟨_, read, rfl⟩

end HasValue

namespace AreJoined

variable {tests : List Expr}

theorem isWhole (ne : tests ≠ []) (h : ∀ test ∈ tests, ∃ t, IsTest test.render t) :
    ∃ t, IsWhole (Expr.renderList " && " tests) t := by
  induction tests with
  | nil => exact absurd rfl ne
  | cons test tests ih =>
    obtain ⟨t, hread⟩ := h test List.mem_cons_self
    cases tests with
    | nil => exact ⟨t, hread.whole⟩
    | cons next tests =>
      obtain ⟨u, hrest⟩ := ih (List.cons_ne_nil _ _) fun other ho =>
        h other (List.mem_cons_of_mem _ ho)
      exact ⟨.and t u, hread.and hrest⟩

theorem evaluated (ne : tests ≠ []) (h : AreJoined memory tests truth) :
    ∃ t, IsWhole (Expr.renderList " && " tests) t ∧ t.eval memory = some (.bool truth) := by
  induction h with
  | nil => exact absurd rfl ne
  | @more test tests truth hfirst hrest ih =>
    obtain ⟨t, hread, hvalue⟩ := hfirst
    cases tests with
    | nil =>
      cases hrest
      exact ⟨t, hread.whole, hvalue⟩
    | cons next tests =>
      obtain ⟨u, hreadRest, hvalueRest⟩ := ih (List.cons_ne_nil _ _)
      refine ⟨.and t u, hread.and hreadRest, ?_⟩
      simp only [Term.eval, hvalue, hvalueRest]
  | @stop test tests hfirst hothers =>
    obtain ⟨t, hread, hvalue⟩ := hfirst
    cases tests with
    | nil => exact ⟨t, hread.whole, hvalue⟩
    | cons next tests =>
      obtain ⟨u, hreadRest⟩ := isWhole (List.cons_ne_nil _ _) hothers
      refine ⟨.and t u, hread.and hreadRest, ?_⟩
      rw [Term.eval, hvalue]

/-- Where every test has a truth value, all of them are true or not. -/
theorem of_decided {α : Type} {test : α → Expr} {holds : α → Bool} {xs : List α}
    (h : ∀ x ∈ xs, IsDecided memory (test x) (holds x)) :
    AreJoined memory (xs.map test) (xs.all holds) := by
  induction xs with
  | nil => exact .nil
  | cons x xs ih =>
    have first := h x List.mem_cons_self
    have rest := fun y hy => h y (List.mem_cons_of_mem _ hy)
    rw [List.map_cons, List.all_cons]
    cases hx : holds x with
    | true =>
      rw [hx] at first
      exact .more first (ih rest)
    | false =>
      rw [hx] at first
      refine .stop first fun other ho => ?_
      obtain ⟨y, hy, rfl⟩ := List.mem_map.1 ho
      obtain ⟨t, hread, -⟩ := rest y hy
      exact ⟨t, hread⟩

theorem meaning (ne : tests ≠ []) (h : AreJoined memory tests truth) :
    meaning memory (Expr.all tests).render = some (.bool truth) := by
  obtain ⟨t, hread, hvalue⟩ := h.evaluated ne
  rw [Go.meaning, Expr.render, hread.ofText]
  exact hvalue

end AreJoined

theorem IsDecided.meaning (h : IsDecided memory e truth) :
    meaning memory e.render = some (.bool truth) := by
  obtain ⟨t, hread, hvalue⟩ := h
  rw [Go.meaning, hread.whole.ofText]
  exact hvalue

end Go
/-! ### Rules -/

/-- The kinds of which values are compared exactly. -/
def Kind.isPlain : Kind → Bool
  | integer _ _ => true
  | text => true
  | bool => true
  | pointer _ => true
  | _ => false

namespace Text

theorem exists_mem_splitAt {p : Char → Bool} {cs : List Char} {c : Char} (hc : c ∈ cs)
    (hp : p c = false) : ∃ piece ∈ splitAt p cs, c ∈ piece := by
  induction cs with
  | nil => cases hc
  | cons d cs ih =>
    unfold splitAt
    obtain ⟨first, rest, hsplit⟩ := List.exists_cons_of_ne_nil (splitAt_ne_nil p cs)
    rcases List.mem_cons.1 hc with rfl | hc
    · rw [hp, hsplit]
      exact ⟨c :: first, List.mem_cons_self, List.mem_cons_self⟩
    · obtain ⟨piece, hpiece, hmem⟩ := ih hc
      split
      · exact ⟨piece, List.mem_cons_of_mem _ hpiece, hmem⟩
      · rw [hsplit] at hpiece ⊢
        rcases List.mem_cons.1 hpiece with rfl | hpiece
        · exact ⟨d :: piece, List.mem_cons_self, List.mem_cons_of_mem _ hmem⟩
        · exact ⟨piece, List.mem_cons_of_mem _ hpiece, hmem⟩

/-- What is not all blank has a word. -/
theorem words_ne_nil {cs : List Char} (h : isAllBlank cs = false) : words cs ≠ [] := by
  obtain ⟨c, hc, hblank⟩ := List.all_eq_false.1 h
  obtain ⟨piece, hpiece, hmem⟩ := exists_mem_splitAt hc (Bool.eq_false_iff.2 hblank)
  have word : piece ∈ words cs := by
    refine List.mem_filter.2 ⟨hpiece, ?_⟩
    cases piece with
    | nil => cases hmem
    | cons d piece => rfl
  exact List.ne_nil_of_mem word

end Text

namespace Rule

open Go

/-- Whether the rule asks for text of some form. -/
def isFormat : Rule → Bool
  | email | uuid | ipv4 | ipv6 => true
  | _ => false

/-- The arguments that a rule without a form has on plain kinds. -/
inductive Suits : Rule → Kind → Option Literal → Prop where
  | required (kind : Kind) : Suits .required kind none
  | integer {rule : Rule} (min max value : Int) : rule.argumentShape = .fieldTyped →
      Suits rule (.integer min max) (some (.int value))
  | text {rule : Rule} (value : String) : rule = .eq ∨ rule = .ne →
      Suits rule .text (some (.text value))
  | count {rule : Rule} (n : Nat) : rule.argumentShape = .count →
      Suits rule .text (some (.count n))
  | integers (min max : Int) {items : List Literal} : items ≠ [] →
      (∀ item ∈ items, ∃ value, item = .int value) →
      Suits .enum (.integer min max) (some (.list items))
  | texts {items : List Literal} : items ≠ [] → (∀ item ∈ items, ∃ value, item = .text value) →
      Suits .enum .text (some (.list items))

theorem scalar_integer {raw : List Char} {min max : Int} {item : Literal}
    (h : Argument.scalar (.integer min max) raw = .ok item) : ∃ value, item = .int value := by
  have typed : Argument.integer raw min max = .ok item := h
  unfold Argument.integer at typed
  split at typed
  · cases typed
  · next value _ =>
    split at typed <;> cases typed
    exact ⟨value, rfl⟩

theorem map_ok {ε α β : Type} {x : Except ε α} {f : α → β} {b : β} (h : x.map f = .ok b) :
    ∃ a, x = .ok a ∧ f a = b := by
  cases x with
  | error e => cases h
  | ok a =>
    cases h
    exact ⟨a, rfl, rfl⟩

theorem scalars_ok {kind : Kind} {raws : List (List Char)} {items : List Literal}
    (h : Argument.scalars kind raws = .ok items) :
    (raws ≠ [] → items ≠ []) ∧
      ∀ item ∈ items, ∃ raw ∈ raws, Argument.scalar kind raw = .ok item := by
  induction raws generalizing items with
  | nil =>
    cases h
    exact ⟨fun hne => absurd rfl hne, fun item hitem => nomatch hitem⟩
  | cons raw raws ih =>
    rw [Argument.scalars] at h
    cases hfirst : Argument.scalar kind raw with
    | error e => rw [hfirst] at h; cases h
    | ok first =>
      rw [hfirst] at h
      obtain ⟨rest, hrest, rfl⟩ := map_ok h
      refine ⟨fun _ => List.cons_ne_nil _ _, fun item hitem => ?_⟩
      rcases List.mem_cons.1 hitem with rfl | hitem
      · exact ⟨raw, List.mem_cons_self, hfirst⟩
      · obtain ⟨other, hother, hitem⟩ := (ih hrest).2 item hitem
        exact ⟨other, List.mem_cons_of_mem _ hother, hitem⟩

theorem scalar_suits {rule : Rule} {kind : Kind} {raw : List Char} {item : Literal}
    (h : Argument.scalar kind raw = .ok item) (typed : rule.argumentShape = .fieldTyped)
    (accepted : rule.accepts kind = true) (plain : kind.isPlain = true) :
    Suits rule kind (some item) := by
  cases kind with
  | integer min max =>
    obtain ⟨value, rfl⟩ := scalar_integer h
    exact .integer min max value typed
  | text =>
    cases h
    refine .text _ ?_
    cases rule with
    | eq => exact Or.inl rfl
    | ne => exact Or.inr rfl
    | gte | lte | gt | lt => cases accepted
    | _ => cases typed
  | bool => cases h
  | pointer target => cases h
  | _ => cases plain

theorem count_suits {rule : Rule} {kind : Kind} {raw : List Char} {item : Literal}
    (h : Argument.count raw = .ok item) (counted : rule.argumentShape = .count)
    (accepted : rule.accepts kind = true) : Suits rule kind (some item) := by
  have text : kind = .text := by
    cases rule with
    | length | minLength | maxLength => exact eq_of_beq accepted
    | _ => cases counted
  unfold Argument.count at h
  split at h <;> cases h
  rw [text]
  exact .count _ counted

theorem scalars_suit {kind : Kind} {raws : List (List Char)} {items : List Literal}
    (h : Argument.scalars kind raws = .ok items) (ne : raws ≠ [])
    (accepted : Rule.enum.accepts kind = true) (plain : kind.isPlain = true) :
    Suits .enum kind (some (.list items)) := by
  obtain ⟨hne, typed⟩ := scalars_ok h
  cases kind with
  | integer min max =>
    refine .integers min max (hne ne) fun item hitem => ?_
    obtain ⟨raw, -, hraw⟩ := typed item hitem
    exact scalar_integer hraw
  | text =>
    refine .texts (hne ne) fun item hitem => ?_
    obtain ⟨raw, -, hraw⟩ := typed item hitem
    cases hraw
    exact ⟨_, rfl⟩
  | bool => cases accepted
  | pointer target => cases accepted
  | _ => cases plain

/-- What a marker of a rule on a field of a plain kind may take. -/
theorem typeArgument_suits {rule : Rule} {raw : Option String} {kind : Kind}
    {argument : Option Literal} (h : typeArgument rule raw kind = .ok argument)
    (accepted : rule.accepts kind = true) (plain : kind.isPlain = true)
    (formless : rule.isFormat = false) : Suits rule kind argument := by
  unfold typeArgument at h
  split at h
  · next hshape =>
    have required : rule = .required := by cases rule <;> trivial
    cases h
    rw [required]
    exact .required kind
  · cases h
  · cases h
  · next _ raw taken =>
    unfold Argument.present at h
    split at h
    · cases h
    next filled =>
    cases hshape : rule.argumentShape with
    | none => exact absurd hshape taken
    | fieldTyped =>
      rw [hshape] at h
      obtain ⟨item, hitem, rfl⟩ := map_ok h
      exact scalar_suits hitem hshape accepted plain
    | count =>
      rw [hshape] at h
      obtain ⟨item, hitem, rfl⟩ := map_ok h
      exact count_suits hitem hshape accepted
    | list =>
      rw [hshape] at h
      obtain ⟨items, hitems, rfl⟩ := map_ok h
      have enum : rule = .enum := by
        cases rule with
        | enum => rfl
        | _ => cases hshape
      have ne := Text.words_ne_nil (Bool.eq_false_iff.2 filled)
      subst enum
      exact scalars_suit hitems ne accepted plain

/-- The comparison that is true where the rule is broken. -/
def opposite? : Rule → Option Comparison
  | eq | length => some .notEqual
  | ne => some .equal
  | gte | minLength => some .less
  | lte | maxLength => some .greater
  | gt => some .lessEqual
  | lt => some .greaterEqual
  | _ => none

theorem opposite?_isSome {rule : Rule}
    (h : rule.argumentShape = .fieldTyped ∨ rule.argumentShape = .count) :
    ∃ c, opposite? rule = some c := by
  cases rule <;> first | exact ⟨_, rfl⟩ | (rcases h with h | h <;> cases h)

theorem violated_int (rule : Rule) {c : Comparison} (hc : opposite? rule = some c)
    (typed : rule.argumentShape = .fieldTyped) (v l : Int) :
    rule.violated (.int v) (some (.int l)) = c.ofInts v l := by
  have hlt : compare v l = .lt ↔ v < l := Int.compare_eq_lt
  have heq : compare v l = .eq ↔ v = l := Int.compare_eq_eq
  have hgt : compare v l = .gt ↔ l < v := Int.compare_eq_gt
  cases rule <;> cases hc <;> cases typed <;> rw [Bool.eq_iff_iff] <;>
    simp only [violated, order, Option.bind_some, Comparison.ofInts, bne_iff_ne, beq_iff_eq, ne_eq,
      Option.some.injEq, Bool.or_eq_true, decide_eq_true_iff, hlt, heq, hgt] <;> omega

theorem violated_count {rule : Rule} {c : Comparison} (hc : opposite? rule = some c)
    (counted : rule.argumentShape = .count) (s : String) (n : Nat) :
    rule.violated (.text s) (some (.count n)) = c.ofInts s.toList.length n := by
  cases rule <;> cases hc <;> cases counted <;> rw [Bool.eq_iff_iff] <;>
    simp only [violated, characters?, count?, Value.text?, Option.map_some, Comparison.ofInts,
      bne_iff_ne, ne_eq, Option.some.injEq, decide_eq_true_iff] <;> omega

theorem order_text (s l : String) : (order (.text s) (.text l) == some .eq) = (s == l) := by
  have written : order (.text s) (.text l) = some (orderTexts s l) := rfl
  rw [written]
  unfold orderTexts
  by_cases h : s = l
  · simp [h]
  · by_cases before : s < l <;> simp [h, before]

theorem violated_text (rule : Rule) {c : Comparison} (hc : opposite? rule = some c)
    (unordered : rule = .eq ∨ rule = .ne) (s l : String) :
    c.ofEquality (s == l) = some (rule.violated (.text s) (some (.text l))) := by
  rcases unordered with rfl | rfl
  · cases hc
    show some (!(s == l)) = some (!(order (.text s) (.text l) == some .eq))
    rw [order_text]
  · cases hc
    show some (s == l) = some (order (.text s) (.text l) == some .eq)
    rw [order_text]

theorem violated_enum (value : Value) (items : List Literal) :
    Rule.violated .enum value (some (.list items)) =
      items.all fun item => order value item != some .eq := by
  show (!items.any fun item => order value item == some .eq) = _
  rw [List.not_any_eq_all_not]
  rfl

end Rule

/-! ### Conditions -/

namespace Emission

open Go Rule Validator

variable {memory : List String → Option Datum} {check : Check} {value : Value}

theorem textExpr_value {s : String}
    (hnames : ∀ name ∈ check.path.segments, isName name.toList = true)
    (hread : memory check.path.segments = some (.text s)) :
    HasValue memory (textExpr check) (.text s) := by
  unfold textExpr
  split
  · exact .field hnames hread
  · exact (HasValue.field hnames hread).string

theorem zeroTest_decided (required : check.rule = .required) (plain : check.kind.isPlain = true)
    (conforms : value.conforms check.kind = true)
    (hnames : ∀ name ∈ check.path.segments, isName name.toList = true)
    (hread : memory check.path.segments = Datum.ofValue check.kind value) :
    IsDecided memory (zeroTest check) (broken check value) := by
  obtain ⟨path, guards, rule, argument, kind, goType, position, delegate⟩ := check
  cases required
  cases kind with
  | integer min max =>
    cases value with
    | int v => exact (HasValue.field hnames hread).compare (.int 0) .equal rfl
    | _ => cases conforms
  | text =>
    cases value with
    | text s => exact (HasValue.field hnames hread).compare (.text "") .equal rfl
    | _ => cases conforms
  | bool =>
    cases value with
    | bool b => exact ((HasValue.field hnames hread).not (fieldExpr_head path)).decided
    | _ => cases conforms
  | pointer target =>
    cases value with
    | null => exact (HasValue.field hnames hread).compare .nil .equal rfl
    | _ => exact (HasValue.field hnames hread).compare .nil .equal rfl
  | _ => cases plain

theorem broken_eq (other : check.rule ≠ .required) (plain : check.kind.isPlain = true) :
    broken check value = check.rule.violated value check.argument := by
  unfold broken
  split
  · next h _ => exact absurd h other
  · next h =>
    rw [h] at plain
    cases plain
  · rfl

theorem condition_typed {c : Comparison} (hc : opposite? check.rule = some c)
    (typed : check.rule.argumentShape = .fieldTyped) (record : String) :
    condition record check = compareField c check := by
  unfold condition
  cases hrule : check.rule <;> rw [hrule] at hc typed <;> cases hc <;> cases typed <;> rfl

theorem condition_counted {c : Comparison} (hc : opposite? check.rule = some c)
    (counted : check.rule.argumentShape = .count) (record : String) :
    condition record check = compareLength c check := by
  unfold condition
  cases hrule : check.rule <;> rw [hrule] at hc counted <;> cases hc <;> cases counted <;> rfl

/-- The condition of `enum` is true where no item equals the value. -/
theorem unlisted_meaning {items : List Literal} (ne : items ≠ [])
    (hargument : check.argument = some (.list items))
    (h : ∀ item ∈ items, IsDecided memory
      (.compare .notEqual (fieldExpr check.path) (.literal (some item)))
      (order value item != some .eq)) :
    meaning memory (unlisted check).test.render =
      some (.bool (Rule.violated .enum value check.argument)) := by
  have joined := AreJoined.of_decided h
  rw [hargument, violated_enum]
  unfold unlisted
  rw [hargument]
  exact joined.meaning fun hnil => ne (List.map_eq_nil_iff.1 hnil)

/-- The condition of a check on a field is true exactly where the value of the field breaks it. -/
theorem condition_meaning (record : String)
    (suits : Suits check.rule check.kind check.argument) (plain : check.kind.isPlain = true)
    (conforms : value.conforms check.kind = true)
    (hnames : ∀ name ∈ check.path.segments, isName name.toList = true)
    (hread : memory check.path.segments = Datum.ofValue check.kind value) :
    meaning memory (condition record check).test.render =
      some (.bool (broken check value)) := by
  obtain ⟨path, guards, rule, argument, kind, goType, position, delegate⟩ := check
  have field {datum : Datum} (hdatum : Datum.ofValue kind value = some datum) :
      HasValue memory (fieldExpr path) datum := .field hnames (hread.trans hdatum)
  cases suits with
  | required kind => exact (zeroTest_decided rfl plain conforms hnames hread).meaning
  | integer min max l typed =>
    cases value with
    | int v =>
      obtain ⟨c, hc⟩ := opposite?_isSome (Or.inl typed)
      have decided := (field rfl).compare (.int l) c rfl
      have other : rule ≠ .required := by rintro rfl; cases typed
      rw [broken_eq other plain, violated_int rule hc typed, condition_typed hc typed]
      exact decided.meaning
    | _ => cases conforms
  | text l unordered =>
    cases value with
    | text s =>
      have typed : rule.argumentShape = .fieldTyped := by rcases unordered with rfl | rfl <;> rfl
      obtain ⟨c, hc⟩ := opposite?_isSome (Or.inl typed)
      have decided := (field rfl).compare (.text l) c (violated_text rule hc unordered s l)
      have other : rule ≠ .required := by rintro rfl; cases typed
      rw [broken_eq other plain, condition_typed hc typed]
      exact decided.meaning
    | _ => cases conforms
  | count n counted =>
    cases value with
    | text s =>
      obtain ⟨c, hc⟩ := opposite?_isSome (Or.inr counted)
      have decided := ((textExpr_value hnames hread).runes).compare (.count n) c rfl
      have other : rule ≠ .required := by rintro rfl; cases counted
      rw [broken_eq other plain, violated_count hc counted, condition_counted hc counted]
      exact decided.meaning
    | _ => cases conforms
  | integers min max ne whole =>
    cases value with
    | int v =>
      rw [broken_eq Rule.noConfusion plain]
      refine unlisted_meaning ne rfl fun item hitem => ?_
      obtain ⟨l, rfl⟩ := whole item hitem
      have differs : (order (.int v) (.int l) != some .eq) = Comparison.notEqual.ofInts v l :=
        violated_int .eq rfl rfl v l
      rw [differs]
      exact (field rfl).compare (.int l) .notEqual rfl
    | _ => cases conforms
  | texts ne quoted =>
    cases value with
    | text s =>
      rw [broken_eq Rule.noConfusion plain]
      refine unlisted_meaning ne rfl fun item hitem => ?_
      obtain ⟨l, rfl⟩ := quoted item hitem
      have differs : Comparison.notEqual.ofEquality (s == l) =
          some (order (.text s) (.text l) != some .eq) :=
        violated_text .eq rfl (Or.inl rfl) s l
      exact (field rfl).compare (.text l) .notEqual differs
    | _ => cases conforms

end Emission

end FieldRules
