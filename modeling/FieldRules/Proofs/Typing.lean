/-
Checks of compiled plans are well typed.

What an argument may be is said by `Fits` for one value of a kind and by `Takes` for
the argument of a rule; typing an argument gives nothing else (`typeArgument_takes`).
A value of the kind that is a number, if it is a float, has an order to every value
that fits the kind, in double precision and in single (`order_isSome`,
`order_single_isSome`).  So rules that compare never meet a case without an answer:
of two opposite rules exactly one is broken, and rules that say the same are broken
together (`Coheres`).
-/
import FieldRules.Proofs.Agreement
import FieldRules.Proofs.Doubles
import FieldRules.Proofs.Places

namespace FieldRules

open Go Text

/-! ### Arguments -/

/-- The values that may stand as an argument for a field of a kind. -/
inductive Literal.Fits : Kind → Literal → Prop where
  | integer {min max value : Int} : min ≤ value → value ≤ max →
      Fits (.integer min max) (.int value)
  | float {bits : Nat} {value : Float} : value.isFinite = true →
      (bits = 32 → value.abs ≤ Number.singleMax) → Fits (.float bits) (.float value)
  | text {value : String} : isAllBlank value.toList = false → Fits .text (.text value)

/-- The arguments that a rule takes on a field of a kind. -/
inductive Rule.Takes (rule : Rule) (kind : Kind) : Option Literal → Prop where
  | nothing : rule.argumentShape = .none → Takes rule kind none
  | scalar {item : Literal} : rule.argumentShape = .fieldTyped → item.Fits kind →
      Takes rule kind (some item)
  | count (n : Nat) : rule.argumentShape = .count → Takes rule kind (some (.count n))
  | list {items : List Literal} : rule.argumentShape = .list → items ≠ [] →
      (∀ item ∈ items, item.Fits kind) → Takes rule kind (some (.list items))

namespace Text

/-- A word is not blank. -/
theorem isAllBlank_of_mem_words {cs word : List Char} (h : word ∈ words cs) :
    isAllBlank word = false := by
  obtain ⟨hpiece, hne⟩ := List.mem_filter.1 h
  cases word with
  | nil => cases hne
  | cons c word =>
    have visible := splitAt_pieces hpiece c List.mem_cons_self
    rw [isAllBlank, List.all_cons, visible, Bool.false_and]

end Text

namespace Rule

theorem integer_fits {raw : List Char} {min max : Int} {item : Literal}
    (h : Argument.integer raw min max = .ok item) : item.Fits (.integer min max) := by
  unfold Argument.integer at h
  split at h
  · cases h
  · split at h
    · cases h
    · next within =>
      cases h
      rw [not_or, Int.not_lt, Int.not_lt] at within
      exact .integer within.1 within.2

theorem float_fits {raw : List Char} {bits : Nat} {item : Literal}
    (h : Argument.float raw bits = .ok item) : item.Fits (.float bits) := by
  unfold Argument.float at h
  split at h
  · cases h
  · next value _ =>
    split at h
    · cases h
    · next within =>
      split at h
      · next finite =>
        cases h
        refine .float finite fun single => ?_
        have number := Number.isNaN_of_isFinite finite
        refine Number.le_of_not_lt (Number.isNaN_abs number) (by decide +kernel) fun above => ?_
        exact within (by rw [single, decide_eq_true above]; rfl)
      · cases h

theorem scalar_fits {kind : Kind} {raw : List Char} {item : Literal}
    (h : Argument.scalar kind raw = .ok item) (filled : isAllBlank raw = false) :
    item.Fits kind := by
  cases kind with
  | integer min max => exact integer_fits h
  | float bits => exact float_fits h
  | text =>
    cases h
    exact .text (by rw [String.toList_ofList]; exact filled)
  | _ => cases h

theorem present_takes {rule : Rule} {raw : List Char} {kind : Kind} {argument : Option Literal}
    (h : Argument.present rule raw kind = .ok argument) : rule.Takes kind argument := by
  unfold Argument.present at h
  split at h
  · cases h
  next filled =>
  have filled : isAllBlank raw = false := Bool.eq_false_iff.2 filled
  split at h
  · cases h
  · next shape =>
    obtain ⟨item, hitem, rfl⟩ := map_ok h
    exact .scalar shape (scalar_fits hitem filled)
  · next shape =>
    obtain ⟨item, hitem, rfl⟩ := map_ok h
    unfold Argument.count at hitem
    split at hitem <;> cases hitem
    exact .count _ shape
  · next shape =>
    obtain ⟨items, hitems, rfl⟩ := map_ok h
    obtain ⟨hne, typed⟩ := scalars_ok hitems
    refine .list shape (hne (words_ne_nil filled)) fun item hitem => ?_
    obtain ⟨word, hword, hscalar⟩ := typed item hitem
    exact scalar_fits hscalar (isAllBlank_of_mem_words hword)

/-- What comes of typing an argument, a rule takes on fields of the kind. -/
theorem typeArgument_takes {rule : Rule} {raw : Option String} {kind : Kind}
    {argument : Option Literal} (h : typeArgument rule raw kind = .ok argument) :
    rule.Takes kind argument := by
  unfold typeArgument at h
  split at h
  · next shape =>
    cases h
    exact .nothing shape
  · cases h
  · cases h
  · exact present_takes h

end Rule

/-! ### Comparisons -/

/-- Whether a value is a float that is no number. -/
def Value.isNaN : Value → Bool
  | .float value => value.isNaN
  | _ => false

namespace Rule

/-- A value of the kind has an order to an argument for the kind. -/
theorem order_isSome {kind : Kind} {item : Literal} {value : Value} (fits : item.Fits kind)
    (conforms : value.conforms kind = true) (number : value.isNaN = false) :
    (order value item).isSome = true := by
  cases fits with
  | integer hmin hmax =>
    cases value with
    | int v => rfl
    | _ => cases conforms
  | float finite within =>
    have defined := Number.isNaN_of_isFinite finite
    cases value with
    | int v => exact orderFloats_isSome (Number.isNaN_ofInteger v) defined
    | float v => exact orderFloats_isSome number defined
    | _ => cases conforms
  | text filled =>
    cases value with
    | text s => rfl
    | _ => cases conforms

/-- Both rounded to single precision have an order as well. -/
theorem order_single_isSome {bits : Nat} {item : Literal} {value : Value}
    (fits : item.Fits (.float bits)) (conforms : value.conforms (.float bits) = true)
    (number : value.isNaN = false) : (order value.toSingle item.toSingle).isSome = true := by
  cases fits with
  | float finite within =>
    have defined := Number.isNaN_toSingle (Number.isNaN_of_isFinite finite)
    cases value with
    | int v => exact orderFloats_isSome (Number.isNaN_ofIntegerSingle v) defined
    | float v => exact orderFloats_isSome (Number.isNaN_toSingle number) defined
    | _ => cases conforms

/-- What a rule that counts is asked for on, holds text. -/
theorem text_of_counted {rule : Rule} {kind : Kind} {value : Value}
    (shape : rule.argumentShape = .count) (accepted : rule.accepts kind = true)
    (conforms : value.conforms kind = true) : ∃ s, value = .text s := by
  have text : kind = .text := by
    cases rule with
    | length | minLength | maxLength => exact eq_of_beq accepted
    | _ => cases shape
  rw [text] at conforms
  cases value with
  | text s => exact ⟨s, rfl⟩
  | _ => cases conforms

/-- How rules stand to each other on one value and argument: the comparison has an answer, exactly
one of two opposite rules is broken, a length is wrong where it is too small or too great, and
a value is not listed where it equals no item. -/
structure Coheres (rule : Rule) (value : Value) (argument : Option Literal) : Prop where
  compared : rule.argumentShape = .fieldTyped →
    ∃ item, argument = some item ∧ (order value item).isSome = true
  eq_ne : rule.argumentShape = .fieldTyped → eq.violated value argument = !ne.violated value argument
  gte_lt : rule.argumentShape = .fieldTyped →
    gte.violated value argument = !lt.violated value argument
  lte_gt : rule.argumentShape = .fieldTyped →
    lte.violated value argument = !gt.violated value argument
  length : rule.argumentShape = .count → length.violated value argument =
    (minLength.violated value argument || maxLength.violated value argument)
  enum : rule.argumentShape = .list → ∃ items, argument = some (.list items) ∧
    (∀ item ∈ items, (order value item).isSome = true) ∧
    enum.violated value argument = items.all fun item => eq.violated value (some item)

theorem coheres_scalar {rule : Rule} {value : Value} {item : Literal}
    (shape : rule.argumentShape = .fieldTyped) (ordered : (order value item).isSome = true) :
    rule.Coheres value (some item) := by
  obtain ⟨o, ho⟩ := Option.isSome_iff_exists.1 ordered
  have opposite : eq.violated value (some item) = (!ne.violated value (some item)) ∧
      gte.violated value (some item) = (!lt.violated value (some item)) ∧
      lte.violated value (some item) = (!gt.violated value (some item)) := by
    simp only [violated, Option.bind_some, ho]
    cases o <;> decide
  constructor
  case compared => exact fun _ => ⟨item, rfl, ordered⟩
  case eq_ne => exact fun _ => opposite.1
  case gte_lt => exact fun _ => opposite.2.1
  case lte_gt => exact fun _ => opposite.2.2
  all_goals
    intro other
    rw [shape] at other
    cases other

theorem coheres_count {rule : Rule} {s : String} {n : Nat} (shape : rule.argumentShape = .count) :
    rule.Coheres (.text s) (some (.count n)) := by
  have lengths : length.violated (.text s) (some (.count n)) =
      (minLength.violated (.text s) (some (.count n)) ||
        maxLength.violated (.text s) (some (.count n))) := by
    rw [violated_count rfl rfl, violated_count rfl rfl, violated_count rfl rfl, Bool.eq_iff_iff]
    simp only [Comparison.ofInts, Bool.or_eq_true, bne_iff_ne, decide_eq_true_iff]
    omega
  constructor
  case length => exact fun _ => lengths
  all_goals
    intro other
    rw [shape] at other
    cases other

theorem coheres_list {rule : Rule} {value : Value} {items : List Literal}
    (shape : rule.argumentShape = .list)
    (ordered : ∀ item ∈ items, (order value item).isSome = true) :
    rule.Coheres value (some (.list items)) := by
  constructor
  case enum => exact fun _ => ⟨items, rfl, ordered, violated_enum value items⟩
  all_goals
    intro other
    rw [shape] at other
    cases other

theorem toSingleItems_eq (items : List Literal) :
    Literal.toSingleItems items = items.map Literal.toSingle := by
  induction items with
  | nil => rfl
  | cons item items ih => rw [Literal.toSingleItems, ih, List.map_cons]

theorem coheres_nothing {rule : Rule} (value : Value) (shape : rule.argumentShape = .none) :
    rule.Coheres value none := by
  constructor <;>
  · intro other
    rw [shape] at other
    cases other

/-- On what a rule takes, rules stand to each other as they should, for every value of the kind that
is a number if it is a float. -/
theorem Takes.coheres {rule : Rule} {kind : Kind} {argument : Option Literal}
    (takes : rule.Takes kind argument) (accepted : rule.accepts kind = true) {value : Value}
    (conforms : value.conforms kind = true) (number : value.isNaN = false) :
    rule.Coheres value argument := by
  cases takes with
  | nothing shape => exact coheres_nothing value shape
  | scalar shape fits => exact coheres_scalar shape (order_isSome fits conforms number)
  | count n shape =>
    obtain ⟨s, rfl⟩ := text_of_counted shape accepted conforms
    exact coheres_count shape
  | list shape _ fits =>
    exact coheres_list shape fun item hitem => order_isSome (fits item hitem) conforms number

/-- So they do once both sides are rounded to single precision. -/
theorem Takes.coheres_single {rule : Rule} {bits : Nat} {argument : Option Literal}
    (takes : rule.Takes (.float bits) argument) (accepted : rule.accepts (.float bits) = true)
    {value : Value} (conforms : value.conforms (.float bits) = true)
    (number : value.isNaN = false) :
    rule.Coheres value.toSingle (argument.map Literal.toSingle) := by
  cases takes with
  | nothing shape => exact coheres_nothing value.toSingle shape
  | scalar shape fits =>
    exact coheres_scalar shape (order_single_isSome fits conforms number)
  | count n shape =>
    obtain ⟨s, rfl⟩ := text_of_counted shape accepted conforms
    cases conforms
  | list shape _ fits =>
    rw [Option.map_some, Literal.toSingle, toSingleItems_eq]
    refine coheres_list shape fun item hitem => ?_
    obtain ⟨original, horiginal, rfl⟩ := List.mem_map.1 hitem
    exact order_single_isSome (fits original horiginal) conforms number

end Rule

/-! ### Compiled checks -/

namespace CompiledUnit

/-- Every check of a compiled plan is well typed: its rule may be asked for on the kind of its
field, and its argument is one that the rule takes there.  So on every value of the kind that is a
number, if it is a float, what is compared has an order, and the rules that compare stand to each
other as they should, on a field of single precision also with both sides rounded. -/
theorem compile_typed {options : Emission.Options} {sourceName source : String}
    {unit : CompiledUnit} (compiled : compile options sourceName source = .ok unit) {plan : Plan}
    (hplan : plan ∈ unit.plans) {check : Check} (hcheck : check ∈ plan.checks) :
    check.rule.accepts check.kind = true ∧ check.rule.Takes check.kind check.argument ∧
      ∀ value : Value, value.conforms check.kind = true → value.isNaN = false →
        check.rule.Coheres value check.argument ∧
        (check.kind = .float 32 →
          check.rule.Coheres value.toSingle (check.argument.map Literal.toSingle)) := by
  obtain ⟨file, -, rfl⟩ := compile_eq_ok.1 compiled
  obtain ⟨-, -, -, -, -, -, -, -, accepted, raw, typed⟩ := Plan.mem_ofFile_checks hplan hcheck
  have takes := Rule.typeArgument_takes typed
  refine ⟨accepted, takes, fun value conforms number => ?_⟩
  refine ⟨takes.coheres accepted conforms number, fun single => ?_⟩
  rw [single] at takes accepted conforms
  exact takes.coheres_single accepted conforms number

/-- A source with a list of numbers for a field of single precision. -/
def discounts : String :=
  "package p
  type Offer struct \x7b
    // +govalid:enum=0.1 25 -1e-3
    Discount float32
  \x7d
  "

set_option maxRecDepth 4000 in
theorem compile_typed_discounts :
    ∃ unit, compile .default "a.go" discounts = .ok unit ∧
      ∃ plan ∈ unit.plans, ∃ check ∈ plan.checks, check.rule = .enum ∧ check.kind = .float 32 ∧
        check.rule.accepts check.kind = true ∧ check.rule.Takes check.kind check.argument ∧
        ((Value.float 0.1).conforms check.kind = true ∧ (Value.float 0.1).isNaN = false) ∧
        check.rule.Coheres (.float 0.1) check.argument ∧
        check.rule.Coheres (Value.float 0.1).toSingle (check.argument.map Literal.toSingle) := by
  obtain ⟨file, parsed, facts⟩ := exists_parse (rfl : discounts = _)
    (p := fun file => (Plan.ofFile file).1.any fun plan => plan.checks.any fun check =>
      check.rule == .enum && check.kind == .float 32)
    (by decide +kernel)
  have compiled : compile .default "a.go" discounts = _ := compile_of_parse parsed
  obtain ⟨plan, hplan, facts⟩ := List.any_eq_true.1 facts
  obtain ⟨check, hcheck, facts⟩ := List.any_eq_true.1 facts
  rw [Bool.and_eq_true, beq_iff_eq, beq_iff_eq] at facts
  have conforms : (Value.float 0.1).conforms check.kind = true := by rw [facts.2]; rfl
  have number : (Value.float 0.1).isNaN = false := by decide +kernel
  obtain ⟨accepted, takes, coheres⟩ := compile_typed compiled hplan hcheck
  obtain ⟨plain, rounded⟩ := coheres _ conforms number
  exact ⟨_, compiled, plan, hplan, check, hcheck, facts.1, facts.2, accepted, takes,
    ⟨conforms, number⟩, plain, rounded facts.2⟩

end CompiledUnit
end FieldRules
