/-
Which doubles have an order.

Two doubles are compared as their unpacked forms are (`orderFloats_eq`).  Both ways
round the answer is the same (`compare_swap`), and there is one unless one of the
two is no number (`compare_isSome`).  Rounding makes no number out of what is none,
and none out of a number (`isNaN_toSingle`), so whole numbers and numbers of single
precision have an order as well.
-/
import FieldRules.Rule.Violation
import Mathlib

namespace FieldRules
namespace Number

open Float.Model

/-! ### Bits of numbers -/

variable {format : Format}

theorem isNaNBits_packComponents {sign : UnpackedFloat.Sign}
    {exponent : BitVec format.exponentBits}
    {mantissa : BitVec format.mantissaBitsWithoutImplicit} :
    UnpackedFloat.isNaNBits (UnpackedFloat.packComponents format sign exponent mantissa) =
      decide (exponent = -1#_ ∧ mantissa ≠ 0#_) := by
  rw [UnpackedFloat.isNaNBits, UnpackedFloat.unpackExponent_packComponents,
    UnpackedFloat.unpackMantissa_packComponents]

theorem isNaNBits_packedInfinity (sign : UnpackedFloat.Sign) :
    UnpackedFloat.isNaNBits (UnpackedFloat.packedInfinity format sign) = false := by
  rw [UnpackedFloat.packedInfinity, isNaNBits_packComponents, decide_eq_false_iff_not]
  exact fun h => h.2 rfl

theorem isNaNBits_exponent_zero {sign : UnpackedFloat.Sign}
    {mantissa : BitVec format.mantissaBitsWithoutImplicit} :
    UnpackedFloat.isNaNBits (UnpackedFloat.packComponents format sign 0#_ mantissa) = false := by
  rw [isNaNBits_packComponents, decide_eq_false_iff_not]
  intro h
  have width := BitVec.zero_eq_neg_one_iff.1 h.1
  exact absurd format.he (by omega)

/-- The bits of a number are not those of what is none. -/
theorem isNaNBits_pack {x : UnpackedFloat} (h : x.isNaN = false) :
    UnpackedFloat.isNaNBits (UnpackedFloat.pack format x) = false := by
  cases x with
  | notANumber => cases h
  | infinity sign => exact isNaNBits_packedInfinity sign
  | zero sign => exact isNaNBits_exponent_zero
  | finite sign mantissa exponent positive =>
    rw [UnpackedFloat.pack]
    split
    · exact isNaNBits_packedInfinity sign
    · next small =>
      split
      · -- The exponent is below the one that infinities and what is no number have.
        rw [isNaNBits_packComponents, decide_eq_false_iff_not]
        rintro ⟨top, -⟩
        have value := congrArg BitVec.toNat top
        rw [BitVec.neg_one_eq_allOnes, BitVec.toNat_allOnes, BitVec.toNat_ofNat,
          Nat.mod_eq_of_lt (by omega)] at value
        omega
      · exact isNaNBits_exponent_zero

theorem isNaN_unpack_pack (wide : 2 ≤ format.exponentBits) {x : UnpackedFloat}
    (h : x.isNaN = false) :
    (UnpackedFloat.unpack format (UnpackedFloat.pack format x)).isNaN = false := by
  rw [Bool.eq_false_iff, ne_eq,
    UnpackedFloat.isNaN_unpack_iff_of_valid UnpackedFloat.valid_pack wide]
  intro packed
  have bits : UnpackedFloat.isNaNBits (UnpackedFloat.pack format x) = false := isNaNBits_pack h
  rw [packed, UnpackedFloat.isNaNBits_packedNaN] at bits
  cases bits

/-! ### Rounding -/

theorem isNaN_round (sign : UnpackedFloat.Sign) (mantissa : Nat) (exponent : Int) :
    (UnpackedFloat.round format sign mantissa exponent).isNaN = false := by
  unfold UnpackedFloat.round UnpackedFloat.roundWithAccuracy
  simp only
  split <;> rfl

theorem isNaN_nearest (wide : 2 ≤ format.exponentBits) {x : UnpackedFloat}
    (h : x.isNaN = false) : (nearest format x).isNaN = false := by
  cases x with
  | finite sign mantissa exponent positive => exact isNaN_unpack_pack wide (isNaN_round ..)
  | _ => exact h

theorem isNaN_ofUnpacked {x : UnpackedFloat} (h : x.isNaN = false) :
    (ofUnpacked x).isNaN = false := by
  have rounded : (nearest .binary64 x).isNaN = false := isNaN_nearest (by decide) h
  exact isNaN_unpack_pack (by decide) (isNaN_unpack_pack (by decide) rounded)

theorem isNaN_toSingle {x : Float} (h : x.isNaN = false) : (toSingle x).isNaN = false :=
  isNaN_ofUnpacked (isNaN_nearest (by decide) h)

theorem isNaN_wholeNumber (i : Int) : (wholeNumber i).isNaN = false := by
  unfold wholeNumber
  split <;> rfl

theorem isNaN_ofInteger (i : Int) : (ofInteger i).isNaN = false :=
  isNaN_ofUnpacked (isNaN_wholeNumber i)

theorem isNaN_ofIntegerSingle (i : Int) : (ofIntegerSingle i).isNaN = false :=
  isNaN_ofUnpacked (isNaN_nearest (by decide) (isNaN_wholeNumber i))

theorem isNaN_abs {x : Float} (h : x.isNaN = false) : x.abs.isNaN = false := by
  have magnitude : x.toModel.unpack.abs.isNaN = false := by
    have unpacked : x.toModel.unpack.isNaN = false := h
    cases hx : x.toModel.unpack with
    | notANumber => rw [hx] at unpacked; cases unpacked
    | _ => rfl
  exact isNaN_unpack_pack (by decide) magnitude

theorem isNaN_of_isFinite {x : Float} (h : x.isFinite = true) : x.isNaN = false := by
  have finite : x.toModel.unpack.isFinite = true := h
  show x.toModel.unpack.isNaN = false
  cases hx : x.toModel.unpack with
  | notANumber => rw [hx] at finite; cases finite
  | _ => rfl

/-! ### Order -/

theorem compare_then_swap (n m : Int) (k l : Nat) :
    (compare m n).then (compare l k) = ((compare n m).then (compare k l)).swap := by
  rw [Ordering.swap_then, Int.compare_swap, Nat.compare_swap]

theorem compare_swap (x y : UnpackedFloat) : y.compare x = (x.compare y).map Ordering.swap := by
  rcases x with (_ | _) | _ | (_ | _) | ⟨_ | _, m, e, _⟩ <;>
    rcases y with (_ | _) | _ | (_ | _) | ⟨_ | _, l, d, _⟩
  case finite.negative.finite.negative =>
    exact congrArg (some ∘ Ordering.swap) (compare_then_swap e d m l)
  case finite.positive.finite.positive => exact congrArg some (compare_then_swap e d m l)
  all_goals rfl

/-- Two numbers have an order. -/
theorem compare_isSome {x y : UnpackedFloat} (hx : x.isNaN = false) (hy : y.isNaN = false) :
    (x.compare y).isSome = true := by
  rcases x with (_ | _) | _ | (_ | _) | ⟨_ | _, _⟩
  case notANumber => cases hx
  all_goals
    rcases y with (_ | _) | _ | (_ | _) | ⟨_ | _, _⟩
    case notANumber => cases hy
    all_goals rfl

theorem lt_iff (x y : Float) :
    x < y ↔ x.toModel.unpack.compare y.toModel.unpack = some .lt := by
  show decide (x.toModel < y.toModel) = true ↔ _
  rw [decide_eq_true_iff]
  exact beq_iff_eq

theorem le_iff (x y : Float) :
    x ≤ y ↔ (x.toModel.unpack.compare y.toModel.unpack).any (·.isLE) = true := by
  show decide (x.toModel ≤ y.toModel) = true ↔ _
  rw [decide_eq_true_iff]
  exact Iff.rfl

theorem beq_iff (x y : Float) :
    (x == y) = true ↔ x.toModel.unpack.compare y.toModel.unpack = some .eq :=
  beq_iff_eq (a := x.toModel.unpack.compare y.toModel.unpack)

/-- Of two numbers one is at most the other if that is not below it. -/
theorem le_of_not_lt {x y : Float} (hx : x.isNaN = false) (hy : y.isNaN = false)
    (h : ¬y < x) : x ≤ y := by
  obtain ⟨order, horder⟩ := Option.isSome_iff_exists.1 (compare_isSome hx hy)
  rw [lt_iff, compare_swap, horder] at h
  rw [le_iff, horder]
  cases order with
  | gt => exact absurd rfl h
  | _ => rfl

end Number

namespace Rule

/-- Doubles are compared as their unpacked forms are. -/
theorem orderFloats_eq (x y : Float) :
    orderFloats x y = x.toModel.unpack.compare y.toModel.unpack := by
  have reverse : y < x ↔ x.toModel.unpack.compare y.toModel.unpack = some .gt := by
    rw [Number.lt_iff, Number.compare_swap]
    rcases x.toModel.unpack.compare y.toModel.unpack with _ | _ | _ | _ <;> simp
  unfold orderFloats
  simp only [Number.lt_iff x y, Number.beq_iff, reverse]
  rcases x.toModel.unpack.compare y.toModel.unpack with _ | _ | _ | _ <;> rfl

theorem orderFloats_isSome {x y : Float} (hx : x.isNaN = false) (hy : y.isNaN = false) :
    (orderFloats x y).isSome = true := by
  rw [orderFloats_eq]
  exact Number.compare_isSome hx hy

end Rule
end FieldRules
