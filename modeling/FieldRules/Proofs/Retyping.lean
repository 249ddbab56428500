/-
Arguments typed again from what is shown of them.

A literal is shown as its text, its digits, or the texts of its items with blanks
between them.  Typing that text for the same rule and the same kind gives the literal
again, unless there are floats in it (`typeArgument_rendered`): digits are read as the
number that they were written for, they and a minus are not white space, and a list is
cut at the blanks that it was put together with.
-/
import FieldRules.Proofs.CodeText
import FieldRules.Proofs.Places
import FieldRules.Proofs.Reading
import FieldRules.Proofs.Trimming
import FieldRules.Proofs.Typing

namespace FieldRules

open Go Text

/-! ### Numbers read back -/

namespace Number

variable {cs : List Char}

theorem natural?_toDigits (n : Nat) : natural? (Nat.toDigits 10 n) = some n := by
  have digits : (Nat.toDigits 10 n).all isDigit = true :=
    List.all_eq_true.2 fun _ => isDigit_toDigits
  have filled : (Nat.toDigits 10 n).isEmpty = false := by simp
  unfold natural?
  rw [digits, filled, digitsValue_toDigits]
  rfl

/-- Digits start with no sign. -/
theorem takeSign_digits (digits : ∀ c ∈ cs, isDigit c = true) : takeSign cs = (false, cs) := by
  unfold takeSign
  split
  · exact absurd (digits _ List.mem_cons_self) (by decide)
  · exact absurd (digits _ List.mem_cons_self) (by decide)
  · rfl

theorem integer?_within {value : Int} (h : integer? cs = some value) :
    int64Min ≤ value ∧ value ≤ int64Max := by
  unfold integer? at h
  simp only at h
  split at h
  · cases h
  · obtain ⟨within, same⟩ := Option.ite_none_right_eq_some.1 h
    exact Option.some.inj same ▸ within

theorem integer?_toString {value : Int} (within : int64Min ≤ value ∧ value ≤ int64Max) :
    integer? (toString value).toList = some value := by
  unfold integer?
  cases value with
  | ofNat n =>
    rw [show (toString (Int.ofNat n)).toList = Nat.toDigits 10 n from Nat.toList_repr,
      takeSign_digits fun _ => isDigit_toDigits]
    simp only [natural?_toDigits]
    exact if_pos within
  | negSucc n =>
    have text : (toString (Int.negSucc n)).toList = '-' :: Nat.toDigits 10 (n + 1) := by
      rw [show toString (Int.negSucc n) = "-" ++ toString (n + 1) from rfl, String.toList_append,
        Nat.toString_eq_repr, Nat.toList_repr]
      rfl
    rw [text, takeSign]
    simp only [natural?_toDigits]
    exact if_pos within

theorem count?_within {n : Nat} (h : count? cs = some n) : n < 0x10000000000000000 := by
  unfold count? at h
  simp only at h
  split at h
  · cases h
  · obtain ⟨within, same⟩ := Option.ite_none_right_eq_some.1 h
    cases same
    exact within

theorem count?_toString {n : Nat} (within : n < 0x10000000000000000) :
    count? (toString n).toList = some n := by
  have unsigned : ∀ rest, Nat.toDigits 10 n ≠ '+' :: rest := fun rest same =>
    absurd (isDigit_toDigits (n := n) (c := '+') (same ▸ List.mem_cons_self)) (by decide)
  rw [Nat.toString_eq_repr, Nat.toList_repr]
  unfold count?
  simp only [natural?_toDigits]
  exact if_pos within

end Number

/-! ### Texts without white space -/

namespace Text

/-- A word: something, and no white space in it. -/
def IsVisible (cs : List Char) : Prop := cs ≠ [] ∧ ∀ c ∈ cs, isBlank c = false

theorem IsVisible.trim {cs : List Char} (h : IsVisible cs) : trim cs = cs := by
  have core : Text.trim ([] ++ (cs ++ [])) = cs := trim_eq nofun nofun
    (fun c hc => h.2 c (List.mem_of_mem_head? hc)) fun c hc => h.2 c (List.mem_of_mem_getLast? hc)
  rwa [List.nil_append, List.append_nil] at core

theorem IsVisible.filled {cs : List Char} (h : IsVisible cs) : isAllBlank cs = false := by
  obtain ⟨c, rest, rfl⟩ := List.exists_cons_of_ne_nil h.1
  rw [isAllBlank, List.all_cons, h.2 c List.mem_cons_self, Bool.false_and]

theorem isVisible_of_mem_words {cs word : List Char} (h : word ∈ words cs) : IsVisible word := by
  obtain ⟨piece, filled⟩ := List.mem_filter.1 h
  refine ⟨?_, splitAt_pieces piece⟩
  rintro rfl
  cases filled

theorem isVisible_numeral {text : List Char} (h : IsNumeral text) : IsVisible text := by
  refine ⟨h.1, fun c hc => ?_⟩
  have numeric := h.2 c hc
  simp only [isNumeric, Bool.or_eq_true, beq_iff_eq] at numeric
  rcases numeric with (number | rfl) | rfl
  · exact solid_not_blank (solid_of_number c number)
  · decide
  · decide

/-- Words with blanks between them are the words of the whole. -/
theorem words_joinWith {pieces : List (List Char)} (h : ∀ piece ∈ pieces, IsVisible piece) :
    words (joinWith ' ' pieces) = pieces := by
  by_cases empty : pieces = []
  · rw [empty]
    rfl
  · have filled : ∀ piece ∈ pieces, (!piece.isEmpty) = true := by
      intro piece hpiece
      simpa using (h piece hpiece).1
    rw [words, splitAt_parted rfl empty fun piece hpiece => (h piece hpiece).2,
      List.filter_eq_self.2 filled]

theorem joinWith_filled {pieces : List (List Char)} (ne : pieces ≠ [])
    (h : ∀ piece ∈ pieces, IsVisible piece) : isAllBlank (joinWith ' ' pieces) = false := by
  obtain ⟨piece, rest, rfl⟩ := List.exists_cons_of_ne_nil ne
  have first : isAllBlank piece = false := (h piece List.mem_cons_self).filled
  have front : ∃ behind, joinWith ' ' (piece :: rest) = piece ++ behind := by
    cases rest with
    | nil => exact ⟨[], (List.append_nil piece).symm⟩
    | cons next rest => exact ⟨_, joinWith_cons_cons ' ' piece next rest⟩
  obtain ⟨behind, split⟩ := front
  rw [split, isAllBlank, List.all_append, Bool.and_eq_false_iff]
  exact .inl first

end Text

/-! ### Literals shown and typed again -/

theorem Literal.renderItems_toList (items : List Literal) :
    (Literal.renderItems items).toList =
      joinWith ' ' (items.map fun item => item.render.toList) := by
  induction items with
  | nil => rfl
  | cons item items ih =>
    cases items with
    | nil => rfl
    | cons next items =>
      rw [Literal.renderItems, String.toList_append, String.toList_append, ih]
      · simp only [List.map_cons, joinWith_cons_cons, List.append_assoc]
        rfl
      · exact List.cons_ne_nil _ _

namespace Argument

variable {kind : Kind} {raw : List Char} {item : Literal}

theorem integer_ok {min max : Int} (h : integer raw min max = .ok item) :
    ∃ value, item = .int value ∧ (Number.int64Min ≤ value ∧ value ≤ Number.int64Max) ∧
      ¬(value < min ∨ max < value) := by
  unfold integer at h
  split at h
  · cases h
  · next value read =>
    split at h
    · cases h
    · next within =>
      cases h
      exact ⟨value, rfl, Number.integer?_within read, within⟩

theorem count_ok (h : count raw = .ok item) : ∃ n, item = .count n ∧ n < 0x10000000000000000 := by
  unfold count at h
  split at h
  · cases h
  · next n read =>
    cases h
    exact ⟨n, rfl, Number.count?_within read⟩

/-- A value that was typed is typed again from its text. -/
theorem scalar_rendered (exact : ∀ bits, kind ≠ .float bits) (h : scalar kind raw = .ok item) :
    scalar kind item.render.toList = .ok item := by
  cases kind with
  | integer min max =>
    obtain ⟨value, rfl, wide, within⟩ := integer_ok h
    have numeral : IsVisible (Literal.int value).render.toList :=
      isVisible_numeral (isNumeral_int value)
    have read : Number.integer? (Literal.int value).render.toList = some value :=
      Number.integer?_toString wide
    rw [scalar, integer, numeral.trim, read]
    exact if_neg within
  | float bits => exact absurd rfl (exact bits)
  | text =>
    cases h
    rw [Literal.render, String.toList_ofList]
    rfl
  | _ => cases h

/-- The text of a value is a word if the value was typed from one, and not blank if that was not. -/
theorem scalar_visible (exact : ∀ bits, kind ≠ .float bits) (h : scalar kind raw = .ok item) :
    (IsVisible raw → IsVisible item.render.toList) ∧
      (isAllBlank raw = false → isAllBlank item.render.toList = false) := by
  cases kind with
  | integer min max =>
    obtain ⟨value, rfl, -⟩ := integer_ok h
    have numeral : IsVisible (Literal.int value).render.toList :=
      isVisible_numeral (isNumeral_int value)
    exact ⟨fun _ => numeral, fun _ => numeral.filled⟩
  | float bits => exact absurd rfl (exact bits)
  | text =>
    cases h
    rw [Literal.render, String.toList_ofList]
    exact ⟨id, id⟩
  | _ => cases h

theorem count_rendered (h : count raw = .ok item) :
    count item.render.toList = .ok item ∧ isAllBlank item.render.toList = false := by
  obtain ⟨n, rfl, within⟩ := count_ok h
  have numeral : IsVisible (Literal.count n).render.toList := isVisible_numeral (isNumeral_digits n)
  have read : Number.count? (Literal.count n).render.toList = some n :=
    Number.count?_toString within
  refine ⟨?_, numeral.filled⟩
  rw [count, numeral.trim, read]

theorem scalars_rendered (exact : ∀ bits, kind ≠ .float bits) {raws : List (List Char)}
    {items : List Literal} (h : scalars kind raws = .ok items) :
    scalars kind (items.map fun item => item.render.toList) = .ok items := by
  induction raws generalizing items with
  | nil =>
    cases h
    rfl
  | cons raw raws ih =>
    rw [scalars] at h
    cases hfirst : scalar kind raw with
    | error e => rw [hfirst] at h; cases h
    | ok first =>
      rw [hfirst] at h
      obtain ⟨rest, hrest, rfl⟩ := Rule.map_ok h
      rw [List.map_cons, scalars, scalar_rendered exact hfirst, ih hrest]
      rfl

/-- A list is cut into the texts of its items. -/
theorem words_rendered (exact : ∀ bits, kind ≠ .float bits) {items : List Literal}
    (h : scalars kind (words raw) = .ok items) (filled : isAllBlank raw = false) :
    words (Literal.list items).render.toList = items.map (fun item => item.render.toList) ∧
      isAllBlank (Literal.list items).render.toList = false := by
  obtain ⟨hne, typed⟩ := Rule.scalars_ok h
  have visible : ∀ piece ∈ items.map fun item => item.render.toList, IsVisible piece := by
    intro piece hpiece
    obtain ⟨item, hitem, rfl⟩ := List.mem_map.1 hpiece
    obtain ⟨word, hword, hscalar⟩ := typed item hitem
    exact (scalar_visible exact hscalar).1 (isVisible_of_mem_words hword)
  have ne : (items.map fun item => item.render.toList) ≠ [] := by
    simpa using hne (words_ne_nil filled)
  rw [Literal.render, Literal.renderItems_toList]
  exact ⟨words_joinWith visible, joinWith_filled ne visible⟩

theorem present_rendered (exact : ∀ bits, kind ≠ .float bits) {rule : Rule}
    {argument : Literal} (h : present rule raw kind = .ok (some argument)) :
    present rule argument.render.toList kind = .ok (some argument) := by
  unfold present at h
  split at h
  · cases h
  next filled =>
  have filled : isAllBlank raw = false := Bool.eq_false_iff.2 filled
  split at h
  · cases h
  · next shape =>
    obtain ⟨item, hitem, same⟩ := Rule.map_ok h
    cases same
    rw [present, (scalar_visible exact hitem).2 filled, shape]
    simp only [scalar_rendered exact hitem]
    rfl
  · next shape =>
    obtain ⟨item, hitem, same⟩ := Rule.map_ok h
    cases same
    obtain ⟨typed, shown⟩ := count_rendered hitem
    rw [present, shown, shape]
    simp only [typed]
    rfl
  · next shape =>
    obtain ⟨items, hitems, same⟩ := Rule.map_ok h
    cases same
    obtain ⟨cut, shown⟩ := words_rendered exact hitems filled
    rw [present, shown, shape]
    simp only [cut, scalars_rendered exact hitems]
    rfl

end Argument

/-- What is shown of the argument of a rule, on a field of any kind but floats, is typed for the
same rule and kind as the same argument. -/
theorem typeArgument_rendered {rule : Rule} {kind : Kind} {raw : String} {argument : Literal}
    (exact : ∀ bits, kind ≠ .float bits)
    (h : typeArgument rule (some raw) kind = .ok (some argument)) :
    typeArgument rule (some argument.render) kind = .ok (some argument) := by
  unfold typeArgument at h ⊢
  cases shape : rule.argumentShape with
  | none => rw [shape] at h; cases h
  | fieldTyped | count | list =>
    rw [shape] at h
    exact Argument.present_rendered exact h

theorem typeArgument_rendered_signs :
    typeArgument .enum (some "\t-007 +0\u3000 9223372036854775807 ")
        (.integer (-7) Number.int64Max) =
        .ok (some (.list [.int (-7), .int 0, .int Number.int64Max])) ∧
      typeArgument .enum (some "-7 0 9223372036854775807") (.integer (-7) Number.int64Max) =
        .ok (some (.list [.int (-7), .int 0, .int Number.int64Max])) := by
  have typed : typeArgument .enum (some "\t-007 +0\u3000 9223372036854775807 ")
      (.integer (-7) Number.int64Max) =
        .ok (some (.list [.int (-7), .int 0, .int Number.int64Max])) := by rfl
  exact ⟨typed, typeArgument_rendered (fun _ same => by cases same) typed⟩

end FieldRules
