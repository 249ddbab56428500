/-
Which texts are addresses of the internet protocol.

Version 4 is four decimal numbers with dots between them.  Version 6 is groups of digits
with colons between them, eight of them or fewer around one `::`, where a version 4
address may stand for the last two (`IsQuad`, `IsGrouped`).  Exactly these texts are
taken, and none of them is both (`addresses_grammar`): a number is told from the one
way in which it is written in base ten, and groups have no colon in them, so that the
first `::` of such a text is the one between its two sides.
-/
import FieldRules.Format.Address
import FieldRules.Proofs.Emitted
import FieldRules.Proofs.Formats
import FieldRules.Proofs.Retyping

namespace FieldRules

open Text

theorem Text.mem_joinWith {separator : Char} {pieces : List (List Char)} (h : 2 ≤ pieces.length) :
    separator ∈ joinWith separator pieces := by
  match pieces, h with
  | piece :: next :: rest, _ =>
    rw [joinWith_cons_cons]
    exact List.mem_append_right _ List.mem_cons_self

/-! ### Numbers in base ten -/

namespace Number

theorem toDigits_digitValue {c : Char} (digit : isDigit c = true) :
    digitValue c < 10 ∧ Nat.toDigits 10 (digitValue c) = [c] := by
  obtain ⟨k, small, rfl⟩ := Go.isDigit_iff.1 digit
  have all : ∀ k < 10, digitValue (Char.ofNat (48 + k)) < 10 ∧
      Nat.toDigits 10 (digitValue (Char.ofNat (48 + k))) = [Char.ofNat (48 + k)] := by decide
  exact all k small

/-- Digits behind a number that is no zero are the further digits of a number. -/
theorem toDigits_append {n : Nat} (positive : 0 < n) {cs : List Char}
    (digits : ∀ c ∈ cs, isDigit c = true) :
    Nat.toDigits 10 n ++ cs = Nat.toDigits 10 (cs.foldl (fun n c => 10 * n + digitValue c) n) := by
  induction cs generalizing n with
  | nil => exact List.append_nil _
  | cons c cs ih =>
    obtain ⟨digit, more⟩ := List.forall_mem_cons.1 digits
    have next : 0 < 10 * n + digitValue c := Nat.add_pos_left (Nat.mul_pos (by decide) positive) _
    obtain ⟨small, single⟩ := toDigits_digitValue digit
    have joined := Nat.toDigits_append_toDigits (b := 10) (by decide) positive small
    rw [List.foldl_cons, ← ih next more, ← joined, single, List.append_assoc, List.singleton_append]

/-- Digits with no zero in front are the ones that their number is written with. -/
theorem toDigits_digitsValue {cs : List Char} (filled : cs ≠ [])
    (digits : ∀ c ∈ cs, isDigit c = true) (front : cs.head? ≠ some '0' ∨ cs.length = 1) :
    Nat.toDigits 10 (digitsValue cs) = cs := by
  obtain ⟨c, rest, rfl⟩ := List.exists_cons_of_ne_nil filled
  obtain ⟨digit, more⟩ := List.forall_mem_cons.1 digits
  obtain ⟨-, single⟩ := toDigits_digitValue digit
  have value : digitsValue (c :: rest) =
      rest.foldl (fun n c => 10 * n + digitValue c) (digitValue c) := by
    simp [digitsValue]
  rw [value]
  rcases front with other | alone
  · have positive : 0 < digitValue c := by
      refine Nat.pos_of_ne_zero fun zero => other ?_
      rw [zero] at single
      exact congrArg List.head? single.symm
    rw [← toDigits_append positive more, single, List.singleton_append]
  · obtain rfl : rest = [] := by simpa using alone
    exact single

end Number

namespace Format

/-! ### The two grammars -/

/-- Four numbers from 0 to 255 with dots between them, without leading zeros. -/
def IsQuad (cs : List Char) : Prop :=
  ∃ numbers : List Nat, numbers.length = 4 ∧ (∀ n ∈ numbers, n ≤ 255) ∧
    cs = ['.'].intercalate (numbers.map (Nat.toDigits 10))

/-- 1 to 4 digits of base sixteen. -/
structure IsGroup (group : List Char) : Prop where
  filled : 1 ≤ group.length
  short : group.length ≤ 4
  digits : ∀ c ∈ group, IsHex c

def AreGroups (n : Nat) (pieces : List (List Char)) : Prop :=
  pieces.length = n ∧ ∀ piece ∈ pieces, IsGroup piece

/-- Groups and an address of version 4 at their end, which counts for two of `n`. -/
def EndInQuad (n : Nat) (pieces : List (List Char)) : Prop :=
  ∃ groups quad, pieces = groups ++ [quad] ∧ (∀ group ∈ groups, IsGroup group) ∧ IsQuad quad ∧
    groups.length + 2 = n

def StandFor (n : Nat) (pieces : List (List Char)) : Prop :=
  AreGroups n pieces ∨ EndInQuad n pieces

/-- Eight groups with colons between them, or seven at most with a `::` for the others. -/
inductive IsGrouped : List Char → Prop where
  | full {pieces : List (List Char)} : StandFor 8 pieces → IsGrouped ([':'].intercalate pieces)
  | cut {front back : List (List Char)} {m n : Nat} : AreGroups m front → StandFor n back →
      m + n < 8 → IsGrouped ([':'].intercalate front ++ ':' :: ':' :: [':'].intercalate back)

/-! ### Version 4 -/

variable {cs : List Char}

theorem isOctet_iff : isOctet cs = true ↔ ∃ n ≤ 255, Nat.toDigits 10 n = cs := by
  constructor
  · intro h
    unfold isOctet at h
    split at h
    · cases h
    · next n read =>
      simp only [Bool.and_eq_true, Bool.or_eq_true, decide_eq_true_eq, bne_iff_ne, ne_eq,
        beq_iff_eq] at h
      obtain ⟨⟨within, -⟩, front⟩ := h
      unfold Number.natural? at read
      split at read
      · cases read
      · next digits =>
        cases read
        simp only [Bool.or_eq_true, not_or, List.isEmpty_iff, Bool.not_eq_true',
          Bool.not_eq_false, List.all_eq_true] at digits
        exact ⟨_, within, Number.toDigits_digitsValue digits.1 digits.2 front⟩
  · rintro ⟨n, within, rfl⟩
    have short : (Nat.toDigits 10 n).length ≤ 3 :=
      (Nat.length_toDigits_le_iff (by decide) (by decide)).2 (by omega)
    have front : (Nat.toDigits 10 n).head? ≠ some '0' ∨ (Nat.toDigits 10 n).length = 1 := by
      by_cases zero : (Nat.toDigits 10 n).head? = some '0'
      · exact .inr (by rw [Go.toDigits_head n zero]; rfl)
      · exact .inl zero
    unfold isOctet
    rw [Number.natural?_toDigits]
    simpa [within, short] using front

theorem isIpv4_iff : isIpv4 cs = true ↔ IsQuad cs := by
  simp only [isIpv4, Bool.and_eq_true, beq_iff_eq, List.all_eq_true, isOctet_iff]
  constructor
  · rintro ⟨four, octets⟩
    obtain ⟨numbers, within, written⟩ := exists_map_eq octets
    refine ⟨numbers, ?_, within, ?_⟩
    · rw [← four, ← written, List.length_map]
    · rw [written, ← joinWith_eq_intercalate, joinWith_splitAt]
  · rintro ⟨numbers, four, within, rfl⟩
    have dotless : ∀ piece ∈ numbers.map (Nat.toDigits 10), '.' ∉ piece := by
      intro piece hpiece found
      obtain ⟨n, -, rfl⟩ := List.mem_map.1 hpiece
      exact absurd (Go.isDigit_toDigits found) (by decide)
    have some : numbers.map (Nat.toDigits 10) ≠ [] := by
      rintro nothing
      rw [List.map_eq_nil_iff.1 nothing] at four
      cases four
    rw [← joinWith_eq_intercalate, splitAt_joinWith some dotless, List.length_map]
    refine ⟨four, fun piece hpiece => ?_⟩
    obtain ⟨n, hn, rfl⟩ := List.mem_map.1 hpiece
    exact ⟨n, within n hn, rfl⟩

/-! ### Version 6 -/

theorem isHexGroup_iff : isHexGroup cs = true ↔ IsGroup cs := by
  simp only [isHexGroup, Bool.and_eq_true, decide_eq_true_eq, List.all_eq_true, isHexDigit_iff]
  exact ⟨fun h => ⟨h.1.1, h.1.2, h.2⟩, fun h => ⟨⟨h.filled, h.short⟩, h.digits⟩⟩

theorem IsGroup.not_mem {c : Char} (group : IsGroup cs) (other : ¬ IsHex c) : c ∉ cs :=
  mt (group.digits c) other

theorem IsQuad.dot (quad : IsQuad cs) : '.' ∈ cs := by
  obtain ⟨numbers, four, -, rfl⟩ := quad
  rw [← joinWith_eq_intercalate]
  refine mem_joinWith ?_
  rw [List.length_map, four]
  decide

theorem IsQuad.not_colon (quad : IsQuad cs) : ':' ∉ cs := by
  obtain ⟨numbers, -, -, rfl⟩ := quad
  rw [← joinWith_eq_intercalate]
  refine not_mem_joinWith (by decide) fun piece hpiece found => ?_
  obtain ⟨n, -, rfl⟩ := List.mem_map.1 hpiece
  exact absurd (Go.isDigit_toDigits found) (by decide)

/-! #### Groups and their number -/

variable {dotted : Bool} {pieces groups : List (List Char)} {n : Nat}

theorem groupCount?_cons {group : List Char} (h : IsGroup group) :
    groupCount? dotted (group :: pieces) = (groupCount? dotted pieces).map (· + 1) := by
  cases pieces with
  | nil => simp [groupCount?, isHexGroup_iff.2 h]
  | cons next pieces => simp [groupCount?, isHexGroup_iff.2 h]

theorem groupCount?_groups (h : ∀ group ∈ groups, IsGroup group) :
    groupCount? dotted (groups ++ pieces) =
      (groupCount? dotted pieces).map (· + groups.length) := by
  induction groups with
  | nil => simp
  | cons group groups ih =>
    obtain ⟨first, rest⟩ := List.forall_mem_cons.1 h
    rw [List.cons_append, groupCount?_cons first, ih rest, Option.map_map]
    rfl

theorem groupCount?_quad {quad : List Char} (h : IsQuad quad) :
    groupCount? true [quad] = some 2 := by
  have other : isHexGroup quad ≠ true := fun group =>
    (isHexGroup_iff.1 group).not_mem (by decide) h.dot
  simp [groupCount?, other, isIpv4_iff.2 h]

theorem AreGroups.cons {group : List Char} (first : IsGroup group) (h : AreGroups n pieces) :
    AreGroups (n + 1) (group :: pieces) :=
  ⟨congrArg (· + 1) h.1, List.forall_mem_cons.2 ⟨first, h.2⟩⟩

theorem EndInQuad.cons {group : List Char} (first : IsGroup group) (h : EndInQuad n pieces) :
    EndInQuad (n + 1) (group :: pieces) := by
  obtain ⟨groups, quad, rfl, more, last, count⟩ := h
  refine ⟨group :: groups, quad, rfl, List.forall_mem_cons.2 ⟨first, more⟩, last, ?_⟩
  rw [List.length_cons, ← count, Nat.add_right_comm]

theorem groupCount?_sound (h : groupCount? dotted pieces = some n) :
    AreGroups n pieces ∨ dotted = true ∧ EndInQuad n pieces := by
  induction pieces generalizing n with
  | nil =>
    cases h
    exact .inl ⟨rfl, fun _ hpiece => nomatch hpiece⟩
  | cons piece pieces ih =>
    by_cases group : IsGroup piece
    · rw [groupCount?_cons group] at h
      obtain ⟨k, count, rfl⟩ := Option.map_eq_some_iff.1 h
      exact (ih count).imp (.cons group) fun ⟨allowed, ends⟩ => ⟨allowed, ends.cons group⟩
    · -- What is no group must be the address at the end.
      have other : isHexGroup piece ≠ true := fun h => group (isHexGroup_iff.1 h)
      cases pieces with
      | nil =>
        simp only [groupCount?, if_neg other] at h
        split at h
        · next last =>
          cases h
          obtain ⟨allowed, quad⟩ := Bool.and_eq_true_iff.1 last
          exact .inr ⟨allowed, [], piece, rfl, fun _ hpiece => (nomatch hpiece),
            isIpv4_iff.1 quad, rfl⟩
        · cases h
      | cons next pieces =>
        simp only [groupCount?, if_neg other] at h
        cases h

theorem AreGroups.groupCount? (h : AreGroups n pieces) : groupCount? dotted pieces = some n := by
  obtain ⟨rfl, groups⟩ := h
  have counted : Format.groupCount? dotted (pieces ++ []) = _ := groupCount?_groups groups
  simpa [Format.groupCount?] using counted

theorem groupCount?_plain : groupCount? false pieces = some n ↔ AreGroups n pieces := by
  refine ⟨fun h => ?_, AreGroups.groupCount?⟩
  rcases groupCount?_sound h with groups | ⟨allowed, -⟩
  · exact groups
  · cases allowed

theorem groupCount?_dotted : groupCount? true pieces = some n ↔ StandFor n pieces := by
  constructor
  · exact fun h => (groupCount?_sound h).imp_right And.right
  · rintro (groups | ⟨groups, quad, rfl, each, last, rfl⟩)
    · exact groups.groupCount?
    · rw [groupCount?_groups each, groupCount?_quad last, Option.map_some, Nat.add_comm]

/-! #### Colons -/

/-- Pieces that a text with colons between them is split into again. -/
def AreParted (pieces : List (List Char)) : Prop := ∀ piece ∈ pieces, piece ≠ [] ∧ ':' ∉ piece

theorem AreGroups.parted (h : AreGroups n pieces) : AreParted pieces := fun piece hpiece =>
  ⟨List.length_pos_iff.1 (h.2 piece hpiece).filled, (h.2 piece hpiece).not_mem (by decide)⟩

theorem StandFor.parted (h : StandFor n pieces) : AreParted pieces := by
  rcases h with groups | ⟨groups, quad, rfl, each, last, -⟩
  · exact groups.parted
  · intro piece hpiece
    rcases List.mem_append.1 hpiece with hgroup | hlast
    · exact AreGroups.parted ⟨rfl, each⟩ piece hgroup
    · obtain rfl := List.mem_singleton.1 hlast
      exact ⟨List.ne_nil_of_mem last.dot, last.not_colon⟩

theorem AreParted.splitAt (h : AreParted pieces) (some : pieces ≠ []) :
    splitAt (· == ':') (joinWith ':' pieces) = pieces :=
  splitAt_joinWith some fun piece hpiece => (h piece hpiece).2

theorem AreParted.joinWith_filled (h : AreParted pieces) (some : pieces ≠ []) :
    ∃ c cs, c ≠ ':' ∧ joinWith ':' pieces = c :: cs := by
  obtain ⟨piece, rest, rfl⟩ := List.exists_cons_of_ne_nil some
  obtain ⟨filled, colonless⟩ := h piece List.mem_cons_self
  obtain ⟨c, cs, rfl⟩ := List.exists_cons_of_ne_nil filled
  have other : c ≠ ':' := fun same => colonless (same ▸ List.mem_cons_self)
  cases rest with
  | nil => exact ⟨c, cs, other, rfl⟩
  | cons next rest => exact ⟨c, _, other, rfl⟩

theorem sideCount?_joinWith (h : AreParted pieces) :
    sideCount? dotted (joinWith ':' pieces) = groupCount? dotted pieces := by
  by_cases some : pieces = []
  · rw [some]
    rfl
  · obtain ⟨c, cs, -, text⟩ := h.joinWith_filled some
    have filled : (joinWith ':' pieces).isEmpty = false := by rw [text]; rfl
    rw [sideCount?, filled, if_neg Bool.false_ne_true, h.splitAt some]

/-- What is counted on one side are pieces with colons between them, or none. -/
theorem exists_of_sideCount? (h : sideCount? dotted cs = some n) :
    ∃ pieces, joinWith ':' pieces = cs ∧ groupCount? dotted pieces = some n := by
  unfold sideCount? at h
  split at h
  · next empty => exact ⟨[], (List.isEmpty_iff.1 empty).symm, h⟩
  · exact ⟨_, joinWith_splitAt ':' cs, h⟩

/-! #### The first double colon -/

/-- Puts more text in front of the first of two texts. -/
def putBefore (front : List Char) (sides : List Char × List Char) : List Char × List Char :=
  (front ++ sides.1, sides.2)

theorem cutDoubleColon_cons {c : Char} (h : c ≠ ':' ∨ cs.head? ≠ some ':') :
    cutDoubleColon (c :: cs) = (cutDoubleColon cs).map (putBefore [c]) := by
  rw [cutDoubleColon]
  · rfl
  · rintro rest rfl rfl
    rcases h with other | other
    · exact other rfl
    · exact other rfl

theorem cutDoubleColon_append {piece : List Char} (h : ':' ∉ piece) :
    cutDoubleColon (piece ++ cs) = (cutDoubleColon cs).map (putBefore piece) := by
  induction piece with
  | nil => exact Option.map_id.symm ▸ rfl
  | cons c piece ih =>
    obtain ⟨other, rest⟩ := not_or.1 (mt List.mem_cons.2 h)
    rw [List.cons_append, cutDoubleColon_cons (.inl (Ne.symm other)), ih rest, Option.map_map]
    rfl

/-- There is no double colon where pieces have single ones between them. -/
theorem AreParted.cutDoubleColon (h : AreParted pieces) (cs : List Char) :
    cutDoubleColon (joinWith ':' pieces ++ cs) =
      (Format.cutDoubleColon cs).map (putBefore (joinWith ':' pieces)) := by
  induction pieces with
  | nil => exact cutDoubleColon_append List.not_mem_nil
  | cons piece pieces ih =>
    obtain ⟨⟨-, colonless⟩, more⟩ := List.forall_mem_cons.1 h
    cases pieces with
    | nil => exact cutDoubleColon_append colonless
    | cons next pieces =>
      obtain ⟨c, text, other, first⟩ := AreParted.joinWith_filled more (List.cons_ne_nil _ _)
      have single : (joinWith ':' (next :: pieces) ++ cs).head? ≠ some ':' := by
        rw [first]
        simpa using other
      rw [joinWith_cons_cons, List.append_assoc, cutDoubleColon_append colonless, List.cons_append,
        cutDoubleColon_cons (.inr single), ih more, Option.map_map, Option.map_map]
      refine congrArg (Option.map · (Format.cutDoubleColon cs)) (funext fun sides => ?_)
      simp [putBefore]

theorem eq_of_cutDoubleColon {before behind : List Char}
    (h : cutDoubleColon cs = some (before, behind)) : before ++ ':' :: ':' :: behind = cs := by
  induction cs using cutDoubleColon.induct generalizing before with
  | case1 => cases h
  | case2 rest =>
    cases h
    rfl
  | case3 c cs other ih =>
    rw [cutDoubleColon.eq_3 c cs other] at h
    obtain ⟨⟨inner, rest⟩, cut, same⟩ := Option.map_eq_some_iff.1 h
    cases same
    exact congrArg (c :: ·) (ih cut)

theorem isIpv6_iff : isIpv6 cs = true ↔ IsGrouped cs := by
  constructor
  · intro h
    unfold isIpv6 at h
    split at h
    · have grouped := IsGrouped.full (groupCount?_dotted.1 (eq_of_beq h))
      rwa [← joinWith_eq_intercalate, joinWith_splitAt] at grouped
    · next before behind cut =>
      split at h
      · next m n front back =>
        obtain ⟨left, rfl, leftCount⟩ := exists_of_sideCount? front
        obtain ⟨right, rfl, rightCount⟩ := exists_of_sideCount? back
        have within : m + n < 8 := Nat.lt_succ_of_le (of_decide_eq_true h)
        rw [← eq_of_cutDoubleColon cut, joinWith_eq_intercalate, joinWith_eq_intercalate]
        exact .cut (groupCount?_plain.1 leftCount) (groupCount?_dotted.1 rightCount) within
      · cases h
  · rintro (@⟨pieces, eight⟩ | @⟨front, back, m, n, groups, more, within⟩)
    · have some : pieces ≠ [] := by
        rintro rfl
        cases groupCount?_dotted.2 eight
      have single := eight.parted.cutDoubleColon []
      rw [List.append_nil] at single
      rw [← joinWith_eq_intercalate, isIpv6, single]
      simp [cutDoubleColon, eight.parted.splitAt some, groupCount?_dotted.2 eight]
    · have cut := groups.parted.cutDoubleColon (':' :: ':' :: joinWith ':' back)
      rw [cutDoubleColon.eq_2] at cut
      rw [← joinWith_eq_intercalate, ← joinWith_eq_intercalate, isIpv6, cut]
      simp only [Option.map_some, putBefore, List.append_nil, sideCount?_joinWith groups.parted,
        sideCount?_joinWith more.parted, groupCount?_plain.2 groups, groupCount?_dotted.2 more]
      exact decide_eq_true (Nat.le_of_lt_succ within)

/-! ### Both -/

theorem StandFor.length_le (h : StandFor n pieces) : n ≤ pieces.length + 1 := by
  rcases h with ⟨rfl, -⟩ | ⟨groups, quad, rfl, -, -, rfl⟩
  · exact Nat.le_succ _
  · rw [List.length_append, List.length_singleton]

theorem IsGrouped.colon (h : IsGrouped cs) : ':' ∈ cs := by
  cases h with
  | full eight =>
    rw [← joinWith_eq_intercalate]
    exact mem_joinWith (Nat.le_trans (by decide) (Nat.le_of_succ_le_succ eight.length_le))
  | cut => exact List.mem_append_right _ List.mem_cons_self

/-- Texts are taken for addresses exactly as they are written, and none for one of either
version. -/
theorem addresses_grammar (s : String) :
    (isIpv4 s.toList = true ↔ IsQuad s.toList) ∧ (isIpv6 s.toList = true ↔ IsGrouped s.toList) ∧
      ¬ (isIpv4 s.toList = true ∧ isIpv6 s.toList = true) := by
  refine ⟨isIpv4_iff, isIpv6_iff, fun ⟨four, six⟩ => ?_⟩
  exact (isIpv4_iff.1 four).not_colon (isIpv6_iff.1 six).colon

end Format
end FieldRules
