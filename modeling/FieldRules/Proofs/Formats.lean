/-
Which texts are addresses of electronic mail, and which are unique identifiers.

An address is a local part, an `@` and labels with dots between them; an identifier is
five groups of digits with hyphens between them (`IsMailAddress`, `IsUniqueId`).  Exactly
these texts are taken, whole as they are, and exactly these match the two patterns, however
a label may be cut into the parts of its pattern (`formats_grammar`).
-/
import FieldRules.Format.Email
import FieldRules.Format.Uuid
import FieldRules.Proofs.Places
import FieldRules.Proofs.Regexes

namespace FieldRules

open Text

/-! ### Characters and separators -/

theorem Text.joinWith_eq_intercalate (separator : Char) (pieces : List (List Char)) :
    joinWith separator pieces = [separator].intercalate pieces := by
  induction pieces with
  | nil => rfl
  | cons piece pieces ih =>
    cases pieces with
    | nil => simp [joinWith]
    | cons next pieces =>
      rw [joinWith_cons_cons, ih]
      simp [List.intercalate, List.intersperse]

theorem Text.intercalate_cons (separator : Char) (piece : List Char) (pieces : List (List Char)) :
    [separator].intercalate (piece :: pieces) = piece ++ pieces.flatMap (separator :: ·) := by
  induction pieces generalizing piece with
  | nil => simp
  | cons next pieces ih =>
    rw [← joinWith_eq_intercalate, joinWith_cons_cons, joinWith_eq_intercalate, ih]
    rfl

/-- Elements that each come from somewhere come from a list. -/
theorem exists_map_eq {α β : Type} {f : α → β} {p : α → Prop} {ys : List β}
    (h : ∀ y ∈ ys, ∃ x, p x ∧ f x = y) : ∃ xs : List α, (∀ x ∈ xs, p x) ∧ xs.map f = ys := by
  induction ys with
  | nil => exact ⟨[], nofun, rfl⟩
  | cons y ys ih =>
    obtain ⟨⟨x, hx, rfl⟩, more⟩ := List.forall_mem_cons.1 h
    obtain ⟨xs, hxs, rfl⟩ := ih more
    exact ⟨x :: xs, List.forall_mem_cons.2 ⟨hx, hxs⟩, rfl⟩

namespace Format

/-- A letter or a digit of ASCII. -/
def IsPlain (c : Char) : Prop :=
  ('a' ≤ c ∧ c ≤ 'z') ∨ ('A' ≤ c ∧ c ≤ 'Z') ∨ ('0' ≤ c ∧ c ≤ '9')

def IsHex (c : Char) : Prop :=
  ('0' ≤ c ∧ c ≤ '9') ∨ ('a' ≤ c ∧ c ≤ 'f') ∨ ('A' ≤ c ∧ c ≤ 'F')

instance : DecidablePred IsPlain := fun _ => inferInstanceAs (Decidable (_ ∨ _))

instance : DecidablePred IsHex := fun _ => inferInstanceAs (Decidable (_ ∨ _))

/-! ### The two grammars -/

/-- 1 to 63 letters, digits and hyphens, with no hyphen at either end. -/
structure IsLabel (label : List Char) : Prop where
  filled : 1 ≤ label.length
  short : label.length ≤ 63
  characters : ∀ c ∈ label, IsPlain c ∨ c = '-'
  first : label.head? ≠ some '-'
  last : label.getLast? ≠ some '-'

def IsMailAddress (cs : List Char) : Prop :=
  ∃ user labels, cs = user ++ '@' :: ['.'].intercalate labels ∧
    user ≠ [] ∧ (∀ c ∈ user, IsPlain c ∨ c ∈ ".!#$%&'*+/=?^_`\x7b|\x7d~-".toList) ∧
    labels ≠ [] ∧ ∀ label ∈ labels, IsLabel label

def IsUniqueId (cs : List Char) : Prop :=
  ∃ groups, cs = ['-'].intercalate groups ∧ groups.map List.length = [8, 4, 4, 4, 12] ∧
    ∀ group ∈ groups, ∀ c ∈ group, IsHex c

/-! ### The two patterns -/

open Regex

def plainRuns : List (Char × Char) := [('a', 'z'), ('A', 'Z'), ('0', '9')]

def hexRuns : List (Char × Char) := [('0', '9'), ('a', 'f'), ('A', 'F')]

/-- A letter or digit, and as many characters as there may be up to another one. -/
def labelParts : List Regex :=
  [oneOf plainRuns, repeated 0 (some 1) (sequence
    [repeated 0 (some 61) (oneOf (plainRuns ++ [('-', '-')])), oneOf plainRuns])]

def userPart : Regex := repeated 1 none (oneOf (plainRuns ++ localMarks.map fun c => (c, c)))

def furtherLabels : Regex := repeated 0 none (sequence (literal '.' :: labelParts))

def emailRegex : Regex :=
  sequence ([userPart, literal '@'] ++ (labelParts ++ [furtherLabels]))

def hexDigits (n : Nat) : Regex := repeated n (some n) (oneOf hexRuns)

/-- Groups of so many digits with hyphens between them. -/
def hyphenated : List Nat → List Regex
  | [] => []
  | [n] => [hexDigits n]
  | n :: ns => hexDigits n :: literal '-' :: hyphenated ns

def uuidRegex : Regex := sequence (hyphenated uuidGroups)

theorem emailRegex_pattern : emailRegex.anchored = emailPattern := by decide +kernel

theorem uuidRegex_pattern : uuidRegex.anchored = uuidPattern := by decide +kernel

/-! ### Labels -/

theorem isAlphanumeric_iff {c : Char} : isAlphanumeric c = true ↔ IsPlain c := by
  simp [isAlphanumeric, isAsciiLetter, isAsciiDigit, IsPlain, or_assoc]

theorem isHexDigit_iff {c : Char} : isHexDigit c = true ↔ IsHex c := by
  simp [isHexDigit, isAsciiDigit, IsHex, or_assoc]

theorem has_plainRuns {c : Char} : Has plainRuns c ↔ IsPlain c := by
  simp [Has, plainRuns, IsPlain]

theorem has_hexRuns {c : Char} : Has hexRuns c ↔ IsHex c := by
  simp [Has, hexRuns, IsHex]

variable {label cs : List Char}

theorem IsPlain.not_hyphen {c : Char} (h : IsPlain c) : c ≠ '-' := fun same =>
  absurd (same ▸ h) (by decide)

theorem isLabel_iff : isLabel label = true ↔ IsLabel label := by
  simp only [isLabel, Bool.and_eq_true, decide_eq_true_eq, List.all_eq_true, Bool.or_eq_true,
    beq_iff_eq, isAlphanumeric_iff, Option.any_eq_true]
  constructor
  · rintro ⟨⟨⟨short, characters⟩, c, first, plain⟩, d, last, plain'⟩
    have filled : label ≠ [] := by
      rintro rfl
      cases first
    refine ⟨List.length_pos_iff.2 filled, short, characters, fun same => ?_, fun same => ?_⟩
    · exact plain.not_hyphen (Option.some.inj (first.symm.trans same))
    · exact plain'.not_hyphen (Option.some.inj (last.symm.trans same))
  · intro h
    have filled : label ≠ [] := List.length_pos_iff.1 h.filled
    have plain (c : Char) (hc : c ∈ label) (other : c ≠ '-') : IsPlain c :=
      (h.characters c hc).resolve_right other
    refine ⟨⟨⟨h.short, h.characters⟩, label.head filled, List.head?_eq_some_head filled, ?_⟩,
      label.getLast filled, List.getLast?_eq_some_getLast filled, ?_⟩
    · exact plain _ (List.head_mem filled) fun same =>
        h.first ((List.head?_eq_some_head filled).trans (congrArg some same))
    · exact plain _ (List.getLast_mem filled) fun same =>
        h.last ((List.getLast?_eq_some_getLast filled).trans (congrArg some same))

/-- A label is a character, or two with up to 61 between them. -/
theorem mem_labelParts : label ∈ languageOf labelParts ↔ ∃ c, IsPlain c ∧ (label = [c] ∨
    ∃ middle d, label = c :: (middle ++ [d]) ∧ middle.length ≤ 61 ∧
      (∀ e ∈ middle, IsPlain e ∨ e = '-') ∧ IsPlain d) := by
  simp only [labelParts, mem_languageOf_cons, mem_languageOf_nil, mem_oneOf, mem_optional,
    mem_sequence, mem_repeated_oneOf, has_append, has_plainRuns, has_single]
  constructor
  · rintro ⟨_, ⟨c, rfl, plain⟩, _, ⟨rest, ending, _, rfl, rfl⟩, rfl⟩
    refine ⟨c, plain, ?_⟩
    rcases ending with rfl | ⟨middle, ⟨-, short, all⟩, _, ⟨_, ⟨d, rfl, plain'⟩, _, rfl, rfl⟩, rfl⟩
    · exact .inl (by simp)
    · exact .inr ⟨middle, d, by simp, short 61 rfl, all, plain'⟩
  · rintro ⟨c, plain, rfl | ⟨middle, d, rfl, short, all, plain'⟩⟩
    · exact ⟨[c], ⟨c, rfl, plain⟩, [], ⟨[], .inl rfl, [], rfl, rfl⟩, rfl⟩
    · refine ⟨[c], ⟨c, rfl, plain⟩, middle ++ [d], ⟨middle ++ [d], .inr ?_, [], rfl, by simp⟩, rfl⟩
      refine ⟨middle, ⟨Nat.zero_le _, ?_, all⟩, [d], ⟨[d], ⟨d, rfl, plain'⟩, [], rfl, rfl⟩, rfl⟩
      rintro _ ⟨⟩
      exact short

theorem mem_labelParts_iff : label ∈ languageOf labelParts ↔ IsLabel label := by
  rw [mem_labelParts]
  constructor
  · rintro ⟨c, plain, rfl | ⟨middle, d, rfl, short, all, plain'⟩⟩
    · exact ⟨by simp, by simp, by simp [plain], by simpa using plain.not_hyphen,
        by simpa using plain.not_hyphen⟩
    · constructor
      case filled => simp
      case short => simp; omega
      case characters =>
        simp only [List.forall_mem_cons, List.forall_mem_append]
        exact ⟨.inl plain, all, .inl plain', fun _ h => by cases h⟩
      case first => simpa using plain.not_hyphen
      case last =>
        rw [← List.cons_append, List.getLast?_concat]
        simpa using plain'.not_hyphen
  · intro h
    obtain ⟨c, rest, rfl⟩ := List.exists_cons_of_length_pos h.filled
    obtain ⟨first, others⟩ := List.forall_mem_cons.1 h.characters
    refine ⟨c, first.resolve_right fun same => h.first (congrArg some same), ?_⟩
    rcases List.eq_nil_or_concat rest with rfl | ⟨middle, d, rfl⟩
    · exact .inl rfl
    · rw [List.concat_eq_append] at *
      obtain ⟨inside, last⟩ := List.forall_mem_append.1 others
      have short := h.short
      have ending : (c :: (middle ++ [d])).getLast? = some d := by
        rw [← List.cons_append, List.getLast?_concat]
      simp only [List.length_cons, List.length_append, List.length_nil] at short
      exact .inr ⟨middle, d, rfl, by omega, inside,
        (last d (List.mem_singleton_self d)).resolve_right fun same =>
          h.last (ending.trans (congrArg some same))⟩

/-! ### Addresses -/

theorem isLocalChar_iff {c : Char} : isLocalChar c = true ↔ IsPlain c ∨ c ∈ localMarks := by
  simp [isLocalChar, isAlphanumeric_iff]

theorem isEmail_iff : isEmail cs = true ↔ IsMailAddress cs := by
  have nodot {l : List Char} (h : IsLabel l) : '.' ∉ l := fun found =>
    absurd (h.characters '.' found) (by decide)
  constructor
  · intro h
    simp only [isEmail, Bool.and_eq_true] at h
    obtain ⟨filled, rest⟩ := h
    split at rest
    · next domain at' =>
      have whole : cs.takeWhile isLocalChar ++ cs.dropWhile isLocalChar = cs :=
        List.takeWhile_append_dropWhile
      refine ⟨cs.takeWhile isLocalChar, splitAt (· == '.') domain, ?_, by simpa using filled, ?_,
        splitAt_ne_nil _ _, ?_⟩
      · rw [← joinWith_eq_intercalate, joinWith_splitAt, ← at', whole]
      · exact fun c hc => isLocalChar_iff.1 (List.all_eq_true.1 List.all_takeWhile c hc)
      · exact fun label hlabel => isLabel_iff.1 (List.all_eq_true.1 rest label hlabel)
    · cases rest
  · rintro ⟨user, labels, rfl, filled, characters, some, all⟩
    have inside : ∀ c ∈ user, isLocalChar c = true := fun c hc =>
      isLocalChar_iff.2 (characters c hc)
    have stops : ¬ isLocalChar '@' = true := by decide
    rw [isEmail, List.takeWhile_append_of_pos inside, List.takeWhile_cons_of_neg stops,
      List.append_nil, List.dropWhile_append_of_pos inside, List.dropWhile_cons_of_neg stops,
      ← joinWith_eq_intercalate]
    simp only
    rw [splitAt_joinWith some fun label hlabel => nodot (all label hlabel)]
    simpa [filled] using fun label hlabel => isLabel_iff.2 (all label hlabel)

theorem mem_userPart :
    cs ∈ userPart.language ↔ cs ≠ [] ∧ ∀ c ∈ cs, IsPlain c ∨ c ∈ localMarks := by
  rw [userPart, mem_repeated_oneOf, ← List.length_pos_iff]
  simp only [has_append, has_plainRuns, has_singles]
  exact and_congr_right fun _ => and_iff_right nofun

theorem mem_furtherLabels : cs ∈ furtherLabels.language ↔
    ∃ labels : List (List Char),
      (∀ label ∈ labels, IsLabel label) ∧ labels.flatMap ('.' :: ·) = cs := by
  have dotted (piece : List Char) : piece ∈ (sequence (literal '.' :: labelParts)).language ↔
      ∃ label, IsLabel label ∧ '.' :: label = piece := by
    simp only [mem_sequence, mem_languageOf_cons, mem_literal, mem_labelParts_iff]
    simp
  rw [furtherLabels, mem_repeated]
  simp only [dotted]
  constructor
  · rintro ⟨pieces, rfl, -, -, all⟩
    obtain ⟨labels, areLabels, rfl⟩ := exists_map_eq all
    exact ⟨labels, areLabels, rfl⟩
  · rintro ⟨labels, all, rfl⟩
    exact ⟨labels.map ('.' :: ·), rfl, Nat.zero_le _, nofun,
      List.forall_mem_map.2 fun label hlabel => ⟨label, all label hlabel, rfl⟩⟩

theorem mem_emailRegex : cs ∈ emailRegex.language ↔ IsMailAddress cs := by
  simp only [emailRegex, mem_sequence, mem_languageOf_append, mem_languageOf_cons,
    mem_languageOf_nil, mem_literal, mem_labelParts_iff, mem_userPart, mem_furtherLabels]
  constructor
  · rintro ⟨_, ⟨user, ⟨filled, characters⟩, _, ⟨_, rfl, _, rfl, rfl⟩, rfl⟩, _, ⟨first, label, _,
      ⟨_, ⟨others, all, rfl⟩, _, rfl, rfl⟩, rfl⟩, rfl⟩
    refine ⟨user, first :: others, ?_, filled, characters, List.cons_ne_nil _ _,
      List.forall_mem_cons.2 ⟨label, all⟩⟩
    rw [intercalate_cons]
    simp
  · rintro ⟨user, labels, rfl, filled, characters, some, all⟩
    obtain ⟨first, others, rfl⟩ := List.exists_cons_of_ne_nil some
    obtain ⟨label, all⟩ := List.forall_mem_cons.1 all
    rw [intercalate_cons]
    exact ⟨user ++ ['@'], ⟨user, ⟨filled, characters⟩, ['@'], ⟨['@'], rfl, [], rfl, rfl⟩, rfl⟩, _,
      ⟨first, label, _, ⟨_, ⟨others, all, rfl⟩, [], rfl, rfl⟩, rfl⟩, by simp⟩

/-! ### Identifiers -/

theorem isUuid_iff : isUuid cs = true ↔ IsUniqueId cs := by
  have digits (groups : List (List Char)) : (groups.all fun group => group.all isHexDigit) = true ↔
      ∀ group ∈ groups, ∀ c ∈ group, IsHex c := by
    simp only [List.all_eq_true, isHexDigit_iff]
  simp only [isUuid, Bool.and_eq_true, beq_iff_eq, digits]
  constructor
  · rintro ⟨lengths, all⟩
    exact ⟨splitAt (· == '-') cs, by rw [← joinWith_eq_intercalate, joinWith_splitAt], lengths, all⟩
  · rintro ⟨groups, rfl, lengths, all⟩
    have some : groups ≠ [] := by
      rintro rfl
      cases lengths
    rw [← joinWith_eq_intercalate, splitAt_joinWith some fun group hgroup found =>
      absurd (all group hgroup '-' found) (by decide)]
    exact ⟨lengths, all⟩

theorem mem_hexDigits {n : Nat} :
    cs ∈ (hexDigits n).language ↔ cs.length = n ∧ ∀ c ∈ cs, IsHex c := by
  rw [hexDigits, mem_repeated_oneOf]
  simp only [has_hexRuns]
  constructor
  · rintro ⟨low, high, all⟩
    exact ⟨Nat.le_antisymm (high n rfl) low, all⟩
  · rintro ⟨rfl, all⟩
    refine ⟨Nat.le_refl _, ?_, all⟩
    rintro _ ⟨⟩
    exact Nat.le_refl _

theorem mem_hyphenated {lengths : List Nat} : cs ∈ languageOf (hyphenated lengths) ↔
    ∃ groups, cs = joinWith '-' groups ∧ groups.map List.length = lengths ∧
      ∀ group ∈ groups, ∀ c ∈ group, IsHex c := by
  induction lengths generalizing cs with
  | nil => simp [hyphenated, mem_languageOf_nil, joinWith]
  | cons n lengths ih =>
    cases lengths with
    | nil =>
      simp only [hyphenated, mem_languageOf_cons, mem_languageOf_nil, mem_hexDigits]
      constructor
      · rintro ⟨group, ⟨rfl, all⟩, _, rfl, rfl⟩
        exact ⟨[group], by simp [joinWith], rfl, by simpa using all⟩
      · rintro ⟨groups, rfl, same, all⟩
        obtain ⟨group, rfl, rfl⟩ : ∃ group, groups = [group] ∧ group.length = n := by
          simpa [List.map_eq_cons_iff] using same
        exact ⟨group, ⟨rfl, all group List.mem_cons_self⟩, [], rfl, List.append_nil _⟩
    | cons m lengths =>
      have parts : hyphenated (n :: m :: lengths) =
          hexDigits n :: literal '-' :: hyphenated (m :: lengths) := rfl
      simp only [parts, mem_languageOf_cons, mem_literal, mem_hexDigits, ih]
      constructor
      · rintro ⟨group, ⟨rfl, all⟩, _, ⟨_, rfl, _, ⟨groups, rfl, same, more⟩, rfl⟩, rfl⟩
        obtain ⟨next, groups, rfl, -⟩ := List.map_eq_cons_iff.1 same
        exact ⟨group :: next :: groups, rfl, congrArg (group.length :: ·) same,
          List.forall_mem_cons.2 ⟨all, more⟩⟩
      · rintro ⟨groups, rfl, same, all⟩
        obtain ⟨group, groups, rfl, rfl, later⟩ := List.map_eq_cons_iff.1 same
        obtain ⟨next, groups, rfl, -⟩ := List.map_eq_cons_iff.1 later
        obtain ⟨first, more⟩ := List.forall_mem_cons.1 all
        exact ⟨group, ⟨rfl, first⟩, _, ⟨['-'], rfl, _, ⟨next :: groups, rfl, later, more⟩, rfl⟩,
          rfl⟩

theorem mem_uuidRegex : cs ∈ uuidRegex.language ↔ IsUniqueId cs := by
  rw [uuidRegex, mem_sequence, mem_hyphenated]
  simp only [joinWith_eq_intercalate]
  rfl

/-! ### Both formats -/

/-- The addresses and the identifiers that are taken are those of the two grammars, and are what the
two patterns match as a whole. -/
theorem formats_grammar (s : String) :
    (isEmail s.toList = true ↔ IsMailAddress s.toList) ∧
      (isUuid s.toList = true ↔ IsUniqueId s.toList) ∧
      (emailRegex.anchored = emailPattern ∧
        (isEmail s.toList = true ↔ s.toList ∈ emailRegex.language)) ∧
      uuidRegex.anchored = uuidPattern ∧
        (isUuid s.toList = true ↔ s.toList ∈ uuidRegex.language) :=
  ⟨isEmail_iff, isUuid_iff, ⟨emailRegex_pattern, isEmail_iff.trans mem_emailRegex.symm⟩,
    uuidRegex_pattern, isUuid_iff.trans mem_uuidRegex.symm⟩

end Format
end FieldRules
