/-
The tokens of Go source text, whatever the order in which they are tried.

`Scans` says which token a text is when a certain rest follows: a word, a number
or an operator is as long as it can be, and the other tokens end by themselves.
It is what `scan` finds (`scan_scans`, `Scans.scan`).
-/
import FieldRules.Text.Blank
import FieldRules.Proofs.Lexemes

namespace FieldRules
namespace Go

open Text

/-- The token of a character that stands for itself. -/
def mark? : Char → Option Token
  | '\n' => some .newline
  | '\x7b' => some .leftBrace
  | '\x7d' => some .rightBrace
  | '(' => some .leftParen
  | ')' => some .rightParen
  | '[' => some .leftBracket
  | ']' => some .rightBracket
  | ',' => some .comma
  | ';' => some .semicolon
  | '*' => some .star
  | _ => none

def operatorToken (text : List Char) : Token :=
  if text = ['='] then .assign else if text = ['<', '-'] then .arrow else .operator

/-- No such character is in front. -/
def Ends (p : Char → Bool) (rest : List Char) : Prop := ∀ c ∈ rest.head?, p c = false

/-- A text is a token when a certain rest follows it. -/
inductive Scans : Token → List Char → List Char → Prop where
  | mark {c : Char} {token : Token} {rest : List Char} :
      mark? c = some token → Scans token [c] rest
  | dot {rest : List Char} : (∀ more, rest ≠ '.' :: '.' :: more) → Scans .dot ['.'] rest
  | ellipsis {rest : List Char} : Scans .ellipsis ['.', '.', '.'] rest
  | string {body rest : List Char} : cutQuoted '"' body = ⟨true, body, []⟩ →
      Scans (.string (String.ofList ('"' :: body))) ('"' :: body) rest
  | rune {body rest : List Char} : cutQuoted '\'' body = ⟨true, body, []⟩ →
      Scans .rune ('\'' :: body) rest
  | rawString {body rest : List Char} : cutRaw body = ⟨true, body, []⟩ →
      Scans (.rawString (String.ofList ('\x60' :: body))) ('\x60' :: body) rest
  | lineComment {text rest : List Char} : '\n' ∉ text → Ends (· != '\n') rest →
      Scans (.lineComment (String.ofList text)) ('/' :: '/' :: text) rest
  | blockComment {body rest : List Char} : cutComment body = ⟨true, body, []⟩ →
      Scans (.blockComment (String.ofList (body.take (body.length - 2)))) ('/' :: '*' :: body) rest
  | operator {c : Char} {cs rest : List Char} : isOperatorChar c = true →
      (∀ d ∈ cs, isOperatorChar d = true) → Ends isOperatorChar rest →
      (c = '/' → Ends (fun d => d == '/' || d == '*') (cs ++ rest)) →
      Scans (operatorToken (c :: cs)) (c :: cs) rest
  | number {c : Char} {cs rest : List Char} : isAsciiDigit c = true →
      (∀ d ∈ cs, continuesNumber d = true) → Ends (fun d => continuesNumber d || d == '.') rest →
      Scans .number (c :: cs) rest
  | fraction {c : Char} {whole part rest : List Char} : isAsciiDigit c = true →
      (∀ d ∈ whole, continuesNumber d = true) → (∀ d ∈ part, continuesNumber d = true) →
      Ends continuesNumber rest → Scans .number (c :: (whole ++ '.' :: part)) rest
  | word {c : Char} {cs rest : List Char} : startsName c = true →
      (∀ d ∈ cs, continuesName d = true) → Ends continuesName rest →
      Scans (Token.ofWord (c :: cs)) (c :: cs) rest

/-! ### Runs of characters of one kind -/

section

variable {p : Char → Bool} {cs rest : List Char}

theorem takeWhile_stopped (ends : Ends p rest) : rest.takeWhile p = [] := by
  cases rest with
  | nil => rfl
  | cons d ds => exact List.takeWhile_cons_of_neg (Bool.eq_false_iff.1 (ends d rfl))

theorem dropWhile_stopped (ends : Ends p rest) : rest.dropWhile p = rest := by
  cases rest with
  | nil => rfl
  | cons d ds => exact List.dropWhile_cons_of_neg (Bool.eq_false_iff.1 (ends d rfl))

theorem takeWhile_run (all : ∀ c ∈ cs, p c = true) (ends : Ends p rest) :
    (cs ++ rest).takeWhile p = cs := by
  rw [List.takeWhile_append_of_pos all, takeWhile_stopped ends, List.append_nil]

theorem dropWhile_run (all : ∀ c ∈ cs, p c = true) (ends : Ends p rest) :
    (cs ++ rest).dropWhile p = rest := by
  rw [List.dropWhile_append_of_pos all, dropWhile_stopped ends]

theorem takeWhile_all (p : Char → Bool) (cs : List Char) : ∀ c ∈ cs.takeWhile p, p c = true :=
  List.all_eq_true.1 List.all_takeWhile

theorem dropWhile_ends (p : Char → Bool) (cs : List Char) : Ends p (cs.dropWhile p) := by
  intro c hc
  have front := List.head?_dropWhile_not p cs
  rw [Option.mem_def.1 hc] at front
  simpa using front

end

/-! ### Texts with a delimiter at their end -/

theorem cutQuoted_ne_nil {quote : Char} {cs : List Char} (h : (cutQuoted quote cs).closed = true) :
    (cutQuoted quote cs).body ≠ [] := by
  fun_induction cutQuoted quote cs <;> first
    | exact List.cons_ne_nil _ _
    | cases h

/-- What is cut off at a quote is cut off there whatever follows. -/
theorem cutQuoted_closed {quote : Char} {cs : List Char} (h : (cutQuoted quote cs).closed = true)
    (rest : List Char) : cutQuoted quote ((cutQuoted quote cs).body ++ rest) =
      ⟨true, (cutQuoted quote cs).body, rest⟩ := by
  fun_induction cutQuoted quote cs with
  | case1 | case3 | case4 | case6 | case7 => cases h
  | case2 | case5 => cases rest <;> simp [cutQuoted]
  | case8 d cs plain other newline ih =>
    have inner := ih h
    simp only [Cut.cons, List.cons_append]
    rw [cutQuoted, if_neg other, if_neg newline, if_pos rfl, if_neg plain, inner]
    rfl
  | case9 c d cs other newline escape ih =>
    have inner := ih h
    obtain ⟨e, es, hbody⟩ := List.exists_cons_of_ne_nil (cutQuoted_ne_nil h)
    simp only [Cut.cons, List.cons_append]
    rw [hbody, List.cons_append] at inner ⊢
    rw [cutQuoted, if_neg other, if_neg newline, if_neg escape, inner]
    rfl

theorem cutQuoted_last {quote : Char} {cs : List Char} (h : (cutQuoted quote cs).closed = true) :
    ∃ inner, (cutQuoted quote cs).body = inner ++ [quote] := by
  fun_induction cutQuoted quote cs with
  | case1 | case3 | case4 | case6 | case7 => cases h
  | case2 | case5 => exact ⟨[], rfl⟩
  | case8 d cs _ _ _ ih =>
    obtain ⟨inner, hinner⟩ := ih h
    exact ⟨'\\' :: d :: inner, by simp [Cut.cons, hinner]⟩
  | case9 c d cs _ _ _ ih =>
    obtain ⟨inner, hinner⟩ := ih h
    exact ⟨c :: inner, by simp [Cut.cons, hinner]⟩

theorem cutRaw_closed {cs : List Char} (h : (cutRaw cs).closed = true) (rest : List Char) :
    cutRaw ((cutRaw cs).body ++ rest) = ⟨true, (cutRaw cs).body, rest⟩ := by
  fun_induction cutRaw cs with
  | case1 => cases h
  | case2 => rfl
  | case3 c cs other ih =>
    simp only [Cut.cons, List.cons_append]
    rw [cutRaw, if_neg other, ih h]
    rfl

theorem cutRaw_last {cs : List Char} (h : (cutRaw cs).closed = true) :
    ∃ inner, (cutRaw cs).body = inner ++ ['\x60'] := by
  fun_induction cutRaw cs with
  | case1 => cases h
  | case2 => exact ⟨[], rfl⟩
  | case3 c cs _ ih =>
    obtain ⟨inner, hinner⟩ := ih h
    exact ⟨c :: inner, by simp [Cut.cons, hinner]⟩

theorem cutComment_closes {cs : List Char} (h : (cutComment cs).closed = true) (rest : List Char) :
    cutComment ((cutComment cs).body ++ rest) = ⟨true, (cutComment cs).body, rest⟩ := by
  fun_induction cutComment cs with
  | case1 => cases h
  | case2 => rfl
  | case3 c cs other ih =>
    have inner := ih h
    have whole := cutComment_append cs
    obtain ⟨before, hbody⟩ : ∃ before, (cutComment cs).body = before ++ ['*', '/'] :=
      cutComment_closed h
    obtain ⟨d, ds, front⟩ := List.exists_cons_of_ne_nil
      (hbody ▸ List.append_ne_nil_of_right_ne_nil before (List.cons_ne_nil '*' ['/']))
    simp only [Cut.cons, List.cons_append]
    rw [front, List.cons_append] at whole inner ⊢
    unfold cutComment
    split
    · next more same =>
      cases same
      exact (other _ rfl whole.symm).elim
    · rw [inner]
      rfl

/-! ### What the lexer finds -/

/-- Characters that stand for themselves. -/
theorem scan_mark {c : Char} {token : Token} (h : mark? c = some token) (rest : List Char) :
    scan c rest = .ok ⟨token, [c], rest⟩ := by
  unfold mark? at h
  split at h <;> cases h <;> rfl

theorem scanQuoted_scans {token : List Char → Token} {c : Char} {cut : Cut} {scanned : Scanned}
    (h : scanQuoted token c cut = .ok scanned) :
    cut.closed = true ∧ scanned = ⟨token (c :: cut.body), c :: cut.body, cut.rest⟩ := by
  unfold scanQuoted at h
  split at h
  · next closed =>
    cases h
    exact ⟨closed, rfl⟩
  · cases h

theorem scanNumber_scans {c : Char} {cs : List Char} {scanned : Scanned}
    (digit : isAsciiDigit c = true) (h : scanNumber c cs = .ok scanned) :
    Scans scanned.token scanned.text scanned.rest := by
  unfold scanNumber at h
  simp only at h
  split at h
  · cases h
    exact .fraction digit (takeWhile_all _ _) (takeWhile_all _ _) (dropWhile_ends _ _)
  · next other =>
    cases h
    refine .number digit (takeWhile_all _ _) fun d hd => ?_
    have point : d ≠ '.' := by
      rintro rfl
      obtain ⟨more, hmore⟩ := List.head?_eq_some_iff.1 (Option.mem_def.1 hd)
      exact other more hmore
    exact Bool.or_eq_false_iff.2 ⟨dropWhile_ends _ _ d hd, beq_eq_false_iff_ne.2 point⟩

theorem scanOperator_scans {c : Char} {cs : List Char} {scanned : Scanned}
    (op : isOperatorChar c = true) (alone : c = '/' → Ends (fun d => d == '/' || d == '*') cs)
    (h : scanOperator c cs = .ok scanned) : Scans scanned.token scanned.text scanned.rest := by
  cases h
  refine .operator op (takeWhile_all _ _) (dropWhile_ends _ _) ?_
  rwa [List.takeWhile_append_dropWhile]

theorem scan_scans {c : Char} {cs : List Char} {scanned : Scanned} (h : scan c cs = .ok scanned) :
    Scans scanned.token scanned.text scanned.rest := by
  unfold scan at h
  split at h
  case h_11 =>
    unfold scanDot at h
    split at h
    · cases h
      exact .ellipsis
    · next other =>
      cases h
      exact .dot other
  case h_12 =>
    obtain ⟨closed, rfl⟩ := scanQuoted_scans h
    exact .string (by simpa using cutQuoted_closed closed [])
  case h_13 =>
    obtain ⟨closed, rfl⟩ := scanQuoted_scans h
    exact .rune (by simpa using cutQuoted_closed closed [])
  case h_14 =>
    obtain ⟨closed, rfl⟩ := scanQuoted_scans h
    exact .rawString (by simpa using cutRaw_closed closed [])
  case h_15 =>
    split at h
    · cases h
      refine .lineComment (fun inside => ?_) (dropWhile_ends _ _)
      simpa using takeWhile_all _ _ _ inside
    · unfold scanBlockComment at h
      simp only at h
      split at h
      · next closed =>
        cases h
        exact .blockComment (by simpa using cutComment_closes closed [])
      · cases h
    · next line block =>
      refine scanOperator_scans rfl (fun _ d hd => ?_) h
      obtain ⟨more, rfl⟩ := List.head?_eq_some_iff.1 (Option.mem_def.1 hd)
      rw [Bool.or_eq_false_iff, beq_eq_false_iff_ne, beq_eq_false_iff_ne]
      exact ⟨fun same => line more (by rw [same]), fun same => block more (by rw [same])⟩
  case h_16 slash =>
    split at h
    · next op => exact scanOperator_scans op (fun same => (slash same).elim) h
    · split at h
      · next digit => exact scanNumber_scans digit h
      · split at h
        · next starts =>
          cases h
          exact .word starts (takeWhile_all _ _) (dropWhile_ends _ _)
        · cases h
  all_goals
    cases h
    exact .mark rfl

/-! ### Kinds of characters -/

theorem isOperatorChar_iff {c : Char} : isOperatorChar c = true ↔
    c ∈ ['-', '+', '/', '%', '&', '|', '^', '<', '>', '!', '~', '=', ':'] := by
  simp [isOperatorChar, or_assoc]

theorem digit_not_operator {c : Char} (h : isAsciiDigit c = true) : isOperatorChar c = false := by
  refine Bool.eq_false_iff.2 fun op => ?_
  have none : ['-', '+', '/', '%', '&', '|', '^', '<', '>', '!', '~', '=', ':'].any isAsciiDigit =
      false := by decide +kernel
  exact List.any_eq_false.1 none c (isOperatorChar_iff.1 op) h

theorem name_not_operator {c : Char} (h : startsName c = true) : isOperatorChar c = false := by
  refine Bool.eq_false_iff.2 fun op => ?_
  have none : ['-', '+', '/', '%', '&', '|', '^', '<', '>', '!', '~', '=', ':'].any startsName =
      false := by decide +kernel
  exact List.any_eq_false.1 none c (isOperatorChar_iff.1 op) h

theorem isAsciiDigit_iff {c : Char} : isAsciiDigit c = true ↔ 48 ≤ c.toNat ∧ c.toNat ≤ 57 := by
  simp only [isAsciiDigit, Bool.and_eq_true, decide_eq_true_eq, Char.le_def, UInt32.le_iff_toNat_le]
  exact Iff.rfl

theorem name_not_digit {c : Char} (h : startsName c = true) : isAsciiDigit c = false := by
  refine Bool.eq_false_iff.2 fun digit => ?_
  have none : ∀ n < 10, startsName (Char.ofNat (n + 48)) = false := by decide
  obtain ⟨low, high⟩ := isAsciiDigit_iff.1 digit
  have other := none (c.toNat - 48) (by omega)
  rw [Nat.sub_add_cancel low, Char.ofNat_toNat, h] at other
  cases other

theorem scan_quote (cs : List Char) : scan '"' cs =
    scanQuoted (fun text => .string (String.ofList text)) '"' (cutQuoted '"' cs) := rfl

theorem scan_apostrophe (cs : List Char) :
    scan '\'' cs = scanQuoted (fun _ => .rune) '\'' (cutQuoted '\'' cs) := rfl

theorem scan_backquote (cs : List Char) : scan '\x60' cs =
    scanQuoted (fun text => .rawString (String.ofList text)) '\x60' (cutRaw cs) := rfl

theorem scan_digit {c : Char} (digit : isAsciiDigit c = true) (cs : List Char) :
    scan c cs = scanNumber c cs := by
  unfold scan
  split <;> first
    | cases digit
    | skip
  rw [digit_not_operator digit, digit]
  rfl

/-! ### The text of a token in front of a rest -/

section

variable {body cs part rest : List Char} {c : Char}

theorem cutQuoted_run {quote : Char} (closed : cutQuoted quote body = ⟨true, body, []⟩)
    (rest : List Char) : cutQuoted quote (body ++ rest) = ⟨true, body, rest⟩ := by
  have cut := cutQuoted_closed (by rw [closed]) rest
  rwa [closed] at cut

theorem cutRaw_run (closed : cutRaw body = ⟨true, body, []⟩) (rest : List Char) :
    cutRaw (body ++ rest) = ⟨true, body, rest⟩ := by
  have cut := cutRaw_closed (by rw [closed]) rest
  rwa [closed] at cut

theorem cutComment_run (closed : cutComment body = ⟨true, body, []⟩) (rest : List Char) :
    cutComment (body ++ rest) = ⟨true, body, rest⟩ := by
  have cut := cutComment_closes (by rw [closed]) rest
  rwa [closed] at cut

theorem scanOperator_run (all : ∀ d ∈ cs, isOperatorChar d = true) (ends : Ends isOperatorChar rest) :
    scanOperator c (cs ++ rest) = .ok ⟨operatorToken (c :: cs), c :: cs, rest⟩ := by
  unfold scanOperator
  rw [takeWhile_run all ends, dropWhile_run all ends]
  rfl

theorem scanNumber_run (all : ∀ d ∈ cs, continuesNumber d = true)
    (ends : Ends (fun d => continuesNumber d || d == '.') rest) :
    scanNumber c (cs ++ rest) = .ok ⟨.number, c :: cs, rest⟩ := by
  have point : Ends (· == '.') rest := fun d hd => (Bool.or_eq_false_iff.1 (ends d hd)).2
  have ends : Ends continuesNumber rest := fun d hd => (Bool.or_eq_false_iff.1 (ends d hd)).1
  unfold scanNumber
  rw [takeWhile_run all ends, dropWhile_run all ends]
  split
  · exact absurd (point '.' rfl) (by decide)
  · rfl

theorem scanNumber_fraction (all : ∀ d ∈ cs, continuesNumber d = true)
    (more : ∀ d ∈ part, continuesNumber d = true) (ends : Ends continuesNumber rest) :
    scanNumber c (cs ++ '.' :: (part ++ rest)) = .ok ⟨.number, c :: (cs ++ '.' :: part), rest⟩ := by
  have stop : Ends continuesNumber ('.' :: (part ++ rest)) := by
    rintro d hd
    cases hd
    decide
  unfold scanNumber
  simp only [takeWhile_run all stop, dropWhile_run all stop, takeWhile_run more ends,
    dropWhile_run more ends]

theorem scanName_run (all : ∀ d ∈ cs, continuesName d = true) (ends : Ends continuesName rest) :
    scanName c (cs ++ rest) = .ok ⟨Token.ofWord (c :: cs), c :: cs, rest⟩ := by
  unfold scanName
  rw [takeWhile_run all ends, dropWhile_run all ends]

theorem scan_operator (op : isOperatorChar c = true)
    (alone : c = '/' → Ends (fun d => d == '/' || d == '*') cs) : scan c cs = scanOperator c cs := by
  unfold scan
  split <;> first
    | cases op
    | skip
  · split
    · next more => exact absurd (alone rfl '/' rfl) (by decide)
    · next more => exact absurd (alone rfl '*' rfl) (by decide)
    · rfl
  · rw [if_pos op]

theorem scan_name (starts : startsName c = true) (cs : List Char) : scan c cs = scanName c cs := by
  unfold scan
  split <;> first
    | cases starts
    | skip
  rw [name_not_operator starts, name_not_digit starts, starts]
  rfl

end

/-- The text of a token is found in front of what may follow it. -/
theorem Scans.scan {token : Token} {c : Char} {cs rest : List Char}
    (h : Scans token (c :: cs) rest) : scan c (cs ++ rest) = .ok ⟨token, c :: cs, rest⟩ := by
  cases h with
  | mark h => exact scan_mark h rest
  | dot other =>
    show scanDot rest = _
    unfold scanDot
    split
    · next more => exact absurd rfl (other more)
    · rfl
  | ellipsis => rfl
  | string closed =>
    rw [scan_quote, cutQuoted_run closed]
    rfl
  | rune closed =>
    rw [scan_apostrophe, cutQuoted_run closed]
    rfl
  | rawString closed =>
    rw [scan_backquote, cutRaw_run closed]
    rfl
  | @lineComment text _ inside ends =>
    have all : ∀ d ∈ text, (d != '\n') = true :=
      fun d hd => bne_iff_ne.2 fun same => inside (same ▸ hd)
    show scanLineComment (text ++ rest) = _
    unfold scanLineComment
    rw [takeWhile_run all ends, dropWhile_run all ends]
  | @blockComment body _ closed =>
    show scanBlockComment (body ++ rest) = _
    unfold scanBlockComment
    rw [cutComment_run closed]
    rfl
  | operator op all ends alone => rw [scan_operator op alone, scanOperator_run all ends]
  | number digit all ends => rw [scan_digit digit, scanNumber_run all ends]
  | fraction digit all more ends =>
    rw [scan_digit digit, List.append_assoc, List.cons_append, scanNumber_fraction all more ends]
  | word starts all ends => rw [scan_name starts, scanName_run all ends]

/-! ### The ends of a token -/

theorem Scans.ne_nil {token : Token} {text rest : List Char} (h : Scans token text rest) :
    text ≠ [] := by
  cases h <;> exact List.cons_ne_nil _ _

theorem Scans.spells {token : Token} {text rest : List Char} (h : Scans token text rest) :
    token.Spells text := by
  obtain ⟨c, cs, rfl⟩ := List.exists_cons_of_ne_nil h.ne_nil
  exact (scan_heads h.scan).spells

/-- A mark is neither a word nor a comment. -/
theorem mark_plain {c : Char} {token : Token} (h : mark? c = some token) :
    (∀ word, token ≠ .identifier word) ∧ ∀ text, token ≠ .lineComment text := by
  unfold mark? at h
  split at h <;> cases h <;> exact ⟨nofun, nofun⟩

/-- An operator is neither a word nor a comment. -/
theorem operator_plain (text : List Char) :
    (∀ word, operatorToken text ≠ .identifier word) ∧
      ∀ comment, operatorToken text ≠ .lineComment comment := by
  unfold operatorToken
  split
  · exact ⟨nofun, nofun⟩
  · split <;> exact ⟨nofun, nofun⟩

/-- A character that may be part of a word, a number or an operator. -/
def isSolid (c : Char) : Bool :=
  isOperatorChar c || continuesName c || continuesNumber c || c == '.'

/-- The code points of white space. -/
def blankCodes : List Nat :=
  [0x9, 0xA, 0xB, 0xC, 0xD, 0x20, 0x85, 0xA0, 0x1680, 0x2000, 0x2001, 0x2002, 0x2003, 0x2004,
    0x2005, 0x2006, 0x2007, 0x2008, 0x2009, 0x200A, 0x2028, 0x2029, 0x202F, 0x205F, 0x3000]

theorem isBlank_code {c : Char} (h : isBlank c = true) : c.toNat ∈ blankCodes := by
  have space : (c = ' ') = (c.toNat = 0x20) := propext Char.toNat_inj.symm
  have low : ('\t'.val.toNat : Nat) = 0x9 := rfl
  have high : ('\r'.val.toNat : Nat) = 0xD := rfl
  have code : c.val.toNat = c.toNat := rfl
  simp only [isBlank, Bool.or_eq_true, Bool.and_eq_true, decide_eq_true_eq, beq_iff_eq, Char.le_def,
    UInt32.le_iff_toNat_le, space, low, high, code] at h
  simp only [blankCodes, List.mem_cons, List.not_mem_nil, or_false]
  omega

theorem solid_not_blank {c : Char} (h : isSolid c = true) : isBlank c = false := by
  refine Bool.eq_false_iff.2 fun blank => ?_
  have none : ∀ n ∈ blankCodes, isSolid (Char.ofNat n) = false := by decide +kernel
  have other := none _ (isBlank_code blank)
  rw [Char.ofNat_toNat, h] at other
  cases other

theorem blank_mark {c : Char} {token : Token} (h : mark? c = some token)
    (blank : isBlank c = true) : c = '\n' ∧ token = .newline := by
  unfold mark? at h
  split at h <;> cases h <;> first
    | exact ⟨rfl, rfl⟩
    | cases blank

/-- Only a newline starts with white space. -/
theorem Scans.newline_of_blank {token : Token} {c : Char} {cs rest : List Char}
    (h : Scans token (c :: cs) rest) (blank : isBlank c = true) : c = '\n' ∧ token = .newline := by
  have solid (starts : isSolid c = true) : False := by
    rw [solid_not_blank starts] at blank
    cases blank
  cases h with
  | mark h => exact blank_mark h blank
  | operator op => exact (solid (by simp [isSolid, op])).elim
  | number digit => exact (solid (by simp [isSolid, continuesNumber, digit])).elim
  | fraction digit => exact (solid (by simp [isSolid, continuesNumber, digit])).elim
  | word starts => exact (solid (by simp [isSolid, continuesName, starts])).elim
  | _ => cases blank

/-- Only newlines and line comments end with white space. -/
theorem Scans.last_not_blank {token : Token} {text rest : List Char} (h : Scans token text rest)
    (newline : token ≠ .newline) (comment : ∀ text, token ≠ .lineComment text) {d : Char}
    (last : text.getLast? = some d) : isBlank d = false := by
  have solid (all : ∀ e ∈ text, isSolid e = true) : isBlank d = false :=
    solid_not_blank (all d (List.mem_of_getLast? last))
  have closed {c : Char} (inner : List Char) (split : text = inner ++ [c])
      (plain : isBlank c = false) : isBlank d = false := by
    rw [split, List.getLast?_concat] at last
    cases last
    exact plain
  cases h with
  | @mark c _ _ h =>
    refine closed (c := c) [] rfl (Bool.eq_false_iff.2 fun blank => ?_)
    exact newline (blank_mark h blank).2
  | dot => exact closed (c := '.') [] rfl rfl
  | ellipsis => exact closed (c := '.') ['.', '.'] rfl rfl
  | @string body _ h =>
    have ends := cutQuoted_last (show (cutQuoted '"' body).closed = true by rw [h])
    rw [h] at ends
    obtain ⟨inner, rfl⟩ := ends
    exact closed (c := '"') ('"' :: inner) rfl rfl
  | @rune body _ h =>
    have ends := cutQuoted_last (show (cutQuoted '\'' body).closed = true by rw [h])
    rw [h] at ends
    obtain ⟨inner, rfl⟩ := ends
    exact closed (c := '\'') ('\'' :: inner) rfl rfl
  | @rawString body _ h =>
    have ends := cutRaw_last (show (cutRaw body).closed = true by rw [h])
    rw [h] at ends
    obtain ⟨inner, rfl⟩ := ends
    exact closed (c := '\x60') ('\x60' :: inner) rfl rfl
  | lineComment => exact absurd rfl (comment _)
  | @blockComment body _ h =>
    have ends := cutComment_closed (show (cutComment body).closed = true by rw [h])
    rw [h] at ends
    obtain ⟨inner, rfl⟩ := ends
    exact closed (c := '/') ('/' :: '*' :: (inner ++ ['*'])) (by simp) rfl
  | operator op all =>
    exact solid (List.forall_mem_cons.2
      ⟨by simp [isSolid, op], fun e he => by simp [isSolid, all e he]⟩)
  | number digit all =>
    exact solid (List.forall_mem_cons.2
      ⟨by simp [isSolid, continuesNumber, digit], fun e he => by simp [isSolid, all e he]⟩)
  | fraction digit all more =>
    refine solid (List.forall_mem_cons.2 ⟨by simp [isSolid, continuesNumber, digit], ?_⟩)
    intro e he
    rcases List.mem_append.1 he with he | he
    · simp [isSolid, all e he]
    · rcases List.mem_cons.1 he with rfl | he
      · rfl
      · simp [isSolid, more e he]
  | word starts all =>
    exact solid (List.forall_mem_cons.2
      ⟨by simp [isSolid, continuesName, starts], fun e he => by simp [isSolid, all e he]⟩)

/-- A token that stands for a character is written as that character only. -/
theorem Scans.mark_text {token : Token} {text rest : List Char} (h : Scans token text rest)
    {c : Char} (isMark : mark? c = some token) : text = [c] := by
  have noOperator (cs : List Char) : mark? c ≠ some (operatorToken cs) := by
    unfold mark? operatorToken
    split <;> split <;> first
      | split <;> exact nofun
      | exact nofun
  have noWord (cs : List Char) : mark? c ≠ some (Token.ofWord cs) := by
    unfold mark? Token.ofWord
    split <;> split <;> exact nofun
  cases h with
  | @mark d _ _ h =>
    unfold mark? at h isMark
    split at isMark <;> cases isMark <;> split at h <;> cases h <;> rfl
  | operator => exact absurd isMark (noOperator _)
  | word => exact absurd isMark (noWord _)
  | _ =>
    unfold mark? at isMark
    split at isMark <;> cases isMark

/-! ### Another rest -/

/-- A character that ends every token but a line comment. -/
def endsToken (c : Char) : Bool := c == ' ' || c == '\n' || c == ']' || c == ';' || c == ','

/-- One rest starts with `n` characters of another, or with fewer and a character that ends every
token. -/
def Agrees : Nat → List Char → List Char → Prop
  | 0, _, _ => True
  | n + 1, cs, ds =>
    (∀ d ∈ ds.head?, endsToken d = true) ∨
      ∃ c cs' ds', cs = c :: cs' ∧ ds = c :: ds' ∧ Agrees n cs' ds'

theorem Agrees.of_stop {n : Nat} {cs ds : List Char} (h : ∀ d ∈ ds.head?, endsToken d = true) :
    Agrees n cs ds := by
  cases n with
  | zero => trivial
  | succ n => exact .inl h

theorem Agrees.fewer {n : Nat} {cs ds : List Char} (h : Agrees (n + 1) cs ds) : Agrees n cs ds := by
  induction n generalizing cs ds with
  | zero => trivial
  | succ n ih =>
    rcases h with stop | ⟨c, cs', ds', rfl, rfl, more⟩
    · exact .of_stop stop
    · exact .inr ⟨c, cs', ds', rfl, rfl, ih more⟩

theorem Agrees.cons {n : Nat} {cs ds : List Char} (h : Agrees n cs ds) (c : Char) :
    Agrees (n + 1) (c :: cs) (c :: ds) :=
  Or.inr ⟨c, cs, ds, rfl, rfl, h⟩

theorem Agrees.append {n : Nat} {cs ds : List Char} (h : Agrees n cs ds) (front : List Char) :
    Agrees n (front ++ cs) (front ++ ds) := by
  induction front generalizing n with
  | nil => exact h
  | cons c front ih =>
    cases n with
    | zero => trivial
    | succ n => exact (ih h.fewer).cons c

theorem Ends.again {p : Char → Bool} {n : Nat} {rest rest' : List Char} (ends : Ends p rest)
    (agrees : Agrees (n + 1) rest rest') (stops : ∀ c, endsToken c = true → p c = false) :
    Ends p rest' := by
  rcases agrees with stop | ⟨c, cs, ds, rfl, rfl, -⟩
  · exact fun d hd => stops d (stop d hd)
  · exact ends

theorem endsToken_iff {c : Char} :
    endsToken c = true ↔ c ∈ [' ', '\n', ']', ';', ','] := by
  simp [endsToken, or_assoc]

theorem endsToken_not {p : Char → Bool} (none : [' ', '\n', ']', ';', ','].any p = false) {c : Char}
    (h : endsToken c = true) : p c = false :=
  Bool.eq_false_iff.2 (List.any_eq_false.1 none c (endsToken_iff.1 h))

/-- A token stays what it is. -/
theorem Scans.again {token : Token} {text rest rest' : List Char} (h : Scans token text rest)
    (agrees : Agrees 2 rest rest')
    (comment : ∀ text, token = .lineComment text → Ends (· != '\n') rest') :
    Scans token text rest' := by
  have stays {p : Char → Bool} (ends : Ends p rest)
      (none : [' ', '\n', ']', ';', ','].any p = false) : Ends p rest' :=
    ends.again agrees fun _ => endsToken_not none
  cases h with
  | mark h => exact .mark h
  | dot other =>
    refine .dot fun more same => ?_
    subst same
    rcases agrees with stop | ⟨c, cs, ds, rfl, hds, stop | ⟨d, cs', ds', rfl, hds', -⟩⟩
    · exact absurd (stop '.' rfl) (by decide)
    · cases hds
      exact absurd (stop '.' rfl) (by decide)
    · cases hds
      cases hds'
      exact other cs' rfl
  | ellipsis => exact .ellipsis
  | string closed => exact .string closed
  | rune closed => exact .rune closed
  | rawString closed => exact .rawString closed
  | lineComment inside => exact .lineComment inside (comment _ rfl)
  | blockComment closed => exact .blockComment closed
  | @operator c cs _ op all ends alone =>
    refine .operator op all (stays ends (by decide +kernel)) fun slash => ?_
    have alone := alone slash
    cases cs with
    | nil => exact stays alone (by decide +kernel)
    | cons d cs => exact alone
  | number digit all ends => exact .number digit all (stays ends (by decide +kernel))
  | fraction digit all more ends =>
    exact .fraction digit all more (stays ends (by decide +kernel))
  | word starts all ends => exact .word starts all (stays ends (by decide +kernel))

end Go
end FieldRules
