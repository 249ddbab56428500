/-
Texts that lead out of as many brackets as into.

Such a text (`LevelText`) is put together from words, numbers, quoted strings and
operators, from texts with brackets around them, and from texts with something
between them that belongs to neither.  What may be selected from ends where a name
ends (`PrimaryText`).
-/
import FieldRules.Go.Code
import FieldRules.Proofs.Passing

namespace FieldRules
namespace Go

open Text

/-- Wherever the text stands before what does not go on with its last token, it is cut into lexemes
that leave as many brackets open as they find. -/
def LevelText (text : List Char) : Prop := Lexes text isSolid IsLevel

/-- The same of a text that starts and ends as a name does. -/
structure PrimaryText (text : List Char) : Prop where
  front : ∃ c cs, text = c :: cs ∧ startsName c = true
  lexes : Lexes text continuesName IsLevel

section

variable {text behind inner : List Char} {c : Char} {token : Token}

/-! ### Tokens -/

theorem operatorToken_inner (op : List Char) : (operatorToken op).isInner = true := by
  unfold operatorToken
  split
  · rfl
  · split <;> rfl

theorem ofWord_inner (word : List Char) : (Token.ofWord word).isInner = true := by
  unfold Token.ofWord
  split <;> rfl

/-- What does not go on with a text does not go on with the last character of a kind. -/
theorem Ends.of_solid {p : Char → Bool} {rest : List Char} (ends : Ends isSolid rest)
    (solid : ∀ c, p c = true → isSolid c = true) : Ends p rest := by
  intro c hc
  exact Bool.eq_false_iff.2 fun found => Bool.eq_false_iff.1 (ends c hc) (solid c found)

theorem solid_of_name (c : Char) (h : continuesName c = true) : isSolid c = true := by
  simp [isSolid, h]

theorem solid_of_operator (c : Char) (h : isOperatorChar c = true) : isSolid c = true := by
  simp [isSolid, h]

theorem Ends.append {p : Char → Bool} {rest : List Char} (front : Ends p behind)
    (ends : Ends p rest) : Ends p (behind ++ rest) := by
  cases behind with
  | nil => exact ends
  | cons c cs => exact front

/-! ### Pieces of a text -/

namespace LevelText

theorem append (h : LevelText text) (h' : LevelText behind) (apart : Ends isSolid behind) :
    LevelText (text ++ behind) :=
  Lexes.append h h' (fun _ ends => apart.append ends) fun _ _ => IsLevel.append

theorem space (h : LevelText text) : LevelText (' ' :: text) := Lexes.space h

theorem spaced (h : LevelText text) (h' : LevelText behind) : LevelText (text ++ ' ' :: behind) :=
  h.append h'.space fun c hc => by cases hc; rfl

/-- One token in front of a text. -/
theorem cons {p : Char → Bool} (h : ∀ rest, Ends p rest → Scans token text rest)
    (plain : token.isInner = true) (h' : LevelText behind)
    (apart : Ends p behind) (solid : ∀ c, p c = true → isSolid c = true) :
    LevelText (text ++ behind) := by
  refine Lexes.cons h h' (fun _ ends => apart.append (ends.of_solid solid)) ?_
  rintro l ms rfl hms
  exact (isLevel_singleton plain).append hms

theorem mark (h : mark? c = some token) (plain : token.isInner = true) (h' : LevelText behind) :
    LevelText (c :: behind) := by
  refine Lexes.mark h h' ?_
  rintro l ms rfl hms
  exact (isLevel_singleton plain).append hms

/-- An operator, where what follows does not go on with it. -/
theorem operator {op : List Char} (hop : op.all isOperatorChar = true)
    (ordinary : op ≠ [] ∧ op.head? ≠ some '/') (h : LevelText behind)
    (apart : Ends isOperatorChar behind) : LevelText (op ++ behind) := by
  obtain ⟨filled, noSlash⟩ := ordinary
  obtain ⟨d, ds, rfl⟩ := List.exists_cons_of_ne_nil filled
  obtain ⟨first, more⟩ := Bool.and_eq_true_iff.1 hop
  refine cons (fun rest ends => ?_) (operatorToken_inner (d :: ds)) h apart solid_of_operator
  exact .operator first (List.all_eq_true.1 more) ends fun slash =>
    absurd (congrArg some slash) noSlash

end LevelText

/-! ### Brackets -/

section

variable {o e : Char} {opening closing : Token} {p q : Char → Bool}

/-- Two brackets with nothing between them. -/
theorem lexes_brackets (ho : mark? o = some opening) (opens : opening.isOpening = true)
    (he : mark? e = some closing) (closes : closing.isClosing = true) :
    Lexes [o, e] p IsLevel := by
  have last : Lexes [e] p fun ms => ∃ n, ms = [n] ∧ n.token = closing :=
    lexes_token fun rest _ => .mark he
  refine Lexes.mark ho last ?_
  rintro l _ hl ⟨n, rfl, hn⟩
  have nothing : IsNested [] := fun _ _ => .nil
  exact nothing.bracketed (by rw [hl]; exact opens) (by rw [hn]; exact closes)

/-- A text in brackets, perhaps with blanks in front of the last one. -/
theorem Lexes.enclosed_gap {P : List Lexeme → Prop} {gap : List Char}
    (ho : mark? o = some opening) (opens : opening.isOpening = true) (he : mark? e = some closing)
    (closes : closing.isClosing = true) (h : Lexes inner p P) (nested : ∀ ls, P ls → IsNested ls)
    (blank : IsGap gap) (ends : ∀ rest, Ends p (gap ++ e :: rest)) :
    Lexes (o :: (inner ++ (gap ++ [e]))) q IsLevel := by
  have last : Lexes (gap ++ [e]) q fun ms => ∃ n, ms = [n] ∧ n.token = closing :=
    Lexes.behind_gap blank (lexes_token fun rest _ => .mark he)
  have whole : Lexes (inner ++ (gap ++ [e])) q fun ms => ∃ ls n, ms = ls ++ [n] ∧ IsNested ls ∧
      n.token = closing := by
    refine h.append last (fun rest _ => ?_) ?_
    · rw [List.append_assoc]
      exact ends rest
    · rintro ls _ hls ⟨n, rfl, hn⟩
      exact ⟨ls, n, rfl, nested ls hls, hn⟩
  refine Lexes.mark ho whole ?_
  rintro l _ hl ⟨ls, n, rfl, hls, hn⟩
  exact hls.bracketed (by rw [hl]; exact opens) (by rw [hn]; exact closes)

theorem Lexes.enclosed {P : List Lexeme → Prop} (ho : mark? o = some opening)
    (opens : opening.isOpening = true) (he : mark? e = some closing)
    (closes : closing.isClosing = true) (h : Lexes inner p P) (nested : ∀ ls, P ls → IsNested ls)
    (ends : ∀ rest, Ends p (e :: rest)) : Lexes (o :: (inner ++ [e])) q IsLevel :=
  Lexes.enclosed_gap ho opens he closes h nested isGap_nil ends

end

/-! ### Words and what is selected -/

theorem PrimaryText.level (h : PrimaryText text) : LevelText text :=
  h.lexes.imp (fun _ ends => ends.of_solid solid_of_name) fun _ hls => hls

/-- A name does not go on with an operator or with a point. -/
theorem PrimaryText.apart (h : PrimaryText text) (rest : List Char) :
    Ends isOperatorChar (text ++ rest) ∧ Ends (· == '.') (text ++ rest) := by
  obtain ⟨c, cs, rfl, starts⟩ := h.front
  refine ⟨fun d hd => ?_, fun d hd => ?_⟩
  · cases hd
    exact name_not_operator starts
  · cases hd
    refine beq_eq_false_iff_ne.2 ?_
    rintro rfl
    cases starts

theorem primaryText_word (name : isName text = true) : PrimaryText text := by
  constructor
  case front =>
    cases text with
    | nil => cases name
    | cons c cs => exact ⟨c, cs, rfl, (Bool.and_eq_true_iff.1 name).1⟩
  case lexes =>
    refine (lexes_word name).imp (fun _ ends => ends) ?_
    rintro _ ⟨l, rfl, hl⟩
    exact isLevel_singleton (by rw [hl]; exact ofWord_inner text)

theorem levelText_word (name : isName text = true) : LevelText text :=
  (primaryText_word name).level

/-- A text in front of another one that keeps the way in which it starts. -/
theorem PrimaryText.front_append (h : PrimaryText text) (behind : List Char) :
    ∃ c cs, text ++ behind = c :: cs ∧ startsName c = true := by
  obtain ⟨c, cs, rfl, starts⟩ := h.front
  exact ⟨c, cs ++ behind, rfl, starts⟩

theorem PrimaryText.select (h : PrimaryText text) (name : isName behind = true) :
    PrimaryText (text ++ '.' :: behind) := by
  have second := primaryText_word name
  refine ⟨h.front_append _, ?_⟩
  have dot : Lexes ('.' :: behind) continuesName IsLevel := by
    refine Lexes.dot second.lexes (fun rest _ => (second.apart rest).2) ?_
    intro l ms hl hms
    exact (isLevel_singleton (by rw [hl]; rfl)).append hms
  exact h.lexes.append dot (fun rest _ c hc => by cases hc; rfl) fun _ _ => IsLevel.append

theorem PrimaryText.call_nil (h : PrimaryText text) : PrimaryText (text ++ ['(', ')']) := by
  refine ⟨h.front_append _, ?_⟩
  have brackets : Lexes ['(', ')'] continuesName IsLevel := lexes_brackets rfl rfl rfl rfl
  exact h.lexes.append brackets (fun rest _ c hc => by cases hc; rfl) fun _ _ => IsLevel.append

theorem PrimaryText.call (h : PrimaryText text) (h' : LevelText inner) :
    PrimaryText (text ++ '(' :: (inner ++ [')'])) := by
  refine ⟨h.front_append _, ?_⟩
  have brackets : Lexes ('(' :: (inner ++ [')'])) continuesName IsLevel :=
    Lexes.enclosed rfl rfl rfl rfl h' (fun _ hls => hls.isNested) fun rest c hc => by cases hc; rfl
  exact h.lexes.append brackets (fun rest _ c hc => by cases hc; rfl) fun _ _ => IsLevel.append

/-- Three points behind a name. -/
theorem PrimaryText.spread (h : PrimaryText text) : LevelText (text ++ ['.', '.', '.']) := by
  have points : Lexes ['.', '.', '.'] isSolid IsLevel := by
    refine (lexes_token fun rest _ => .ellipsis).imp (fun _ ends => ends) ?_
    rintro _ ⟨l, rfl, hl⟩
    exact isLevel_singleton (by rw [hl]; rfl)
  exact h.lexes.append points (fun rest _ c hc => by cases hc; rfl) fun _ _ => IsLevel.append

/-! ### Quoted strings -/

/-- A text that ends with the quote that closes it, and has no other one. -/
def IsQuotedBody (cs : List Char) : Prop := cutQuoted '"' cs = ⟨true, cs, []⟩

theorem IsQuotedBody.exists_cons (h : IsQuotedBody text) : ∃ c cs, text = c :: cs := by
  cases text with
  | nil => cases h
  | cons c cs => exact ⟨c, cs, rfl⟩

theorem IsQuotedBody.cons (h : IsQuotedBody text) (noQuote : c ≠ '"') (noNewline : c ≠ '\n')
    (noBackslash : c ≠ '\\') : IsQuotedBody (c :: text) := by
  obtain ⟨d, ds, rfl⟩ := h.exists_cons
  rw [IsQuotedBody, cutQuoted, if_neg noQuote, if_neg noNewline, if_neg noBackslash, h]
  rfl

theorem IsQuotedBody.escape (h : IsQuotedBody text) {d : Char} (noNewline : d ≠ '\n') :
    IsQuotedBody ('\\' :: d :: text) := by
  rw [IsQuotedBody, cutQuoted, if_neg (by decide), if_neg (by decide), if_pos rfl,
    if_neg noNewline, h]
  rfl

theorem hexDigit_plain {n : Nat} (h : n < 16) :
    Quoted.hexDigit n ≠ '"' ∧ Quoted.hexDigit n ≠ '\n' ∧ Quoted.hexDigit n ≠ '\\' := by
  have all : ∀ n < 16, Quoted.hexDigit n ≠ '"' ∧ Quoted.hexDigit n ≠ '\n' ∧
      Quoted.hexDigit n ≠ '\\' := by decide
  exact all n h

theorem IsQuotedBody.encodeChar (h : IsQuotedBody text) (c : Char) :
    IsQuotedBody (Quoted.encodeChar c ++ text) := by
  unfold Quoted.encodeChar
  split
  · exact h.escape (by decide)
  · next noQuote =>
    split
    · exact h.escape (by decide)
    · next noBackslash =>
      split
      · exact h.escape (by decide)
      · next noNewline =>
        split
        · exact h.escape (by decide)
        · split
          · exact h.escape (by decide)
          · split
            · next control =>
              obtain ⟨quote, newline, backslash⟩ :=
                hexDigit_plain (show c.toNat / 16 < 16 by omega)
              obtain ⟨quote', newline', backslash'⟩ :=
                hexDigit_plain (show c.toNat % 16 < 16 by omega)
              refine IsQuotedBody.escape ?_ (by decide)
              exact (h.cons quote' newline' backslash').cons quote newline backslash
            · exact h.cons noQuote noNewline noBackslash

/-- Whatever a text is, it is quoted as one string. -/
theorem isQuotedBody_encode (cs : List Char) :
    IsQuotedBody (cs.flatMap Quoted.encodeChar ++ ['"']) := by
  induction cs with
  | nil => rfl
  | cons c cs ih =>
    rw [List.flatMap_cons, List.append_assoc]
    exact ih.encodeChar c

theorem levelText_quoted (cs : List Char) : LevelText (Quoted.encode cs) := by
  have scans (rest : List Char) : Scans _ (Quoted.encode cs) rest :=
    .string (isQuotedBody_encode cs)
  refine (lexes_token fun rest _ => scans rest).imp (fun _ ends => ends) ?_
  rintro _ ⟨l, rfl, hl⟩
  exact isLevel_singleton (by rw [hl]; rfl)

/-! ### Numbers -/

/-- A character of a number, as numbers are written. -/
def isNumeric (c : Char) : Bool := continuesNumber c || c == '.' || c == '-'

theorem solid_of_number (c : Char) (h : continuesNumber c = true) : isSolid c = true := by
  simp [isSolid, h]

theorem Ends.dropWhile {p : Char → Bool} {rest : List Char} (ends : Ends isSolid rest)
    (solid : ∀ d, p d = true → isSolid d = true) (ds : List Char) :
    Ends p (ds.dropWhile p ++ rest) :=
  (dropWhile_ends p ds).append (ends.of_solid solid)

/-- A text starts with a token, whatever follows it that is not solid. -/
def StartsToken (text : List Char) : Prop :=
  ∃ first behind token, text = first ++ behind ∧ first ≠ [] ∧ token.isInner = true ∧
    ∀ rest, Ends isSolid rest → Scans token first (behind ++ rest)

theorem startsToken_digit (digit : isAsciiDigit c = true) (cs : List Char) :
    StartsToken (c :: cs) := by
  have whole : cs.takeWhile continuesNumber ++ cs.dropWhile continuesNumber = cs :=
    List.takeWhile_append_dropWhile
  by_cases point : ∃ more, cs.dropWhile continuesNumber = '.' :: more
  · obtain ⟨more, hmore⟩ := point
    have part : more.takeWhile continuesNumber ++ more.dropWhile continuesNumber = more :=
      List.takeWhile_append_dropWhile
    refine ⟨c :: (cs.takeWhile continuesNumber ++ '.' :: more.takeWhile continuesNumber),
      more.dropWhile continuesNumber, .number, ?_, List.cons_ne_nil _ _, rfl, fun rest ends => ?_⟩
    · rw [List.cons_append, List.append_assoc, List.cons_append, part, ← hmore, whole]
    · exact .fraction digit (takeWhile_all _ _) (takeWhile_all _ _)
        (ends.dropWhile solid_of_number more)
  · refine ⟨c :: cs.takeWhile continuesNumber, cs.dropWhile continuesNumber, .number,
      congrArg (c :: ·) whole.symm, List.cons_ne_nil _ _, rfl, fun rest ends => ?_⟩
    refine .number digit (takeWhile_all _ _) fun d hd => Bool.or_eq_false_iff.2
      ⟨ends.dropWhile solid_of_number cs d hd, beq_eq_false_iff_ne.2 ?_⟩
    rintro rfl
    cases hbehind : cs.dropWhile continuesNumber with
    | nil =>
      rw [hbehind] at hd
      exact absurd (ends '.' hd) (by decide)
    | cons e es =>
      rw [hbehind] at hd
      cases hd
      exact point ⟨es, hbehind⟩

theorem startsToken_word (starts : startsName c = true) (cs : List Char) : StartsToken (c :: cs) :=
  ⟨c :: cs.takeWhile continuesName, cs.dropWhile continuesName, _,
    congrArg (c :: ·) List.takeWhile_append_dropWhile.symm, List.cons_ne_nil _ _, ofWord_inner _,
    fun _ ends => .word starts (takeWhile_all _ _) (ends.dropWhile solid_of_name cs)⟩

theorem startsToken_operator (op : isOperatorChar c = true) (ordinary : c ≠ '/') (cs : List Char) :
    StartsToken (c :: cs) :=
  ⟨c :: cs.takeWhile isOperatorChar, cs.dropWhile isOperatorChar, _,
    congrArg (c :: ·) List.takeWhile_append_dropWhile.symm, List.cons_ne_nil _ _,
    operatorToken_inner _, fun _ ends => .operator op (takeWhile_all _ _)
      (ends.dropWhile solid_of_operator cs) fun slash => absurd slash ordinary⟩

theorem startsToken_point (cs : List Char) : StartsToken ('.' :: cs) := by
  by_cases points : ∃ more, cs = '.' :: '.' :: more
  · obtain ⟨more, rfl⟩ := points
    exact ⟨['.', '.', '.'], more, .ellipsis, rfl, List.cons_ne_nil _ _, rfl, fun _ _ => .ellipsis⟩
  · refine ⟨['.'], cs, .dot, rfl, List.cons_ne_nil _ _, rfl, fun rest ends => .dot ?_⟩
    intro more same
    have noPoint (behind : List Char) : rest ≠ '.' :: behind := by
      rintro rfl
      exact absurd (ends '.' rfl) (by decide)
    match cs with
    | [] => exact noPoint _ same
    | [d] => exact noPoint _ (List.cons.inj same).2
    | d :: e :: ds =>
      cases same
      exact points ⟨ds, rfl⟩

theorem startsToken_numeric (h : isNumeric c = true) (cs : List Char) : StartsToken (c :: cs) := by
  simp only [isNumeric, continuesNumber, Bool.or_eq_true, beq_iff_eq] at h
  rcases h with (((digit | letter) | rfl) | rfl) | rfl
  · exact startsToken_digit digit cs
  · refine startsToken_word ?_ cs
    have low : c.toNat < 0x80 := by
      simp only [isAsciiLetter, Bool.or_eq_true, Bool.and_eq_true, decide_eq_true_eq, Char.le_def,
        UInt32.le_iff_toNat_le] at letter
      have small : c.toNat ≤ 'z'.toNat := by
        rcases letter with ⟨-, le⟩ | ⟨-, le⟩
        · exact le
        · exact Nat.le_trans le (by decide)
      exact Nat.lt_of_le_of_lt small (by decide)
    simp [startsName, isLetter, low, letter]
  · exact startsToken_word rfl cs
  · exact startsToken_point cs
  · exact startsToken_operator rfl (by decide) cs

/-- Numbers, and whatever is made of the same characters, have no brackets. -/
theorem levelText_numeric {cs : List Char} (filled : cs ≠ [])
    (h : ∀ d ∈ cs, isNumeric d = true) : LevelText cs := by
  induction hlength : cs.length using Nat.strongRecOn generalizing cs with
  | _ n ih =>
    obtain ⟨c, more, rfl⟩ := List.exists_cons_of_ne_nil filled
    obtain ⟨first, behind, token, split, nonempty, plain, scans⟩ :=
      startsToken_numeric (h c List.mem_cons_self) more
    rw [split] at h hlength ⊢
    by_cases last : behind = []
    · subst last
      rw [List.append_nil]
      refine (lexes_token fun rest ends => scans rest ends).imp (fun _ ends => ends) ?_
      rintro _ ⟨l, rfl, hl⟩
      exact isLevel_singleton (by rw [hl]; exact plain)
    · have shorter : behind.length < n := by
        rw [← hlength, List.length_append]
        exact Nat.lt_add_of_pos_left (List.length_pos_iff.2 nonempty)
      have level : LevelText behind :=
        ih _ shorter last (fun d hd => h d (List.mem_append_right _ hd)) rfl
      refine Lexes.front scans level ?_
      rintro l ms hl hms
      exact (isLevel_singleton (by rw [hl]; exact plain)).append hms

end

end Go
end FieldRules
