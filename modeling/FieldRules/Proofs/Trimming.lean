/-
The text of an array length, without white space at its ends.

White space at the ends of a piece of source text is newlines and the blanks
between them, since no other token starts or ends with white space, but for a line
comment.  So the length of an array is the text of its lexemes without the newlines
at both ends (`Lexed.trimmed`), unless it ends with a line comment.
-/
import FieldRules.Proofs.Relexing

namespace FieldRules

open Text

/-! ### Trimming -/

namespace Text

theorem trimEnd_blank {behind : List Char} (blank : ∀ c ∈ behind, isBlank c = true)
    (cs : List Char) : trimEnd (cs ++ behind) = trimEnd cs := by
  unfold trimEnd trimStart
  rw [List.reverse_append,
    List.dropWhile_append_of_pos fun c hc => blank c (List.mem_reverse.1 hc)]

theorem trimEnd_of_last {cs : List Char} (last : ∀ c ∈ cs.getLast?, isBlank c = false) :
    trimEnd cs = cs := by
  rcases List.eq_nil_or_concat cs with rfl | ⟨front, c, rfl⟩
  · rfl
  · rw [List.concat_eq_append] at last ⊢
    unfold trimEnd trimStart
    rw [List.reverse_concat, List.dropWhile_cons_of_neg, ← List.reverse_concat,
      List.reverse_reverse]
    exact Bool.eq_false_iff.1 (last c List.getLast?_concat)

/-- What is left of a text between white space, if it has none at its ends. -/
theorem trim_eq {front core behind : List Char} (blankFront : ∀ c ∈ front, isBlank c = true)
    (blankBehind : ∀ c ∈ behind, isBlank c = true) (head : ∀ c ∈ core.head?, isBlank c = false)
    (last : ∀ c ∈ core.getLast?, isBlank c = false) : trim (front ++ (core ++ behind)) = core := by
  have start : trimStart (front ++ (core ++ behind)) = trimStart (core ++ behind) :=
    List.dropWhile_append_of_pos blankFront
  unfold trim
  rw [start]
  cases core with
  | nil =>
    have nothing : trimStart (behind ++ []) = [] := List.dropWhile_append_of_pos blankBehind
    rw [List.append_nil] at nothing
    rw [List.nil_append, nothing]
    rfl
  | cons c cs =>
    have plain : trimStart (c :: cs ++ behind) = c :: cs ++ behind :=
      List.dropWhile_cons_of_neg (Bool.eq_false_iff.1 (head c rfl))
    rw [plain, trimEnd_blank blankBehind, trimEnd_of_last last]

/-- A text ends in white space behind what is left of it. -/
theorem trimEnd_append (cs : List Char) : ∃ blanks, cs = trimEnd cs ++ blanks ∧
    (∀ c ∈ blanks, isBlank c = true) ∧ ∀ c ∈ (trimEnd cs).getLast?, isBlank c = false := by
  refine ⟨(cs.reverse.takeWhile isBlank).reverse, ?_, fun c hc => ?_, fun c hc => ?_⟩
  · unfold trimEnd trimStart
    rw [← List.reverse_append, List.takeWhile_append_dropWhile, List.reverse_reverse]
  · exact List.all_eq_true.1 List.all_takeWhile c (List.mem_reverse.1 hc)
  · unfold trimEnd trimStart at hc
    rw [List.getLast?_reverse] at hc
    have front := List.head?_dropWhile_not isBlank cs.reverse
    rw [Option.mem_def.1 hc] at front
    simpa using front

end Text

namespace Go

/-- The elements of a list that satisfy a condition, at its start and at its end. -/
theorem exists_core {α : Type} (p : α → Bool) (xs : List α) :
    ∃ front core behind, xs = front ++ (core ++ behind) ∧ (∀ x ∈ front, p x = true) ∧
      (∀ x ∈ behind, p x = true) ∧ (∀ x ∈ core.head?, p x = false) ∧
      ∀ x ∈ core.getLast?, p x = false := by
  have dropped (ys : List α) : ∀ x ∈ (ys.dropWhile p).head?, p x = false := by
    intro x hx
    have first := List.head?_dropWhile_not p ys
    rw [Option.mem_def.1 hx] at first
    simpa using first
  have parts : ((xs.dropWhile p).reverse.dropWhile p).reverse ++
      ((xs.dropWhile p).reverse.takeWhile p).reverse = xs.dropWhile p := by
    rw [← List.reverse_append, List.takeWhile_append_dropWhile, List.reverse_reverse]
  refine ⟨xs.takeWhile p, ((xs.dropWhile p).reverse.dropWhile p).reverse,
    ((xs.dropWhile p).reverse.takeWhile p).reverse, ?_, List.all_eq_true.1 List.all_takeWhile,
    fun x hx => List.all_eq_true.1 List.all_takeWhile x (List.mem_reverse.1 hx), ?_, ?_⟩
  · rw [parts, List.takeWhile_append_dropWhile]
  · intro x hx
    obtain ⟨more, hmore⟩ := List.head?_eq_some_iff.1 (Option.mem_def.1 hx)
    refine dropped xs x ?_
    rw [← parts, hmore]
    rfl
  · intro x hx
    rw [List.getLast?_reverse] at hx
    exact dropped _ x hx

theorem trim_trim (cs : List Char) : trim (trim cs) = trim cs := by
  obtain ⟨front, core, behind, rfl, blankFront, blankBehind, head, last⟩ := exists_core isBlank cs
  have none : ∀ c ∈ [], isBlank c = true := fun c hc => nomatch hc
  have again := trim_eq none none head last
  rw [List.nil_append, List.append_nil] at again
  rw [trim_eq blankFront blankBehind head last, again]

def Token.isLineComment : Token → Bool
  | lineComment _ => true
  | _ => false

/-- Whether a text ends with a line comment. -/
def endsComment (text : List Char) : Bool :=
  match lex text with
  | .ok ls => ls.getLast?.any (·.token.isLineComment)
  | .error _ => false

/-! ### The ends of a piece of source text -/

/-- A lexeme as the lexer finds it. -/
def Lexeme.IsScanned (l : Lexeme) : Prop := IsGap l.gap ∧ ∃ rest, Scans l.token l.text rest

theorem Lexed.isScanned {spot : Spot} {cs : List Char} {ls : List Lexeme} (h : Lexed spot cs ls) :
    ∀ l ∈ ls, l.IsScanned := by
  induction h with
  | done => exact fun l hl => nomatch hl
  | next blank _ hscan _ ih =>
    exact List.forall_mem_cons.2 ⟨⟨blank, _, scan_scans hscan⟩, ih⟩

theorem IsGap.blank {gap : List Char} (h : IsGap gap) : ∀ c ∈ gap, isBlank c = true := by
  intro c hc
  have found := h c hc
  simp only [isGap, Bool.or_eq_true, beq_iff_eq] at found
  rcases found with ((rfl | rfl) | rfl) | rfl <;> rfl

section

variable {ls ms : List Lexeme}

theorem gapOf_blank (scanned : ∀ l ∈ ls, l.IsScanned) : ∀ c ∈ gapOf ls, isBlank c = true := by
  cases ls with
  | nil => exact fun c hc => nomatch hc
  | cons l ls => exact (scanned l List.mem_cons_self).1.blank

/-- Newlines are white space, with what is between them. -/
theorem newlines_blank (scanned : ∀ l ∈ ls, l.IsScanned) (newlines : ∀ l ∈ ls, l.token = .newline) :
    ∀ c ∈ spanText ls, isBlank c = true := by
  induction ls with
  | nil => exact fun c hc => nomatch hc
  | cons l ls ih =>
    obtain ⟨⟨-, rest, scans⟩, more⟩ := List.forall_mem_cons.1 scanned
    obtain ⟨newline, others⟩ := List.forall_mem_cons.1 newlines
    rw [spanText_cons, scans.mark_text (newline ▸ rfl : mark? '\n' = some l.token)]
    intro c hc
    simp only [List.mem_append, List.mem_singleton] at hc
    rcases hc with rfl | hc | hc
    · rfl
    · exact gapOf_blank more c hc
    · exact ih more others c hc

theorem spanText_head (scanned : ∀ l ∈ ls, l.IsScanned)
    (other : ∀ l ∈ ls.head?, l.token ≠ .newline) :
    ∀ c ∈ (spanText ls).head?, isBlank c = false := by
  cases ls with
  | nil => exact fun c hc => nomatch hc
  | cons l ls =>
    obtain ⟨-, rest, scans⟩ := scanned l List.mem_cons_self
    obtain ⟨d, ds, hd⟩ := List.exists_cons_of_ne_nil scans.ne_nil
    intro c hc
    rw [spanText_cons, hd] at hc
    cases hc
    rw [hd] at scans
    exact Bool.eq_false_iff.2 fun blank => other l rfl (scans.newline_of_blank blank).2

theorem spanText_concat (ls : List Lexeme) (l : Lexeme) :
    ∃ before, spanText (ls ++ [l]) = before ++ l.text := by
  cases ls with
  | nil => exact ⟨[], List.append_nil _⟩
  | cons m ls =>
    rw [spanText_append (List.cons_ne_nil m ls)]
    exact ⟨spanText (m :: ls) ++ l.gap, by simp [gapOf, spanText]⟩

theorem spanText_last (scanned : ∀ l ∈ ls, l.IsScanned)
    (other : ∀ l ∈ ls.getLast?, l.token ≠ .newline)
    (closed : ∀ l ∈ ls.getLast?, ∀ text, l.token ≠ .lineComment text) :
    ∀ c ∈ (spanText ls).getLast?, isBlank c = false := by
  rcases List.eq_nil_or_concat ls with rfl | ⟨inner, l, rfl⟩
  · exact fun c hc => nomatch hc
  · rw [List.concat_eq_append] at *
    obtain ⟨-, rest, scans⟩ := scanned l (by simp)
    obtain ⟨before, text⟩ := spanText_concat inner l
    intro c hc
    rw [text, List.getLast?_append, List.getLast?_eq_some_getLast scans.ne_nil, Option.some_or,
      ← List.getLast?_eq_some_getLast scans.ne_nil] at hc
    exact scans.last_not_blank (other l List.getLast?_concat) (closed l List.getLast?_concat) hc

end

/-! ### Line comments -/

theorem endsComment_of_lexed {text : List Char} {ls : List Lexeme} {l : Lexeme}
    (h : Lexed Spot.first text (ls ++ [l])) (comment : l.token.isLineComment = true) :
    endsComment text = true := by
  unfold endsComment
  rw [h.lex]
  simp only [List.getLast?_concat, Option.any_some, comment]

/-- A line comment without the white space at its end is one. -/
theorem scans_trimmed {body : List Char} (inside : '\n' ∉ body) :
    ∃ blanks, body = trimEnd body ++ blanks ∧ (∀ c ∈ blanks, isBlank c = true) ∧
      Scans (.lineComment (String.ofList (trimEnd body))) ('/' :: '/' :: trimEnd body) [] ∧
      ∀ c ∈ ('/' :: '/' :: trimEnd body).getLast?, isBlank c = false := by
  obtain ⟨blanks, split, areBlanks, last⟩ := trimEnd_append body
  have inline : '\n' ∉ trimEnd body := fun newline =>
    inside (split ▸ List.mem_append_left blanks newline)
  refine ⟨blanks, split, areBlanks, .lineComment inline (fun c hc => nomatch hc), ?_⟩
  intro c hc
  cases hbody : trimEnd body with
  | nil => rw [hbody] at hc; cases hc; rfl
  | cons d ds =>
    rw [hbody] at hc last
    exact last c hc

/-- Lexemes with a line comment at their end are still so without the white space behind it. -/
theorem Lexed.commented {spot : Spot} {cs : List Char} {before behind : List Lexeme} {l : Lexeme}
    {comment : String} (h : Lexed spot cs (before ++ l :: behind))
    (found : l.token = .lineComment comment) :
    ∃ text blanks, spanText (before ++ [l]) = text ++ blanks ∧ text ≠ [] ∧
      (∀ c ∈ blanks, isBlank c = true) ∧ (∀ c ∈ text.getLast?, isBlank c = false) ∧
      endsComment text = true := by
  obtain ⟨here, left, hhere⟩ := h.behind
  obtain ⟨rest₁, rfl, blank, scans, -, -⟩ := Lexed.first hhere
  obtain ⟨body, htext, inside, -⟩ := scans.line_comment found
  obtain ⟨blanks, split, areBlanks, short, ends⟩ := scans_trimmed inside
  cases before with
  | nil =>
    have alone : Lexed Spot.first ([] ++ (('/' :: '/' :: trimEnd body) ++ []))
        [Spot.first.lexeme [] _ _] := short.lexed isGap_nil (.done isGap_nil)
    rw [List.nil_append, List.append_nil] at alone
    refine ⟨'/' :: '/' :: trimEnd body, blanks, ?_, List.cons_ne_nil _ _, areBlanks, ends,
      endsComment_of_lexed (show Lexed _ _ ([] ++ [_]) from alone) rfl⟩
    rw [show spanText ([] ++ [l]) = l.text from List.append_nil _, htext]
    exact congrArg ('/' :: '/' :: ·) split
  | cons m before =>
    obtain ⟨rest, -, ⟨mid, hmid⟩, recurs, comments⟩ := Lexed.recurs h
    obtain ⟨rest₂, rfl, -, -, -, -⟩ := Lexed.first hmid
    have behindText : Lexed (Spot.first.advance ([] ++ spanText (m :: before)))
        (l.gap ++ (('/' :: '/' :: trimEnd body) ++ [])) [Spot.lexeme _ l.gap _ _] :=
      short.lexed blank (.done isGap_nil)
    rw [List.append_nil] at behindText
    have agrees : Agrees 2 (l.gap ++ (l.text ++ rest₂)) (l.gap ++ '/' :: '/' :: trimEnd body) := by
      rw [htext]
      have nothing : Agrees 0 (body ++ rest₂) (trimEnd body) := trivial
      exact ((nothing.cons '/').cons '/').append l.gap
    have commentEnds : CommentEnds (m :: before) (l.gap ++ '/' :: '/' :: trimEnd body) := by
      intro k hk text isComment
      have before := comments k hk text isComment
      rw [htext, show l.gap ++ ('/' :: '/' :: body ++ rest₂) =
        (l.gap ++ ['/', '/']) ++ (body ++ rest₂) by simp] at before
      have after := before.front (by simp) (trimEnd body)
      rwa [List.append_assoc] at after
    obtain ⟨copy, lexed, -, -⟩ := recurs Spot.first [] _ _ (1 - m.position.line)
      (by show (1 : Int) = _; omega) isGap_nil agrees commentEnds behindText
    refine ⟨spanText (m :: before) ++ (l.gap ++ '/' :: '/' :: trimEnd body), blanks, ?_, by simp,
      areBlanks, ?_, endsComment_of_lexed lexed rfl⟩
    · have own : gapOf [l] ++ spanText [l] = l.gap ++ l.text :=
        congrArg (l.gap ++ ·) (List.append_nil _)
      rw [spanText_append (List.cons_ne_nil m before), own, htext]
      conv => lhs; rw [split]
      simp
    · intro c hc
      rw [← List.append_assoc, List.getLast?_append,
        List.getLast?_eq_some_getLast (List.cons_ne_nil _ _), Option.some_or] at hc
      exact ends c (by rw [List.getLast?_eq_some_getLast (List.cons_ne_nil _ _)]; exact hc)

/-! ### The length of an array -/

theorem spanText_parts {bs : List Lexeme} (scanned : ∀ l ∈ bs, l.IsScanned) (as : List Lexeme) :
    ∃ gap, spanText (as ++ bs) = spanText as ++ (gap ++ spanText bs) ∧
      ∀ c ∈ gap, isBlank c = true := by
  cases as with
  | nil => exact ⟨[], rfl, fun c hc => nomatch hc⟩
  | cons l as => exact ⟨gapOf bs, spanText_append (List.cons_ne_nil l as) bs, gapOf_blank scanned⟩

/-- A length that does not end with a line comment is the text of its lexemes without the newlines
at both ends. -/
theorem Lexed.trimmed {spot : Spot} {cs : List Char} {size behind : List Lexeme}
    (h : Lexed spot cs (size ++ behind)) (closed : endsComment (trim (spanText size)) = false) :
    ∃ front core back, size = front ++ (core ++ back) ∧ (∀ l ∈ front, l.token = .newline) ∧
      (∀ l ∈ back, l.token = .newline) ∧ spanText core = trim (spanText size) ∧
      ∀ l ∈ core.getLast?, ∀ text, l.token ≠ .lineComment text := by
  obtain ⟨front, core, back, rfl, newlines, newlinesBehind, first, last⟩ :=
    exists_core (fun l : Lexeme => l.token == .newline) size
  simp only [beq_iff_eq, beq_eq_false_iff_ne] at newlines newlinesBehind first last
  have scanned : ∀ l ∈ front ++ (core ++ back), l.IsScanned :=
    fun l hl => h.isScanned l (List.mem_append_left _ hl)
  simp only [List.forall_mem_append] at scanned
  obtain ⟨scannedFront, scannedCore, scannedBack⟩ := scanned
  have blankFront := newlines_blank scannedFront newlines
  have blankBack := newlines_blank scannedBack newlinesBehind
  obtain ⟨gap', splitBack, blankGap'⟩ := spanText_parts scannedBack core
  obtain ⟨gap, splitFront, blankGap⟩ :=
    spanText_parts (List.forall_mem_append.2 ⟨scannedCore, scannedBack⟩) front
  have blank : ∀ c ∈ spanText front ++ gap, isBlank c = true :=
    List.forall_mem_append.2 ⟨blankFront, blankGap⟩
  have blank' : ∀ c ∈ gap' ++ spanText back, isBlank c = true :=
    List.forall_mem_append.2 ⟨blankGap', blankBack⟩
  have text : spanText (front ++ (core ++ back)) =
      (spanText front ++ gap) ++ (spanText core ++ (gap' ++ spanText back)) := by
    rw [splitFront, splitBack, List.append_assoc]
  have head := spanText_head scannedCore first
  have plain : ∀ l ∈ core.getLast?, ∀ text, l.token ≠ .lineComment text := by
    intro l hl comment found
    obtain ⟨before, rfl⟩ := List.getLast?_eq_some_iff.1 (Option.mem_def.1 hl)
    have whole : front ++ (before ++ [l] ++ back) ++ behind =
        front ++ (before ++ l :: (back ++ behind)) := by simp
    rw [whole] at h
    obtain ⟨_, _, hcore⟩ := h.behind
    obtain ⟨short, blanks, split, filled, areBlanks, lastShort, ends⟩ := hcore.commented found
    have headShort : ∀ c ∈ short.head?, isBlank c = false := by
      intro c hc
      obtain ⟨d, ds, rfl⟩ := List.exists_cons_of_ne_nil filled
      exact head c (by rw [split]; exact hc)
    have trimmed := trim_eq blank (List.forall_mem_append.2 ⟨areBlanks, blank'⟩) headShort lastShort
    rw [← List.append_assoc short, ← split, ← text] at trimmed
    rw [trimmed, ends] at closed
    cases closed
  refine ⟨front, core, back, rfl, newlines, newlinesBehind, ?_, plain⟩
  rw [text, trim_eq blank blank' head (spanText_last scannedCore last plain)]

end Go
end FieldRules
