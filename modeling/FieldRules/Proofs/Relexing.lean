/-
Lexing a piece of a text again, in another place.

A token is found again where the text behind it starts as it did, or with a
character that ends every token (`Scans.again`).  So neighbouring lexemes are found
again wherever their text stands before such a rest: the same tokens, with the
same blanks between them, moved by a number of lines (`Lexed.again`).  `Lexes`
says what a text is cut into wherever it stands, and is put together from the
pieces of the text (`Lexes.append`).
-/
import FieldRules.Proofs.Scanning

namespace FieldRules
namespace Go

open Text

/-! ### Lexemes and their text -/

/-- The blanks in front of some lexemes. -/
def gapOf (ls : List Lexeme) : List Char := (ls.head?.map (·.gap)).getD []

theorem spanText_cons (l : Lexeme) (ls : List Lexeme) :
    spanText (l :: ls) = l.text ++ (gapOf ls ++ spanText ls) := by
  cases ls with
  | nil => rfl
  | cons m ls => simp [spanText, gapOf]

theorem spanText_append {as : List Lexeme} (filled : as ≠ []) (bs : List Lexeme) :
    spanText (as ++ bs) = spanText as ++ (gapOf bs ++ spanText bs) := by
  cases as with
  | nil => exact absurd rfl filled
  | cons l as =>
    cases bs with
    | nil => simp [spanText, gapOf]
    | cons m bs => simp [spanText, gapOf]

def IsGap (gap : List Char) : Prop := ∀ c ∈ gap, isGap c = true

theorem isGap_nil : IsGap [] := fun _ hc => nomatch hc

theorem advance_line (p : Position) (cs : List Char) :
    (p.advance cs).line = p.line + cs.count '\n' := by
  induction cs generalizing p with
  | nil => rfl
  | cons c cs ih =>
    show ((p.after c).advance cs).line = _
    rw [ih, List.count_cons]
    unfold Position.after
    split
    · next newline => simp [newline]; omega
    · next other => simp [other]

theorem IsGap.line {gap : List Char} (h : IsGap gap) (p : Position) :
    (p.advance gap).line = p.line := by
  rw [advance_line, List.count_eq_zero.2, Nat.add_zero]
  exact fun inside => nomatch h '\n' inside

theorem Spot.advance_append (spot : Spot) (as bs : List Char) :
    spot.advance (as ++ bs) = (spot.advance as).advance bs := by
  simp [Spot.advance, Position.advance_append, byteLength_append, Nat.add_assoc]

/-- The first lexeme of a text, and the text behind it. -/
theorem Lexed.first {spot : Spot} {cs : List Char} {l : Lexeme} {ls : List Lexeme}
    (h : Lexed spot cs (l :: ls)) :
    ∃ rest, cs = l.gap ++ (l.text ++ rest) ∧ IsGap l.gap ∧ Scans l.token l.text rest ∧
      l.position = (spot.advance l.gap).position ∧
      Lexed ((spot.advance l.gap).advance l.text) rest ls := by
  cases h with
  | @next _ gap more c scanned _ blank _ hscan hrest =>
    have split := (scan_heads hscan).append_rest
    exact ⟨scanned.rest, by rw [split], blank, scan_scans hscan, rfl, hrest⟩

/-- A token that is found behind some blanks. -/
def Spot.lexeme (spot : Spot) (gap text : List Char) (token : Token) : Lexeme :=
  ⟨gap, text, token, (spot.advance gap).position, (spot.advance gap).offset⟩

/-- A token in front of a text, with blanks before it. -/
theorem Scans.lexed {token : Token} {text rest : List Char} (h : Scans token text rest)
    {gap : List Char} (blank : IsGap gap) {spot : Spot} {ls : List Lexeme}
    (hrest : Lexed ((spot.advance gap).advance text) rest ls) :
    Lexed spot (gap ++ (text ++ rest)) (spot.lexeme gap text token :: ls) := by
  obtain ⟨c, cs, rfl⟩ := List.exists_cons_of_ne_nil h.ne_nil
  have plain : isGap c = false := by
    refine Bool.eq_false_iff.2 fun isBlank => ?_
    have white : Text.isBlank c = true := by
      simp only [isGap, Bool.or_eq_true, beq_iff_eq] at isBlank
      rcases isBlank with ((rfl | rfl) | rfl) | rfl <;> rfl
    rw [(h.newline_of_blank white).1] at isBlank
    cases isBlank
  exact .next blank plain h.scan hrest

theorem Lexed.behind {spot : Spot} {cs : List Char} {as bs : List Lexeme}
    (h : Lexed spot cs (as ++ bs)) : ∃ spot' cs', Lexed spot' cs' bs := by
  induction as generalizing spot cs with
  | nil => exact ⟨spot, cs, h⟩
  | cons l as ih =>
    obtain ⟨rest, -, -, -, -, hrest⟩ := Lexed.first h
    exact ih hrest

/-- The lexer finds what a text is made of. -/
theorem Lexed.lexFrom {spot : Spot} {cs : List Char} {ls : List Lexeme} (h : Lexed spot cs ls)
    {fuel : Nat} (enough : cs.length ≤ fuel) : lexFrom fuel spot cs = .ok ls := by
  induction h generalizing fuel with
  | @done spot gap blank =>
    cases fuel with
    | zero => rfl
    | succ fuel =>
      have nothing := dropWhile_run blank (show Ends isGap [] from fun c hc => nomatch hc)
      rw [List.append_nil] at nothing
      unfold Go.lexFrom
      simp only [nothing]
  | @next spot gap more c scanned ls blank plain hscan _ ih =>
    cases fuel with
    | zero => simp at enough
    | succ fuel =>
      have stops : Ends isGap (c :: more) := fun d hd => by cases hd; exact plain
      have heads := scan_heads hscan
      have lengths := congrArg List.length heads.append_rest
      have filled := List.length_pos_iff.2 heads.ne_nil
      simp only [List.length_append, List.length_cons] at lengths enough
      unfold Go.lexFrom
      simp only [takeWhile_run blank stops, dropWhile_run blank stops, hscan,
        ih (show scanned.rest.length ≤ fuel by omega)]

theorem Lexed.lex {cs : List Char} {ls : List Lexeme} (h : Lexed Spot.first cs ls) :
    lex cs = .ok ls :=
  h.lexFrom (Nat.le_refl _)

/-! ### Copies -/

/-- The same token with the same text, some lines further down. -/
structure Lexeme.IsCopy (down : Int) (l m : Lexeme) : Prop where
  token : m.token = l.token
  text : m.text = l.text
  line : (m.position.line : Int) = l.position.line + down

/-- The same lexemes some lines further down; only the blanks in front may differ. -/
inductive Copies (down : Int) : List Lexeme → List Lexeme → Prop where
  | nil : Copies down [] []
  | cons {l m : Lexeme} {ls ms : List Lexeme} : l.IsCopy down m → gapOf ms = gapOf ls →
      Copies down ls ms → Copies down (l :: ls) (m :: ms)

section

variable {down : Int} {ls ms as bs cs : List Lexeme} {l : Lexeme}

theorem Copies.spanText_eq (h : Copies down ls ms) : spanText ms = spanText ls := by
  induction h with
  | nil => rfl
  | cons copy gaps _ ih => rw [spanText_cons, spanText_cons, copy.text, gaps, ih]

theorem Copies.tokens (h : Copies down ls ms) : ms.map (·.token) = ls.map (·.token) := by
  induction h with
  | nil => rfl
  | cons copy _ _ ih => rw [List.map_cons, List.map_cons, copy.token, ih]

theorem Copies.of_cons (h : Copies down (l :: ls) ms) :
    ∃ m more, ms = m :: more ∧ l.IsCopy down m ∧ Copies down ls more := by
  cases h with
  | cons copy _ more => exact ⟨_, _, rfl, copy, more⟩

theorem Copies.of_append (h : Copies down (as ++ bs) cs) :
    ∃ as' bs', cs = as' ++ bs' ∧ Copies down as as' ∧ Copies down bs bs' := by
  induction as generalizing cs with
  | nil => exact ⟨[], cs, rfl, .nil, h⟩
  | cons l as ih =>
    cases h with
    | cons copy gaps more =>
      obtain ⟨as', bs', rfl, has, hbs⟩ := ih more
      refine ⟨_ :: as', bs', rfl, .cons copy ?_ has, hbs⟩
      cases has with
      | nil => rfl
      | cons => exact gaps

end

/-! ### A run of lexemes elsewhere -/

/-- A line comment at the end asks for a newline behind it. -/
def CommentEnds (run : List Lexeme) (rest : List Char) : Prop :=
  ∀ l ∈ run.getLast?, ∀ text, l.token = .lineComment text → Ends (· != '\n') rest

/-- A line comment is the rest of its line. -/
theorem Scans.line_comment {token : Token} {text rest : List Char} (h : Scans token text rest)
    {comment : String} (found : token = .lineComment comment) :
    ∃ body, text = '/' :: '/' :: body ∧ '\n' ∉ body ∧ Ends (· != '\n') rest := by
  cases h with
  | lineComment inside ends => exact ⟨_, rfl, inside, ends⟩
  | mark h => exact absurd found ((mark_plain h).2 comment)
  | operator => exact absurd found ((operator_plain _).2 comment)
  | word =>
    unfold Token.ofWord at found
    split at found <;> cases found
  | _ => cases found

theorem Scans.comment_ends {text rest : List Char} {comment : String} {token : Token}
    (h : Scans token text rest) (found : token = .lineComment comment) : Ends (· != '\n') rest := by
  obtain ⟨-, -, -, ends⟩ := h.line_comment found
  exact ends

theorem Ends.front {p : Char → Bool} {front rest : List Char} (h : Ends p (front ++ rest))
    (filled : front ≠ []) (rest' : List Char) : Ends p (front ++ rest') := by
  cases front with
  | nil => exact absurd rfl filled
  | cons c cs => exact h

/-- Lexemes of a text, the first of them behind the blanks of a line, are found again where their
text stands before a rest that starts like the one before which they stood. -/
def Recurs (line : Nat) (run : List Lexeme) (rest : List Char) : Prop :=
  ∀ (spot : Spot) (gap rest' : List Char) (ms : List Lexeme) (down : Int),
    (spot.position.line : Int) = line + down → IsGap gap → Agrees 2 rest rest' →
    CommentEnds run rest' → Lexed (spot.advance (gap ++ spanText run)) rest' ms →
    ∃ copy, Lexed spot (gap ++ (spanText run ++ rest')) (copy ++ ms) ∧ Copies down run copy ∧
      gapOf copy = gap

theorem Scans.recurs {l : Lexeme} {rest : List Char} (scans : Scans l.token l.text rest) :
    Recurs l.position.line [l] rest := by
  intro spot gap rest' ms down lines blank agrees comment hms
  have text : spanText [l] = l.text := List.append_nil _
  rw [text] at hms ⊢
  rw [Spot.advance_append] at hms
  refine ⟨[spot.lexeme gap l.text l.token], (scans.again agrees (comment l rfl)).lexed blank hms,
    .cons ⟨rfl, rfl, ?_⟩ rfl .nil, rfl⟩
  rw [← lines]
  exact congrArg Nat.cast (blank.line spot.position)

/-- A token in front of lexemes that are found again. -/
theorem Recurs.cons {l m : Lexeme} {ls : List Lexeme} {rest : List Char}
    (scans : Scans l.token l.text (m.gap ++ (spanText (m :: ls) ++ rest)))
    (blankBetween : IsGap m.gap)
    (filled : m.text ≠ []) (h : Recurs (l.position.advance l.text).line (m :: ls) rest) :
    Recurs l.position.line (l :: m :: ls) rest := by
  intro spot gap rest' ms down lines blank agrees comment hms
  have text : spanText (l :: m :: ls) = l.text ++ (m.gap ++ spanText (m :: ls)) :=
    spanText_cons l (m :: ls)
  have here : ((spot.position.advance gap).line : Int) = l.position.line + down := by
    rw [blank.line, lines]
  have further : (((spot.advance gap).advance l.text).position.line : Int) =
      (l.position.advance l.text).line + down := by
    show (((spot.position.advance gap).advance l.text).line : Int) = _
    rw [advance_line, advance_line l.position, Int.natCast_add, here]
    omega
  have last : CommentEnds (m :: ls) rest' := fun k hk =>
    comment k (by rw [List.getLast?_cons_cons]; exact hk)
  rw [text] at hms ⊢
  rw [Spot.advance_append, Spot.advance_append] at hms
  obtain ⟨copy, lexed, more, front⟩ := h _ _ _ _ _ further blankBetween agrees last hms
  have nonempty : m.gap ++ spanText (m :: ls) ≠ [] := by
    rw [spanText_cons]
    simp [filled]
  rw [← List.append_assoc] at scans lexed
  have again : Scans l.token l.text ((m.gap ++ spanText (m :: ls)) ++ rest') :=
    scans.again (agrees.append _) fun comment isComment =>
      (scans.comment_ends isComment).front nonempty rest'
  rw [List.append_assoc]
  exact ⟨spot.lexeme gap l.text l.token :: copy, again.lexed blank lexed,
    .cons ⟨rfl, rfl, here⟩ front more, rfl⟩

/-- Neighbouring lexemes of a text are found again. -/
theorem Lexed.recurs {spot : Spot} {cs : List Char} {l : Lexeme} {ls behind : List Lexeme}
    (h : Lexed spot cs (l :: (ls ++ behind))) :
    ∃ rest, cs = l.gap ++ (spanText (l :: ls) ++ rest) ∧ (∃ mid, Lexed mid rest behind) ∧
      Recurs l.position.line (l :: ls) rest ∧ CommentEnds (l :: ls) rest := by
  induction ls generalizing spot cs l with
  | nil =>
    obtain ⟨rest, rfl, -, scans, -, hrest⟩ := Lexed.first h
    refine ⟨rest, by simp [spanText], ⟨_, hrest⟩, scans.recurs, fun k hk text comment => ?_⟩
    cases hk
    exact scans.comment_ends comment
  | cons m ls ih =>
    obtain ⟨rest, rfl, blank, scans, position, hrest⟩ := Lexed.first h
    obtain ⟨_, -, blankBetween, scansNext, start, -⟩ := Lexed.first hrest
    obtain ⟨rest, rfl, behind, recurs, comment⟩ := ih hrest
    have line : m.position.line = (l.position.advance l.text).line := by
      rw [start, position]
      exact blankBetween.line _
    rw [line] at recurs
    exact ⟨rest, by rw [spanText_cons l (m :: ls)]; simp [gapOf], behind,
      recurs.cons scans blankBetween scansNext.ne_nil,
      fun k hk => comment k (by rw [List.getLast?_cons_cons] at hk; exact hk)⟩

/-! ### Texts in pieces -/

/-- Wherever a text stands in front of something that does not go on with such a character, it is
cut into lexemes with a property. -/
def Lexes (text : List Char) (p : Char → Bool) (P : List Lexeme → Prop) : Prop :=
  ∀ (spot : Spot) (gap rest : List Char) (ms : List Lexeme), IsGap gap → Ends p rest →
    Lexed (spot.advance (gap ++ text)) rest ms →
    ∃ ls, Lexed spot (gap ++ (text ++ rest)) (ls ++ ms) ∧ P ls

/-- A character that may belong to a token in front of it. -/
def continuesToken (c : Char) : Bool := !endsToken c

section

variable {text behind : List Char} {p q : Char → Bool} {P Q R : List Lexeme → Prop}

theorem Lexes.imp (h : Lexes text p P) (ends : ∀ rest, Ends q rest → Ends p rest)
    (more : ∀ ls, P ls → Q ls) : Lexes text q Q := by
  intro spot gap rest ms blank stops hms
  obtain ⟨ls, lexed, hls⟩ := h spot gap rest ms blank (ends rest stops) hms
  exact ⟨ls, lexed, more ls hls⟩

/-- The lexemes of the text by itself. -/
theorem Lexes.lex (h : Lexes text p P) : ∃ ls, lex text = .ok ls ∧ P ls := by
  obtain ⟨ls, lexed, hls⟩ := h Spot.first [] [] [] isGap_nil
    (fun c hc => (Option.not_mem_none c hc).elim) (.done isGap_nil)
  rw [List.append_nil, List.append_nil] at lexed
  exact ⟨ls, Lexed.lex lexed, hls⟩

/-- Blanks of a line in front. -/
theorem Lexes.behind_gap {front : List Char} (blankFront : IsGap front) (h : Lexes text p P) :
    Lexes (front ++ text) p P := by
  intro spot gap rest ms blank stops hms
  rw [← List.append_assoc] at hms
  have more : IsGap (gap ++ front) := List.forall_mem_append.2 ⟨blank, blankFront⟩
  obtain ⟨ls, lexed, hls⟩ := h spot _ rest ms more stops hms
  simp only [List.append_assoc] at lexed ⊢
  exact ⟨ls, lexed, hls⟩

theorem Lexes.space (h : Lexes text p P) : Lexes (' ' :: text) p P := by
  have blank : IsGap [' '] := List.forall_mem_singleton.2 rfl
  exact h.behind_gap blank

/-- One text behind another one, where it does not go on with its last token. -/
theorem Lexes.append (h : Lexes text p P) (h' : Lexes behind q Q)
    (parts : ∀ rest, Ends q rest → Ends p (behind ++ rest))
    (both : ∀ ls ms, P ls → Q ms → R (ls ++ ms)) : Lexes (text ++ behind) q R := by
  intro spot gap rest ms blank stops hms
  rw [← List.append_assoc, Spot.advance_append] at hms
  obtain ⟨bs, lexed, hbs⟩ := h' _ [] rest ms isGap_nil stops hms
  obtain ⟨as, lexed, has⟩ := h spot gap _ _ blank (parts rest stops) lexed
  refine ⟨as ++ bs, ?_, both as bs has hbs⟩
  simpa only [List.append_assoc] using lexed

theorem lexes_token {token : Token} (h : ∀ rest, Ends p rest → Scans token text rest) :
    Lexes text p fun ls => ∃ l, ls = [l] ∧ l.token = token := by
  intro spot gap rest ms blank stops hms
  rw [Spot.advance_append] at hms
  exact ⟨[spot.lexeme gap text token], (h rest stops).lexed blank hms, _, rfl, rfl⟩

theorem lexes_word (name : isName text = true) :
    Lexes text continuesName fun ls => ∃ l, ls = [l] ∧ l.token = Token.ofWord text := by
  cases text with
  | nil => cases name
  | cons c cs =>
    obtain ⟨starts, all⟩ := Bool.and_eq_true_iff.1 name
    exact lexes_token fun rest ends => .word starts (List.all_eq_true.1 all) ends

/-- One token in front of a text. -/
theorem Lexes.front {token : Token} (h : ∀ rest, Ends q rest → Scans token text (behind ++ rest))
    (h' : Lexes behind q Q) (more : ∀ l ms, l.token = token → Q ms → R (l :: ms)) :
    Lexes (text ++ behind) q R := by
  intro spot gap rest ms blank stops hms
  rw [← List.append_assoc, Spot.advance_append] at hms
  obtain ⟨ls, lexed, hls⟩ := h' _ [] rest ms isGap_nil stops hms
  rw [Spot.advance_append] at lexed
  refine ⟨spot.lexeme gap text token :: ls, ?_, more _ ls rfl hls⟩
  rw [List.append_assoc]
  exact (h rest stops).lexed blank lexed

theorem Lexes.cons {token : Token} (h : ∀ rest, Ends p rest → Scans token text rest)
    (h' : Lexes behind q Q) (parts : ∀ rest, Ends q rest → Ends p (behind ++ rest))
    (more : ∀ l ms, l.token = token → Q ms → R (l :: ms)) : Lexes (text ++ behind) q R :=
  Lexes.front (fun rest ends => h _ (parts rest ends)) h' more

/-- A character that stands for itself. -/
theorem Lexes.mark {c : Char} {token : Token} (h : mark? c = some token) (h' : Lexes behind q Q)
    (more : ∀ l ms, l.token = token → Q ms → R (l :: ms)) : Lexes (c :: behind) q R :=
  Lexes.cons (p := fun _ => false) (fun _ _ => .mark h) h' (fun _ _ _ _ => rfl) more

theorem Lexes.dot (h' : Lexes behind q Q)
    (parts : ∀ rest, Ends q rest → Ends (· == '.') (behind ++ rest))
    (more : ∀ l ms, l.token = .dot → Q ms → R (l :: ms)) : Lexes ('.' :: behind) q R := by
  refine Lexes.cons (fun rest ends => .dot fun dots same => ?_) h' parts more
  subst same
  exact absurd (ends '.' rfl) (by decide)

theorem Lexes.arrow (h' : Lexes behind q Q)
    (parts : ∀ rest, Ends q rest → Ends isOperatorChar (behind ++ rest))
    (more : ∀ l ms, l.token = .arrow → Q ms → R (l :: ms)) : Lexes ('<' :: '-' :: behind) q R := by
  have scans (rest : List Char) (ends : Ends isOperatorChar rest) :
      Scans (operatorToken ['<', '-']) ['<', '-'] rest :=
    .operator rfl (List.forall_mem_singleton.2 rfl) ends fun slash => absurd slash (by decide)
  exact Lexes.cons scans h' parts more

/-- A word, where what follows does not go on with it. -/
theorem Lexes.word (name : isName text = true) (h' : Lexes behind q Q)
    (parts : ∀ rest, Ends q rest → Ends continuesName (behind ++ rest))
    (more : ∀ l ms, l.token = Token.ofWord text → Q ms → R (l :: ms)) :
    Lexes (text ++ behind) q R := by
  refine (lexes_word name).append h' parts ?_
  rintro ls ms ⟨l, rfl, hl⟩ hms
  exact more l ms hl hms

theorem Recurs.lexes {line : Nat} {run : List Lexeme} {rest : List Char} (h : Recurs line run rest)
    (closed : ∀ l ∈ run.getLast?, ∀ text, l.token ≠ .lineComment text) :
    Lexes (spanText run) continuesToken fun ls => ∃ down, Copies down run ls := by
  intro spot gap rest' ms blank stops hms
  have agrees : Agrees 2 rest rest' := .of_stop fun d hd => by
    have stop := stops d hd
    rwa [continuesToken, Bool.not_eq_false'] at stop
  obtain ⟨copy, lexed, copies, -⟩ := h spot gap rest' ms (spot.position.line - line) (by omega)
    blank agrees (fun l hl text found => absurd found (closed l hl text)) hms
  exact ⟨copy, lexed, _, copies⟩

end

end Go
end FieldRules
