/-
Tokens before carriage returns.

A source with a carriage return before each newline is cut into the same lexemes
(`lex_withReturns`), unless a raw string goes over lines.  Between tokens a return is
a blank, and otherwise it stands in a comment, at the end of a line.
-/
import FieldRules.Proofs.Recasting

namespace FieldRules

open Go Text

namespace Text

/-- A text with a carriage return before each newline. -/
def withReturns (cs : List Char) : List Char :=
  cs.flatMap fun c => if c = '\n' then ['\r', '\n'] else [c]

def isReturn (c : Char) : Bool := c == '\r'

section

variable {cs ds : List Char}

theorem withReturns_newline (cs : List Char) :
    withReturns ('\n' :: cs) = '\r' :: '\n' :: withReturns cs := rfl

theorem withReturns_cons {c : Char} (other : c ≠ '\n') (cs : List Char) :
    withReturns (c :: cs) = c :: withReturns cs := by
  unfold withReturns
  rw [List.flatMap_cons, if_neg other]
  rfl

theorem withReturns_append (cs ds : List Char) :
    withReturns (cs ++ ds) = withReturns cs ++ withReturns ds :=
  List.flatMap_append

theorem withReturns_inline (inline : '\n' ∉ cs) : withReturns cs = cs := by
  induction cs with
  | nil => rfl
  | cons c cs ih =>
    obtain ⟨other, more⟩ := not_or.1 (mt List.mem_cons.2 inline)
    rw [withReturns_cons (Ne.symm other), ih more]

theorem withReturns_eq_cons {c : Char} (other : c ≠ '\r') (h : withReturns cs = c :: ds) :
    ∃ rest, cs = c :: rest ∧ ds = withReturns rest := by
  cases cs with
  | nil => cases h
  | cons d rest =>
    by_cases newline : d = '\n'
    · rw [newline] at h
      exact absurd (List.cons.inj h).1.symm other
    · rw [withReturns_cons newline] at h
      obtain ⟨rfl, rfl⟩ := List.cons.inj h
      exact ⟨rest, rfl, rfl⟩

theorem filter_isReturn (plain : '\r' ∉ cs) : cs.filter (fun c => !isReturn c) = cs :=
  List.filter_eq_self.2 fun c hc => by
    rw [isReturn, Bool.not_eq_true', beq_eq_false_iff_ne]
    rintro rfl
    exact plain hc

theorem filter_withReturns (plain : '\r' ∉ cs) :
    (withReturns cs).filter (fun c => !isReturn c) = cs := by
  induction cs with
  | nil => rfl
  | cons c cs ih =>
    obtain ⟨other, more⟩ := not_or.1 (mt List.mem_cons.2 plain)
    have keeps : (!isReturn c) = true := by simp [isReturn, Ne.symm other]
    by_cases newline : c = '\n'
    · rw [newline, withReturns_newline, List.filter_cons_of_neg (by decide),
        List.filter_cons_of_pos (by decide), ih more]
    · rw [withReturns_cons newline, List.filter_cons_of_pos (by exact keeps), ih more]

/-- A newline takes a return before it back. -/
theorem advance_withReturns (p : Position) (cs : List Char) :
    p.advance (withReturns cs) = p.advance cs := by
  induction cs generalizing p with
  | nil => rfl
  | cons c cs ih =>
    by_cases newline : c = '\n'
    · rw [newline, withReturns_newline]
      exact ih _
    · rw [withReturns_cons newline]
      exact ih _

/-- Every return stands at the end of a line. -/
def ReturnsEndLines (cs : List Char) : Prop :=
  ∀ before after, cs = before ++ '\r' :: after → Ends (· != '\n') after

theorem returnsEndLines_withReturns (plain : '\r' ∉ cs) : ReturnsEndLines (withReturns cs) := by
  induction cs with
  | nil => exact fun before after split => by simp [withReturns] at split
  | cons c cs ih =>
    obtain ⟨other, more⟩ := not_or.1 (mt List.mem_cons.2 plain)
    intro before after split
    by_cases newline : c = '\n'
    · rw [newline, withReturns_newline] at split
      cases before with
      | nil =>
        cases split
        exact fun d hd => by cases hd; rfl
      | cons d before =>
        obtain ⟨-, split⟩ := List.cons.inj split
        cases before with
        | nil => cases split
        | cons e before => exact ih more before after (List.cons.inj split).2
    · rw [withReturns_cons newline] at split
      cases before with
      | nil => exact absurd (List.cons.inj split).1 (Ne.symm other)
      | cons d before => exact ih more before after (List.cons.inj split).2

theorem ReturnsEndLines.within (h : ReturnsEndLines cs) (inside : ds <:+: cs) :
    ReturnsEndLines ds := by
  obtain ⟨front, back, rfl⟩ := inside
  intro before after split d hd
  refine h (front ++ before) (after ++ back) (by rw [split]; simp) d ?_
  rw [List.head?_append, Option.mem_def.1 hd]
  rfl

/-- On one line there is a return at the end, or none. -/
theorem ReturnsEndLines.line (h : ReturnsEndLines cs) (inline : '\n' ∉ cs) :
    '\r' ∉ cs ∨ ∃ front, cs = front ++ ['\r'] ∧ '\r' ∉ front := by
  have last (before after : List Char) (split : cs = before ++ '\r' :: after) : after = [] := by
    cases after with
    | nil => rfl
    | cons d after =>
      have newline : d = '\n' := by simpa using h before (d :: after) split d rfl
      rw [split, newline] at inline
      simp at inline
  by_cases found : '\r' ∈ cs
  · obtain ⟨before, after, split⟩ := List.append_of_mem found
    rw [last before after split] at split
    refine .inr ⟨before, split, fun again => ?_⟩
    obtain ⟨front, back, rfl⟩ := List.append_of_mem again
    have none := last front (back ++ ['\r']) (by rw [split]; simp)
    simp at none
  · exact .inl found

end

end Text

namespace Go

/-! ### Tokens before a return -/

section

variable {cs rest : List Char}

theorem Ends.withReturns {p : Char → Bool} (h : Ends p rest) (blank : p '\r' = false) :
    Ends p (withReturns rest) := by
  cases rest with
  | nil => exact fun c hc => nomatch hc
  | cons d rest =>
    by_cases newline : d = '\n'
    · rw [newline, withReturns_newline]
      exact fun c hc => by cases hc; exact blank
    · rw [withReturns_cons newline]
      exact fun c hc => by cases hc; exact h d rfl

/-- A comment is closed where it was. -/
theorem cutComment_withReturns (cs : List Char) : cutComment (withReturns cs) =
    ⟨(cutComment cs).closed, withReturns (cutComment cs).body,
      withReturns (cutComment cs).rest⟩ := by
  fun_induction cutComment cs with
  | case1 => rfl
  | case2 rest => rfl
  | case3 c cs other ih =>
    by_cases newline : c = '\n'
    · subst newline
      have return' : cutComment ('\r' :: '\n' :: withReturns cs) =
          ((cutComment (withReturns cs)).cons '\n').cons '\r' := rfl
      rw [withReturns_newline, return', ih]
      rfl
    · have open' : cutComment (c :: withReturns cs) = (cutComment (withReturns cs)).cons c := by
        cases cs with
        | nil => unfold cutComment; split <;> first | rfl | simp_all [withReturns]
        | cons d cs =>
          by_cases next : d = '\n'
          · rw [next, withReturns_newline]
            unfold cutComment
            split
            · next more same => cases same
            · rfl
          · rw [withReturns_cons next]
            rw [cutComment]
            rintro _ rfl same
            cases same
            exact other _ rfl rfl
      rw [withReturns_cons newline, open', ih]
      simp only [Cut.cons, withReturns_cons newline]

theorem cutQuoted_inline {quote : Char} (inline : quote ≠ '\n')
    (h : (cutQuoted quote cs).closed = true) : '\n' ∉ (cutQuoted quote cs).body := by
  fun_induction cutQuoted quote cs with
  | case1 | case3 | case4 | case6 | case7 => cases h
  | case2 | case5 => simpa using inline.symm
  | case8 d cs plain _ _ ih =>
    have more := ih h
    simp [Cut.cons, more, Ne.symm plain]
  | case9 c d cs _ plain _ ih =>
    have more := ih h
    simp [Cut.cons, more, Ne.symm plain]

/-- The lexer stands at the same place of both texts, or behind a return that is one more. -/
inductive Keeps : Spot → List Char → Spot → List Char → Prop where
  | here {spot spot' : Spot} {cs : List Char} :
      spot'.position = spot.position → Keeps spot cs spot' (withReturns cs)
  | behind {spot spot' : Spot} {cs : List Char} :
      spot'.position.line = spot.position.line →
      Keeps spot ('\n' :: cs) spot' ('\n' :: withReturns cs)

/-- The token that is found in place of another one. -/
structure Rescans (token : Token) (text rest : List Char) (token' : Token)
    (text' rest' : List Char) : Prop where
  scans : Scans token' text' rest'
  whole : text' ++ rest' = withReturns (text ++ rest)
  same : token = token'.without isReturn
  filtered : text = text'.filter fun c => !isReturn c
  keeps : ∀ spot spot' : Spot, spot'.position = spot.position →
    Keeps (spot.advance text) rest (spot'.advance text') rest'

/-- A token on one line stays what it is. -/
theorem Scans.rescans {token : Token} {text : List Char}
    (h : Scans token text (withReturns rest)) (plain : '\r' ∉ text) (inline : '\n' ∉ text)
    (other : token.isComment = false) :
    Rescans token text rest token text (withReturns rest) where
  scans := h
  whole := by rw [withReturns_append, withReturns_inline inline]
  same := ((Token.without_eq_iff other).2 rfl).symm
  filtered := (filter_isReturn plain).symm
  keeps spot spot' same := .here (congrArg (Position.advance · text) same)

theorem isComment_ofWord (word : List Char) : (Token.ofWord word).isComment = false := by
  unfold Token.ofWord
  split <;> rfl

theorem isComment_operatorToken (text : List Char) : (operatorToken text).isComment = false := by
  unfold operatorToken
  split
  · rfl
  · split <;> rfl

/-- A line comment takes the return before the newline behind it. -/
theorem rescans_lineComment {body : List Char} (inside : '\n' ∉ body)
    (ends : Ends (· != '\n') rest) (plain : '\r' ∉ '/' :: '/' :: body) :
    ∃ token' text' rest', Rescans (.lineComment (String.ofList body)) ('/' :: '/' :: body) rest
      token' text' rest' := by
  have inline : '\n' ∉ '/' :: '/' :: body := by simpa using inside
  have plainBody : '\r' ∉ body := fun h => plain (by simp [h])
  cases rest with
  | nil =>
    refine ⟨_, _, [], .lineComment inside (fun c hc => nomatch hc), ?_, ?_,
      (filter_isReturn plain).symm, fun spot spot' same => ?_⟩
    · rw [List.append_nil, withReturns_inline inline]
    · rw [Token.without, without, String.toList_ofList, filter_isReturn plainBody]
    · exact .here (congrArg (Position.advance · _) same)
  | cons c rest =>
    obtain rfl : c = '\n' := by simpa using ends c rfl
    have tail : (body ++ ['\r']).filter (fun c => !isReturn c) = body := by
      rw [List.filter_append, filter_isReturn plainBody]
      exact List.append_nil _
    refine ⟨_, '/' :: '/' :: (body ++ ['\r']), '\n' :: withReturns rest,
      .lineComment (by simpa using inside) fun d hd => by cases hd; rfl, ?_, ?_, ?_,
      fun spot spot' same => .behind ?_⟩
    · rw [withReturns_append, withReturns_inline inline, withReturns_newline]
      simp
    · rw [Token.without, without, String.toList_ofList, tail]
    · exact congrArg ('/' :: '/' :: ·) tail.symm
    · show (spot'.position.advance _).line = (spot.position.advance _).line
      rw [advance_line, advance_line, same, List.count_eq_zero.2 inline,
        List.count_eq_zero.2 (by simpa using inside)]

/-- A block comment has returns at the ends of its lines. -/
theorem rescans_blockComment {body : List Char} (closed : cutComment body = ⟨true, body, []⟩)
    (plain : '\r' ∉ '/' :: '*' :: body) :
    ∃ token' text' rest', Rescans
      (.blockComment (String.ofList (body.take (body.length - 2)))) ('/' :: '*' :: body) rest
      token' text' rest' := by
  obtain ⟨inner, rfl⟩ : ∃ inner, body = inner ++ ['*', '/'] := by
    have ends := cutComment_closed (show (cutComment body).closed = true by rw [closed])
    rwa [closed] at ends
  have plainInner : '\r' ∉ inner := fun h => plain (by simp [h])
  have split : withReturns (inner ++ ['*', '/']) = withReturns inner ++ ['*', '/'] :=
    withReturns_append _ _
  have opening : withReturns ('/' :: '*' :: (inner ++ ['*', '/'])) =
      '/' :: '*' :: (withReturns inner ++ ['*', '/']) := by
    rw [withReturns_cons (by decide), withReturns_cons (by decide), split]
  have cut := cutComment_withReturns (inner ++ ['*', '/'])
  rw [closed, split] at cut
  refine ⟨_, _, withReturns rest, .blockComment cut, ?_, ?_, ?_, fun spot spot' same => ?_⟩
  · rw [withReturns_append, opening]
  · rw [Token.without, without, String.toList_ofList]
    simp [filter_withReturns plainInner]
  · rw [← opening, filter_withReturns plain]
  · rw [← opening]
    refine .here ?_
    show spot'.position.advance _ = spot.position.advance _
    rw [advance_withReturns, same]

/-- Every token but a newline is found again; a comment may have returns in it. -/
theorem Scans.returns {token : Token} {text : List Char} (h : Scans token text rest)
    (plain : '\r' ∉ text) (other : token ≠ .newline)
    (raw : ∀ quoted, token = .rawString quoted → '\n' ∉ text) :
    ∃ token' text' rest', Rescans token text rest token' text' rest' := by
  have solid {cs : List Char} {p : Char → Bool} (all : ∀ d ∈ cs, p d = true)
      (newline : p '\n' = false) : '\n' ∉ cs := fun inside => by
    rw [all _ inside] at newline
    cases newline
  cases h with
  | @mark c token rest h =>
    refine ⟨_, _, _, (Scans.mark h).rescans plain (fun inside => ?_) ?_⟩
    · obtain rfl := List.mem_singleton.1 inside
      cases h
      exact other rfl
    · unfold mark? at h
      split at h <;> cases h <;> rfl
  | dot dots =>
    refine ⟨_, _, _, (Scans.dot fun more same => ?_).rescans plain (by decide) rfl⟩
    obtain ⟨first, rfl, inner⟩ := withReturns_eq_cons (by decide) same
    obtain ⟨second, rfl, -⟩ := withReturns_eq_cons (by decide) inner.symm
    exact dots _ rfl
  | ellipsis => exact ⟨_, _, _, Scans.ellipsis.rescans plain (by decide) rfl⟩
  | @string body _ closed =>
    have ended : (cutQuoted '"' body).closed = true := by rw [closed]
    have inline := cutQuoted_inline (by decide) ended
    rw [closed] at inline
    exact ⟨_, _, _, (Scans.string closed).rescans plain (by simpa using inline) rfl⟩
  | @rune body _ closed =>
    have ended : (cutQuoted '\'' body).closed = true := by rw [closed]
    have inline := cutQuoted_inline (by decide) ended
    rw [closed] at inline
    exact ⟨_, _, _, (Scans.rune closed).rescans plain (by simpa using inline) rfl⟩
  | rawString closed =>
    exact ⟨_, _, _, (Scans.rawString closed).rescans plain (raw _ rfl) rfl⟩
  | lineComment inside ends => exact rescans_lineComment inside ends plain
  | blockComment closed => exact rescans_blockComment closed plain
  | @operator c cs _ op all ends alone =>
    have every : ∀ d ∈ c :: cs, isOperatorChar d = true := List.forall_mem_cons.2 ⟨op, all⟩
    refine ⟨_, _, _, (Scans.operator op all (ends.withReturns (by decide)) fun slash => ?_).rescans
      plain (solid every (by decide)) (isComment_operatorToken _)⟩
    have alone := alone slash
    cases cs with
    | nil => exact alone.withReturns (by decide)
    | cons d cs => exact alone
  | @number c cs _ digit all ends =>
    have every : ∀ d ∈ c :: cs, continuesNumber d = true :=
      List.forall_mem_cons.2 ⟨by simp [continuesNumber, digit], all⟩
    exact ⟨_, _, _, (Scans.number digit all (ends.withReturns (by decide))).rescans plain
      (solid every (by decide)) rfl⟩
  | @fraction c whole part _ digit all more ends =>
    have every : ∀ d ∈ c :: (whole ++ '.' :: part), (continuesNumber d || d == '.') = true := by
      simp only [List.forall_mem_cons, List.forall_mem_append]
      exact ⟨by simp [continuesNumber, digit], fun d hd => by simp [all d hd], rfl,
        fun d hd => by simp [more d hd]⟩
    exact ⟨_, _, _, (Scans.fraction digit all more (ends.withReturns (by decide))).rescans plain
      (solid every (by decide)) rfl⟩
  | @word c cs _ starts all ends =>
    have every : ∀ d ∈ c :: cs, continuesName d = true :=
      List.forall_mem_cons.2 ⟨by simp [continuesName, starts], all⟩
    exact ⟨_, _, _, (Scans.word starts all (ends.withReturns (by decide +kernel))).rescans plain
      (solid every (by decide +kernel)) (isComment_ofWord _)⟩

theorem IsGap.inline {gap : List Char} (h : IsGap gap) : '\n' ∉ gap :=
  fun inside => nomatch h '\n' inside

/-- What is cut off first before a newline is that newline. -/
theorem Lexed.newline_first {spot : Spot} {l : Lexeme} {ls : List Lexeme}
    (h : Lexed spot ('\n' :: cs) (l :: ls)) :
    l.token = .newline ∧ l.gap = [] ∧ l.text = ['\n'] := by
  obtain ⟨rest, split, blank, scans, -⟩ := h.first
  have gap : IsGap l.gap := blank
  have noGap : l.gap = [] := by
    cases hgap : l.gap with
    | nil => rfl
    | cons g gs =>
      rw [hgap] at split gap
      obtain rfl := (List.cons.inj split).1
      exact absurd List.mem_cons_self gap.inline
  obtain ⟨c, text, htext⟩ := List.exists_cons_of_ne_nil scans.ne_nil
  rw [noGap, htext] at split
  obtain ⟨rfl, -⟩ := List.cons.inj split
  have newline : l.token = .newline := by
    rw [htext] at scans
    exact (scans.newline_of_blank rfl).2
  exact ⟨newline, noGap, scans.mark_text (newline ▸ rfl)⟩

/-- Behind a newline both lexers stand at the start of a line. -/
theorem keeps_newline {gap gap' : List Char} (blank : IsGap gap) (blank' : IsGap gap')
    {spot spot' : Spot} (line : spot'.position.line = spot.position.line) (rest : List Char) :
    Keeps ((spot.advance gap).advance ['\n']) rest ((spot'.advance gap').advance ['\n'])
      (withReturns rest) := by
  refine .here ?_
  show (spot'.position.advance gap').after '\n' = (spot.position.advance gap).after '\n'
  rw [Position.after, Position.after, if_pos rfl, if_pos rfl, blank'.line, blank.line, line]

/-- A text with returns is cut into the same lexemes, unless a raw string goes over lines. -/
theorem Lexed.returns {spot : Spot} {ls : List Lexeme} (h : Lexed spot cs ls) (plain : '\r' ∉ cs)
    (raw : ∀ l ∈ ls, ∀ quoted, l.token = .rawString quoted → '\n' ∉ l.text) {spot' : Spot}
    {cs' : List Char} (keeps : Keeps spot cs spot' cs') :
    ∃ ms, Lexed spot' cs' ms ∧ AreEchoed isReturn 0 ls ms := by
  induction ls generalizing spot cs spot' cs' with
  | nil =>
    cases h with
    | done blank =>
      have gap : IsGap cs := blank
      cases keeps with
      | here =>
        rw [withReturns_inline gap.inline]
        exact ⟨[], .done blank, .nil⟩
      | behind => exact absurd List.mem_cons_self gap.inline
  | cons l ls ih =>
    obtain ⟨rest, split, blank, scans, position, more⟩ := Lexed.first h
    obtain ⟨here, later⟩ := List.forall_mem_cons.1 raw
    have plainParts : '\r' ∉ l.gap ∧ '\r' ∉ l.text ∧ '\r' ∉ rest := by
      rw [split] at plain
      simpa only [List.mem_append, not_or] using plain
    obtain ⟨plainGap, plainText, plainRest⟩ := plainParts
    -- A newline is found behind the blanks of its line, and a return if that is not taken yet.
    have atNewline (newline : l.token = .newline) (line : spot'.position.line = spot.position.line)
        {gap' : List Char} (blank' : IsGap gap') (same : l.gap = gap'.filter fun c => !isReturn c) :
        ∃ ms, Lexed spot' (gap' ++ '\n' :: withReturns rest) ms ∧
          AreEchoed isReturn 0 (l :: ls) ms := by
      have text : l.text = ['\n'] := scans.mark_text (newline ▸ rfl)
      rw [text] at more
      obtain ⟨ms, lexed, echoed⟩ := ih more plainRest later (keeps_newline blank blank' line rest)
      have found : Scans .newline ['\n'] (withReturns rest) := .mark rfl
      refine ⟨_, found.lexed blank' lexed, .cons ⟨newline, same, text, ?_, ?_⟩ echoed⟩
      · rw [position]
        show (spot'.position.advance gap').line = (spot.position.advance l.gap).line
        rw [blank'.line, blank.line, line]
      · exact fun inline => absurd newline inline
    cases keeps with
    | here same =>
      by_cases newline : l.token = .newline
      · have blank' : IsGap (l.gap ++ ['\r']) :=
          List.forall_mem_append.2 ⟨blank, List.forall_mem_singleton.2 rfl⟩
        have filtered : l.gap = (l.gap ++ ['\r']).filter fun c => !isReturn c := by
          rw [List.filter_append, filter_isReturn plainGap]
          exact (List.append_nil _).symm
        have text : l.text = ['\n'] := scans.mark_text (newline ▸ rfl)
        rw [split, text, withReturns_append, withReturns_inline blank.inline]
        have found := atNewline newline (congrArg Position.line same) blank' filtered
        rw [List.append_assoc] at found
        exact found
      · obtain ⟨token', text', rest', rescans⟩ := scans.returns plainText newline (here ·)
        have place : (spot'.advance l.gap).position = (spot.advance l.gap).position :=
          congrArg (Position.advance · l.gap) same
        obtain ⟨ms, lexed, echoed⟩ := ih more plainRest later (rescans.keeps _ _ place)
        rw [split, withReturns_append, withReturns_inline blank.inline, ← rescans.whole]
        refine ⟨_, rescans.scans.lexed blank lexed, .cons ⟨rescans.same,
          (filter_isReturn plainGap).symm, rescans.filtered, ?_, fun _ => ?_⟩ echoed⟩
        · rw [position, ← place]
          rfl
        · rw [position, ← place]
          rfl
    | behind line =>
      obtain ⟨newline, noGap, text⟩ := h.newline_first
      rw [noGap, text] at split
      obtain ⟨-, rfl⟩ := List.cons.inj split
      exact atNewline newline line isGap_nil noGap

theorem lex_withReturns {source : List Char} {lexemes : List Lexeme}
    (hlex : lex source = .ok lexemes) (plain : '\r' ∉ source)
    (raw : ∀ l ∈ lexemes, ∀ quoted, l.token = .rawString quoted → '\n' ∉ l.text) :
    ∃ ms, lex (withReturns source) = .ok ms ∧ AreEchoed isReturn 0 lexemes ms := by
  obtain ⟨ms, lexed, echoed⟩ :=
    (lex_lexed hlex).returns plain raw (.here (rfl : Spot.first.position = _))
  exact ⟨ms, lexed.lex, echoed⟩

end

end Go

end FieldRules
