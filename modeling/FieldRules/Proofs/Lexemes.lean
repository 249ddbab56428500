/-
What the lexemes of a text are, and in which order they stand.

`Lexed` is the lexer without a bound on the number of lexemes.  From it follows
what a lexeme is made of, token by token (`Token.Spells`), and that each lexeme
starts where the one before it has ended, or further on (`Ordered`).
-/
import FieldRules.Go.Lexer

namespace FieldRules

open Text

/-! ### Reading order -/

namespace Text
namespace Position

def Before (p q : Position) : Prop := p.line < q.line ∨ p.line = q.line ∧ p.column < q.column

theorem Before.trans_le {p q r : Position} (hpq : Before p q) (hqr : q.le r = true) :
    Before p r := by
  rw [le_iff] at hqr
  unfold Before at *
  omega

theorem Before.le {p q : Position} (h : Before p q) : p.le q = true := by
  rw [le_iff]
  unfold Before at h
  omega

theorem Before.ne {p q : Position} (h : Before p q) : p ≠ q := by
  rintro rfl
  unfold Before at h
  omega

theorem le_refl (p : Position) : p.le p = true := by
  rw [le_iff]
  exact Or.inr ⟨rfl, Nat.le_refl _⟩

theorem before_after (p : Position) (c : Char) : Before p (p.after c) := by
  unfold after
  split
  · exact Or.inl (Nat.lt_succ_self _)
  · exact Or.inr ⟨rfl, Nat.lt_succ_self _⟩

theorem le_advance (p : Position) (cs : List Char) : p.le (p.advance cs) = true := by
  induction cs generalizing p with
  | nil => exact le_refl p
  | cons c cs ih => exact le_trans (before_after p c).le (ih (p.after c))

/-- Characters other than newlines stay on the line. -/
theorem advance_on_line (p : Position) {cs : List Char} (h : '\n' ∉ cs) :
    p.advance cs = ⟨p.line, p.column + cs.length⟩ := by
  induction cs generalizing p with
  | nil => rfl
  | cons c cs ih =>
    simp only [List.mem_cons, not_or] at h
    have here : p.after c = ⟨p.line, p.column + 1⟩ := if_neg (Ne.symm h.1)
    show (p.after c).advance cs = _
    rw [ih (p.after c) h.2, here]
    simp only [List.length_cons, Nat.add_assoc, Nat.add_comm 1]

end Position
end Text

namespace Go

/-! ### What tokens are made of -/

/-- A name: a letter or underscore, then letters, underscores and digits. -/
def isName : List Char → Bool
  | [] => false
  | c :: cs => startsName c && cs.all continuesName

/-- The text that a token can stand for. -/
def Token.Spells : Token → List Char → Prop
  | .lineComment text, cs => cs = '/' :: '/' :: text.toList
  | .blockComment text, cs => cs = '/' :: '*' :: (text.toList ++ ['*', '/'])
  | .identifier name, cs => cs = name.toList ∧ isName cs = true
  | .string quoted, cs => cs = quoted.toList
  | .rawString quoted, cs => cs = quoted.toList
  | _, _ => True

/-- A scanned piece spells its token, is not empty, and is cut off the front of the text. -/
structure Scanned.Heads (scanned : Scanned) (text : List Char) : Prop where
  spells : scanned.token.Spells scanned.text
  ne_nil : scanned.text ≠ []
  append_rest : scanned.text ++ scanned.rest = text

theorem cutQuoted_append (quote : Char) (cs : List Char) :
    (cutQuoted quote cs).body ++ (cutQuoted quote cs).rest = cs := by
  fun_induction cutQuoted quote cs <;> simp_all [Cut.cons]

theorem cutRaw_append (cs : List Char) : (cutRaw cs).body ++ (cutRaw cs).rest = cs := by
  fun_induction cutRaw cs <;> simp_all [Cut.cons]

theorem cutComment_append (cs : List Char) :
    (cutComment cs).body ++ (cutComment cs).rest = cs := by
  fun_induction cutComment cs <;> simp_all [Cut.cons]

theorem cutComment_closed {cs : List Char} (h : (cutComment cs).closed = true) :
    ∃ body, (cutComment cs).body = body ++ ['*', '/'] := by
  fun_induction cutComment cs with
  | case1 => cases h
  | case2 rest => exact ⟨[], rfl⟩
  | case3 c cs _ ih =>
    obtain ⟨body, hbody⟩ := ih h
    exact ⟨c :: body, by simp [Cut.cons, hbody]⟩

theorem ofWord_spells {word : List Char} (h : isName word = true) :
    (Token.ofWord word).Spells word := by
  unfold Token.ofWord
  split <;> first
    | exact trivial
    | exact ⟨String.toList_ofList.symm, h⟩

section

variable {c : Char} {cs : List Char} {scanned : Scanned}

theorem scanSingle_heads {token : Token} (h : scanSingle token c cs = .ok scanned)
    (spells : ∀ text, token.Spells text) : scanned.Heads (c :: cs) := by
  cases h
  exact ⟨spells _, List.cons_ne_nil _ _, rfl⟩

theorem scanDot_heads (h : scanDot cs = .ok scanned) : scanned.Heads ('.' :: cs) := by
  unfold scanDot at h
  split at h <;> cases h <;> exact ⟨trivial, List.cons_ne_nil _ _, rfl⟩

theorem scanQuoted_heads {token : List Char → Token} {cut : Cut}
    (h : scanQuoted token c cut = .ok scanned) (spells : ∀ text, (token text).Spells text)
    (append : cut.body ++ cut.rest = cs) : scanned.Heads (c :: cs) := by
  unfold scanQuoted at h
  split at h
  · cases h
    exact ⟨spells _, List.cons_ne_nil _ _, congrArg (c :: ·) append⟩
  · cases h

theorem scanLineComment_heads (h : scanLineComment cs = .ok scanned) :
    scanned.Heads ('/' :: '/' :: cs) := by
  cases h
  exact ⟨by simp [Token.Spells], List.cons_ne_nil _ _,
    congrArg (fun text => '/' :: '/' :: text) List.takeWhile_append_dropWhile⟩

theorem scanBlockComment_heads (h : scanBlockComment cs = .ok scanned) :
    scanned.Heads ('/' :: '*' :: cs) := by
  unfold scanBlockComment at h
  simp only at h
  split at h
  · next closed =>
    cases h
    obtain ⟨body, hbody⟩ := cutComment_closed closed
    exact ⟨by simp [Token.Spells, hbody], List.cons_ne_nil _ _,
      congrArg (fun text => '/' :: '*' :: text) (cutComment_append cs)⟩
  · cases h

theorem scanOperator_heads (h : scanOperator c cs = .ok scanned) : scanned.Heads (c :: cs) := by
  cases h
  refine ⟨?_, List.cons_ne_nil _ _, congrArg (c :: ·) List.takeWhile_append_dropWhile⟩
  simp only
  split
  · exact trivial
  · split <;> exact trivial

theorem scanNumber_heads (h : scanNumber c cs = .ok scanned) : scanned.Heads (c :: cs) := by
  have whole : cs.takeWhile continuesNumber ++ cs.dropWhile continuesNumber = cs :=
    List.takeWhile_append_dropWhile
  unfold scanNumber at h
  simp only at h
  split at h
  · next more hmore =>
    cases h
    rw [hmore] at whole
    refine ⟨trivial, List.cons_ne_nil _ _, ?_⟩
    have part : more.takeWhile continuesNumber ++ more.dropWhile continuesNumber = more :=
      List.takeWhile_append_dropWhile
    simp only [List.cons_append, List.append_assoc, part, whole]
  · cases h
    exact ⟨trivial, List.cons_ne_nil _ _, congrArg (c :: ·) whole⟩

theorem scanName_heads (hc : startsName c = true) (h : scanName c cs = .ok scanned) :
    scanned.Heads (c :: cs) := by
  cases h
  refine ⟨ofWord_spells ?_, List.cons_ne_nil _ _,
    congrArg (c :: ·) List.takeWhile_append_dropWhile⟩
  simp [isName, hc]

/-- What `scan` cuts off the front of a text. -/
theorem scan_heads (h : scan c cs = .ok scanned) : scanned.Heads (c :: cs) := by
  unfold scan at h
  split at h
  case h_11 => exact scanDot_heads h
  case h_12 => exact scanQuoted_heads h (fun _ => String.toList_ofList.symm) (cutQuoted_append _ _)
  case h_13 => exact scanQuoted_heads h (fun _ => trivial) (cutQuoted_append _ _)
  case h_14 => exact scanQuoted_heads h (fun _ => String.toList_ofList.symm) (cutRaw_append _)
  case h_15 =>
    split at h
    · exact scanLineComment_heads h
    · exact scanBlockComment_heads h
    · exact scanOperator_heads h
  case h_16 =>
    split at h
    · exact scanOperator_heads h
    · split at h
      · exact scanNumber_heads h
      · split at h
        · next hc => exact scanName_heads hc h
        · cases h
  all_goals exact scanSingle_heads h fun _ => trivial

end

/-! ### Runs of lexemes -/

inductive Lexed : Spot → List Char → List Lexeme → Prop where
  | done {spot : Spot} {gap : List Char} : (∀ c ∈ gap, isGap c = true) → Lexed spot gap []
  | next {spot : Spot} {gap more : List Char} {c : Char} {scanned : Scanned}
      {lexemes : List Lexeme} : (∀ c ∈ gap, isGap c = true) → isGap c = false →
      scan c more = .ok scanned →
      Lexed ((spot.advance gap).advance scanned.text) scanned.rest lexemes →
      Lexed spot (gap ++ c :: more) (⟨gap, scanned.text, scanned.token,
        (spot.advance gap).position, (spot.advance gap).offset⟩ :: lexemes)

/-- Each lexeme starts at the end of the one before it, or further on. -/
def Ordered (p : Position) : List Lexeme → Prop
  | [] => True
  | l :: ls => p.le l.position = true ∧ Ordered (l.position.advance l.text) ls

def Lexeme.IsSound (l : Lexeme) : Prop := l.token.Spells l.text ∧ l.text ≠ []

theorem Lexed.ordered {spot : Spot} {cs : List Char} {lexemes : List Lexeme}
    (h : Lexed spot cs lexemes) : Ordered spot.position lexemes := by
  induction h with
  | done _ => exact trivial
  | @next spot gap more c scanned lexemes _ _ _ _ ih =>
    exact ⟨Position.le_advance spot.position gap, ih⟩

theorem Lexed.sound {spot : Spot} {cs : List Char} {lexemes : List Lexeme}
    (h : Lexed spot cs lexemes) : ∀ l ∈ lexemes, l.IsSound := by
  induction h with
  | done _ => exact fun l hl => nomatch hl
  | next _ _ hscan _ ih =>
    intro l hl
    rcases List.mem_cons.1 hl with rfl | hl
    · exact ⟨(scan_heads hscan).spells, (scan_heads hscan).ne_nil⟩
    · exact ih l hl

theorem lexFrom_lexed {fuel : Nat} {spot : Spot} {cs : List Char} {lexemes : List Lexeme}
    (enough : cs.length ≤ fuel) (h : lexFrom fuel spot cs = .ok lexemes) :
    Lexed spot cs lexemes := by
  induction fuel generalizing spot cs lexemes with
  | zero =>
    cases h
    rw [List.length_eq_zero_iff.1 (Nat.le_zero.1 enough)]
    exact Lexed.done fun c hc => nomatch hc
  | succ fuel ih =>
    have split : cs.takeWhile isGap ++ cs.dropWhile isGap = cs := List.takeWhile_append_dropWhile
    have blank : ∀ c ∈ cs.takeWhile isGap, isGap c = true := List.all_eq_true.1 List.all_takeWhile
    unfold lexFrom at h
    simp only at h
    cases hrest : cs.dropWhile isGap with
    | nil =>
      rw [hrest] at h split
      cases h
      rw [← split, List.append_nil]
      exact Lexed.done blank
    | cons c more =>
      have hc : isGap c = false := by
        have front := List.head?_dropWhile_not isGap cs
        rw [hrest] at front
        simpa using front
      rw [hrest] at h split
      simp only at h
      cases hscan : scan c more with
      | error text => rw [hscan] at h; cases h
      | ok scanned =>
        rw [hscan] at h
        simp only at h
        have shorter : scanned.rest.length ≤ fuel := by
          have heads := scan_heads hscan
          have lengths := congrArg List.length heads.append_rest
          have nonempty := List.length_pos_iff.2 heads.ne_nil
          have whole := congrArg List.length split
          simp only [List.length_append, List.length_cons] at lengths whole
          omega
        cases hlex : lexFrom fuel ((spot.advance (cs.takeWhile isGap)).advance scanned.text)
            scanned.rest with
        | error e => rw [hlex] at h; cases h
        | ok others =>
          rw [hlex] at h
          cases h
          have lexed := Lexed.next blank hc hscan (ih shorter hlex)
          rwa [split] at lexed

theorem lex_lexed {source : List Char} {lexemes : List Lexeme} (h : lex source = .ok lexemes) :
    Lexed Spot.first source lexemes :=
  lexFrom_lexed (Nat.le_refl _) h

end Go
end FieldRules
