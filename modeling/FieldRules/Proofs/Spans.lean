/-
Nothing of a text is lost in its lexemes.

A text is its lexemes with the blanks in front of them, and the blanks behind the
last (`written`).  A lexeme takes the bytes from its start to its stop, its position
is told by what stands before it, and a token that carries a text carries the one that
is there: all of it, or what a comment has between its delimiters (`Token.Carries`).  So
spans are filled and apart, and positions strictly increase (`lex_spans`).
-/
import FieldRules.Proofs.Trimming
import FieldRules.Proofs.Written

namespace FieldRules

open Text

/-! ### Places by offset -/

namespace Text

theorem byteLength_pos {cs : List Char} (filled : cs ≠ []) : 0 < byteLength cs := by
  obtain ⟨c, cs, rfl⟩ := List.exists_cons_of_ne_nil filled
  exact Nat.add_pos_left c.utf8Size_pos _

/-- The place that is looked up for an offset is the one behind as many bytes. -/
theorem Position.atOffset_byteLength (p : Position) (before after : List Char) :
    p.atOffset (before ++ after) (byteLength before) = p.advance before := by
  induction before generalizing p with
  | nil => cases after <;> rfl
  | cons c before ih =>
    obtain ⟨n, positive⟩ := Nat.exists_eq_succ_of_ne_zero
      (byteLength_pos (List.cons_ne_nil c before)).ne'
    have left : byteLength (c :: before) - c.utf8Size = byteLength before :=
      Nat.add_sub_cancel_left _ _
    rw [List.cons_append, positive, Position.atOffset, ← positive, left, ih]
    · rfl
    · exact Nat.succ_ne_zero n

theorem Position.before_advance (p : Position) {cs : List Char} (filled : cs ≠ []) :
    Position.Before p (p.advance cs) := by
  obtain ⟨c, cs, rfl⟩ := List.exists_cons_of_ne_nil filled
  exact (Position.before_after p c).trans_le (Position.le_advance _ cs)

end Text

namespace Go

/-! ### What tokens carry -/

/-- The first `*/` of a text is the one at its end. -/
def ClosesOnce (body : List Char) : Prop :=
  ∀ front, front ++ ['*', '/'] <+: body ++ ['*', '/'] → front = body

/-- The text that a token carries is the one it stands for, less the delimiters of a comment. -/
def Token.Carries : Token → List Char → Prop
  | .lineComment text, cs => cs = '/' :: '/' :: text.toList
  | .blockComment text, cs =>
    cs = '/' :: '*' :: (text.toList ++ ['*', '/']) ∧ ClosesOnce text.toList
  | token, cs => ∀ text ∈ token.payload?, text.toList = cs

/-- A comment is cut behind the first delimiter in it, or before. -/
theorem cutComment_prefix {cs front rest : List Char} (h : cs = front ++ '*' :: '/' :: rest) :
    (cutComment cs).body <+: front ++ ['*', '/'] := by
  induction front generalizing cs with
  | nil =>
    subst h
    exact List.prefix_rfl
  | cons c front ih =>
    rw [List.cons_append] at h
    subst h
    unfold cutComment
    split
    · next more same =>
      -- The star before a slash closes the comment here.
      cases front with
      | nil => cases same
      | cons d front =>
        obtain ⟨rfl, -⟩ := List.cons.inj same
        exact List.cons_prefix_cons.2 ⟨rfl, List.cons_prefix_cons.2 ⟨rfl, List.nil_prefix⟩⟩
    · exact List.cons_prefix_cons.2 ⟨rfl, ih rfl⟩

theorem closesOnce_of_cut {body : List Char} (closed : cutComment body = ⟨true, body, []⟩) :
    ∃ text, body = text ++ ['*', '/'] ∧ ClosesOnce text := by
  obtain ⟨text, split⟩ : ∃ text, body = text ++ ['*', '/'] := by
    have cut := cutComment_closed (congrArg Cut.closed closed)
    rwa [closed] at cut
  refine ⟨text, split, fun front found => ?_⟩
  obtain ⟨rest, hrest⟩ := found
  have whole : body = front ++ '*' :: '/' :: rest := by
    rw [split, ← hrest, List.append_assoc]
    rfl
  have cut := cutComment_prefix whole
  rw [closed, split] at cut
  have same := cut.eq_of_length_le (List.IsPrefix.length_le ⟨rest, hrest⟩)
  exact (List.append_cancel_right same).symm

theorem carries_mark {c : Char} {token : Token} (h : mark? c = some token) (text : List Char) :
    token.Carries text := by
  unfold mark? at h
  split at h <;> cases h <;> exact nofun

theorem carries_operator (text : List Char) : (operatorToken text).Carries text := by
  unfold operatorToken
  split
  · exact nofun
  · split <;> exact nofun

theorem carries_word (word : List Char) : (Token.ofWord word).Carries word := by
  unfold Token.ofWord
  split <;> first
    | exact fun text same => Option.some.inj same ▸ String.toList_ofList
    | exact nofun

/-- What the lexer finds carries the text it was found in. -/
theorem Scans.carries {token : Token} {text rest : List Char} (h : Scans token text rest) :
    token.Carries text := by
  cases h with
  | mark mark => exact carries_mark mark _
  | dot => exact nofun
  | ellipsis => exact nofun
  | string => exact fun text same => by cases same; exact String.toList_ofList
  | rune => exact nofun
  | rawString => exact fun text same => by cases same; exact String.toList_ofList
  | lineComment => exact congrArg (fun text => '/' :: '/' :: text) String.toList_ofList.symm
  | @blockComment body _ closed =>
    obtain ⟨text, split, once⟩ := closesOnce_of_cut closed
    have taken : body.take (body.length - 2) = text := by simp [split]
    rw [taken, Token.Carries, String.toList_ofList]
    exact ⟨by rw [split], once⟩
  | operator => exact carries_operator _
  | number => exact nofun
  | fraction => exact nofun
  | word => exact carries_word _

/-! ### Lexemes in their place -/

/-- Behind some text of a source stands a lexeme: its text, its bytes and its position are those
that it has there, and the position is the one that is looked up for its first byte. -/
structure Lexeme.StandsBehind (l : Lexeme) (before source : List Char) : Prop where
  within : before ++ l.text <+: source
  start : l.start = byteLength before
  stop : l.stop = byteLength (before ++ l.text)
  position : l.position = Position.behind before
  lookedUp : Position.first.atOffset source l.start = l.position

/-- Some lexemes are a whole source, each in its place. -/
structure Covers (lexemes : List Lexeme) (source : List Char) : Prop where
  rebuilt : ∃ last, source = written lexemes ++ last ∧ ∀ c ∈ last, c ∈ [' ', '\t', '\r', '\x0c']
  blank : ∀ l ∈ lexemes, ∀ c ∈ l.gap, c ∈ [' ', '\t', '\r', '\x0c']
  stands : ∀ front l behind, lexemes = front ++ l :: behind →
    l.StandsBehind (written front ++ l.gap) source
  filled : ∀ l ∈ lexemes, l.start < l.stop
  carries : ∀ l ∈ lexemes, l.token.Carries l.text
  apart : lexemes.Pairwise fun l m => l.stop ≤ m.start
  increasing : lexemes.Pairwise fun l m => Position.Before l.position m.position

theorem isGap_mem {c : Char} (h : isGap c = true) : c ∈ [' ', '\t', '\r', '\x0c'] := by
  simp only [isGap, Bool.or_eq_true, beq_iff_eq] at h
  simp only [List.mem_cons, List.not_mem_nil, or_false]
  tauto

/-- No lexeme starts before the text. -/
theorem Lexed.starts {spot : Spot} {cs : List Char} {lexemes : List Lexeme}
    (h : Lexed spot cs lexemes) {l : Lexeme} (hl : l ∈ lexemes) :
    spot.offset ≤ l.start ∧ spot.position.le l.position = true := by
  obtain ⟨front, behind, rfl⟩ := List.append_of_mem hl
  have place := h.stands.2
  have start : spot.offset + _ = l.start := congrArg Spot.offset place
  have position : spot.position.advance _ = l.position := congrArg Spot.position place
  exact ⟨start ▸ Nat.le_add_right _ _, position ▸ Position.le_advance _ _⟩

/-- Lexemes stand one behind the other. -/
theorem Lexed.apart {spot : Spot} {cs : List Char} {lexemes : List Lexeme}
    (h : Lexed spot cs lexemes) :
    lexemes.Pairwise fun l m => l.stop ≤ m.start ∧ Position.Before l.position m.position := by
  induction h with
  | done => exact List.Pairwise.nil
  | next _ _ hscan more ih =>
    refine List.pairwise_cons.2 ⟨fun m hm => ?_, ih⟩
    obtain ⟨start, position⟩ := more.starts hm
    exact ⟨start, (Position.before_advance _ (scan_heads hscan).ne_nil).trans_le position⟩

theorem Lexed.rebuilt {spot : Spot} {cs : List Char} {lexemes : List Lexeme}
    (h : Lexed spot cs lexemes) : ∃ last, cs = written lexemes ++ last ∧ IsGap last := by
  induction h with
  | @done _ gap blank => exact ⟨gap, rfl, blank⟩
  | next _ _ hscan _ ih =>
    obtain ⟨last, whole, blank⟩ := ih
    refine ⟨last, ?_, blank⟩
    rw [← (scan_heads hscan).append_rest, whole]
    simp [written]

/-- The lexemes of a source cover it. -/
theorem lex_spans {source : List Char} {lexemes : List Lexeme} (h : lex source = .ok lexemes) :
    Covers lexemes source := by
  have lexed := lex_lexed h
  obtain ⟨last, rebuilt, blank⟩ := lexed.rebuilt
  constructor
  case rebuilt => exact ⟨last, rebuilt, fun c hc => isGap_mem (blank c hc)⟩
  case blank => exact fun l hl c hc => isGap_mem ((lexed.isScanned l hl).1 c hc)
  case stands =>
    rintro front l behind rfl
    obtain ⟨within, place⟩ := lexed.stands
    have start : 0 + byteLength (written front ++ l.gap) = l.start := congrArg Spot.offset place
    have position : Position.first.advance (written front ++ l.gap) = l.position :=
      congrArg Spot.position place
    rw [Nat.zero_add] at start
    constructor
    case within => rwa [List.append_assoc]
    case start => exact start.symm
    case stop => rw [byteLength_append, start]; rfl
    case position => rw [← position, Position.first_advance]
    case lookedUp =>
      obtain ⟨tail, rfl⟩ := within
      rw [← position, ← start, ← List.append_assoc, List.append_assoc,
        Position.atOffset_byteLength]
  case filled =>
    exact fun l hl => Nat.lt_add_of_pos_right (byteLength_pos (lexed.sound l hl).2)
  case carries =>
    intro l hl
    obtain ⟨-, rest, scans⟩ := lexed.isScanned l hl
    exact scans.carries
  case apart => exact lexed.apart.imp fun h => h.1
  case increasing => exact lexed.apart.imp fun h => h.2

/-- A comment full of stars, a letter of two bytes, and a return before a newline. -/
def starredComment : List Char := "/* é **/ x\r\n\ty".toList

theorem lex_spans_starredComment :
    lex starredComment = .ok [
      ⟨[], "/* é **/".toList, .blockComment " é *", ⟨1, 1⟩, 0⟩,
      ⟨[' '], ['x'], .identifier "x", ⟨1, 10⟩, 10⟩,
      ⟨['\r'], ['\n'], .newline, ⟨1, 12⟩, 12⟩,
      ⟨['\t'], ['y'], .identifier "y", ⟨2, 2⟩, 14⟩] ∧
    Covers [
      ⟨[], "/* é **/".toList, .blockComment " é *", ⟨1, 1⟩, 0⟩,
      ⟨[' '], ['x'], .identifier "x", ⟨1, 10⟩, 10⟩,
      ⟨['\r'], ['\n'], .newline, ⟨1, 12⟩, 12⟩,
      ⟨['\t'], ['y'], .identifier "y", ⟨2, 2⟩, 14⟩] starredComment :=
  have lexed : lex starredComment = .ok _ := by rfl
  ⟨lexed, lex_spans lexed⟩

end Go
end FieldRules
