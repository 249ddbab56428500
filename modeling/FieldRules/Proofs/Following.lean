/-
Readers do not notice how a text is written.

What stands between two places stands in the echo, texts and places apart
(`Reads.echoed`), also where the echo goes on with further lines behind the end of
the other.
-/
import FieldRules.Proofs.Recasting

namespace FieldRules
namespace Go

open Text
open Go.Parser

/-- Nothing, or text that starts on a new line. -/
def StartsLine (tail : List Lexeme) : Prop := ∀ l ∈ tail.head?, l.token = .newline

/-- Places before lexemes and before their echo, which goes on with further lines. -/
structure Place.Echoes (drops : Char → Bool) (down : Nat) (tail : List Lexeme)
    (place place' : Place) : Prop where
  line : place'.previousLine? = place.previousLine?.map (· + down)
  rest : ∃ ms, place'.rest = ms ++ tail ∧ AreEchoed drops down place.rest ms

section

variable {drops : Char → Bool} {down : Nat} {tail : List Lexeme} {place place' next next' : Place}
  {l m : Lexeme} {ls ms taken rest : List Lexeme} {token : Token}

/-! ### Places -/

theorem Lexeme.Echoes.previousLine (h : l.Echoes drops down m) (rest rest' : List Lexeme) :
    (Place.mk (some m) rest').previousLine? =
      (Place.mk (some l) rest).previousLine?.map (· + down) := by
  unfold Place.previousLine?
  simp only [h.token, Token.without_isTrivia, h.line]
  split <;> rfl

namespace Place.Echoes

theorem behind (here : l.Echoes drops down m) (more : AreEchoed drops down ls ms) :
    (Place.mk (some l) ls).Echoes drops down tail ⟨some m, ms ++ tail⟩ :=
  ⟨here.previousLine _ _, ms, rfl, more⟩

/-- The first lexeme and its echo. -/
theorem front {previous : Option Lexeme}
    (h : (Place.mk previous (l :: ls)).Echoes drops down tail place') :
    ∃ previous' m ms, place' = ⟨previous', m :: ms⟩ ∧ l.Echoes drops down m ∧
      (Place.mk (some l) ls).Echoes drops down tail ⟨some m, ms⟩ := by
  obtain ⟨-, ms, split, echoed⟩ := h
  obtain ⟨previous', rest'⟩ := place'
  cases echoed with
  | @cons _ m _ ms here more =>
    cases split
    exact ⟨previous', m, ms ++ tail, rfl, here, behind here more⟩

/-- The first two lexemes and their echoes. -/
theorem front_two {previous : Option Lexeme}
    (h : (Place.mk previous (l :: m :: ls)).Echoes drops down tail place') :
    ∃ previous' l' m' ms, place' = ⟨previous', l' :: m' :: ms⟩ ∧ l.Echoes drops down l' ∧
      m.Echoes drops down m' ∧ (Place.mk (some m) ls).Echoes drops down tail ⟨some m', ms⟩ := by
  obtain ⟨previous', l', ms, rfl, here, more⟩ := h.front
  obtain ⟨_, m', ms, split, hereM, behind⟩ := more.front
  cases split
  exact ⟨previous', l', m', ms, rfl, here, hereM, behind⟩

/-- Where there is no token in front of the echo's there is a newline. -/
theorem peek? (lines : StartsLine tail) (h : place.Echoes drops down tail place') :
    place.peek? = place'.peek?.map (Token.without drops) ∨
      place.peek? = none ∧ ∀ token ∈ place'.peek?, token = .newline := by
  obtain ⟨-, ms, split, echoed⟩ := h
  obtain ⟨previous, rest⟩ := place
  unfold Place.peek?
  rw [split]
  cases echoed with
  | nil =>
    refine .inr ⟨rfl, fun token found => ?_⟩
    obtain ⟨l, hl, rfl⟩ := Option.map_eq_some_iff.1 found
    exact lines l hl
  | cons here => exact .inl (congrArg some here.token)

theorem peek?_ne (lines : StartsLine tail) (h : place.Echoes drops down tail place')
    (plain : token.isComment = false) (inline : token ≠ .newline)
    (other : place.peek? ≠ some token) : place'.peek? ≠ some token := by
  intro found
  rcases h.peek? lines with same | ⟨-, newline⟩
  · rw [found] at same
    exact other (same.trans (congrArg some ((Token.without_eq_iff plain).2 rfl)))
  · exact inline (newline token found)

/-- What depends on the token in front, and on a newline as on the end, is the same for the echo. -/
theorem peek?_congr {α : Type} {f : Option Token → α}
    (plain : ∀ token : Token, f (some (token.without drops)) = f (some token))
    (newline : f (some .newline) = f none) (lines : StartsLine tail)
    (h : place.Echoes drops down tail place') : f place'.peek? = f place.peek? := by
  rcases h.peek? lines with same | ⟨none, ends⟩
  · rw [same]
    cases place'.peek? with
    | none => rfl
    | some token => exact (plain token).symm
  · rw [none]
    cases found : place'.peek? with
    | none => rfl
    | some token => rw [ends token found, newline]

theorem endsEmbedded (lines : StartsLine tail) (h : place.Echoes drops down tail place') :
    Parser.endsEmbedded place'.peek? = Parser.endsEmbedded place.peek? :=
  h.peek?_congr (fun token => by cases token <;> rfl) rfl lines

theorem startsResults (lines : StartsLine tail) (h : place.Echoes drops down tail place') :
    Go.startsResults place'.peek? = Go.startsResults place.peek? :=
  h.peek?_congr (fun token => by cases token <;> rfl) rfl lines

end Place.Echoes

/-! ### Brackets -/

theorem AreEchoed.takeGroup {depth : Nat} (h : takeGroup depth ls = some (taken, rest))
    (e : AreEchoed drops down ls ms) (tail : List Lexeme) :
    ∃ taken' rest', Go.takeGroup depth (ms ++ tail) = some (taken', rest' ++ tail) ∧
      AreEchoed drops down taken taken' ∧ AreEchoed drops down rest rest' := by
  induction e generalizing depth taken with
  | nil => cases h
  | @cons l m ls ms here more ih =>
    have opens : m.token.isOpening = l.token.isOpening := by rw [here.token, Token.without_isOpening]
    have closes : m.token.isClosing = l.token.isClosing := by rw [here.token, Token.without_isClosing]
    unfold Go.takeGroup at h
    rw [List.cons_append, Go.takeGroup, opens, closes]
    split at h
    · next last =>
      cases h
      exact ⟨[m], ms, if_pos last, .cons here .nil, more⟩
    · next other =>
      obtain ⟨⟨inner, left⟩, hinner, hpair⟩ := Option.map_eq_some_iff.1 h
      cases hpair
      obtain ⟨taken', rest', found, echoed, echoedRest⟩ := ih hinner
      refine ⟨m :: taken', rest', ?_, .cons here echoed, echoedRest⟩
      rw [if_neg other]
      exact Option.map_eq_some_iff.2 ⟨_, found, rfl⟩

theorem AreEchoed.takeLength {depth : Nat} (h : takeLength depth ls = some (taken, rest))
    (e : AreEchoed drops down ls ms) (tail : List Lexeme) :
    ∃ taken' rest', Go.takeLength depth (ms ++ tail) = some (taken', rest' ++ tail) ∧
      AreEchoed drops down taken taken' ∧ AreEchoed drops down rest rest' := by
  induction e generalizing depth taken with
  | nil => cases h
  | @cons l m ls ms here more ih =>
    unfold Go.takeLength at h
    rw [List.cons_append, Go.takeLength]
    simp only [here.token_iff (show Token.isComment .leftBracket = false from rfl),
      here.token_iff (show Token.isComment .rightBracket = false from rfl),
      here.token_iff (show Token.isComment .leftParen = false from rfl),
      here.token_iff (show Token.isComment .rightParen = false from rfl)]
    split at h
    · next closes =>
      cases h
      exact ⟨[], m :: ms, if_pos closes, .nil, .cons here more⟩
    · next other =>
      obtain ⟨⟨inner, left⟩, hinner, hpair⟩ := Option.map_eq_some_iff.1 h
      cases hpair
      obtain ⟨taken', rest', found, echoed, echoedRest⟩ := ih hinner
      refine ⟨m :: taken', rest', ?_, .cons here echoed, echoedRest⟩
      rw [if_neg other]
      exact Option.map_eq_some_iff.2 ⟨_, found, rfl⟩

/-- A group in front, and the place behind it. -/
theorem Place.Echoes.group {previous : Option Lexeme}
    (e : (Place.mk previous ls).Echoes drops down tail place')
    (h : takeGroup 0 ls = some (taken, rest)) :
    ∃ taken' rest', Go.takeGroup 0 place'.rest = some (taken', rest') ∧
      AreEchoed drops down taken taken' ∧
      (Place.mk taken.getLast? rest).Echoes drops down tail ⟨taken'.getLast?, rest'⟩ := by
  obtain ⟨-, ms, split, echoed⟩ := e
  obtain ⟨taken', rest', found, echoedTaken, echoedRest⟩ := echoed.takeGroup h tail
  obtain ⟨inner, last, rfl, -⟩ := takeGroup_closed h
  obtain ⟨l, m, hl, hm, here⟩ := echoedTaken.getLast (by simp)
  refine ⟨taken', rest' ++ tail, split ▸ found, echoedTaken, ?_⟩
  rw [hl, hm]
  exact .behind here echoedRest

/-- A group behind a word. -/
theorem Place.Echoes.word_group {previous : Option Lexeme}
    (e : (Place.mk previous (l :: m :: ls)).Echoes drops down tail place')
    (h : takeGroup 0 (m :: ls) = some (taken, rest)) :
    ∃ previous' l' m' ms taken' rest', place' = ⟨previous', l' :: m' :: ms⟩ ∧
      l.Echoes drops down l' ∧ m.Echoes drops down m' ∧
      Go.takeGroup 0 (m' :: ms) = some (taken', rest') ∧
      (Place.mk taken.getLast? rest).Echoes drops down tail ⟨taken'.getLast?, rest'⟩ := by
  obtain ⟨previous', l', ms, rfl, here, more⟩ := e.front
  obtain ⟨_, m', ms, split, hereM, -⟩ := more.front
  obtain ⟨taken', rest', found, -, reached⟩ := more.group h
  cases split
  exact ⟨previous', l', m', ms, taken', rest', rfl, here, hereM, found, reached⟩

/-- The text between two places. -/
theorem Place.Echoes.textTo (e : place.Echoes drops down tail place')
    (e' : next.Echoes drops down tail next') :
    place.textTo next = without drops (place'.textTo next') := by
  obtain ⟨-, ms, split, echoed⟩ := e
  obtain ⟨-, ns, split', echoed'⟩ := e'
  have taken : place'.takenSince next' =
      ms.take (place.rest.length - next.rest.length) := by
    unfold takenSince
    rw [split, split', echoed.length_eq, echoed'.length_eq, List.length_append, List.length_append,
      Nat.add_sub_add_right, List.take_append_of_le_length (Nat.sub_le _ _)]
  unfold Place.textTo
  rw [taken]
  exact AreEchoed.text (List.forall₂_take _ echoed)

/-! ### Comments -/

/-- Groups of comments that differ in texts and places alike. -/
structure CommentGroup.Echoes (drops : Char → Bool) (down : Nat) (g g' : CommentGroup) : Prop where
  comments : g.comments.map (Recast.below down).comment =
    g'.comments.map (Recast.without drops).comment
  newlines : g'.newlines = g.newlines
  sharedLine : g'.sharedLine = g.sharedLine.map (· + down)

theorem CommentGroup.Echoes.comment {g g' : CommentGroup} (h : g.Echoes drops down g')
    {text text' : String} {position position' : Position} (same : text = without drops text')
    (place : position' = position.below down) :
    (g.comment text position).Echoes drops down (g'.comment text' position') := by
  have shared : (g'.sharedLine = some position'.line) = (g.sharedLine = some position.line) := by
    rw [h.sharedLine, place]
    cases g.sharedLine <;> simp [Position.below]
  refine ⟨?_, rfl, h.sharedLine⟩
  unfold CommentGroup.comment
  simp only [shared]
  split
  · exact h.comments
  · simp only [List.map_cons, h.comments]
    rw [same, place]
    rfl

/-- A comment group takes what the echoed one takes. -/
theorem CommentGroup.Echoes.take? {g g' : CommentGroup} (h : g.Echoes drops down g')
    (here : l.Echoes drops down m) :
    match g.take? l, g'.take? m with
    | some next, some next' => next.Echoes drops down next'
    | none, none => True
    | _, _ => False := by
  have token := here.token
  unfold CommentGroup.take?
  cases hm : m.token <;> rw [hm] at token <;> rw [token] <;> simp only [Token.without]
  case newline =>
    refine ⟨?_, congrArg (· + 1) h.newlines, rfl⟩
    unfold newline
    simp only [h.newlines]
    split
    · rfl
    · exact h.comments
  case semicolon => exact ⟨rfl, rfl, h.sharedLine⟩
  case lineComment => exact h.comment rfl (here.position (by rw [token]; nofun))
  case blockComment => exact h.comment rfl (here.position (by rw [token]; nofun))

/-- Comments are collected alike, up to a lexeme that is none. -/
theorem CommentGroup.Echoes.collect {g g' : CommentGroup} (h : g.Echoes drops down g')
    (e : AreEchoed drops down ls ms) {previous previous' : Option Lexeme}
    (line : ∀ rest rest', (Place.mk previous' rest').previousLine? =
      (Place.mk previous rest).previousLine?.map (· + down))
    (more : (g.collect previous ls).2.rest ≠ [] ∨ tail = []) :
    (g.collect previous ls).1.Echoes drops down (g'.collect previous' (ms ++ tail)).1 ∧
      (g.collect previous ls).2.Echoes drops down tail (g'.collect previous' (ms ++ tail)).2 := by
  induction e generalizing g g' previous previous' with
  | nil =>
    rcases more with more | rfl
    · exact absurd rfl more
    · exact ⟨h, line _ _, [], rfl, .nil⟩
  | @cons l m ls ms here rest ih =>
    have step := h.take? here
    rw [List.cons_append]
    unfold CommentGroup.collect at more ⊢
    cases hl : g.take? l with
    | none =>
      cases hm : g'.take? m with
      | none => exact ⟨h, line _ _, m :: ms, rfl, .cons here rest⟩
      | some next' => rw [hl, hm] at step; exact step.elim
    | some next =>
      cases hm : g'.take? m with
      | none => rw [hl, hm] at step; exact step.elim
      | some next' =>
        rw [hl, hm] at step
        rw [hl] at more
        exact ih step (fun r r' => here.previousLine r r') more

namespace Parser

theorem leadingComments_echoed {doc : List Comment} (e : place.Echoes drops down tail place')
    (h : leadingComments place = .ok (doc, next)) (more : next.rest ≠ [] ∨ tail = []) :
    ∃ doc' next', leadingComments place' = .ok (doc', next') ∧
      doc.map (Recast.below down).comment = doc'.map (Recast.without drops).comment ∧
      next.Echoes drops down tail next' := by
  obtain ⟨line, ms, split, echoed⟩ := e
  obtain ⟨previous', rest'⟩ := place'
  cases split
  cases h
  have start : CommentGroup.Echoes drops down ⟨[], 0, place.previousLine?⟩
      ⟨[], 0, (Place.mk previous' (ms ++ tail)).previousLine?⟩ := ⟨rfl, rfl, line⟩
  obtain ⟨group, reached⟩ := start.collect echoed (fun _ _ => line) more
  refine ⟨_, _, rfl, ?_, reached⟩
  rw [List.map_reverse, group.comments, List.map_reverse]
  rfl

theorem trailingComment_echoed (lines : StartsLine tail) (e : place.Echoes drops down tail place')
    (h : trailingComment place = .ok ((), next)) :
    ∃ next', trailingComment place' = .ok ((), next') ∧ next.Echoes drops down tail next' := by
  have trails {c d : Lexeme} (here : c.Echoes drops down d) : Trails place' d ↔ Trails place c := by
    unfold Trails
    rw [here.token, Token.without_isComment, e.line, here.line]
    cases place.previousLine? <;> simp
  obtain ⟨previous, rest⟩ := place
  rcases trailingComment_ok h with ⟨c, rest, rfl, found, rfl⟩ | ⟨rfl, none⟩
  · obtain ⟨previous', d, ds, rfl, here, more⟩ := e.front
    exact ⟨_, trailingComment_run ((trails here).2 found), more⟩
  · refine ⟨place', trailingComment_none fun d hd found => ?_, e⟩
    cases rest with
    | nil =>
      obtain ⟨-, ms, split, echoed⟩ := e
      cases echoed
      rw [split] at hd
      have newline := lines d hd
      have comment := found.1
      rw [newline] at comment
      cases comment
    | cons c cs =>
      obtain ⟨previous', d', ds, rfl, here, -⟩ := e.front
      cases hd
      exact none c rfl ((trails here).1 found)

theorem endOfItem_echoed (lines : StartsLine tail) {wanted : Wanted}
    (e : place.Echoes drops down tail place') (h : endOfItem wanted place = .ok ((), place)) :
    endOfItem wanted place' = .ok ((), place') := by
  obtain ⟨token, mid, hpeek, hend⟩ := bind_ok h
  cases hpeek
  refine bind_run peek_run ?_
  cases found : place'.peek? with
  | none => rfl
  | some token =>
    suffices ends : token.isTrivia ∨ token = .semicolon ∨ token = .rightBrace ∨
        token = .rightParen by
      dsimp only
      rw [if_pos ends]
      rfl
    rcases e.peek? lines with same | ⟨-, newline⟩
    · rw [found] at same
      rw [same] at hend
      simp only [Option.map_some] at hend
      split at hend
      · next ends =>
        rw [Token.without_isTrivia, Token.without_eq_iff rfl, Token.without_eq_iff rfl,
          Token.without_eq_iff rfl] at ends
        exact ends
      · exact (missing_ok hend).elim
    · rw [newline token found]
      exact .inl rfl

end Parser

/-! ### Trees -/

theorem Recast.type_of_base {word : String} {base : TypeExpr} (h : ReadsBase word place base next)
    (r : Recast) : r.type base = base := by
  cases h <;> rfl

/-- Fields that differ in texts and places alike. -/
theorem Recast.field_eq {names : List String} {embedded : Bool} {t u : TypeExpr}
    {tag : Option String} {doc doc' : List Comment} {position position' : Position}
    (type : (below down).type t = (without drops).type u)
    (docs : doc.map (below down).comment = doc'.map (without drops).comment)
    (place : position' = position.below down) :
    (below down).field ⟨names, embedded, t, tag, doc, position⟩ =
      (without drops).field ⟨names, embedded, u, tag, doc', position'⟩ := by
  subst place
  simp only [field, type, docs]
  rfl

theorem ReadsBase.echoed {word : String} {base : TypeExpr} (lines : StartsLine tail)
    (h : ReadsBase word place base next) (e : place.Echoes drops down tail place') :
    ∃ next', ReadsBase word place' base next' ∧ next.Echoes drops down tail next' := by
  cases h with
  | plain other => exact ⟨place', .plain (e.peek?_ne lines rfl nofun other), e⟩
  | dotted hl hm =>
    obtain ⟨_, l', m', ms', rfl, hereL, hereM, behind⟩ := e.front_two
    exact ⟨_, .dotted (hereL.token_eq hl rfl) (hereM.token_eq hm rfl), behind⟩

theorem ReadsNames.echoed {names : List String} (lines : StartsLine tail)
    (h : ReadsNames place names next) (e : place.Echoes drops down tail place') :
    ∃ next', ReadsNames place' names next' ∧ next.Echoes drops down tail next' := by
  induction h generalizing place' with
  | done other => exact ⟨place', .done (e.peek?_ne lines rfl nofun other), e⟩
  | more hl hm _ ih =>
    obtain ⟨_, l', m', ms', rfl, hereL, hereM, behind⟩ := e.front_two
    obtain ⟨next', names, reached⟩ := ih behind
    exact ⟨next', .more (hereL.token_eq hl rfl) (hereM.token_eq hm rfl) names, reached⟩

theorem ReadsTag.echoed {tag : Option String} (lines : StartsLine tail)
    (h : ReadsTag place tag next) (e : place.Echoes drops down tail place') :
    ∃ next', ReadsTag place' tag next' ∧ next.Echoes drops down tail next' := by
  cases h with
  | absent none =>
    refine ⟨place', .absent ?_, e⟩
    cases found : place'.peek? with
    | none => rfl
    | some token =>
      rcases e.peek? lines with same | ⟨-, newline⟩
      · rw [same, found] at none
        exact token.without_tag?.symm.trans none
      · rw [newline token found]
        rfl
  | @present _ l ls quoted htag =>
    obtain ⟨_, m, ms, rfl, here, behind⟩ := e.front
    rw [here.token, Token.without_tag?] at htag
    exact ⟨_, .present htag, behind⟩

/-- What stands between the echoes of two places; the doc of a field can be any that differs from its
own in texts and places alike. -/
def Tree.Echoed (drops : Char → Bool) (down : Nat) (place next : Place) : Tree → Prop
  | .type t => ∃ u, Reads place (.type u) next ∧
      (Recast.below down).type t = (Recast.without drops).type u
  | .field f => ∀ doc,
      f.doc.map (Recast.below down).comment = doc.map (Recast.without drops).comment →
      ∃ g, Reads place (.field g) next ∧ g.doc = doc ∧
        (Recast.below down).field f = (Recast.without drops).field g
  | .fields fs => ∃ gs, Reads place (.fields gs) next ∧
      (Recast.below down).fields fs = (Recast.without drops).fields gs

/-- What stands between two places stands between their echoes. -/
theorem Reads.echoed {tree : Tree} (blank : ∀ c, drops c = true → isBlank c = true)
    (lines : StartsLine tail) (h : Reads place tree next)
    (e : place.Echoes drops down tail place') :
    ∃ next', next.Echoes drops down tail next' ∧ tree.Echoed drops down place' next' := by
  induction h generalizing place' with
  | name htoken base other =>
    obtain ⟨_, l', ls', rfl, here, behind⟩ := e.front
    obtain ⟨next', base', reached⟩ := base.echoed lines behind
    refine ⟨next', reached, _, .name (here.token_eq htoken rfl) base' ?_, ?_⟩
    · exact reached.peek?_ne lines rfl (by decide) other
    · rw [Recast.type_of_base base, Recast.type_of_base base]
  | «instance» htoken base bracket htaken =>
    obtain ⟨_, l', ls', rfl, here, behind⟩ := e.front
    obtain ⟨⟨last', rest'⟩, base', reached⟩ := base.echoed lines behind
    obtain ⟨_, n', ns', same, hereN, -⟩ := reached.front
    obtain ⟨arguments', left', found, echoed, next⟩ := reached.group htaken
    cases same
    refine ⟨_, next, _, .instance (here.token_eq htoken rfl) base' (hereN.token_eq bracket rfl)
      found, ?_⟩
    simp only [Recast.type, Recast.type_of_base base]
    exact congrArg (TypeExpr.instantiated _) echoed.text
  | pointer htoken _ ih =>
    obtain ⟨_, l', ls', rfl, here, behind⟩ := e.front
    obtain ⟨next', reached, u, reads, same⟩ := ih behind
    exact ⟨next', reached, _, .pointer (here.token_eq htoken rfl) reads, by
      simp only [Recast.type, same]⟩
  | slice htoken hm _ ih =>
    obtain ⟨_, l', m', ms', rfl, here, hereM, behind⟩ := e.front_two
    obtain ⟨next', reached, u, reads, same⟩ := ih behind
    exact ⟨next', reached, _, .slice (here.token_eq htoken rfl) (hereM.token_eq hm rfl) reads, by
      simp only [Recast.type, same]⟩
  | @array _ l m size ls t _ htoken sized htaken _ ih =>
    obtain ⟨_, l', rest', rfl, here, -, ms, split, echoed⟩ := e.front
    obtain ⟨size', left, found, echoedSize, echoedRest⟩ := echoed.takeLength htaken tail
    obtain rfl : rest' = ms ++ tail := split
    cases echoedRest with
    | @cons _ m' _ ls' hereM more =>
      have whole := takeLength_append found
      obtain ⟨next', reached, u, reads, same⟩ := ih (.behind hereM more)
      have sized' : size' ≠ [] := fun none => by
        subst none
        cases echoedSize
        exact sized rfl
      rw [whole] at found ⊢
      refine ⟨next', reached, _, .array (here.token_eq htoken rfl) sized' found reads, ?_⟩
      simp only [Recast.type, same]
      refine congrArg (TypeExpr.array · _) ?_
      show String.ofList (trim (spanText size)) =
        without drops (String.ofList (trim (spanText size')))
      rw [echoedSize.spanText, trim_filter blank, without, String.toList_ofList]
  | map htoken hm _ hn _ keys values =>
    obtain ⟨_, l', m', ms', rfl, here, hereM, behind⟩ := e.front_two
    obtain ⟨⟨last', rest'⟩, reached, k, readsKey, sameKey⟩ := keys behind
    obtain ⟨_, n', ns', split, hereN, afterKey⟩ := reached.front
    cases split
    obtain ⟨next', reachedEnd, v, readsValue, sameValue⟩ := values afterKey
    exact ⟨next', reachedEnd, _, .map (here.token_eq htoken rfl) (hereM.token_eq hm rfl) readsKey
      (hereN.token_eq hn rfl) readsValue, by simp only [Recast.type, sameKey, sameValue]⟩
  | chan htoken other _ ih =>
    obtain ⟨_, l', ls', rfl, here, behind⟩ := e.front
    obtain ⟨next', reached, u, reads, same⟩ := ih behind
    exact ⟨next', reached, _, .chan (here.token_eq htoken rfl)
      (behind.peek?_ne lines rfl (by decide) other) reads, by simp only [Recast.type, same]⟩
  | send htoken hm _ ih =>
    obtain ⟨_, l', m', ms', rfl, here, hereM, behind⟩ := e.front_two
    obtain ⟨next', reached, u, reads, same⟩ := ih behind
    exact ⟨next', reached, _, .send (here.token_eq htoken rfl) (hereM.token_eq hm rfl) reads, by
      simp only [Recast.type, same]⟩
  | receive htoken hm _ ih =>
    obtain ⟨_, l', m', ms', rfl, here, hereM, behind⟩ := e.front_two
    obtain ⟨next', reached, u, reads, same⟩ := ih behind
    exact ⟨next', reached, _, .receive (here.token_eq htoken rfl) (hereM.token_eq hm rfl) reads, by
      simp only [Recast.type, same]⟩
  | func htoken hm htaken ends =>
    obtain ⟨_, l', m', ms', _, rest', rfl, here, hereM, found, reached⟩ := e.word_group htaken
    exact ⟨_, reached, _, .func (here.token_eq htoken rfl) (hereM.token_eq hm rfl) found
      ((reached.startsResults lines).trans ends), congrArg TypeExpr.func (e.textTo reached)⟩
  | funcMany htoken hm htaken hn hmany =>
    obtain ⟨_, l', m', ms', _, rest', rfl, here, hereM, found, mid⟩ := e.word_group htaken
    obtain ⟨_, n', ns', split, hereN, -⟩ := mid.front
    obtain ⟨results', left', foundMany, -, reached⟩ := mid.group hmany
    cases split
    exact ⟨_, reached, _, .funcMany (here.token_eq htoken rfl) (hereM.token_eq hm rfl) found
      (hereN.token_eq hn rfl) foundMany, congrArg TypeExpr.func (e.textTo reached)⟩
  | funcOne htoken hm htaken starts _ ih =>
    obtain ⟨_, l', m', ms', _, rest', rfl, here, hereM, found, mid⟩ := e.word_group htaken
    obtain ⟨_, n', ns', split, hereN, -⟩ := mid.front
    obtain ⟨next', reached, u, reads, -⟩ := ih mid
    cases split
    rw [hereN.token, Token.without_startsResult] at starts
    exact ⟨next', reached, _, .funcOne (here.token_eq htoken rfl) (hereM.token_eq hm rfl) found
      starts reads, congrArg TypeExpr.func (e.textTo reached)⟩
  | interface htoken hm htaken =>
    obtain ⟨_, l', m', ms', _, rest', rfl, here, hereM, found, reached⟩ := e.word_group htaken
    exact ⟨_, reached, _, .interface (here.token_eq htoken rfl) (hereM.token_eq hm rfl) found,
      congrArg TypeExpr.interface (e.textTo reached)⟩
  | struct htoken hm _ ih =>
    obtain ⟨_, l', m', ms', rfl, here, hereM, behind⟩ := e.front_two
    obtain ⟨next', reached, u, reads, same⟩ := ih behind
    exact ⟨next', reached, _, .struct (here.token_eq htoken rfl) (hereM.token_eq hm rfl) reads, by
      simp only [Recast.type, same]⟩
  | paren htoken _ hn ih =>
    obtain ⟨_, l', ls', rfl, here, behind⟩ := e.front
    obtain ⟨⟨last', rest'⟩, reached, u, reads, same⟩ := ih behind
    obtain ⟨_, n', ns', split, hereN, afterType⟩ := reached.front
    cases split
    exact ⟨_, afterType, u, .paren (here.token_eq htoken rfl) reads (hereN.token_eq hn rfl), same⟩
  | @embedded _ l ls t name tag doc mid next first _ hname htag ih =>
    obtain ⟨mid', middle, u, reads, same⟩ := ih e
    obtain ⟨next', readsTag, reached⟩ := htag.echoed lines middle
    obtain ⟨previous', l', ls', rfl, here, behind⟩ := e.front
    have named : embeddedName? u = some name := by
      rw [← (Recast.without drops).type_named? u, ← same, Recast.type_named?]
      exact hname
    have starts : l'.token = .star ∨ ∃ word, l'.token = .identifier word ∧
        endsEmbedded (Place.mk previous' (l' :: ls')).peekSecond? = true := by
      rcases first with star | ⟨word, hword, ends⟩
      · exact .inl (here.token_eq star rfl)
      · exact .inr ⟨word, here.token_eq hword rfl, (behind.endsEmbedded lines).trans ends⟩
    have inline : l.token ≠ .newline := by
      intro newline
      rcases first with star | ⟨word, hword, -⟩
      · cases newline.symm.trans star
      · cases newline.symm.trans hword
    exact ⟨next', reached, fun doc' docs => ⟨_, .embedded starts reads named readsTag, rfl,
      Recast.field_eq same docs (here.position inline)⟩⟩
  | @named _ l ls word names t tag doc mid behind next htoken ends hnames _ htag ih =>
    obtain ⟨previous', l', ls', rfl, here, afterName⟩ := e.front
    obtain ⟨mid', readsNames, middle⟩ := hnames.echoed lines afterName
    obtain ⟨behind', afterType, u, reads, same⟩ := ih middle
    obtain ⟨next', readsTag, reached⟩ := htag.echoed lines afterType
    have inline : l.token ≠ .newline := fun newline => by cases newline.symm.trans htoken
    exact ⟨next', reached, fun doc' docs => ⟨_, .named (here.token_eq htoken rfl)
      ((afterName.endsEmbedded lines).trans ends) readsNames reads readsTag, rfl,
      Recast.field_eq same docs (here.position inline)⟩⟩
  | closed hdoc hbrace =>
    obtain ⟨doc', ⟨last', rest'⟩, hdoc', -, mid⟩ :=
      leadingComments_echoed e hdoc (.inl (List.cons_ne_nil _ _))
    obtain ⟨_, l', ls', split, here, behind⟩ := mid.front
    cases split
    exact ⟨_, behind, [], .closed hdoc' (here.token_eq hbrace rfl), rfl⟩
  | @more place mid _ _ _ _ _ hdoc hfirst htrail hend _ ihFirst ihFields =>
    have filled : mid.rest ≠ [] := fun none => by
      have taken := hfirst.takes.length_lt
      rw [none] at taken
      exact Nat.not_lt_zero _ taken
    obtain ⟨doc', mid', hdoc', docs, mid⟩ := leadingComments_echoed e hdoc (.inl filled)
    obtain ⟨behind', afterFirst, field⟩ := ihFirst mid
    obtain ⟨g, reads, rfl, same⟩ := field doc' docs
    obtain ⟨last', trailing, afterTrail⟩ := trailingComment_echoed lines afterFirst htrail
    obtain ⟨next', reached, gs, readsFields, sameFields⟩ := ihFields afterTrail
    refine ⟨next', reached, g :: gs, .more hdoc' reads trailing
      (endOfItem_echoed lines afterTrail hend) readsFields, ?_⟩
    simp only [Recast.fields, same, sameFields]

end

end Go
end FieldRules
