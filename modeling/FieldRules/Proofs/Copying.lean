/-
Types that are read again from copies of their lexemes.

What is read between two places depends on the tokens there, on the lines of the
comments, and on the token that follows.  So the same type is read from a copy of
the lexemes that stands elsewhere (`Reads.copied`), as long as the token behind it
does not go on with the type.  `Carries` says this of one piece, and pieces are put
one behind the other by `Carries.append`.
-/
import FieldRules.Proofs.Comments
import FieldRules.Proofs.Relexing
import Mathlib.Logic.Relation

namespace FieldRules
namespace Go

open Text
open Go.Parser

/-- The first token. -/
def front (ls : List Lexeme) : Option Token := ls.head?.map (·.token)

theorem front_cons (l : Lexeme) (ls : List Lexeme) : front (l :: ls) = some l.token := rfl

/-- Whether a token does not belong to a type in front of it. -/
def endsType (token : Option Token) : Bool := !startsResults token && token != some .dot

section

variable {down : Int} {ls ms rest rest' taken taken' : List Lexeme} {l : Lexeme}

theorem Copies.front_append (h : Copies down ls ms) (follows : front rest' = front rest) :
    front (ms ++ rest') = front (ls ++ rest) := by
  cases h with
  | nil => exact follows
  | cons copy => exact congrArg some copy.token

theorem Copies.front_of_ne_nil (h : Copies down ls ms) (filled : ls ≠ [])
    (rest' rest : List Lexeme) : front (ms ++ rest') = front (ls ++ rest) := by
  cases h with
  | nil => exact absurd rfl filled
  | cons copy => exact congrArg some copy.token

theorem Copies.ne_nil (h : Copies down ls ms) (filled : ls ≠ []) : ms ≠ [] := by
  cases h with
  | nil => exact absurd rfl filled
  | cons => exact List.cons_ne_nil _ _

theorem Copies.last (h : Copies down ls ms) (last : ls.getLast? = some l) :
    ∃ m, ms.getLast? = some m ∧ l.IsCopy down m := by
  obtain ⟨inner, rfl⟩ := List.getLast?_eq_some_iff.1 last
  obtain ⟨inner', end', rfl, -, more⟩ := h.of_append
  obtain ⟨m, nothing, rfl, copy, more⟩ := more.of_cons
  cases more
  exact ⟨m, List.getLast?_concat, copy⟩

theorem Copies.all {p : Token → Bool} {value : Bool} (h : Copies down ls ms)
    (all : ∀ l ∈ ls, p l.token = value) : ∀ m ∈ ms, p m.token = value := by
  induction h with
  | nil => exact fun m hm => nomatch hm
  | cons copy _ _ ih =>
    obtain ⟨first, more⟩ := List.forall_mem_cons.1 all
    exact List.forall_mem_cons.2 ⟨by rw [copy.token]; exact first, ih more⟩

/-! ### Brackets -/

theorem takeGroup_copies {depth : Nat} (h : takeGroup depth ls = some (taken, rest))
    (copies : Copies down taken taken') (rest' : List Lexeme) :
    takeGroup depth (taken' ++ rest') = some (taken', rest') := by
  induction ls generalizing depth taken taken' with
  | nil => cases h
  | cons l ls ih =>
    unfold takeGroup at h
    split at h
    · next closes =>
      cases h
      obtain ⟨m, more, rfl, copy, nothing⟩ := copies.of_cons
      cases nothing
      rw [← copy.token] at closes
      exact if_pos closes
    · next other =>
      obtain ⟨⟨inner, left⟩, hinner, hpair⟩ := Option.map_eq_some_iff.1 h
      cases hpair
      obtain ⟨m, more, rfl, copy, copies⟩ := copies.of_cons
      rw [← copy.token] at other hinner
      rw [List.cons_append, takeGroup, if_neg other]
      exact Option.map_eq_some_iff.2 ⟨_, ih hinner copies, rfl⟩

theorem takeGroup_front {depth : Nat} (h : takeGroup depth (l :: ls) = some (taken, rest)) :
    ∃ inner, taken = l :: inner ∧ ls = inner ++ rest := by
  have split := takeGroup_append h
  obtain ⟨before, last, rfl, -⟩ := takeGroup_closed h
  cases before with
  | nil =>
    cases split
    exact ⟨[], rfl, rfl⟩
  | cons m before =>
    cases split
    exact ⟨before ++ [last], rfl, rfl⟩

end

/-- Tokens before the bracket that ends the length of an array. -/
def IsLength : Nat → List Token → Prop
  | depth, [] => depth = 0
  | depth, token :: tokens =>
    ¬ (token = .rightBracket ∧ depth = 0) ∧
      IsLength (if token = .leftBracket ∨ token = .leftParen then depth + 1
        else if token = .rightBracket ∨ token = .rightParen then depth - 1 else depth) tokens

theorem takeLength_iff {depth : Nat} {size ls : List Lexeme} {m : Lexeme} :
    takeLength depth (size ++ m :: ls) = some (size, m :: ls) ↔
      IsLength depth (size.map (·.token)) ∧ m.token = .rightBracket := by
  induction size generalizing depth with
  | nil =>
    rw [List.nil_append, takeLength]
    split
    · next closes => exact ⟨fun _ => ⟨closes.2, closes.1⟩, fun _ => rfl⟩
    · next other =>
      refine ⟨fun h => ?_, fun h => absurd ⟨h.2, h.1⟩ other⟩
      obtain ⟨_, _, hpair⟩ := Option.map_eq_some_iff.1 h
      cases hpair
  | cons l size ih =>
    rw [List.cons_append, takeLength, List.map_cons, IsLength, and_assoc, ← ih]
    split
    · next closes =>
      refine ⟨fun h => ?_, fun h => absurd closes h.1⟩
      cases h
    · next other =>
      rw [Option.map_eq_some_iff]
      constructor
      · rintro ⟨⟨inner, left⟩, hinner, hpair⟩
        cases hpair
        exact ⟨other, hinner⟩
      · exact fun h => ⟨_, h.2, rfl⟩

/-- Newlines do not count. -/
theorem isLength_filter {depth : Nat} {tokens : List Token} :
    IsLength depth (tokens.filter (· != .newline)) ↔ IsLength depth tokens := by
  induction tokens generalizing depth with
  | nil => rfl
  | cons token tokens ih =>
    by_cases newline : token = .newline
    · subst newline
      rw [List.filter_cons_of_neg (by decide), ih, IsLength]
      simp
    · have kept : (token != .newline) = true := bne_iff_ne.2 newline
      simp only [List.filter_cons, kept, if_true, IsLength, ih]

/-! ### Comments -/

namespace Parser

variable {place next : Place}

/-- Copies are on the same line if the lexemes are. -/
theorem trails_copies {down : Int} {p p' c c' : Lexeme} {ls ls' : List Lexeme}
    (hp : p.IsCopy down p') (hc : c.IsCopy down c') :
    Trails ⟨some p', ls'⟩ c' ↔ Trails ⟨some p, ls⟩ c := by
  have lines : p'.position.line = c'.position.line ↔ p.position.line = c.position.line := by
    have := hp.line
    have := hc.line
    omega
  unfold Trails Place.previousLine?
  simp only [hp.token, hc.token]
  split
  · exact ⟨nofun, nofun⟩
  · rw [Option.some_inj, Option.some_inj, lines]

theorem trailingComment_copied (h : trailingComment place = .ok ((), next)) {p : Lexeme}
    (previous : place.previous = some p) {taken rest : List Lexeme} (filled : taken ≠ [])
    (split : next.rest = taken ++ rest) :
    ∃ trail, place.rest = trail ++ next.rest ∧ ∀ (down : Int) (trail' taken' rest' : List Lexeme)
      (p' : Lexeme), Copies down trail trail' → Copies down taken taken' → p.IsCopy down p' →
      ∃ last, trailingComment ⟨some p', trail' ++ (taken' ++ rest')⟩ =
        .ok ((), ⟨last, taken' ++ rest'⟩) := by
  obtain ⟨last, ls⟩ := place
  cases previous
  rcases trailingComment_ok h with ⟨c, left, rfl, trails, rfl⟩ | ⟨rfl, none⟩
  · refine ⟨[c], rfl, fun down trail' taken' rest' p' copies _ copy => ?_⟩
    obtain ⟨c', nothing, rfl, hc', copies⟩ := copies.of_cons
    cases copies
    exact ⟨some c', trailingComment_run ((trails_copies copy hc').2 trails)⟩
  · refine ⟨[], rfl, fun down trail' taken' rest' p' copies copiesTaken copy => ?_⟩
    cases copies
    refine ⟨some p', trailingComment_none fun c' hc' trails => ?_⟩
    obtain ⟨c, inner, rfl⟩ := List.exists_cons_of_ne_nil filled
    obtain ⟨d, inner', rfl, hd, -⟩ := copiesTaken.of_cons
    cases hc'
    exact none c (by rw [show ls = c :: inner ++ rest from split]; rfl)
      ((trails_copies copy hd).1 trails)

theorem endOfItem_front {wanted : Wanted} (h : endOfItem wanted place = .ok ((), place))
    (same : front next.rest = front place.rest) : endOfItem wanted next = .ok ((), next) := by
  obtain ⟨token, mid, hpeek, hend⟩ := bind_ok h
  cases hpeek
  refine bind_run peek_run ?_
  rw [show next.peek? = place.peek? from same]
  cases found : place.peek? with
  | none => rfl
  | some token =>
    rw [found] at hend
    simp only at hend ⊢
    split at hend
    · next ends => rw [if_pos ends]; rfl
    · exact (missing_ok hend).elim

end Parser

/-! ### Reading a copy -/

theorem embeddedName?_same {t u : TypeExpr} (h : t.same u = true) :
    embeddedName? u = embeddedName? t := by
  match t, u with
  | .named m, .named n =>
    rw [TypeExpr.same, beq_iff_eq] at h
    rw [h]
  | .qualified p m, .qualified q n =>
    rw [TypeExpr.same, Bool.and_eq_true, beq_iff_eq, beq_iff_eq] at h
    rw [embeddedName?, embeddedName?, h.2]
  | .instantiated a x, .instantiated b y =>
    rw [TypeExpr.same, Bool.and_eq_true] at h
    exact embeddedName?_same (t := a) (u := b) h.1
  | .pointer a, .pointer b =>
    rw [TypeExpr.same] at h
    exact embeddedName?_same (t := a) (u := b) h
  | .slice _, .slice _ => rfl
  | .array .., .array .. => rfl
  | .map .., .map .. => rfl
  | .chan .., .chan .. => rfl
  | .struct .., .struct .. => rfl
  | .func .., .func .. => rfl
  | .interface .., .interface .. => rfl

theorem Place.textTo_eq {place next : Place} {taken : List Lexeme}
    (split : place.rest = taken ++ next.rest) :
    place.textTo next = String.ofList (spanText taken) := by
  unfold textTo takenSince
  rw [split, List.length_append, Nat.add_sub_cancel, List.take_left]

theorem textTo_copies {down : Int} {ls rest taken taken' : List Lexeme} (split : ls = taken ++ rest)
    (copies : Copies down taken taken') (p q p' q' : Option Lexeme) (rest' : List Lexeme) :
    Place.textTo ⟨p', taken' ++ rest'⟩ ⟨q', rest'⟩ = Place.textTo ⟨p, ls⟩ ⟨q, rest⟩ := by
  have here : Place.textTo ⟨p, ls⟩ ⟨q, rest⟩ = _ := Place.textTo_eq split
  have there : Place.textTo ⟨p', taken' ++ rest'⟩ ⟨q', rest'⟩ = _ := Place.textTo_eq rfl
  rw [here, there, copies.spanText_eq]

/-- What stands between two places stands between others, too, where what was taken is copied and a
token follows that may. -/
def Carries (ls rest : List Lexeme) (follows : Option Token → Prop)
    (stands : Place → Place → Prop) : Prop :=
  ∃ taken, ls = taken ++ rest ∧ ∀ (down : Int) (taken' : List Lexeme) (previous : Option Lexeme)
    (rest' : List Lexeme), Copies down taken taken' → follows (front rest') →
    ∃ last, stands ⟨previous, taken' ++ rest'⟩ ⟨last, rest'⟩

section

variable {ls mid rest : List Lexeme} {l : Lexeme} {follows early : Option Token → Prop}
  {stands first second outer : Place → Place → Prop}

/-- A copy of a lexeme stands between two places. -/
inductive StandsLexeme (l : Lexeme) : Place → Place → Prop where
  | mk {previous : Option Lexeme} {l' : Lexeme} {ls' : List Lexeme} :
      l'.token = l.token → StandsLexeme l ⟨previous, l' :: ls'⟩ ⟨some l', ls'⟩

/-- A copy of a group in brackets stands between two places; `l` is the first of the brackets. -/
inductive StandsGroup (l : Lexeme) (group : List Lexeme) : Place → Place → Prop where
  | mk {previous : Option Lexeme} {l' : Lexeme} {ls' group' rest' : List Lexeme} :
      l'.token = l.token → takeGroup 0 (l' :: ls') = some (group', rest') →
      spanText group' = spanText group →
      StandsGroup l group ⟨previous, l' :: ls'⟩ ⟨group'.getLast?, rest'⟩

/-- A copy of the length of an array, with the bracket behind it, stands between two places. -/
inductive StandsLength (size : List Lexeme) : Place → Place → Prop where
  | mk {previous : Option Lexeme} {m : Lexeme} {size' ls' : List Lexeme} :
      size' ≠ [] → takeLength 0 (size' ++ m :: ls') = some (size', m :: ls') →
      spanText size' = spanText size →
      StandsLength size ⟨previous, size' ++ m :: ls'⟩ ⟨some m, ls'⟩

/-- Where any token may follow, those of a sort may. -/
theorem Carries.anywhere (h : Carries ls rest (fun _ => True) stands) :
    Carries ls rest follows stands := by
  obtain ⟨taken, split, found⟩ := h
  exact ⟨taken, split, fun down taken' previous rest' copies _ =>
    found down taken' previous rest' copies trivial⟩

theorem Carries.imp (h : Carries ls rest follows stands)
    (more : ∀ place next, follows (front next.rest) → stands place next → outer place next) :
    Carries ls rest follows outer := by
  obtain ⟨taken, split, found⟩ := h
  refine ⟨taken, split, fun down taken' previous rest' copies allowed => ?_⟩
  obtain ⟨last, here⟩ := found down taken' previous rest' copies allowed
  exact ⟨last, more _ _ allowed here⟩

/-- Where a token is taken, or the same token follows, the front of a copy is the same. -/
theorem Carries.withFront (h : Carries ls rest follows stands)
    (same : ls ≠ rest ∨ ∀ token, follows token → token = front rest) :
    Carries ls rest follows fun place next => stands place next ∧ front place.rest = front ls := by
  obtain ⟨taken, rfl, found⟩ := h
  refine ⟨taken, rfl, fun down taken' previous rest' copies allowed => ?_⟩
  obtain ⟨last, here⟩ := found down taken' previous rest' copies allowed
  refine ⟨last, here, ?_⟩
  rcases same with filled | follows
  · exact copies.front_of_ne_nil (fun none => filled (by rw [none]; rfl)) rest' rest
  · exact copies.front_append (follows _ allowed)

/-- What is taken is written as it was. -/
theorem Carries.withText (h : Carries ls rest follows stands) :
    Carries ls rest follows fun place next =>
      stands place next ∧ ∀ p q, place.textTo next = Place.textTo ⟨p, ls⟩ ⟨q, rest⟩ := by
  obtain ⟨taken, split, found⟩ := h
  refine ⟨taken, split, fun down taken' previous rest' copies allowed => ?_⟩
  obtain ⟨last, here⟩ := found down taken' previous rest' copies allowed
  exact ⟨last, here, fun p q => textTo_copies split copies p q _ _ _⟩

/-- One piece behind another.  The token between them has to stay the same, as the first piece may
depend on it. -/
theorem Carries.append (h : Carries ls mid early first) (here : early (front mid))
    (h' : Carries mid rest follows second)
    (same : mid ≠ rest ∨ ∀ token, follows token → token = front rest) :
    Carries ls rest follows (Relation.Comp first second) := by
  obtain ⟨before, rfl, foundFirst⟩ := h
  obtain ⟨behind, rfl, foundSecond⟩ := h'.withFront same
  refine ⟨before ++ behind, (List.append_assoc _ _ _).symm, ?_⟩
  intro down taken' previous rest' copies allowed
  obtain ⟨before', behind', rfl, copiesBefore, copiesBehind⟩ := copies.of_append
  obtain ⟨-, -, token⟩ := foundSecond down behind' none rest' copiesBehind allowed
  obtain ⟨middle, stands⟩ := foundFirst down before' previous (behind' ++ rest') copiesBefore
    (show early (front (behind' ++ rest')) from token ▸ here)
  obtain ⟨last, stands', -⟩ := foundSecond down behind' middle rest' copiesBehind allowed
  rw [List.append_assoc]
  exact ⟨last, _, stands, stands'⟩

/-- What stands without a lexeme depends on the token behind it only. -/
theorem carries_nothing (h : ∀ {place}, follows (front place.rest) → stands place place) :
    Carries ls ls follows stands := by
  refine ⟨[], rfl, fun down taken' previous rest' copies allowed => ⟨previous, ?_⟩⟩
  cases copies
  exact h allowed

theorem carries_lexeme (l : Lexeme) (ls : List Lexeme) :
    Carries (l :: ls) ls (fun _ => True) (StandsLexeme l) := by
  refine ⟨[l], rfl, fun down taken' previous rest' copies _ => ?_⟩
  obtain ⟨l', nothing, rfl, hl', copies⟩ := copies.of_cons
  cases copies
  exact ⟨some l', .mk hl'.token⟩

/-- A piece behind a lexeme. -/
theorem Carries.behind (h : Carries ls rest follows stands) :
    Carries (l :: ls) rest follows (Relation.Comp (StandsLexeme l) stands) := by
  obtain ⟨taken, split, found⟩ := h
  refine ⟨l :: taken, congrArg (l :: ·) split, fun down taken' previous rest' copies allowed => ?_⟩
  obtain ⟨l', more, rfl, hl', copies⟩ := copies.of_cons
  obtain ⟨last, here⟩ := found down more (some l') rest' copies allowed
  exact ⟨last, _, .mk hl'.token, here⟩

/-- The first two tokens of a copy. -/
theorem Carries.withSecond (h : Carries (l :: ls) rest (· = front rest) stands)
    (filled : l :: ls ≠ rest) :
    Carries (l :: ls) rest (· = front rest) fun place next => stands place next ∧
      ∃ previous l' ls', place = ⟨previous, l' :: ls'⟩ ∧ l'.token = l.token ∧
        front ls' = front ls := by
  obtain ⟨taken, split, found⟩ := h
  obtain ⟨m, inner, rfl⟩ := List.exists_cons_of_ne_nil
    (show taken ≠ [] from fun none => filled (by rw [split, none]; rfl))
  cases split
  refine ⟨l :: inner, rfl, fun down taken' previous rest' copies allowed => ?_⟩
  obtain ⟨last, here⟩ := found down taken' previous rest' copies allowed
  obtain ⟨l', inner', rfl, hl', copies⟩ := copies.of_cons
  exact ⟨last, here, previous, l', _, rfl, hl'.token, copies.front_append allowed⟩

theorem carries_group {group : List Lexeme} (h : takeGroup 0 (l :: ls) = some (group, rest)) :
    Carries (l :: ls) rest (fun _ => True) (StandsGroup l group) := by
  refine ⟨group, takeGroup_append h, fun down group' previous rest' copies _ => ?_⟩
  have taken := takeGroup_copies h copies rest'
  have text := copies.spanText_eq
  obtain ⟨inner, rfl, -⟩ := takeGroup_front h
  obtain ⟨l', inner', rfl, hl', -⟩ := copies.of_cons
  exact ⟨_, .mk hl'.token taken text⟩

theorem carries_length {size : List Lexeme} {m : Lexeme} (sized : size ≠ [])
    (h : takeLength 0 (size ++ m :: ls) = some (size, m :: ls)) :
    Carries (size ++ m :: ls) ls (fun _ => True) (StandsLength size) := by
  refine ⟨size ++ [m], by simp, fun down taken' previous rest' copies _ => ?_⟩
  obtain ⟨size', more, rfl, copiesSize, copies⟩ := copies.of_append
  obtain ⟨m', nothing, rfl, hm', copies⟩ := copies.of_cons
  cases copies
  obtain ⟨isLength, hm⟩ := takeLength_iff.1 h
  rw [← copiesSize.tokens] at isLength
  rw [List.append_assoc]
  exact ⟨some m', .mk (copiesSize.ne_nil sized)
    (takeLength_iff.2 ⟨isLength, hm'.token.trans hm⟩) copiesSize.spanText_eq⟩

theorem carries_leadingComments {place next : Place} {doc : List Comment}
    (h : leadingComments place = .ok (doc, next)) :
    Carries place.rest next.rest (· = front next.rest) fun place next =>
      ∃ doc, leadingComments place = .ok (doc, next) := by
  obtain ⟨lead, split, above, stops⟩ := leadingComments_above h
  refine ⟨lead, split, fun down lead' previous rest' copies follows => ?_⟩
  have stops' : ∀ l ∈ rest'.head?, isAbove l.token = false := by
    intro l hl
    have found : front next.rest = some l.token := by
      rw [← follows, front, Option.mem_def.1 hl]
      rfl
    obtain ⟨m, hm, same⟩ := Option.map_eq_some_iff.1 found
    exact same ▸ stops m hm
  obtain ⟨doc, last, hlead⟩ := leadingComments_run previous (copies.all above) stops'
  exact ⟨last, doc, hlead⟩

end

/-- The token behind a type may be the same as before, or one that belongs to no type. -/
def FollowsType (before after : Option Token) : Prop := after = before ∨ endsType after = true

/-- Which token may stand behind a tree, when one did. -/
def Tree.Follows (before after : Option Token) : Tree → Prop
  | .type _ => FollowsType before after
  | .field _ => after = before
  | .fields _ => True

/-- The same tree stands between two places, whatever the comments and positions. -/
def Tree.Stands (place next : Place) : Tree → Prop
  | .type t => ∃ u, Reads place (.type u) next ∧ t.same u = true
  | .field f => ∀ doc, ∃ g, Reads place (.field g) next ∧ g.doc = doc ∧
      TypeExpr.sameField f g = true
  | .fields fs => ∃ gs, Reads place (.fields gs) next ∧ TypeExpr.sameFields fs gs = true

section

variable {place next mid : Place} {word : String}

theorem FollowsType.not {before after : Option Token} (h : FollowsType before after)
    {token : Token} (other : before ≠ some token) (belongs : endsType (some token) = false) :
    after ≠ some token := by
  rintro rfl
  rcases h with same | ends
  · exact other same.symm
  · rw [belongs] at ends
    cases ends

theorem ReadsBase.copied {base : TypeExpr} (h : ReadsBase word place base next) :
    Carries place.rest next.rest (FollowsType (front next.rest))
      fun place next => ReadsBase word place base next := by
  cases h with
  | plain other => exact carries_nothing fun follows => .plain (follows.not other rfl)
  | dotted hl hm =>
    refine (carries_lexeme _ _).anywhere.behind.imp ?_
    rintro _ _ - ⟨_, ⟨dot⟩, ⟨name⟩⟩
    exact .dotted (dot.trans hl) (name.trans hm)

theorem ReadsBase.same_self {base : TypeExpr} (h : ReadsBase word place base next) :
    base.same base = true := by
  cases h <;> simp [TypeExpr.same]

theorem ReadsNames.copied {names : List String} (h : ReadsNames place names next) :
    Carries place.rest next.rest (· = front next.rest)
      fun place next => ReadsNames place names next := by
  induction h with
  | done other =>
    exact carries_nothing fun follows => .done fun comma => other (follows.symm.trans comma)
  | more hl hm _ ih =>
    refine ih.behind.behind.imp ?_
    rintro _ _ - ⟨_, ⟨comma⟩, _, ⟨name⟩, reads⟩
    exact .more (comma.trans hl) (name.trans hm) reads

theorem ReadsTag.copied {tag : Option String} (h : ReadsTag place tag next) :
    Carries place.rest next.rest (· = front next.rest)
      fun place next => ReadsTag place tag next := by
  cases h with
  | absent other =>
    refine carries_nothing fun follows => .absent ?_
    exact (congrArg (Option.bind · Token.tag?) follows).trans other
  | present htag =>
    refine (carries_lexeme _ _).anywhere.imp ?_
    rintro _ _ - ⟨token⟩
    exact .present (token ▸ htag)

end

theorem Takes.rest_ne {ls : List Lexeme} {next : Place} (h : Takes ls next) : ls ≠ next.rest := by
  rintro rfl
  exact Nat.lt_irrefl _ h.length_lt

theorem Reads.last {place next : Place} {tree : Tree} (h : Reads place tree next)
    {taken : List Lexeme} (split : place.rest = taken ++ next.rest) :
    ∃ p, next.previous = some p ∧ taken.getLast? = some p := by
  obtain ⟨before, p, more, previous, -⟩ := h.takes
  refine ⟨p, previous, ?_⟩
  have same : taken ++ next.rest = (before ++ [p]) ++ next.rest := by
    rw [← split, more, List.append_assoc]
    rfl
  rw [List.append_cancel_right same, List.getLast?_concat]

/-- A field, the comment that trails it and what stands behind.  Whether a comment trails a field
depends on the lines of the two, so these are copied together. -/
theorem Reads.trailed_copied {mid behind last : Place} {rest : List Lexeme} {first : Field}
    {follows : Option Token → Prop} {stands : Place → Place → Prop}
    (hfirst : Reads mid (.field first) behind)
    (copied : Carries mid.rest behind.rest (· = front behind.rest)
      fun place next => Tree.Stands place next (.field first))
    (htrail : trailingComment behind = .ok ((), last))
    (more : Carries last.rest rest follows stands) (filled : last.rest ≠ rest) :
    Carries mid.rest rest follows fun place next => ∀ doc, ∃ g between last',
      Reads place (.field g) between ∧ g.doc = doc ∧ TypeExpr.sameField first g = true ∧
      trailingComment between = .ok ((), last') ∧ front last'.rest = front last.rest ∧
      stands last' next := by
  obtain ⟨takenFirst, splitFirst, foundFirst⟩ := copied
  obtain ⟨takenMore, splitMore, foundMore⟩ := more
  have filled : takenMore ≠ [] := fun none => filled (by rw [splitMore, none]; rfl)
  obtain ⟨p, hp, lastFirst⟩ := hfirst.last splitFirst
  obtain ⟨trail, splitTrail, foundTrail⟩ := trailingComment_copied htrail hp filled splitMore
  refine ⟨takenFirst ++ (trail ++ takenMore), ?_, ?_⟩
  · rw [splitFirst, splitTrail, splitMore]
    simp
  intro down taken' previous rest' copies allowed
  obtain ⟨first', more, rfl, copiesFirst, copies⟩ := copies.of_append
  obtain ⟨trail', more', rfl, copiesTrail, copiesMore⟩ := copies.of_append
  have frontMore : front (more' ++ rest') = front last.rest := by
    rw [splitMore]
    exact copiesMore.front_of_ne_nil filled _ _
  have frontTrail : front (trail' ++ (more' ++ rest')) = front behind.rest := by
    rw [splitTrail]
    exact copiesTrail.front_append frontMore
  obtain ⟨between, found⟩ := foundFirst down first' previous _ copiesFirst frontTrail
  -- The copy of the field ends with the copy of its last lexeme.
  obtain ⟨p', hp', copy⟩ := copiesFirst.last lastFirst
  obtain ⟨g₀, reads₀, -⟩ := found []
  obtain ⟨q, rfl, last'⟩ := reads₀.last rfl
  cases hp'.symm.trans last'
  obtain ⟨lastTrail, trails⟩ :=
    foundTrail down trail' more' rest' p' copiesTrail copiesMore copy
  obtain ⟨lastMore, here⟩ := foundMore down more' lastTrail rest' copiesMore allowed
  simp only [List.append_assoc]
  refine ⟨lastMore, fun doc => ?_⟩
  obtain ⟨g, reads, ofDoc, same⟩ := found doc
  exact ⟨g, _, _, reads, ofDoc, same, trails, frontMore, here⟩

/-- What is read, is read again from a copy. -/
theorem Reads.copied {place next : Place} {tree : Tree} (h : Reads place tree next) :
    Carries place.rest next.rest (tree.Follows (front next.rest))
      fun place next => tree.Stands place next := by
  induction h with
  | name htoken base other =>
    refine base.copied.behind.imp ?_
    rintro _ _ follows ⟨_, ⟨token⟩, base'⟩
    exact ⟨_, .name (token.trans htoken) base' (follows.not other rfl), base.same_self⟩
  | «instance» htoken base bracket htaken =>
    have filled := (takes_group htaken).rest_ne
    have pieces := base.copied.append (.inl rfl) (carries_group htaken) (.inl filled)
    refine pieces.anywhere.behind.imp ?_
    rintro _ _ - ⟨_, ⟨token⟩, _, base', ⟨hn, taken, text⟩⟩
    refine ⟨_, .instance (token.trans htoken) base' (hn.trans bracket) taken, ?_⟩
    simp [TypeExpr.same, base.same_self, text]
  | pointer htoken _ ih =>
    refine ih.behind.imp ?_
    rintro _ _ - ⟨_, ⟨token⟩, u, reads, same⟩
    exact ⟨.pointer u, .pointer (token.trans htoken) reads, same⟩
  | slice htoken hm _ ih =>
    refine ih.behind.behind.imp ?_
    rintro _ _ - ⟨_, ⟨token⟩, _, ⟨second⟩, u, reads, same⟩
    exact ⟨.slice u, .slice (token.trans htoken) (second.trans hm) reads, same⟩
  | array htoken sized htaken hreads ih =>
    have size := carries_length sized htaken
    refine (size.append trivial ih (.inl hreads.takes.rest_ne)).behind.imp ?_
    rintro _ _ - ⟨_, ⟨token⟩, _, ⟨sized', taken, text⟩, u, reads, same⟩
    refine ⟨_, .array (token.trans htoken) sized' taken reads, ?_⟩
    simp [TypeExpr.same, text, same]
  | map htoken hm _ hn hvalue keys values =>
    have closed := keys.append (.inl rfl) values.behind (.inl hvalue.takes.cons.rest_ne)
    refine closed.behind.behind.imp ?_
    rintro _ _ - ⟨_, ⟨token⟩, _, ⟨second⟩, _, ⟨k, readsKey, sameKey⟩, _, ⟨third⟩, v, readsValue,
      sameValue⟩
    refine ⟨_, .map (token.trans htoken) (second.trans hm) readsKey (third.trans hn) readsValue, ?_⟩
    simp [TypeExpr.same, sameKey, sameValue]
  | chan htoken other hreads ih =>
    refine (ih.withFront (.inl hreads.takes.rest_ne)).behind.imp ?_
    rintro _ _ - ⟨_, ⟨token⟩, ⟨u, reads, same⟩, front⟩
    have other' := fun arrow => other (front.symm.trans arrow)
    refine ⟨.chan .both u, .chan (token.trans htoken) other' reads, ?_⟩
    simp [TypeExpr.same, same]
  | send htoken hm _ ih =>
    refine ih.behind.behind.imp ?_
    rintro _ _ - ⟨_, ⟨token⟩, _, ⟨second⟩, u, reads, same⟩
    refine ⟨.chan .send u, .send (token.trans htoken) (second.trans hm) reads, ?_⟩
    simp [TypeExpr.same, same]
  | receive htoken hm _ ih =>
    refine ih.behind.behind.imp ?_
    rintro _ _ - ⟨_, ⟨token⟩, _, ⟨second⟩, u, reads, same⟩
    refine ⟨.chan .receive u, .receive (token.trans htoken) (second.trans hm) reads, ?_⟩
    simp [TypeExpr.same, same]
  | func htoken hm htaken ends =>
    refine (carries_group htaken).anywhere.behind.withText.imp ?_
    rintro _ _ follows ⟨⟨_, ⟨token⟩, ⟨second, taken, -⟩⟩, text⟩
    refine ⟨_, .func (token.trans htoken) (second.trans hm) taken ?_, beq_iff_eq.2 (text _ _).symm⟩
    rcases follows with same | closes
    · exact (congrArg startsResults same).trans ends
    · rw [endsType, Bool.and_eq_true, Bool.not_eq_true'] at closes
      exact closes.1
  | funcMany htoken hm htaken hn hmany =>
    have filled := (takes_group hmany).rest_ne
    have signature := (carries_group htaken).append trivial (carries_group hmany) (.inl filled)
    refine signature.anywhere.behind.withText.imp ?_
    rintro _ _ - ⟨⟨_, ⟨token⟩, _, ⟨second, taken, -⟩, ⟨third, takenResults, -⟩⟩, text⟩
    exact ⟨_, .funcMany (token.trans htoken) (second.trans hm) taken (third.trans hn) takenResults,
      beq_iff_eq.2 (text _ _).symm⟩
  | funcOne htoken hm htaken starts hreads ih =>
    have filled := hreads.takes.rest_ne
    have result := ih.withFront (.inl filled)
    have signature := (carries_group htaken).append trivial result (.inl filled)
    refine signature.behind.withText.imp ?_
    rintro _ _ - ⟨⟨_, ⟨token⟩, _, ⟨second, taken, -⟩, ⟨u, reads, -⟩, front⟩, text⟩
    obtain ⟨n', ns', rfl, third⟩ := peek?_eq_some front
    exact ⟨_, .funcOne (token.trans htoken) (second.trans hm) taken (third ▸ starts) reads,
      beq_iff_eq.2 (text _ _).symm⟩
  | interface htoken hm htaken =>
    refine (carries_group htaken).anywhere.behind.withText.imp ?_
    rintro _ _ - ⟨⟨_, ⟨token⟩, ⟨second, taken, -⟩⟩, text⟩
    exact ⟨_, .interface (token.trans htoken) (second.trans hm) taken, beq_iff_eq.2 (text _ _).symm⟩
  | struct htoken hm _ ih =>
    refine ih.anywhere.behind.behind.imp ?_
    rintro _ _ - ⟨_, ⟨token⟩, _, ⟨second⟩, u, reads, same⟩
    exact ⟨.struct u, .struct (token.trans htoken) (second.trans hm) reads, same⟩
  | paren htoken _ hn ih =>
    have pieces := ih.append (.inl rfl) (carries_lexeme _ _) (.inl (List.cons_ne_self _ _))
    refine pieces.anywhere.behind.imp ?_
    rintro _ _ - ⟨_, ⟨token⟩, _, ⟨u, reads, same⟩, ⟨last⟩⟩
    exact ⟨u, .paren (token.trans htoken) reads (last.trans hn), same⟩
  | embedded first hreads hname htag ih =>
    have pieces := ih.append (.inl rfl) htag.copied (.inr fun _ same => same)
    refine (pieces.withSecond (htag.takes hreads.takes).rest_ne).imp ?_
    rintro _ _ - ⟨⟨_, ⟨u, reads, same⟩, readsTag⟩, previous, l', ls', rfl, token, second⟩
    have named := (embeddedName?_same same).trans hname
    refine fun doc => ⟨_, .embedded ?_ reads named readsTag, rfl, ?_⟩
    · rcases first with star | ⟨word, hword, ends⟩
      · exact .inl (token.trans star)
      · exact .inr ⟨word, token.trans hword, (congrArg endsEmbedded second).trans ends⟩
    · simp [TypeExpr.sameField, same]
  | named htoken ends hnames hreads htag ih =>
    have typed := ih.append (.inl rfl) htag.copied (.inr fun _ same => same)
    have pieces := hnames.copied.append rfl typed (.inr fun _ same => same)
    refine (pieces.withFront (.inr fun _ same => same)).behind.imp ?_
    rintro _ _ - ⟨_, ⟨token⟩, ⟨_, readsNames, _, ⟨u, reads, same⟩, readsTag⟩, second⟩
    refine fun doc => ⟨_, .named (token.trans htoken) ?_ readsNames reads readsTag, rfl, ?_⟩
    · exact (congrArg endsEmbedded second).trans ends
    · simp [TypeExpr.sameField, same]
  | @closed _ _ l ls _ hdoc hbrace =>
    have lead := carries_leadingComments hdoc
    have pieces := lead.append rfl (carries_lexeme _ _) (.inl (List.cons_ne_self _ _))
    refine pieces.anywhere.imp ?_
    rintro _ _ - ⟨_, ⟨doc, hlead⟩, ⟨brace⟩⟩
    exact ⟨[], .closed hlead (brace.trans hbrace), rfl⟩
  | @more place mid _ _ next _ _ hdoc hfirst htrail hend hfields ihFirst ihFields =>
    obtain ⟨trail, split, -, -⟩ := trailingComment_passes htrail
    have filled := (hfirst.takes.trans (.after split hfields.takes)).rest_ne
    have trailed := hfirst.trailed_copied ihFirst htrail ihFields hfields.takes.rest_ne
    have pieces := (carries_leadingComments hdoc).append rfl trailed (.inl filled)
    refine pieces.anywhere.imp ?_
    rintro _ _ - ⟨_, ⟨doc, hlead⟩, found⟩
    obtain ⟨g, _, _, reads, rfl, same, trails, front, gs, readsFields, sameFields⟩ := found doc
    refine ⟨g :: gs, .more hlead reads trails (endOfItem_front hend front) readsFields, ?_⟩
    simp [TypeExpr.sameFields, same, sameFields]

end Go
end FieldRules
