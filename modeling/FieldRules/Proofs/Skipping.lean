/-
What is passed over between items.

In front of an item are comments, newlines and semicolons (`isAbove`), and all of them are
taken, up to the first token that is none (`leadingComments_above`, `leadingComments_run`).
Behind an item a comment on its line is taken (`Trails`), and nothing where there is none.
-/
import FieldRules.Proofs.Completeness

namespace FieldRules
namespace Go

open Go.Parser

/-- What may be collected as comments above a declaration. -/
def isAbove (token : Token) : Bool := token.isTrivia || token == .semicolon

theorem isAbove_newline {n : Lexeme} (newline : n.token = .newline) :
    ∀ k ∈ [n], isAbove k.token = true := by
  intro k hk
  rw [List.mem_singleton.1 hk, newline]
  rfl

/-! ### Above an item -/

namespace CommentGroup

theorem take?_above (g : CommentGroup) (l : Lexeme) :
    (∃ next, g.take? l = some next) ↔ isAbove l.token = true := by
  unfold take?
  cases l.token <;> simp [isAbove, Token.isTrivia, Token.isComment]

theorem take?_stops {g : CommentGroup} {l : Lexeme} :
    g.take? l = none ↔ isAbove l.token = false := by
  rw [← Bool.not_eq_true, ← g.take?_above l, not_exists, Option.eq_none_iff_forall_ne_some]

theorem collect_above (g : CommentGroup) (previous : Option Lexeme) (ls : List Lexeme) :
    ∃ lead, ls = lead ++ (g.collect previous ls).2.rest ∧ (∀ l ∈ lead, isAbove l.token = true) ∧
      ∀ l ∈ (g.collect previous ls).2.rest.head?, isAbove l.token = false := by
  induction ls generalizing g previous with
  | nil => exact ⟨[], rfl, List.forall_mem_nil _, fun _ hl => (Option.not_mem_none _ hl).elim⟩
  | cons l ls ih =>
    unfold collect
    cases htake : g.take? l with
    | none =>
      refine ⟨[], rfl, List.forall_mem_nil _, fun m hm => ?_⟩
      cases hm
      exact take?_stops.1 htake
    | some next =>
      obtain ⟨lead, split, above, stops⟩ := ih next (some l)
      exact ⟨l :: lead, congrArg (l :: ·) split,
        List.forall_mem_cons.2 ⟨(g.take?_above l).1 ⟨next, htake⟩, above⟩, stops⟩

theorem collect_run (g : CommentGroup) (previous : Option Lexeme) {lead ls : List Lexeme}
    (above : ∀ l ∈ lead, isAbove l.token = true) (stops : ∀ l ∈ ls.head?, isAbove l.token = false) :
    ∃ group last, g.collect previous (lead ++ ls) = (group, ⟨last, ls⟩) := by
  induction lead generalizing g previous with
  | nil =>
    cases ls with
    | nil => exact ⟨g, previous, rfl⟩
    | cons l ls =>
      exact ⟨g, previous, by rw [List.nil_append, collect, take?_stops.2 (stops l rfl)]⟩
  | cons l lead ih =>
    obtain ⟨here, more⟩ := List.forall_mem_cons.1 above
    obtain ⟨next, htake⟩ := (g.take?_above l).2 here
    obtain ⟨group, last, collected⟩ := ih next (some l) more
    exact ⟨group, last, by rw [List.cons_append, collect, htake]; exact collected⟩

end CommentGroup

namespace Parser

variable {place next : Place} {lead ls : List Lexeme} {l : Lexeme}

theorem leadingComments_above {doc : List Comment} (h : leadingComments place = .ok (doc, next)) :
    ∃ lead, place.rest = lead ++ next.rest ∧ (∀ l ∈ lead, isAbove l.token = true) ∧
      ∀ l ∈ next.rest.head?, isAbove l.token = false := by
  cases h
  exact CommentGroup.collect_above _ _ _

theorem leadingComments_run (previous : Option Lexeme)
    (above : ∀ l ∈ lead, isAbove l.token = true) (stops : ∀ l ∈ ls.head?, isAbove l.token = false) :
    ∃ doc last, leadingComments ⟨previous, lead ++ ls⟩ = .ok (doc, ⟨last, ls⟩) := by
  obtain ⟨group, last, collected⟩ :=
    CommentGroup.collect_run ⟨[], 0, (Place.mk previous (lead ++ ls)).previousLine?⟩ previous above
      stops
  refine ⟨group.comments.reverse, last, ?_⟩
  unfold leadingComments
  rw [collected]

theorem leadingComments_before (previous : Option Lexeme)
    (above : ∀ l ∈ lead, isAbove l.token = true) (plain : isAbove l.token = false)
    (ls : List Lexeme) :
    ∃ doc last, leadingComments ⟨previous, lead ++ l :: ls⟩ = .ok (doc, ⟨last, l :: ls⟩) :=
  leadingComments_run previous above fun k hk => by
    cases hk
    exact plain

theorem leadingComments_end (previous : Option Lexeme)
    (above : ∀ l ∈ lead, isAbove l.token = true) :
    ∃ doc last, leadingComments ⟨previous, lead⟩ = .ok (doc, ⟨last, []⟩) := by
  have nothing : ∀ l ∈ ([] : List Lexeme).head?, isAbove l.token = false :=
    fun _ hl => (Option.not_mem_none _ hl).elim
  have taken := leadingComments_run previous above nothing
  rwa [List.append_nil] at taken

/-! ### Behind an item -/

/-- Whether there is a comment on the line of the last token. -/
def Trails (place : Place) (c : Lexeme) : Prop :=
  c.token.isComment = true ∧ place.previousLine? = some c.position.line

theorem trailingComment_ok (h : trailingComment place = .ok ((), next)) :
    (∃ c rest, place.rest = c :: rest ∧ Trails place c ∧ next = ⟨some c, rest⟩) ∨
      (next = place ∧ ∀ c ∈ place.rest.head?, ¬ Trails place c) := by
  unfold trailingComment at h
  split at h
  · next line c rest hline hrest =>
    split at h
    · next comment =>
      cases h
      exact .inl ⟨c, rest, hrest, ⟨comment.1, by rw [hline, comment.2]⟩, rfl⟩
    · next other =>
      cases h
      refine .inr ⟨rfl, fun d hd trails => other ?_⟩
      rw [hrest] at hd
      cases hd
      obtain ⟨comment, same⟩ := trails
      rw [hline] at same
      exact ⟨comment, (Option.some.inj same).symm⟩
  · next other =>
    cases h
    refine .inr ⟨rfl, fun c hc trails => ?_⟩
    obtain ⟨rest, hrest⟩ := List.head?_eq_some_iff.1 (Option.mem_def.1 hc)
    exact other _ _ _ trails.2 hrest

theorem trailingComment_run {previous : Option Lexeme} {c : Lexeme} {rest : List Lexeme}
    (trails : Trails ⟨previous, c :: rest⟩ c) :
    trailingComment ⟨previous, c :: rest⟩ = .ok ((), ⟨some c, rest⟩) := by
  unfold trailingComment
  rw [trails.2]
  exact if_pos ⟨trails.1, rfl⟩

theorem trailingComment_none (h : ∀ c ∈ place.rest.head?, ¬ Trails place c) :
    trailingComment place = .ok ((), place) := by
  unfold trailingComment
  split
  · next line c rest hline hrest =>
    rw [if_neg]
    rintro ⟨comment, same⟩
    exact h c (by rw [hrest]; rfl) ⟨comment, by rw [hline, same]⟩
  · rfl

theorem trailingComment_plain (plain : ∀ token ∈ place.peek?, token.isComment = false) :
    trailingComment place = .ok ((), place) := by
  refine trailingComment_none fun c hc trails => ?_
  have comment := plain c.token (Option.mem_map_of_mem (·.token) hc)
  rw [trails.1] at comment
  cases comment

variable {n : Lexeme} {rest : List Lexeme}

theorem trailingComment_newline (newline : n.token = .newline) (last : Option Lexeme) :
    trailingComment ⟨last, n :: rest⟩ = .ok ((), ⟨last, n :: rest⟩) := by
  refine trailingComment_plain fun token found => ?_
  rw [Place.peek?_cons, newline] at found
  cases found
  rfl

theorem endOfItem_newline {wanted : Wanted} (newline : n.token = .newline)
    (last : Option Lexeme) : endOfItem wanted ⟨last, n :: rest⟩ = .ok ((), ⟨last, n :: rest⟩) := by
  refine bind_run peek_run ?_
  rw [Place.peek?_cons, newline]
  rfl

end Parser

end Go
end FieldRules
