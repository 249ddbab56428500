/-
What the small readers of the parser take.

A reader takes lexemes off the front and leaves the rest, and what it builds keeps the
order of what it took.  `Passes` says which comments and names there are on the way from
one place to another; readers run one after the other by `Passes.trans`.
-/
import FieldRules.Go.Parser

namespace FieldRules
namespace Go

open Text

namespace Lexeme

def comment? (l : Lexeme) : Option Comment :=
  match l.token with
  | .lineComment text => some ⟨text, l.position⟩
  | .blockComment text => some ⟨text, l.position⟩
  | _ => none

def name? (l : Lexeme) : Option String :=
  match l.token with
  | .identifier name => some name
  | _ => none

end Lexeme

/-- On the way from one place to another there are some comments, in order, and some names. -/
def Passes (place next : Place) (cs : List Comment) (ns : List String) : Prop :=
  ∃ taken, place.rest = taken ++ next.rest ∧ cs.Sublist (taken.filterMap Lexeme.comment?) ∧
    ns ⊆ taken.filterMap Lexeme.name?

namespace Passes

variable {place mid next : Place} {cs ds : List Comment} {ns ms : List String}

theorem of_same_rest (h : place.rest = next.rest) : Passes place next [] [] :=
  ⟨[], h, List.nil_sublist _, List.nil_subset _⟩

theorem of_rest (taken : List Lexeme) (h : place.rest = taken ++ next.rest) :
    Passes place next [] [] :=
  ⟨taken, h, List.nil_sublist _, List.nil_subset _⟩

theorem one {previous : Option Lexeme} {l : Lexeme} {ls : List Lexeme} :
    Passes ⟨previous, l :: ls⟩ ⟨some l, ls⟩ [] [] := of_rest [l] rfl

theorem trans (h : Passes place mid cs ns) (h' : Passes mid next ds ms) :
    Passes place next (cs ++ ds) (ns ++ ms) := by
  obtain ⟨taken, hrest, hcs, hns⟩ := h
  obtain ⟨taken', hrest', hds, hms⟩ := h'
  refine ⟨taken ++ taken', by rw [hrest, hrest', List.append_assoc], ?_, ?_⟩
  · rw [List.filterMap_append]
    exact hcs.append hds
  · rw [List.filterMap_append]
    intro name hname
    rcases List.mem_append.1 hname with hname | hname
    · exact List.mem_append_left _ (hns hname)
    · exact List.mem_append_right _ (hms hname)

/-- Nothing is asked of the first part of the way. -/
theorem after (h : Passes place mid [] []) (h' : Passes mid next cs ns) :
    Passes place next cs ns := h.trans h'

/-- Nothing is asked of the last part of the way. -/
theorem before (h : Passes place mid cs ns) (h' : Passes mid next [] []) :
    Passes place next cs ns := by
  have both := h.trans h'
  rwa [List.append_nil, List.append_nil] at both

theorem mono (h : Passes place next cs ns) (kept : ds.Sublist cs) (sub : ms ⊆ ns) :
    Passes place next ds ms := by
  obtain ⟨taken, hrest, hcs, hns⟩ := h
  exact ⟨taken, hrest, kept.trans hcs, fun name hname => hns (sub hname)⟩

/-- The way without what was seen on it. -/
theorem forget (h : Passes place next cs ns) : Passes place next [] [] :=
  h.mono (List.nil_sublist _) (List.nil_subset _)

theorem within {lexemes : List Lexeme} (h : Passes place next cs ns)
    (start : place.rest <:+ lexemes) : next.rest <:+ lexemes := by
  obtain ⟨taken, split, -, -⟩ := h
  exact List.IsSuffix.trans ⟨taken, split.symm⟩ start

end Passes

namespace Parser

variable {α β : Type} {place next : Place}

/-! ### Running readers in turn -/

theorem bind_ok {p : Parser α} {f : α → Parser β} {b : β}
    (h : (p >>= f) place = .ok (b, next)) :
    ∃ a mid, p place = .ok (a, mid) ∧ f a mid = .ok (b, next) := by
  change Except.bind (p place) (fun x => f x.1 x.2) = _ at h
  cases hp : p place with
  | error e => rw [hp] at h; cases h
  | ok x => rw [hp] at h; exact ⟨x.1, x.2, rfl, h⟩

theorem map_ok {p : Parser α} {f : α → β} {b : β} (h : (f <$> p) place = .ok (b, next)) :
    ∃ a, p place = .ok (a, next) ∧ b = f a := by
  change Except.bind (p place) (fun x => .ok (f x.1, x.2)) = _ at h
  cases hp : p place with
  | error e => rw [hp] at h; cases h
  | ok x =>
    rw [hp] at h
    cases h
    exact ⟨x.1, rfl, rfl⟩

theorem seq_ok {p : Parser α} {q : Parser β} {b : β} (h : (p *> q) place = .ok (b, next)) :
    ∃ a mid, p place = .ok (a, mid) ∧ q mid = .ok (b, next) :=
  bind_ok (f := fun _ => q) h

theorem pure_ok {a b : α} (h : (pure a : Parser α) place = .ok (b, next)) :
    b = a ∧ next = place := by
  cases h
  exact ⟨rfl, rfl⟩

theorem missing_ok {wanted : Wanted} {a : α} (h : missing wanted place = .ok (a, next)) :
    False := by
  unfold missing at h
  split at h <;> cases h

/-! ### Single tokens -/

theorem peek_ok {token : Option Token} (h : peek place = .ok (token, next)) :
    next = place ∧ token = place.peek? := by
  cases h
  exact ⟨rfl, rfl⟩

theorem advance_passes {u : Unit} (h : advance place = .ok (u, next)) :
    Passes place next [] [] := by
  unfold advance at h
  split at h
  · cases h
    exact Passes.of_same_rest rfl
  · next l ls hrest =>
    cases h
    exact Passes.of_rest [l] hrest

theorem accept_passes {token : Token} {found : Bool} (h : accept token place = .ok (found, next)) :
    Passes place next [] [] := by
  obtain ⟨front, mid, hpeek, hrest⟩ := bind_ok h
  obtain ⟨rfl, -⟩ := peek_ok hpeek
  split at hrest
  · obtain ⟨u, mid, hadvance, hend⟩ := bind_ok hrest
    obtain ⟨-, rfl⟩ := pure_ok hend
    exact advance_passes hadvance
  · obtain ⟨-, rfl⟩ := pure_ok hrest
    exact Passes.of_same_rest rfl

end Parser

namespace CommentGroup

theorem take?_sublist {g taken : CommentGroup} {l : Lexeme} (h : g.take? l = some taken) :
    taken.comments.reverse.Sublist (g.comments.reverse ++ [l].filterMap Lexeme.comment?) := by
  -- A comment is new, or belongs to the token before and is left out.
  have extended (text : String) (seen : [l].filterMap Lexeme.comment? = [⟨text, l.position⟩]) :
      (g.comment text l.position).comments.reverse.Sublist
        (g.comments.reverse ++ [l].filterMap Lexeme.comment?) := by
    rw [seen]
    unfold comment
    dsimp only
    split
    · exact List.sublist_append_left _ _
    · exact List.reverse_cons ▸ List.Sublist.refl _
  unfold take? at h
  split at h
  · cases h
    unfold newline
    dsimp only
    split
    · exact List.nil_sublist _
    · exact List.sublist_append_left _ _
  · cases h
    exact List.nil_sublist _
  · next text htoken =>
    cases h
    exact extended text (by simp [Lexeme.comment?, htoken])
  · next text htoken =>
    cases h
    exact extended text (by simp [Lexeme.comment?, htoken])
  · cases h

theorem collect_sublist (g : CommentGroup) (previous : Option Lexeme) (ls : List Lexeme) :
    ∃ taken, ls = taken ++ (g.collect previous ls).2.rest ∧
      (g.collect previous ls).1.comments.reverse.Sublist
        (g.comments.reverse ++ taken.filterMap Lexeme.comment?) := by
  induction ls generalizing g previous with
  | nil => exact ⟨[], rfl, List.sublist_append_left _ _⟩
  | cons l ls ih =>
    unfold collect
    cases htake : g.take? l with
    | none =>
      exact ⟨[], rfl, List.sublist_append_left _ _⟩
    | some more =>
      obtain ⟨taken, hrest, hcomments⟩ := ih more (some l)
      refine ⟨l :: taken, by rw [List.cons_append, ← hrest], ?_⟩
      have ordered := hcomments.trans ((take?_sublist htake).append (List.Sublist.refl _))
      rwa [List.append_assoc, ← List.filterMap_append] at ordered

end CommentGroup

theorem takeGroup_append {depth : Nat} {ls taken rest : List Lexeme}
    (h : takeGroup depth ls = some (taken, rest)) : ls = taken ++ rest := by
  induction ls generalizing depth taken with
  | nil => cases h
  | cons l ls ih =>
    unfold takeGroup at h
    split at h
    · cases h
      rfl
    · obtain ⟨⟨more, left⟩, hmore, hpair⟩ := Option.map_eq_some_iff.1 h
      cases hpair
      rw [ih hmore, List.cons_append]

theorem takeLength_append {depth : Nat} {ls taken rest : List Lexeme}
    (h : takeLength depth ls = some (taken, rest)) : ls = taken ++ rest := by
  induction ls generalizing depth taken with
  | nil => cases h
  | cons l ls ih =>
    unfold takeLength at h
    split at h
    · cases h
      rfl
    · obtain ⟨⟨more, left⟩, hmore, hpair⟩ := Option.map_eq_some_iff.1 h
      cases hpair
      rw [ih hmore, List.cons_append]

theorem passDeclaration_append (depth : Nat) (previous : Option Lexeme) (ls : List Lexeme) :
    ∃ taken, ls = taken ++ (passDeclaration depth previous ls).rest := by
  induction ls generalizing depth previous with
  | nil => exact ⟨[], rfl⟩
  | cons l ls ih =>
    unfold passDeclaration
    split
    · exact ⟨[l], rfl⟩
    · obtain ⟨taken, hrest⟩ := ih _ (some l)
      exact ⟨l :: taken, by rw [List.cons_append, ← hrest]⟩

theorem Place.moveTo_rest (place : Place) (taken rest : List Lexeme) :
    (place.moveTo taken rest).rest = rest := by
  unfold moveTo
  split <;> rfl

namespace Parser

variable {place next : Place}

theorem leadingComments_passes {doc : List Comment}
    (h : leadingComments place = .ok (doc, next)) : Passes place next doc [] := by
  cases h
  obtain ⟨taken, hrest, hcomments⟩ :=
    CommentGroup.collect_sublist ⟨[], 0, place.previousLine?⟩ place.previous place.rest
  exact ⟨taken, hrest, hcomments, List.nil_subset _⟩

theorem trailingComment_passes {u : Unit} (h : trailingComment place = .ok (u, next)) :
    Passes place next [] [] := by
  unfold trailingComment at h
  split at h
  · next line l ls _ hrest =>
    split at h
    · cases h
      exact Passes.of_rest [l] hrest
    · cases h
      exact Passes.of_same_rest rfl
  · cases h
    exact Passes.of_same_rest rfl

end Parser

end Go
end FieldRules
