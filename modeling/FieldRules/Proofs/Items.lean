/-
Items do not notice how a text is written.

The items of a text stand in its echo, too, with the same declarations, texts and places
apart (`ReadsItem.echoed`, `ReadsItems.echoed`).
-/
import FieldRules.Proofs.Declarations

namespace FieldRules
namespace Go

open Text
open Go.Parser

/-- The number of brackets open at the end of a text, none if the declaration in front ends
before. -/
def openDepth : Nat → List Lexeme → Nat
  | depth, [] => depth
  | depth, l :: ls =>
    if (l.token = .newline ∨ l.token = .semicolon) ∧ depth = 0 then 0
    else
      openDepth
        (if l.token.isOpening then depth + 1
          else if l.token.isClosing then depth - 1 else depth) ls

section

variable {drops : Char → Bool} {down : Nat} {tail : List Lexeme} {place place' next : Place}
  {l m : Lexeme} {ls ms : List Lexeme} {item : Item} {is : List Item}

/-- The places behind an item and its echo.  An item that runs to the end of the text takes the
newline behind the end. -/
def Place.EchoesBehind (drops : Char → Bool) (down : Nat) (tail : List Lexeme)
    (place place' : Place) : Prop :=
  place.Echoes drops down tail place' ∨
    place.rest = [] ∧ ∃ n more, tail = n :: more ∧ place' = ⟨some n, more⟩

/-- A declaration that is passed over without a bracket open at the end of the text ends in the echo
where it does, or with the newline behind it. -/
theorem AreEchoed.passDeclaration (lines : StartsLine tail) (e : AreEchoed drops down ls ms)
    {depth : Nat} (closed : openDepth depth ls = 0 ∨ tail = []) {previous previous' : Option Lexeme}
    (line : ∀ rest rest', (Place.mk previous' rest').previousLine? =
      (Place.mk previous rest).previousLine?.map (· + down)) :
    (Go.passDeclaration depth previous ls).EchoesBehind drops down tail
      (Go.passDeclaration depth previous' (ms ++ tail)) := by
  induction e generalizing depth previous previous' with
  | nil =>
    cases tail with
    | nil => exact .inl ⟨line _ _, [], rfl, .nil⟩
    | cons n more =>
      have ended : depth = 0 := closed.resolve_right (List.cons_ne_nil _ _)
      exact .inr ⟨rfl, n, more, rfl, if_pos ⟨.inl (lines n rfl), ended⟩⟩
  | @cons l m ls ms here more ih =>
    have opens : m.token.isOpening = l.token.isOpening := by rw [here.token, Token.without_isOpening]
    have closes : m.token.isClosing = l.token.isClosing := by rw [here.token, Token.without_isClosing]
    unfold openDepth at closed
    rw [List.cons_append]
    unfold Go.passDeclaration
    simp only [here.token_iff (show Token.isComment .newline = false from rfl),
      here.token_iff (show Token.isComment .semicolon = false from rfl), opens, closes]
    split
    · exact .inl (.behind here more)
    · next inside =>
      rw [if_neg inside] at closed
      exact ih closed fun rest rest' => here.previousLine rest rest'

/-- An item is read from its echo. -/
theorem ReadsItem.echoed (blank : ∀ c, drops c = true → isBlank c = true)
    (lines : StartsLine tail) (h : ReadsItem place item next)
    (closed : ∀ rest ∈ item.other?, openDepth 0 rest = 0 ∨ tail = [])
    (e : place.Echoes drops down tail place') :
    ∃ item' next', ReadsItem place' item' next' ∧ item'.package? = item.package? ∧
      item.decls.map (Recast.below down).decl = item'.decls.map (Recast.without drops).decl ∧
      next.EchoesBehind drops down tail next' := by
  cases h with
  | package hdoc htoken hm =>
    obtain ⟨doc', mid', hdoc', -, middle⟩ :=
      leadingComments_echoed e hdoc (.inl (List.cons_ne_nil _ _))
    obtain ⟨_, l', m', ms', rfl, here, hereM, behind⟩ := middle.front_two
    exact ⟨_, _, .package hdoc' (here.token_eq htoken rfl) (hereM.token_eq hm rfl), rfl, rfl,
      .inl behind⟩
  | types hdoc htoken hdecls =>
    obtain ⟨doc', mid', hdoc', docs, middle⟩ :=
      leadingComments_echoed e hdoc (.inl (List.cons_ne_nil _ _))
    obtain ⟨_, l', ls', rfl, here, behind⟩ := middle.front
    obtain ⟨decls', next', hdecls', same, reached⟩ :=
      (typeDecls_reads hdecls).echoed blank lines behind docs
    exact ⟨_, _, .types hdoc' (here.token_eq htoken rfl) hdecls'.run, rfl, same, .inl reached⟩
  | @other previous l ls doc hdoc noPackage noType =>
    obtain ⟨doc', mid', hdoc', -, middle⟩ :=
      leadingComments_echoed e hdoc (.inl (List.cons_ne_nil _ _))
    obtain ⟨previous', l', ls', rfl, here, -⟩ := middle.front
    obtain ⟨line, ms, split, echoed⟩ := middle
    refine ⟨_, _, .other hdoc' (fun found => noPackage ((here.token_iff rfl).1 found))
      (fun found => noType ((here.token_iff rfl).1 found)), rfl, rfl, ?_⟩
    rw [show l' :: ls' = ms ++ tail from split]
    exact echoed.passDeclaration lines (closed _ rfl) fun _ _ => line

/-- All items of a text are read from its echo, if that goes on with nothing. -/
theorem ReadsItems.echoed (blank : ∀ c, drops c = true → isBlank c = true) (h : ReadsItems place is)
    (e : place.Echoes drops down [] place') :
    ∃ is', ReadsItems place' is' ∧ (∀ package, Item.lastPackage package is' =
        Item.lastPackage package is) ∧
      (is.flatMap Item.decls).map (Recast.below down).decl =
        (is'.flatMap Item.decls).map (Recast.without drops).decl := by
  have lines : StartsLine [] := fun l hl => nomatch hl
  induction h generalizing place' with
  | done hdoc =>
    obtain ⟨doc', ⟨previous', rest'⟩, hdoc', -, -, ms, split, echoed⟩ :=
      leadingComments_echoed e hdoc (.inr rfl)
    cases echoed
    cases split
    exact ⟨[], .done hdoc', fun _ => rfl, rfl⟩
  | next here _ ih =>
    obtain ⟨item', mid', here', package, same, behind | ⟨-, n, more, none, -⟩⟩ :=
      here.echoed blank lines (fun _ _ => .inr rfl) e
    · obtain ⟨is', reads, packages, sameMore⟩ := ih behind
      refine ⟨item' :: is', .next here' reads, fun before => ?_, ?_⟩
      · rw [Item.lastPackage, Item.lastPackage, packages, package]
      · simp only [List.flatMap_cons, List.map_append, same, sameMore]
    · cases none

end

end Go
end FieldRules
