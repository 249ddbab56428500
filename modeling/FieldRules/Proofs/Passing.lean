/-
What is passed over.

A declaration that is neither a package clause nor one of types ends with the first
newline outside of brackets.  Tokens lead from one number of open brackets to another
within a declaration (`Within`); a piece that leads back to where it began, from
anywhere, does not matter to what is around it (`IsLevel`).  A text that holds nothing
but such declarations, and comments, declares no type (`Overlooked.reads`).
-/
import FieldRules.Proofs.Items

namespace FieldRules
namespace Go

open Text
open Go.Parser

/-! ### Open brackets -/

/-- The number of brackets that are open behind a token. -/
def Token.depthBehind (depth : Nat) (t : Token) : Nat :=
  if t.isOpening then depth + 1 else if t.isClosing then depth - 1 else depth

/-- Tokens lead from one number of open brackets to another and end no declaration. -/
inductive Within : Nat → List Token → Nat → Prop where
  | nil {depth : Nat} : Within depth [] depth
  | cons {depth last : Nat} {t : Token} {ts : List Token} :
      (t = .newline ∨ t = .semicolon → 0 < depth) → Within (t.depthBehind depth) ts last →
      Within depth (t :: ts) last

/-- Brackets are opened and closed in turn; `depth` of them are open before. -/
def areClosed : Nat → List Token → Bool
  | depth, [] => depth == 0
  | depth, t :: ts =>
    if t.isOpening then areClosed (depth + 1) ts
    else if t.isClosing then decide (0 < depth) && areClosed (depth - 1) ts
    else areClosed depth ts

/-- A piece of a declaration after which as many brackets are open as before. -/
def IsLevel (ls : List Lexeme) : Prop :=
  ∀ depth, Within depth (ls.map (·.token)) depth

/-- The same of a piece that stands in brackets. -/
def IsNested (ls : List Lexeme) : Prop :=
  ∀ depth, 0 < depth → Within depth (ls.map (·.token)) depth

section

variable {depth mid last : Nat} {t : Token} {ts us : List Token} {l : Lexeme} {ls ms : List Lexeme}

namespace Within

theorem append (h : Within depth ts mid) (h' : Within mid us last) :
    Within depth (ts ++ us) last := by
  induction h with
  | nil => exact h'
  | cons inside _ ih => exact .cons inside (ih h')

/-- A token that is no bracket. -/
theorem plain (h : Within depth ts last) (opening : t.isOpening = false)
    (closing : t.isClosing = false) (inside : t = .newline ∨ t = .semicolon → 0 < depth) :
    Within depth (t :: ts) last := by
  refine .cons inside ?_
  rw [Token.depthBehind, opening, closing]
  exact h

theorem opens (h : Within (depth + 1) ts last) (opening : t.isOpening = true) :
    Within depth (t :: ts) last := by
  refine .cons (fun ends => ?_) ?_
  · rcases ends with rfl | rfl <;> cases opening
  · rw [Token.depthBehind, if_pos opening]
    exact h

theorem closes (h : Within depth ts last) (closing : t.isClosing = true) :
    Within (depth + 1) (t :: ts) last := by
  refine .cons (fun _ => Nat.succ_pos depth) ?_
  have other : t.isOpening = false := by cases t <;> first | rfl | cases closing
  rw [Token.depthBehind, other, closing]
  exact h

/-- Passing over a declaration goes on behind a piece that lies within it. -/
theorem passDeclaration (h : Within depth (ls.map (·.token)) last) (previous : Option Lexeme)
    (rest : List Lexeme) : ∃ before, Go.passDeclaration depth previous (ls ++ rest) =
      Go.passDeclaration last before rest := by
  induction ls generalizing depth previous with
  | nil =>
    cases h
    exact ⟨previous, rfl⟩
  | cons l ls ih =>
    cases h with
    | cons inside behind =>
      obtain ⟨before, more⟩ := ih behind (some l)
      refine ⟨before, ?_⟩
      have goesOn : ¬((l.token = .newline ∨ l.token = .semicolon) ∧ depth = 0) :=
        fun ends => Nat.ne_of_gt (inside ends.1) ends.2
      rw [List.cons_append, Go.passDeclaration, if_neg goesOn]
      exact more

end Within

theorem IsLevel.append (h : IsLevel ls) (h' : IsLevel ms) : IsLevel (ls ++ ms) := by
  intro depth
  rw [List.map_append]
  exact (h depth).append (h' depth)

theorem IsLevel.isNested (h : IsLevel ls) : IsNested ls := fun depth _ => h depth

theorem IsNested.append (h : IsNested ls) (h' : IsNested ms) : IsNested (ls ++ ms) := by
  intro depth inside
  rw [List.map_append]
  exact (h depth inside).append (h' depth inside)

/-- A token that neither is a bracket nor ends a declaration. -/
def Token.isInner (t : Token) : Bool :=
  !t.isOpening && !t.isClosing && t != .newline && t != .semicolon

theorem isLevel_singleton (h : l.token.isInner = true) : IsLevel [l] := by
  simp only [Token.isInner, Bool.and_eq_true, Bool.not_eq_true', bne_iff_ne] at h
  obtain ⟨⟨⟨opening, closing⟩, newline⟩, semicolon⟩ := h
  exact fun depth => .plain .nil opening closing fun ends => absurd ends (not_or.2 ⟨newline, semicolon⟩)

/-- Brackets around a piece. -/
theorem IsNested.bracketed {m : Lexeme} (h : IsNested ls) (opening : l.token.isOpening = true)
    (closing : m.token.isClosing = true) : IsLevel (l :: (ls ++ [m])) := by
  intro depth
  rw [List.map_cons, List.map_append]
  exact .opens ((h _ (Nat.succ_pos depth)).append (.closes .nil closing)) opening

/-- Tokens with their brackets in pairs lead out of the brackets that were open before. -/
theorem within_of_areClosed (h : areClosed depth ts = true) (inside : 0 < last) :
    Within (last + depth) ts last := by
  induction ts generalizing depth with
  | nil =>
    obtain rfl : depth = 0 := beq_iff_eq.1 h
    exact .nil
  | cons t ts ih =>
    unfold areClosed at h
    split at h
    · next opening => exact .opens (ih h) opening
    · next opening =>
      split at h
      · next closing =>
        obtain ⟨positive, more⟩ := Bool.and_eq_true_iff.1 h
        obtain ⟨outer, rfl⟩ : ∃ outer, depth = outer + 1 :=
          ⟨depth - 1, (Nat.sub_add_cancel (of_decide_eq_true positive)).symm⟩
        exact .closes (ih more) closing
      · next closing =>
        refine .plain (ih h) (Bool.eq_false_iff.2 opening) (Bool.eq_false_iff.2 closing) ?_
        exact fun _ => Nat.lt_add_right depth inside

theorem isNested_of_areClosed (h : areClosed 0 (ls.map (·.token)) = true) : IsNested ls :=
  fun _ inside => within_of_areClosed h inside

/-- What is taken up to the end of a group has its brackets in pairs. -/
theorem takeGroup_areClosed {taken rest : List Lexeme} (inside : 0 < depth)
    (h : takeGroup depth ls = some (taken, rest)) :
    areClosed depth (taken.map (·.token)) = true := by
  induction ls generalizing depth taken with
  | nil => cases h
  | cons l ls ih =>
    unfold takeGroup at h
    split at h
    · next ends =>
      cases h
      obtain rfl : depth = 1 := by omega
      have other : l.token.isOpening = false := by
        cases token : l.token <;> first | rfl | (rw [token] at ends; exact absurd ends.1 (by decide))
      simp [areClosed, other, ends.1]
    · next goesOn =>
      obtain ⟨⟨more, last⟩, hmore, same⟩ := Option.map_eq_some_iff.1 h
      cases same
      rw [List.map_cons, areClosed]
      split at hmore
      · next opening =>
        rw [if_pos opening]
        exact ih (Nat.succ_pos depth) hmore
      · next opening =>
        rw [if_neg opening]
        split at hmore
        · next closing =>
          have outer : 0 < depth - 1 := by
            have deep : ¬depth ≤ 1 := fun shallow => goesOn ⟨closing, shallow⟩
            omega
          rw [if_pos closing, ih outer hmore, decide_eq_true inside]
          rfl
        · next closing =>
          rw [if_neg closing]
          exact ih inside hmore

/-- A group that starts with its bracket has its brackets in pairs. -/
theorem takeGroup_isClosed {taken rest : List Lexeme} (opening : l.token.isOpening = true)
    (h : takeGroup 0 (l :: ls) = some (taken, rest)) :
    areClosed 0 (taken.map (·.token)) = true := by
  have other : l.token.isClosing = false := by
    cases token : l.token <;> first | rfl | (rw [token] at opening; cases opening)
  unfold takeGroup at h
  rw [if_neg fun ends => absurd ends.1 (Bool.eq_false_iff.1 other), if_pos opening] at h
  obtain ⟨⟨more, last⟩, hmore, same⟩ := Option.map_eq_some_iff.1 h
  cases same
  rw [List.map_cons, areClosed, if_pos opening]
  exact takeGroup_areClosed Nat.one_pos hmore

end

/-! ### Texts without types -/

/-- Comments, and declarations of one line or more that are neither package clauses nor declare
types. -/
inductive Overlooked : List Lexeme → Prop where
  | done {above : List Lexeme} : (∀ l ∈ above, isAbove l.token = true) → Overlooked above
  | next {above ls more : List Lexeme} {l n : Lexeme} : (∀ k ∈ above, isAbove k.token = true) →
      isAbove l.token = false → l.token ≠ .package → l.token ≠ .type →
      Within 0 ((l :: ls).map (·.token)) 0 → n.token = .newline → Overlooked more →
      Overlooked (above ++ l :: (ls ++ n :: more))

variable {lexemes above : List Lexeme}

theorem Overlooked.behind (h : Overlooked lexemes) (comments : ∀ l ∈ above, isAbove l.token = true) :
    Overlooked (above ++ lexemes) := by
  cases h with
  | done more => exact .done (List.forall_mem_append.2 ⟨comments, more⟩)
  | next more plain noPackage noType within newline rest =>
    rw [← List.append_assoc]
    exact .next (List.forall_mem_append.2 ⟨comments, more⟩) plain noPackage noType within newline rest

/-- The items of such a text name no package and declare no type. -/
theorem Overlooked.reads (h : Overlooked lexemes) (previous : Option Lexeme) :
    ∃ items, ReadsItems ⟨previous, lexemes⟩ items ∧ items.flatMap Item.decls = [] ∧
      ∀ before, Item.lastPackage before items = before := by
  induction h generalizing previous with
  | @done above comments =>
    obtain ⟨doc, last, hdoc⟩ := leadingComments_end previous comments
    exact ⟨[], .done hdoc, rfl, fun _ => rfl⟩
  | @next above ls more l n comments plain noPackage noType within newline _ ih =>
    obtain ⟨doc, last, hdoc⟩ := leadingComments_before previous comments plain (ls ++ n :: more)
    obtain ⟨before, passed⟩ := within.passDeclaration last (n :: more)
    rw [Go.passDeclaration, if_pos ⟨.inl newline, rfl⟩] at passed
    obtain ⟨items, reads, decls, package⟩ := ih (some n)
    refine ⟨.other (l :: (ls ++ n :: more)) :: items, .next (.other hdoc noPackage noType) ?_, decls,
      package⟩
    rw [← List.cons_append, passed]
    exact reads

/-- A text with a package clause in front of such declarations. -/
theorem parse_overlooked {source : List Char} {package : String} {l m : Lexeme}
    (hlex : lex source = .ok (above ++ l :: m :: lexemes))
    (comments : ∀ k ∈ above, isAbove k.token = true) (hl : l.token = .package)
    (hm : m.token = .identifier package) (h : Overlooked lexemes) :
    SourceFile.parse source = .ok ⟨package, []⟩ := by
  obtain ⟨doc, last, hdoc⟩ :=
    leadingComments_before none comments (by rw [hl]; rfl) (m :: lexemes)
  obtain ⟨items, reads, decls, same⟩ := h.reads (some m)
  refine parse_iff.2 ⟨_, .package package :: items, hlex, .next (.package hdoc hl hm) reads, ?_, ?_⟩
  · exact same (some package)
  · exact decls

end Go
end FieldRules
