/-
Stable sorting by insertion.

The result is a rearrangement of what is sorted, and ascending where the order
is total and transitive.
-/
namespace FieldRules

/-- Puts an element in front of the first one that it does not come after. -/
def insertBy {α : Type} (le : α → α → Bool) (a : α) : List α → List α
  | [] => [a]
  | b :: bs => if le a b then a :: b :: bs else b :: insertBy le a bs

/-- Ascending order; elements that are equal in it keep theirs. -/
def sortBy {α : Type} (le : α → α → Bool) : List α → List α
  | [] => []
  | a :: as => insertBy le a (sortBy le as)

variable {α : Type} {le : α → α → Bool}

theorem insertBy_perm (a : α) (bs : List α) : (insertBy le a bs).Perm (a :: bs) := by
  induction bs with
  | nil => exact List.Perm.refl _
  | cons b bs ih =>
    unfold insertBy
    split
    · exact List.Perm.refl _
    · exact (ih.cons b).trans (List.Perm.swap a b bs)

theorem sortBy_perm (as : List α) : (sortBy le as).Perm as := by
  induction as with
  | nil => exact List.Perm.refl _
  | cons a as ih => exact (insertBy_perm a (sortBy le as)).trans (ih.cons a)

theorem mem_insertBy {a b : α} {bs : List α} : b ∈ insertBy le a bs ↔ b = a ∨ b ∈ bs :=
  (insertBy_perm a bs).mem_iff.trans List.mem_cons

theorem pairwise_insertBy (total : ∀ a b, le a b = false → le b a = true)
    (trans : ∀ a b c, le a b = true → le b c = true → le a c = true) (a : α) {bs : List α}
    (sorted : bs.Pairwise fun x y => le x y = true) :
    (insertBy le a bs).Pairwise fun x y => le x y = true := by
  induction bs with
  | nil => exact List.pairwise_singleton _ _
  | cons b bs ih =>
    rw [List.pairwise_cons] at sorted
    unfold insertBy
    split
    · next h =>
      refine List.pairwise_cons.2 ⟨fun c hc => ?_, List.pairwise_cons.2 sorted⟩
      rcases List.mem_cons.1 hc with rfl | hc
      · exact h
      · exact trans _ _ _ h (sorted.1 c hc)
    · next h =>
      refine List.pairwise_cons.2 ⟨fun c hc => ?_, ih sorted.2⟩
      rcases mem_insertBy.1 hc with rfl | hc
      · exact total _ _ (Bool.not_eq_true _ ▸ h)
      · exact sorted.1 c hc

/-- Sorting by a total order puts everything in ascending order. -/
theorem pairwise_sortBy (total : ∀ a b, le a b = false → le b a = true)
    (trans : ∀ a b c, le a b = true → le b c = true → le a c = true) (as : List α) :
    (sortBy le as).Pairwise fun x y => le x y = true := by
  induction as with
  | nil => exact List.Pairwise.nil
  | cons a as ih => exact pairwise_insertBy total trans a ih

theorem insertBy_of_le {a : α} {bs : List α} (first : ∀ b ∈ bs, le a b = true) :
    insertBy le a bs = a :: bs := by
  cases bs with
  | nil => rfl
  | cons b bs => rw [insertBy, if_pos (first b List.mem_cons_self)]

theorem filter_insertBy (trans : ∀ a b c, le a b = true → le b c = true → le a c = true)
    (p : α → Bool) (a : α) {bs : List α} (sorted : bs.Pairwise fun x y => le x y = true) :
    (insertBy le a bs).filter p = if p a then insertBy le a (bs.filter p) else bs.filter p := by
  induction bs with
  | nil => cases h : p a <;> simp [insertBy, h]
  | cons b bs ih =>
    rw [List.pairwise_cons] at sorted
    rw [insertBy]
    by_cases hle : le a b = true
    · have first : ∀ c ∈ (b :: bs).filter p, le a c = true := by
        intro c hc
        rcases List.mem_cons.1 (List.mem_filter.1 hc).1 with rfl | hc
        · exact hle
        · exact trans a b c hle (sorted.1 c hc)
      rw [if_pos hle, insertBy_of_le first, List.filter_cons]
    · rw [if_neg hle, List.filter_cons, List.filter_cons, ih sorted.2]
      by_cases hb : p b = true
      · rw [if_pos hb, if_pos hb, insertBy, if_neg hle]
        split <;> rfl
      · rw [if_neg hb, if_neg hb]

/-- Some of the elements sorted are those of the sorted ones, in their order. -/
theorem filter_sortBy (total : ∀ a b, le a b = false → le b a = true)
    (trans : ∀ a b c, le a b = true → le b c = true → le a c = true) (p : α → Bool)
    (as : List α) : (sortBy le as).filter p = sortBy le (as.filter p) := by
  induction as with
  | nil => rfl
  | cons a as ih =>
    rw [sortBy, filter_insertBy trans p a (pairwise_sortBy total trans as), ih, List.filter_cons]
    split <;> rfl

end FieldRules
