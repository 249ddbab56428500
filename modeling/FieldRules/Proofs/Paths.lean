/-
The text of a path and that of its parent.

A path is its segments with slashes between them (`ofSegments_segments`), and its
parent is made of the first ones (`exists_of_parent`): so the parent is a text that
the path begins with, and leads to where the path comes through (`ready_parent`).
-/
import FieldRules.Proofs.Directories
import FieldRules.Proofs.Places

namespace FieldRules
namespace Files

open Text

namespace Path

variable {path last : String} {segs front : List String}

theorem toList_ofSegments (segs : List String) :
    (ofSegments segs).toList = joinWith '/' (segs.map String.toList) :=
  toList_intercalate rfl segs

theorem toList_segments (path : String) :
    (segments path).map String.toList = splitAt (· == '/') path.toList := by
  unfold segments
  rw [List.map_map]
  exact (List.map_congr_left fun piece _ => String.toList_ofList).trans (List.map_id _)

theorem ofSegments_segments (path : String) : ofSegments (segments path) = path := by
  rw [← String.toList_inj, toList_ofSegments, toList_segments, joinWith_splitAt]

theorem not_mem_of_mem_segments {segment : String} (h : segment ∈ segments path) :
    '/' ∉ segment.toList := by
  have piece := List.mem_map_of_mem (f := String.toList) h
  rw [toList_segments] at piece
  exact not_mem_of_mem_splitAt piece

theorem segments_ofSegments (ne : segs ≠ []) (h : ∀ segment ∈ segs, '/' ∉ segment.toList) :
    segments (ofSegments segs) = segs := by
  unfold segments
  rw [toList_ofSegments, splitAt_joinWith (by simpa using ne) (by simpa using h), List.map_map]
  exact (List.map_congr_left fun segment _ => String.ofList_toList).trans (List.map_id _)

theorem joinWith_append (separator : Char) {pieces more : List (List Char)} (ne : pieces ≠ [])
    (ne' : more ≠ []) : joinWith separator (pieces ++ more) =
      joinWith separator pieces ++ separator :: joinWith separator more := by
  induction pieces with
  | nil => exact absurd rfl ne
  | cons piece pieces ih =>
    cases pieces with
    | nil =>
      obtain ⟨first, rest, rfl⟩ := List.exists_cons_of_ne_nil ne'
      rfl
    | cons next rest =>
      have longer := ih (List.cons_ne_nil _ _)
      rw [List.cons_append, List.cons_append, joinWith_cons_cons, joinWith_cons_cons,
        ← List.cons_append, longer, List.append_assoc, List.cons_append]

/-- A path begins with the text of its first segments. -/
theorem exists_append_of_front (h : front <+: segments path) :
    ∃ back, path = ofSegments front ++ back := by
  obtain ⟨more, split⟩ := h
  by_cases ne : front = []
  · exact ⟨path, by rw [ne]; rfl⟩
  by_cases ne' : more = []
  · exact ⟨"", by rw [← ofSegments_segments path, ← split, ne']; simp⟩
  refine ⟨"/" ++ ofSegments more, ?_⟩
  rw [← ofSegments_segments path, ← split, ← String.toList_inj, String.toList_append,
    String.toList_append, toList_ofSegments, toList_ofSegments, toList_ofSegments, List.map_append,
    joinWith_append '/' (by simpa using ne) (by simpa using ne')]
  rfl

/-! ### The parent -/

theorem trimIdle_begins (segs : List String) : trimIdle segs <+: segs := by
  unfold trimIdle
  rw [← List.reverse_suffix, List.reverse_reverse]
  exact List.dropWhile_suffix _

/-- Behind the segments of the parent comes one that names something. -/
theorem exists_behind_parent (ne : trimIdle segs ≠ []) :
    ∃ back, segs = trimIdle (trimIdle segs).dropLast ++ back ∧ ∃ segment ∈ back, segment ≠ "" := by
  obtain ⟨idle, whole⟩ := trimIdle_begins segs
  obtain ⟨more, front⟩ := trimIdle_begins (trimIdle segs).dropLast
  have named : isIdle ((trimIdle segs).getLast ne) = false := by
    have head := List.head?_dropWhile_not isIdle segs.reverse
    rw [← List.getLast?_reverse, ← trimIdle, List.getLast?_eq_some_getLast ne] at head
    simpa using head
  refine ⟨more ++ (trimIdle segs).getLast ne :: idle, ?_, (trimIdle segs).getLast ne, by simp, ?_⟩
  · rw [← List.append_assoc, front, ← List.singleton_append, ← List.append_assoc,
      List.dropLast_append_getLast, whole]
  · intro empty
    rw [empty] at named
    cases named

/-- A parent is made of the first segments, and something is named behind them. -/
theorem exists_of_parent {parent : String} (h : parent? path = some parent) :
    parent = "" ∨ ∃ front back, segments path = front ++ back ∧ parent = ofSegments front ∧
      ∃ segment ∈ back, segment ≠ "" := by
  unfold parent? at h
  split at h
  · next rest dot =>
    split at h
    · exact .inl (Option.some.inj h).symm
    · next ne =>
      obtain ⟨back, split, named⟩ := exists_behind_parent (mt List.isEmpty_iff.2 ne)
      refine .inr ⟨"." :: trimIdle (trimIdle rest).dropLast, back, ?_, (Option.some.inj h).symm,
        named⟩
      rw [dot, List.cons_append, ← split]
  · split at h
    · cases h
    · next ne =>
      obtain ⟨back, split, named⟩ := exists_behind_parent (mt List.isEmpty_iff.2 ne)
      exact .inr ⟨_, back, split, (Option.some.inj h).symm, named⟩

end Path

namespace Tree

variable {tree : Tree} {place other : Place} {path text : String}

theorem follow_append (stands : tree.at? place = some .directory) {front more : List String}
    (ne : more ≠ []) (h : tree.follow place (front ++ more) = .ok other) :
    ∃ inside, tree.follow place front = .ok inside ∧ tree.at? inside = some .directory ∧
      tree.follow inside more = .ok other := by
  induction front generalizing place with
  | nil => exact ⟨place, rfl, stands, h⟩
  | cons name front ih =>
    obtain ⟨first, enters, follows⟩ := (follow_cons_eq_ok (by simp [ne])).1 h
    obtain ⟨steps, directory⟩ := enter_eq_ok.1 enters
    obtain ⟨inside, leads, there, rest⟩ := ih directory follows
    refine ⟨inside, ?_, there, rest⟩
    cases front with
    | nil =>
      cases leads
      exact steps
    | cons next front => exact (follow_cons_eq_ok (List.cons_ne_nil _ _)).2 ⟨first, enters, leads⟩

/-- What can be wrong with a path by itself is not wrong with a text that it begins with. -/
theorem locate_front {front back : String} (ne : front ≠ "")
    (h : tree.locate (front ++ back) = .ok place) :
    tree.locate front = tree.follow [] (Path.names front) := by
  obtain ⟨c, cs, hfront⟩ := List.exists_cons_of_ne_nil (mt String.toList_eq_nil_iff.1 ne)
  unfold locate at h ⊢
  rw [String.toList_append, String.utf8ByteSize_append] at h
  split at h
  · cases h
  · next nul =>
    rw [if_neg (by simp at nul ⊢; tauto)]
    split at h
    · cases h
    · next long =>
      rw [if_neg (by omega)]
      split at h
      · cases h
      · next starts =>
        rw [if_neg]
        unfold Path.startsWithSlash at starts ⊢
        rw [String.toList_append, hfront] at starts
        rw [hfront]
        simp at starts ⊢
        exact ⟨ne, starts.2⟩

/-- The directory above what a path leads to is there. -/
theorem ready_parent (leads : tree.locate path = .ok place) :
    tree.IsReady ((Path.parent? path).getD "") := by
  cases parent : Path.parent? path with
  | none => exact .inl rfl
  | some text =>
    rw [Option.getD_some]
    rcases Path.exists_of_parent parent with rfl | ⟨front, back, split, rfl, named⟩
    · exact .inl rfl
    by_cases here : Path.ofSegments front = ""
    · exact .inl here
    have front_ne : front ≠ [] := by
      rintro rfl
      exact here rfl
    have noSlash : ∀ segment ∈ front, '/' ∉ segment.toList := fun segment hsegment =>
      Path.not_mem_of_mem_segments (by rw [split]; exact List.mem_append_left _ hsegment)
    have names : Path.names path =
        Path.names (Path.ofSegments front) ++ back.filter (· != "") := by
      unfold Path.names
      rw [Path.segments_ofSegments front_ne noSlash, split, List.filter_append]
    have back_ne : back.filter (· != "") ≠ [] := by
      obtain ⟨segment, hsegment, ne⟩ := named
      exact List.ne_nil_of_mem (List.mem_filter.2 ⟨hsegment, by simpa using ne⟩)
    have follows := leads
    rw [locate_eq_follow leads, names] at follows
    obtain ⟨inside, reaches, directory, -⟩ := follow_append rfl back_ne follows
    obtain ⟨more, hpath⟩ := Path.exists_append_of_front ⟨back, split.symm⟩
    rw [hpath] at leads
    exact .inr (hasDirectory_iff.2 ⟨inside, (locate_front here leads).trans reaches, directory⟩)

end Tree
end Files
end FieldRules
