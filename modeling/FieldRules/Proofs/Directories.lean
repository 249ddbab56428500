/-
Directories that are there, and paths that lead where they led before.

A path may lead somewhere only because directories were made in the meantime.  It
does not if none were made, as all that files are put into were ready (`Steady`).
And it does not lead to an old file if none of its names goes up
(`locate_of_file`): the directories that it passes are those above the file,
which were there already.
-/
import FieldRules.Proofs.Trees
import Mathlib.Data.List.Induction

namespace FieldRules
namespace Files
namespace Tree

variable {tree before after : Tree} {place other inside : Place} {path text name : String}

/-! ### Directories that need no making -/

/-- Whether files can be put into a directory as things are: it is there, or it is the working
directory, which no name stands for. -/
def IsReady (tree : Tree) (directory : String) : Prop :=
  directory = "" ∨ tree.hasDirectory directory = true

theorem IsReady.of_keeps {directory : String} (h : before.IsReady directory)
    (keeps : KeepsDirectories before after) : after.IsReady directory := by
  refine h.imp_right fun there => ?_
  obtain ⟨place, leads, stands⟩ := hasDirectory_iff.1 there
  exact hasDirectory_iff.2 ⟨place, locate_of_keeps keeps leads, keeps place stands⟩

theorem ensureDirectory_of_hasDirectory (h : tree.hasDirectory path = true) :
    tree.ensureDirectory path = .ok tree := by
  obtain ⟨place, leads, stands⟩ := hasDirectory_iff.1 h
  unfold ensureDirectory makeDirectory
  simp only [leads, stands, h, if_true]

theorem ready_of_ensureDirectory (h : tree.ensureDirectory path = .ok after) :
    after.IsReady path := by
  have spares : Spares [] tree after := spares_ensureDirectory h
  rcases ensureDirectory_eq_ok h with ⟨place, leads, free, rfl⟩ | ⟨there, rfl⟩
  · have below : isAbove place = false := isAbove_of_at? (by rw [free]; simp)
    exact .inr (hasDirectory_iff.2
      ⟨place, locate_of_keeps spares.keeps leads, at?_set_self below tree .directory⟩)
  · exact .inr there

theorem makeDirectories_of_ready (h : tree.IsReady path) :
    tree.makeDirectories path = (none, tree) := by
  unfold makeDirectories makeDirectoriesWithin
  rcases h with rfl | there
  · rfl
  · split
    · rfl
    · rw [ensureDirectory_of_hasDirectory there]

theorem ready_of_makeDirectories (h : tree.makeDirectories path = (none, after)) :
    after.IsReady path := by
  unfold makeDirectories makeDirectoriesWithin at h
  split at h
  · next empty => exact .inl (String.isEmpty_iff.1 empty)
  · split at h
    · next made => cases h; exact ready_of_ensureDirectory made
    · split at h
      · cases h
      · split at h
        · cases h
        · split at h
          · next made => cases h; exact ready_of_ensureDirectory made
          · cases h
    · cases h

/-! ### Changes that make no directories -/

/-- Whether two trees have the same directories if some were ready in the first. -/
def Steady (directories : List String) (before after : Tree) : Prop :=
  (∀ directory ∈ directories, before.IsReady directory) →
    KeepsDirectories before after ∧ KeepsDirectories after before

namespace Steady

variable {directories : List String}

instance (directories : List String) : Std.Refl (Steady directories) :=
  ⟨fun tree _ => ⟨.refl tree, .refl tree⟩⟩

theorem trans {first second third : Tree} (h : Steady directories first second)
    (h' : Steady directories second third) : Steady directories first third := by
  intro ready
  obtain ⟨keeps, back⟩ := h ready
  obtain ⟨keeps', back'⟩ := h' fun directory hdirectory =>
    (ready directory hdirectory).of_keeps keeps
  exact ⟨keeps.trans keeps', back'.trans back⟩

instance (directories : List String) :
    Trans (Steady directories) (Steady directories) (Steady directories) :=
  ⟨Steady.trans⟩

/-- What changes one place, where there is no directory before or after, makes none. -/
theorem of_changed (stands : tree.at? place ≠ some .directory)
    (stands' : after.at? place ≠ some .directory)
    (others : ∀ other, other ≠ place → after.at? other = tree.at? other) :
    Steady directories tree after := by
  refine fun _ => ⟨fun other directory => ?_, fun other directory => ?_⟩
  · rw [others other fun same => stands (same ▸ directory), directory]
  · rw [← others other fun same => stands' (same ▸ directory), directory]

end Steady

theorem steady_writeText {directories : List String} (h : tree.writeText path text = .ok after) :
    Steady directories tree after := by
  obtain ⟨place, -, -, stands, rfl⟩ := writeText_eq_ok h
  refine .of_changed stands ?_ fun other ne => at?_set_ne ne tree _
  rw [at?_set_self (isAbove_of_at? stands)]
  simp

theorem steady_removeFile {directories : List String} (h : tree.removeFile path = .ok after) :
    Steady directories tree after := by
  obtain ⟨place, content, -, file, rfl⟩ := removeFile_eq_ok h
  have stands : tree.at? place ≠ some .directory := by rw [file]; simp
  refine .of_changed stands ?_ fun other ne => at?_erase_ne ne tree
  rw [at?_erase_self (isAbove_of_at? stands)]
  simp

theorem steady_makeDirectories {directories : List String} (hpath : path ∈ directories) :
    Steady directories tree (tree.makeDirectories path).2 := by
  intro ready
  rw [makeDirectories_of_ready (ready path hpath)]
  exact ⟨.refl tree, .refl tree⟩

/-! ### Paths that do not go up -/

/-- Whether all that a tree lists stands in a directory. -/
def IsRooted (tree : Tree) : Prop :=
  ∀ entry ∈ tree.entries, tree.at? entry.1.dropLast = some .directory

instance (tree : Tree) : Decidable tree.IsRooted :=
  inferInstanceAs (Decidable (∀ entry ∈ tree.entries, _))

theorem mem_of_lookup {entry : Entry} {entries : List (Place × Entry)}
    (h : lookup place entries = some entry) : (place, entry) ∈ entries := by
  induction entries with
  | nil => cases h
  | cons first entries ih =>
    unfold lookup at h
    split at h
    · next same =>
      cases h
      rw [← same]
      exact List.mem_cons_self
    · exact List.mem_cons_of_mem _ (ih h)

theorem IsRooted.at?_dropLast (rooted : tree.IsRooted) {entry : Entry}
    (stands : tree.at? place = some entry) : tree.at? place.dropLast = some .directory := by
  unfold at? at stands
  split at stands
  · next above =>
    have drops : isAbove place.dropLast = true := by
      unfold isAbove at above ⊢
      exact List.all_eq_true.2 fun name hname =>
        List.all_eq_true.1 above name (List.dropLast_subset _ hname)
    unfold at?
    rw [if_pos drops]
  · exact rooted _ (mem_of_lookup stands)

theorem IsRooted.at?_above (rooted : tree.IsRooted) {entry : Entry} {more : List String}
    (ne : more ≠ []) (stands : tree.at? (place ++ more) = some entry) :
    tree.at? place = some .directory := by
  induction more using List.reverseRecOn generalizing entry with
  | nil => exact absurd rfl ne
  | append_singleton more name ih =>
    have directory := rooted.at?_dropLast stands
    rw [← List.append_assoc, List.dropLast_concat] at directory
    by_cases last : more = []
    · rwa [last, List.append_nil] at directory
    · exact ih last directory

theorem step_extends (up : name ≠ "..") (h : step place name = .ok inside) :
    place <+: inside := by
  unfold step at h
  split at h
  · cases h
    exact List.prefix_refl place
  · split at h
    · cases h
    · cases h
      exact List.prefix_append place [name]

theorem follow_extends {names : List String} (up : ".." ∉ names)
    (h : tree.follow place names = .ok other) : place <+: other := by
  induction names generalizing place with
  | nil =>
    cases h
    exact List.prefix_refl _
  | cons name names ih =>
    simp only [List.mem_cons, not_or] at up
    cases names with
    | nil => exact step_extends (Ne.symm up.1) h
    | cons next rest =>
      obtain ⟨inside, enters, follows⟩ := (follow_cons_eq_ok (List.cons_ne_nil _ _)).1 h
      exact (step_extends (Ne.symm up.1) (enter_eq_ok.1 enters).1).trans (ih up.2 follows)

/-- Names that do not go up lead to a file through the directories above it. -/
theorem follow_of_file {names : List String} {content : Content} (rooted : before.IsRooted)
    (up : ".." ∉ names) (stands : before.at? other = some (.file content))
    (stays : after.at? other = some (.file content))
    (h : after.follow place names = .ok other) : before.follow place names = .ok other := by
  induction names generalizing place with
  | nil => exact h
  | cons name names ih =>
    simp only [List.mem_cons, not_or] at up
    cases names with
    | nil => exact h
    | cons next rest =>
      obtain ⟨inside, enters, follows⟩ := (follow_cons_eq_ok (List.cons_ne_nil _ _)).1 h
      obtain ⟨steps, directory⟩ := enter_eq_ok.1 enters
      obtain ⟨more, rfl⟩ := follow_extends up.2 follows
      have proper : more ≠ [] := by
        rintro rfl
        rw [List.append_nil, directory] at stays
        cases stays
      exact (follow_cons_eq_ok (List.cons_ne_nil _ _)).2
        ⟨inside, enter_eq_ok.2 ⟨steps, rooted.at?_above proper stands⟩, ih up.2 follows⟩

theorem locate_of_file {content : Content} (rooted : before.IsRooted)
    (up : ".." ∉ Path.names path) (stands : before.at? place = some (.file content))
    (stays : after.at? place = some (.file content)) (h : after.locate path = .ok place) :
    before.locate path = .ok place := by
  rw [locate_eq_follow h before]
  rw [locate_eq_follow h after] at h
  exact follow_of_file rooted up stands stays h

end Tree
end Files
end FieldRules
