/-
What changes of a tree leave as it was.

A path that leads to a place keeps leading there for as long as directories stay
(`locate_of_keeps`).  Writing, removing and making directories all keep them, and
what they do to other places is bounded: `Spares` says that beyond new
directories nothing changed but places that certain paths lead to.  Changes made
one after another are put together by `Spares.trans`.

The places a path leads to are those after the changes.  Before them it may lead
nowhere yet.
-/
import FieldRules.Files.Access

namespace FieldRules
namespace Files
namespace Tree

variable {tree before after : Tree} {place other inside : Place} {path text name : String}

/-- Whether the directories of a tree are directories later on. -/
def KeepsDirectories (before after : Tree) : Prop :=
  ∀ place, before.at? place = some .directory → after.at? place = some .directory

theorem KeepsDirectories.refl (tree : Tree) : KeepsDirectories tree tree := fun _ h => h

theorem KeepsDirectories.trans {first second third : Tree} (h : KeepsDirectories first second)
    (h' : KeepsDirectories second third) : KeepsDirectories first third :=
  fun place stands => h' place (h place stands)

/-! ### Where paths lead -/

theorem enter_eq_ok :
    tree.enter place name = .ok inside ↔
      step place name = .ok inside ∧ tree.at? inside = some .directory := by
  unfold enter
  cases step place name with
  | error fault => simp
  | ok next =>
    dsimp only
    rcases stands : tree.at? next with _ | _ | content <;> grind

theorem follow_cons_eq_ok {names : List String} (ne : names ≠ []) :
    tree.follow place (name :: names) = .ok other ↔
      ∃ inside, tree.enter place name = .ok inside ∧ tree.follow inside names = .ok other := by
  obtain ⟨next, rest, rfl⟩ := List.exists_cons_of_ne_nil ne
  rw [follow]
  · cases tree.enter place name <;> simp
  · simp

theorem follow_of_keeps (keeps : KeepsDirectories before after) {names : List String}
    (h : before.follow place names = .ok other) : after.follow place names = .ok other := by
  induction names generalizing place with
  | nil => exact h
  | cons name names ih =>
    cases names with
    | nil => exact h
    | cons next rest =>
      obtain ⟨inside, enters, follows⟩ := (follow_cons_eq_ok (List.cons_ne_nil _ _)).1 h
      have stays := (enter_eq_ok.1 enters).imp_right (keeps inside)
      exact (follow_cons_eq_ok (List.cons_ne_nil _ _)).2
        ⟨inside, enter_eq_ok.2 stays, ih follows⟩

/-- What can be wrong with a path by itself is not wrong with one that leads somewhere. -/
theorem locate_eq_follow (h : before.locate path = .ok place) (tree : Tree) :
    tree.locate path = tree.follow [] (Path.names path) := by
  unfold locate at h ⊢
  split at h
  · cases h
  · split at h
    · cases h
    · split at h
      · cases h
      · rw [if_neg (by assumption), if_neg (by assumption), if_neg (by assumption)]

theorem locate_of_keeps (keeps : KeepsDirectories before after)
    (h : before.locate path = .ok place) : after.locate path = .ok place := by
  rw [locate_eq_follow h after]
  rw [locate_eq_follow h before] at h
  exact follow_of_keeps keeps h

theorem entry_eq_ok {stands : Entry} :
    tree.entry path = .ok stands ↔
      ∃ place, tree.locate path = .ok place ∧ tree.at? place = some stands ∧
        (stands ≠ .directory → Path.endsWithSlash path = false) := by
  unfold entry
  cases tree.locate path with
  | error fault => simp
  | ok place =>
    rcases h : tree.at? place with _ | _ | content
    · simp [h]
    · simp only [h, Except.ok.injEq, Option.some.injEq, exists_eq_left']
      grind
    · cases hs : Path.endsWithSlash path <;> simp [h]
      grind

theorem hasDirectory_iff :
    tree.hasDirectory path = true ↔
      ∃ place, tree.locate path = .ok place ∧ tree.at? place = some .directory := by
  have holds : tree.hasDirectory path = true ↔ tree.entry path = .ok .directory := by
    unfold hasDirectory
    split <;> simp_all
  simp [holds, entry_eq_ok]

theorem readText_eq_ok :
    tree.readText path = .ok text ↔
      ∃ place, tree.locate path = .ok place ∧ tree.at? place = some (.file (.text text)) ∧
        Path.endsWithSlash path = false := by
  have holds : tree.readText path = .ok text ↔
      tree.entry path = .ok (.file (.text text)) := by
    unfold readText
    split <;> simp_all
  simp [holds, entry_eq_ok]

/-- Whether two paths lead to no common place. -/
def Apart (tree : Tree) (path other : String) : Prop :=
  ∀ place, tree.locate path = .ok place → tree.locate other ≠ .ok place

theorem Apart.symm {other : String} (h : tree.Apart path other) : tree.Apart other path :=
  fun place leads same => h place same leads

instance (tree : Tree) (path other : String) : Decidable (tree.Apart path other) :=
  decidable_of_iff ((tree.locate path).toOption = none ∨
      (tree.locate path).toOption ≠ (tree.locate other).toOption) (by
    unfold Apart
    cases tree.locate path <;> cases tree.locate other <;> simp [Except.toOption, eq_comm])

/-! ### What single changes do -/

theorem writeText_eq_ok (h : tree.writeText path text = .ok after) :
    ∃ place, tree.locate path = .ok place ∧ Path.endsWithSlash path = false ∧
      tree.at? place ≠ some .directory ∧ after = tree.set place (.file (.text text)) := by
  unfold writeText at h
  split at h
  · cases h
  · next place leads =>
    split at h
    · cases h
    · next slash =>
      split at h
      · cases h
      · next stands =>
        cases h
        exact ⟨place, leads, Bool.eq_false_iff.2 slash, stands, rfl⟩

theorem removeFile_eq_ok (h : tree.removeFile path = .ok after) :
    ∃ place content, tree.locate path = .ok place ∧
      tree.at? place = some (.file content) ∧ after = tree.erase place := by
  unfold removeFile at h
  split at h
  · cases h
  · next place leads =>
    split at h
    · cases h
    · cases h
    · next content stands =>
      split at h
      · cases h
      · cases h
        exact ⟨place, content, leads, stands, rfl⟩

theorem ensureDirectory_eq_ok (h : tree.ensureDirectory path = .ok after) :
    (∃ place, tree.locate path = .ok place ∧ tree.at? place = none ∧
        after = tree.set place .directory) ∨
      (tree.hasDirectory path = true ∧ after = tree) := by
  unfold ensureDirectory makeDirectory at h
  cases leads : tree.locate path with
  | error fault =>
    simp only [leads] at h
    split at h
    · next there => cases h; exact .inr ⟨there, rfl⟩
    · cases h
  | ok place =>
    cases stands : tree.at? place with
    | none => simp only [leads, stands] at h; cases h; exact .inl ⟨place, rfl, stands, rfl⟩
    | some other =>
      simp only [leads, stands] at h
      split at h
      · next there => cases h; exact .inr ⟨there, rfl⟩
      · cases h

theorem isAbove_of_at? (h : tree.at? place ≠ some .directory) : isAbove place = false := by
  unfold at? at h
  split at h
  · exact absurd rfl h
  · next above => exact Bool.eq_false_iff.2 above

theorem insert_of_lookup {entry : Entry} {entries : List (Place × Entry)}
    (h : lookup place entries = some entry) : insert place entry entries = entries := by
  induction entries with
  | nil => cases h
  | cons first entries ih =>
    unfold lookup at h
    unfold insert
    split
    · next same =>
      rw [if_pos same] at h
      cases h
      rw [← same]
    · next ne =>
      rw [if_neg ne] at h
      rw [ih h]

/-- Putting at a place what stands there changes nothing, not even the order of entries. -/
theorem set_of_at? {entry : Entry} (above : isAbove place = false)
    (h : tree.at? place = some entry) : tree.set place entry = tree := by
  rw [at?, if_neg (Bool.eq_false_iff.1 above)] at h
  rw [set, insert_of_lookup h]

/-! ### What changes leave -/

/-- Whether a tree differs from an earlier one at most in new directories and at places that some
paths lead to. -/
structure Spares (paths : List String) (before after : Tree) : Prop where
  keeps : KeepsDirectories before after
  elsewhere : ∀ place, after.at? place = before.at? place ∨
    (before.at? place = none ∧ after.at? place = some .directory) ∨
    ∃ path ∈ paths, after.locate path = .ok place

namespace Spares

variable {paths more : List String} {first second third final : Tree} {content : Content}

theorem refl (paths : List String) (tree : Tree) : Spares paths tree tree :=
  ⟨.refl tree, fun _ => .inl rfl⟩

theorem mono (h : Spares paths before after) (sub : paths ⊆ more) : Spares more before after :=
  ⟨h.keeps, fun place => (h.elsewhere place).imp_right (Or.imp_right fun ⟨path, hpath, leads⟩ =>
    ⟨path, sub hpath, leads⟩)⟩

theorem trans (h : Spares paths first second) (h' : Spares paths second third) :
    Spares paths first third := by
  refine ⟨h.keeps.trans h'.keeps, fun place => ?_⟩
  rcases h'.elsewhere place with same | ⟨free, made⟩ | touched
  · rw [same]
    refine (h.elsewhere place).imp_right (Or.imp_right fun ⟨path, hpath, leads⟩ => ?_)
    exact ⟨path, hpath, locate_of_keeps h'.keeps leads⟩
  · rcases h.elsewhere place with same | ⟨-, stands⟩ | ⟨path, hpath, leads⟩
    · exact .inr (.inl ⟨same ▸ free, made⟩)
    · rw [stands] at free
      cases free
    · exact .inr (.inr ⟨path, hpath, locate_of_keeps h'.keeps leads⟩)
  · exact .inr (.inr touched)

instance (paths : List String) : Std.Refl (Spares paths) := ⟨Spares.refl paths⟩

instance (paths : List String) : Trans (Spares paths) (Spares paths) (Spares paths) :=
  ⟨Spares.trans⟩

/-- A file that is there before or afterwards is there both before and afterwards, unless one of the
paths leads to it in the end. -/
theorem at?_eq (h : Spares paths before after) (keeps : KeepsDirectories after final)
    (apart : ∀ path ∈ paths, final.locate path ≠ .ok place)
    (file : before.at? place = some (.file content) ∨ after.at? place = some (.file content)) :
    after.at? place = before.at? place := by
  rcases h.elsewhere place with same | ⟨free, made⟩ | ⟨path, hpath, leads⟩
  · exact same
  · rcases file with file | file
    · rw [free] at file
      cases file
    · rw [made] at file
      cases file
  · exact absurd (locate_of_keeps keeps leads) (apart path hpath)

theorem readText (h : Spares paths before after) {source : String}
    (apart : ∀ path ∈ paths, after.Apart path source)
    (reads : before.readText source = .ok text) : after.readText source = .ok text := by
  obtain ⟨place, leads, stands, slash⟩ := readText_eq_ok.1 reads
  have leads' := locate_of_keeps h.keeps leads
  refine readText_eq_ok.2 ⟨place, leads', ?_, slash⟩
  rw [h.at?_eq (.refl after) (fun path hpath same => apart path hpath place same leads')
    (.inl stands), stands]

end Spares

variable {paths : List String}

/-- What changes only the place of a path, and no directory, spares everything else. -/
theorem spares_of_changed (hpath : path ∈ paths) (leads : tree.locate path = .ok place)
    (stands : tree.at? place ≠ some .directory)
    (others : ∀ other, other ≠ place → after.at? other = tree.at? other) :
    Spares paths tree after := by
  have keeps : KeepsDirectories tree after := by
    intro other directory
    rw [others other fun same => stands (same ▸ directory), directory]
  refine ⟨keeps, fun other => ?_⟩
  by_cases same : other = place
  · exact .inr (.inr ⟨path, hpath, same ▸ locate_of_keeps keeps leads⟩)
  · exact .inl (others other same)

theorem spares_writeText (hpath : path ∈ paths) (h : tree.writeText path text = .ok after) :
    Spares paths tree after := by
  obtain ⟨place, leads, -, stands, rfl⟩ := writeText_eq_ok h
  exact spares_of_changed hpath leads stands fun other ne => at?_set_ne ne tree _

theorem spares_removeFile (hpath : path ∈ paths) (h : tree.removeFile path = .ok after) :
    Spares paths tree after := by
  obtain ⟨place, content, leads, stands, rfl⟩ := removeFile_eq_ok h
  exact spares_of_changed hpath leads (by rw [stands]; simp) fun other ne => at?_erase_ne ne tree

/-- What was written is read. -/
theorem readText_of_writeText (h : tree.writeText path text = .ok after) :
    after.readText path = .ok text := by
  have keeps := (spares_writeText (List.mem_singleton_self path) h).keeps
  obtain ⟨place, leads, slash, stands, rfl⟩ := writeText_eq_ok h
  exact readText_eq_ok.2
    ⟨place, locate_of_keeps keeps leads, at?_set_self (isAbove_of_at? stands) tree _, slash⟩

/-- To write what is read already changes nothing. -/
theorem writeText_of_readText (h : tree.readText path = .ok text) :
    tree.writeText path text = .ok tree := by
  obtain ⟨place, leads, stands, slash⟩ := readText_eq_ok.1 h
  have above : isAbove place = false := isAbove_of_at? (by rw [stands]; simp)
  unfold writeText
  simp only [leads, slash, stands, Bool.false_eq_true, if_false]
  rw [set_of_at? above stands]

theorem spares_ensureDirectory (h : tree.ensureDirectory path = .ok after) :
    Spares paths tree after := by
  rcases ensureDirectory_eq_ok h with ⟨place, -, free, rfl⟩ | ⟨-, rfl⟩
  · have below : isAbove place = false := isAbove_of_at? (by rw [free]; simp)
    have made := at?_set_self below tree .directory
    refine ⟨fun other directory => ?_, fun other => ?_⟩
    · by_cases same : other = place
      · rw [same, made]
      · rw [at?_set_ne same, directory]
    · by_cases same : other = place
      · exact .inr (.inl ⟨same ▸ free, same ▸ made⟩)
      · exact .inl (at?_set_ne same tree _)
  · exact .refl paths _

theorem spares_makeDirectoriesWithin (fuel : Nat) (tree : Tree) (path : String) :
    Spares paths tree (makeDirectoriesWithin fuel tree path).2 := by
  induction fuel generalizing tree path with
  | zero => exact .refl paths tree
  | succ fuel ih =>
    rw [makeDirectoriesWithin]
    split
    · exact .refl paths tree
    · split
      · next made => exact spares_ensureDirectory made
      · split
        · exact .refl paths tree
        · next parent _ =>
          have above := ih tree parent
          split
          · next fault after stops => exact stops ▸ above
          · next between makes =>
            rw [makes] at above
            split
            · next made => exact above.trans (spares_ensureDirectory made)
            · exact above
      · exact .refl paths tree

theorem spares_makeDirectories (tree : Tree) (path : String) :
    Spares paths tree (tree.makeDirectories path).2 :=
  spares_makeDirectoriesWithin _ tree path

end Tree
end Files
end FieldRules
