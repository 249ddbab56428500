/-
What a run that emits files leaves alone.

All that it changes are directories, which it makes, and the files of authoritative
artifacts and of records without a plan (`touched`).  An input that none of
those paths leads to is read after the run as it was compiled, also after a run
that broke off.

Only what is taken away is looked at first.  What stands at the path of an
artifact is overwritten, an input included.

What a change does to a tree is stated as a relation that it respects, and shown
once for all relations that are reflexive and transitive (`respects_deliver`).
-/
import FieldRules.CommandLine.Run
import FieldRules.Proofs.Trees
import Mathlib.Data.List.Forall2

namespace FieldRules
namespace CommandLine

open Files Tree

namespace Change

/-- Whether a relation holds between whatever tree a change is made in and the tree it leaves, also
where the change fails. -/
def Respects (R : Tree → Tree → Prop) (change : Change) : Prop := ∀ tree, R tree (change tree).2

variable {R : Tree → Tree → Prop} {first second : Change}

theorem respects_idle [Std.Refl R] : Respects R idle := fun tree => Std.Refl.refl tree

theorem Respects.andThen [Trans R R R] (h : Respects R first) (h' : Respects R second) :
    Respects R (andThen first second) := by
  intro tree
  unfold Change.andThen
  have one := h tree
  split
  · next failure after breaks =>
    rw [breaks] at one
    exact one
  · next after goes =>
    rw [goes] at one
    exact Trans.trans one (h' after)

theorem respects_inTurn [Std.Refl R] [Trans R R R] {α : Type} {change : α → Change}
    {items : List α} (h : ∀ item ∈ items, Respects R (change item)) :
    Respects R (inTurn change items) := by
  induction items with
  | nil => exact respects_idle
  | cons item items ih =>
    have rest := ih fun other hother => h other (List.mem_cons_of_mem _ hother)
    exact (h item List.mem_cons_self).andThen rest

theorem respects_makeDirectories {path : String}
    (h : ∀ tree : Tree, R tree (tree.makeDirectories path).2) :
    Respects R (makeDirectories path) := by
  intro tree
  have made := h tree
  unfold makeDirectories
  split
  · next fault after breaks =>
    rw [breaks] at made
    exact made
  · next after goes =>
    rw [goes] at made
    exact made

theorem respects_write [Std.Refl R] {path text : String}
    (h : ∀ tree after : Tree, tree.writeText path text = .ok after → R tree after) :
    Respects R (write path text) := by
  intro tree
  unfold write
  split
  · exact Std.Refl.refl tree
  · next after written => exact h tree after written

theorem respects_remove [Std.Refl R] {path : String}
    (h : ∀ tree after : Tree, tree.removeFile path = .ok after → R tree after) :
    Respects R (remove path) := by
  intro tree
  unfold remove
  split
  · exact Std.Refl.refl tree
  · next after removed => exact h tree after removed

end Change

open Change

/-! ### A compiled file -/

/-- Where the files of artifacts stand. -/
def artifactPaths (directory : String) (artifacts : List Artifact) : List String :=
  artifacts.map fun artifact => outputPath directory artifact.fileName

/-- Where the files of records would stand that should have none. -/
def orphanPaths (options : Emission.Options) (directory : String) (unit : CompiledUnit) :
    List String :=
  (unplanned unit).map fun record => outputPath directory (options.fileName record)

/-- The paths of files that may be written or taken away for a compiled file. -/
def touched (target : Target) (loaded : Loaded) : List String :=
  match loaded.result with
  | .error _ => []
  | .ok unit =>
    let directory := outputDirectory target loaded.path
    artifactPaths directory (authoritative unit) ++ orphanPaths target.options directory unit

section

variable {R : Tree → Tree → Prop} [Std.Refl R] [Trans R R R]

theorem respects_writeArtifacts {directory : String} {artifacts : List Artifact}
    (makes : ∀ tree : Tree, R tree (tree.makeDirectories directory).2)
    (writes : ∀ artifact ∈ artifacts, ∀ tree after : Tree,
      tree.writeText (outputPath directory artifact.fileName) artifact.source = .ok after →
        R tree after) :
    Respects R (inTurn (writeArtifact directory) artifacts) :=
  respects_inTurn fun artifact hartifact =>
    (respects_makeDirectories makes).andThen (respects_write (writes artifact hartifact))

theorem respects_removeOrphans {options : Emission.Options} {directory : String}
    {unit : CompiledUnit}
    (removes : ∀ path ∈ orphanPaths options directory unit, ∀ tree after : Tree,
      tree.removeFile path = .ok after → R tree after) :
    Respects R (removeOrphans options directory unit) := by
  intro tree
  exact respects_inTurn
    (fun path hpath => respects_remove (removes path (List.mem_filter.1 hpath).1)) tree

theorem respects_deliver {target : Target} {loaded : Loaded}
    (makes : ∀ tree : Tree, R tree (tree.makeDirectories (outputDirectory target loaded.path)).2)
    (writes : ∀ path ∈ touched target loaded, ∀ (text : String) (tree after : Tree),
      tree.writeText path text = .ok after → R tree after)
    (removes : ∀ path ∈ touched target loaded, ∀ tree after : Tree,
      tree.removeFile path = .ok after → R tree after) :
    Respects R (deliver target loaded) := by
  unfold deliver
  unfold touched at writes removes
  cases result : loaded.result with
  | error e => exact respects_idle
  | ok unit =>
    simp only [result] at writes removes
    refine Respects.andThen (respects_writeArtifacts makes fun artifact hartifact => ?_)
      (respects_removeOrphans fun path hpath => removes path (List.mem_append_right _ hpath))
    exact writes _ (List.mem_append_left _ (List.mem_map_of_mem hartifact)) _

end

theorem spares_deliver (target : Target) (loaded : Loaded) :
    Respects (Spares (touched target loaded)) (deliver target loaded) :=
  respects_deliver (fun tree => spares_makeDirectories tree _)
    (fun _ hpath _ _ _ => spares_writeText hpath) (fun _ hpath _ _ => spares_removeFile hpath)

theorem spares_deliverAll (target : Target) (loaded : List Loaded) :
    Respects (Spares (loaded.flatMap (touched target))) (inTurn (deliver target) loaded) :=
  respects_inTurn fun l hl tree =>
    (spares_deliver target l tree).mono fun _ hpath => List.mem_flatMap.2 ⟨l, hl, hpath⟩

/-! ### A run -/

theorem load_eq_ok {tree : Tree} {options : Emission.Options} {path : String} {l : Loaded} :
    load tree options path = .ok l ↔
      ∃ text, tree.readText path = .ok text ∧
        l = ⟨path, CompiledUnit.compile options (sourceName path) text⟩ := by
  unfold load
  cases tree.readText path <;> simp [eq_comm]

/-- Files are loaded one by one. -/
theorem loadAll_eq_ok {tree : Tree} {options : Emission.Options} {paths : List String}
    {loaded : List Loaded} :
    loadAll tree options paths = .ok loaded ↔
      List.Forall₂ (fun path l => load tree options path = .ok l) paths loaded := by
  induction paths generalizing loaded with
  | nil =>
    rw [List.forall₂_nil_left_iff, loadAll, Except.ok.injEq, eq_comm]
  | cons path paths ih =>
    rw [List.forall₂_cons_left_iff, loadAll]
    cases load tree options path with
    | error failure => simp
    | ok l =>
      simp only [← ih]
      cases loadAll tree options paths with
      | error failure => simp [Except.map]
      | ok more => simp [Except.map, eq_comm]

theorem mem_loadAll {tree : Tree} {options : Emission.Options} {paths : List String}
    {loaded : List Loaded} (loads : loadAll tree options paths = .ok loaded) {l : Loaded}
    (hl : l ∈ loaded) : ∃ path ∈ paths, load tree options path = .ok l := by
  induction loadAll_eq_ok.1 loads with
  | nil => cases hl
  | @cons path first paths loaded loadsPath rest ih =>
    rcases List.mem_cons.1 hl with rfl | hl
    · exact ⟨path, List.mem_cons_self, loadsPath⟩
    · obtain ⟨other, hother, loadsOther⟩ := ih (loadAll_eq_ok.2 rest) hl
      exact ⟨other, List.mem_cons_of_mem _ hother, loadsOther⟩

/-- Whatever is loaded was read, and compiled as it was read. -/
theorem mem_loadInputs {tree : Tree} {options : Emission.Options} {inputs : List String}
    {loaded : List Loaded} (loads : loadInputs tree options inputs = .ok loaded) {l : Loaded}
    (hl : l ∈ loaded) :
    ∃ text, tree.readText l.path = .ok text ∧
      l.result = CompiledUnit.compile options (sourceName l.path) text := by
  unfold loadInputs at loads
  split at loads
  · cases loads
  · obtain ⟨path, -, loadsPath⟩ := mem_loadAll loads hl
    obtain ⟨text, reads, rfl⟩ := load_eq_ok.1 loadsPath
    exact ⟨text, reads, rfl⟩

/-- Inputs that can be loaded, with what evaluation shows of them. -/
theorem exists_loadInputs (tree : Tree) (options : Emission.Options) (inputs : List String)
    {p : List Loaded → Bool}
    (h : (match loadInputs tree options inputs with
      | .ok loaded => p loaded
      | .error _ => false) = true) :
    ∃ loaded, loadInputs tree options inputs = .ok loaded ∧ p loaded = true := by
  cases loads : loadInputs tree options inputs with
  | error failure => rw [loads] at h; cases h
  | ok loaded => rw [loads] at h; exact ⟨loaded, rfl, h⟩

theorem report_tree (style : Style) (format : ReportFormat)
    (reports : List (Loaded × List String)) (tree : Tree) :
    (report style format reports tree).tree = tree := by
  cases format <;> rfl

theorem generate_tree {style : Style} {target : Target} {inputs : List String} {tree : Tree}
    {loaded : List Loaded} (loads : loadInputs tree target.options inputs = .ok loaded) :
    (generate style target inputs tree).tree = (inTurn (deliver target) loaded tree).2 := by
  unfold generate
  simp only [loads]
  split
  · next failure after breaks => rw [breaks]; rfl
  · next after goes => rw [goes, report_tree]

/-- A run changes no file that was read as an input: afterwards each holds the text that was
compiled, as long as no file that the run writes or takes away is at the place of one.  That goes for
runs that break off as well; one whose inputs cannot be loaded changes nothing at all. -/
theorem generate_keepsInputs (style : Style) (target : Target) (inputs : List String)
    (tree : Tree) :
    let after := (generate style target inputs tree).tree
    (∀ failure, loadInputs tree target.options inputs = .error failure → after = tree) ∧
    ∀ loaded, loadInputs tree target.options inputs = .ok loaded →
      (∀ path ∈ loaded.flatMap (touched target), ∀ l ∈ loaded, after.Apart path l.path) →
      ∀ l ∈ loaded, ∃ text, tree.readText l.path = .ok text ∧
        l.result = CompiledUnit.compile target.options (sourceName l.path) text ∧
        after.readText l.path = .ok text := by
  refine ⟨fun failure breaks => ?_, fun loaded loads apart l hl => ?_⟩
  · unfold generate
    rw [breaks]
    rfl
  · obtain ⟨text, reads, compiled⟩ := mem_loadInputs loads hl
    rw [generate_tree loads] at apart ⊢
    have spares := spares_deliverAll target loaded tree
    exact ⟨text, reads, compiled, spares.readText (fun path hpath => apart path hpath l hl) reads⟩

/-- A source with one record that has checks and one that lost them, of which a file is left. -/
def halfAnnotated : Tree :=
  ⟨[(["m"], .directory),
    (["m", "a.go"], .file (.text
      ("package p\ntype New struct \x7b\n// +govalid:required\nX int\n\x7d\n" ++
        "type Old struct \x7b\x7d\n"))),
    (["m", "old_validator.go"], .file (.text
      "// Code generated by govalid; DO NOT EDIT.\n// source: a.go\n"))]⟩

def besideSource : Target := ⟨.default, .human, none⟩

/-- One file is written and one is taken away, beside the input that stays. -/
theorem generate_keepsInputs_halfAnnotated :
    let after := (generate ⟨false⟩ besideSource ["m/a.go"] halfAnnotated).tree
    (after.namesIn "m" = ["a.go", "new_validator.go"]) ∧
    ∃ loaded, loadInputs halfAnnotated besideSource.options ["m/a.go"] = .ok loaded ∧
      (loaded.flatMap (touched besideSource) =
          ["m/new_validator.go", "m/old_validator.go"] ∧
        ∀ path ∈ loaded.flatMap (touched besideSource), ∀ l ∈ loaded, after.Apart path l.path) ∧
      ∀ l ∈ loaded, ∃ text, halfAnnotated.readText l.path = .ok text ∧
        l.result = CompiledUnit.compile besideSource.options (sourceName l.path) text ∧
        after.readText l.path = .ok text := by
  intro after
  refine ⟨by decide +kernel, ?_⟩
  obtain ⟨loaded, loads, facts⟩ := exists_loadInputs halfAnnotated besideSource.options
    ["m/a.go"]
    (p := fun loaded => decide (loaded.flatMap (touched besideSource) =
          ["m/new_validator.go", "m/old_validator.go"] ∧
        ∀ path ∈ loaded.flatMap (touched besideSource), ∀ l ∈ loaded, after.Apart path l.path))
    (by decide +kernel)
  have facts := of_decide_eq_true facts
  exact ⟨loaded, loads, facts, (generate_keepsInputs ⟨false⟩ besideSource ["m/a.go"]
    halfAnnotated).2 loaded loads facts.2⟩

/-- A source that has the name of the file that is emitted for its record. -/
def namesake : Tree :=
  ⟨[(["user_validator.go"], .file (.text
    "package p\ntype User struct \x7b\n// +govalid:required\nX int\n\x7d\n"))]⟩

/-- Such a source is overwritten, and the run succeeds. -/
theorem generate_overwrites :
    let outcome := generate ⟨false⟩ besideSource ["user_validator.go"] namesake
    outcome.ending = .succeeded ∧
    ∃ loaded, loadInputs namesake besideSource.options ["user_validator.go"] = .ok loaded ∧
      ¬∀ l ∈ loaded, ∃ text, namesake.readText l.path = .ok text ∧
        l.result = CompiledUnit.compile besideSource.options (sourceName l.path) text ∧
        outcome.tree.readText l.path = .ok text := by
  intro outcome
  refine ⟨by decide +kernel, ?_⟩
  obtain ⟨loaded, loads, facts⟩ := exists_loadInputs namesake besideSource.options
    ["user_validator.go"]
    (p := fun loaded => decide (∃ l ∈ loaded,
      (outcome.tree.readText l.path).toOption ≠ (namesake.readText l.path).toOption))
    (by decide +kernel)
  obtain ⟨l, hl, differs⟩ := of_decide_eq_true facts
  refine ⟨loaded, loads, fun keeps => ?_⟩
  obtain ⟨text, before, -, after⟩ := keeps l hl
  exact differs (by rw [before, after])

end CommandLine
end FieldRules
