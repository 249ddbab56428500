/-
What a run leaves for another run with the same inputs.

A run that was not broken off leaves each compiled file delivered: the files of its
authoritative artifacts hold what they should, and none is left of a record that
should have none (`IsDelivered`).  To deliver such a file again changes nothing,
so a check finds nothing stale and a further run ends as the first one did.

Two things could come in between.  The files of two records may be at one place,
or at that of an input; then the one written last stays.  And a path may lead to
an old file only through directories that the run makes later: the file is not
seen when it is looked for, but afterwards it is (`FoundBefore` rules this out).
-/
import FieldRules.Proofs.Delegates
import FieldRules.Proofs.Effects
import FieldRules.Proofs.Paths
import Mathlib.Data.List.Perm.Subperm

namespace FieldRules
namespace CommandLine

open Files Tree Change

variable {tree before after here there final : Tree} {target : Target} {loaded : List Loaded}
  {l : Loaded} {unit : CompiledUnit} {directory path : String}

/-! ### Changes that do not fail -/

theorem andThen_eq_ok {first second : Change} :
    andThen first second tree = (none, after) ↔
      ∃ between, first tree = (none, between) ∧ second between = (none, after) := by
  unfold andThen
  rcases first tree with ⟨_ | failure, between⟩ <;> simp

theorem inTurn_append_eq_ok {α : Type} {change : α → Change} {front back : List α} :
    inTurn change (front ++ back) tree = (none, after) ↔
      ∃ between, inTurn change front tree = (none, between) ∧
        inTurn change back between = (none, after) := by
  induction front generalizing tree with
  | nil => simp [inTurn, idle]
  | cons item front ih =>
    rw [List.cons_append, inTurn, inTurn, andThen_eq_ok]
    simp only [andThen_eq_ok, ih]
    grind

theorem makeDirectories_eq_ok (h : Change.makeDirectories path tree = (none, after)) :
    tree.makeDirectories path = (none, after) := by
  unfold Change.makeDirectories at h
  split at h
  · cases h
  · next made => cases h; exact made

theorem write_eq_ok {text : String} (h : write path text tree = (none, after)) :
    tree.writeText path text = .ok after := by
  unfold write at h
  split at h
  · cases h
  · next written => cases h; exact written

theorem remove_eq_ok (h : remove path tree = (none, after)) :
    tree.removeFile path = .ok after := by
  unfold remove at h
  split at h
  · cases h
  · next removed => cases h; exact removed

/-! ### Removing -/

/-- Whether files were at most taken away. -/
def Shrinks (before after : Tree) : Prop :=
  ∀ place, after.at? place = before.at? place ∨ after.at? place = none

instance : Std.Refl Shrinks := ⟨fun _ _ => .inl rfl⟩

instance : Trans Shrinks Shrinks Shrinks :=
  ⟨fun h h' place => (h' place).elim (fun same => (h place).imp same.trans same.trans) .inr⟩

theorem shrinks_removeFile (h : tree.removeFile path = .ok after) : Shrinks tree after := by
  obtain ⟨place, content, leads, stands, rfl⟩ := removeFile_eq_ok h
  intro other
  by_cases same : other = place
  · rw [same]
    exact .inr (at?_erase_self (isAbove_of_at? (by rw [stands]; simp)) tree)
  · exact .inl (at?_erase_ne same tree)

theorem shrinks_removeAll (paths : List String) : Respects Shrinks (inTurn remove paths) :=
  respects_inTurn fun _ _ => respects_remove fun _ _ => shrinks_removeFile

theorem Shrinks.at?_eq {place : Place} {content : Content} (h : Shrinks before after)
    (stands : after.at? place = some (.file content)) : before.at? place = some (.file content) := by
  rcases h place with same | gone
  · rw [← same, stands]
  · rw [gone] at stands
    cases stands

theorem removeAll_erases {paths : List String} {place : Place}
    (done : inTurn remove paths tree = (none, after)) (hpath : path ∈ paths)
    (leads : tree.locate path = .ok place) : after.at? place = none := by
  induction paths generalizing tree with
  | nil => cases hpath
  | cons first paths ih =>
    obtain ⟨between, removed, rest⟩ := andThen_eq_ok.1 done
    have removed := remove_eq_ok removed
    rcases List.mem_cons.1 hpath with rfl | hpath
    · obtain ⟨erased, content, leads', stands, rfl⟩ := removeFile_eq_ok removed
      cases leads.symm.trans leads'
      have gone := at?_erase_self (isAbove_of_at? (by rw [stands]; simp)) tree
      have shrinks := shrinks_removeAll paths (tree.erase place) place
      rw [rest, gone, or_self] at shrinks
      exact shrinks
    · have keeps := (spares_removeFile (List.mem_singleton_self first) removed).keeps
      exact ih rest hpath (locate_of_keeps keeps leads)

/-! ### Files that are delivered -/

theorem isCurrent_iff {artifact : Artifact} :
    isCurrent tree directory artifact = true ↔
      tree.readText (outputPath directory artifact.fileName) = .ok artifact.source := by
  unfold isCurrent
  split <;> simp_all

theorem holdsEmitted_iff {sourceName : String} :
    holdsEmitted tree sourceName path = true ↔
      ∃ text, tree.readText path = .ok text ∧ isEmittedFrom sourceName text = true := by
  unfold holdsEmitted
  split <;> simp_all

/-- Whether nothing is left to do for a compiled file. -/
def IsDelivered (tree : Tree) (target : Target) (loaded : Loaded) : Prop :=
  ∀ unit, loaded.result = .ok unit →
    let directory := outputDirectory target loaded.path
    (∀ artifact ∈ authoritative unit,
      tree.IsReady directory ∧ isCurrent tree directory artifact = true) ∧
    orphans tree target.options directory unit = []

theorem IsDelivered.stale (h : IsDelivered tree target l) : stale tree target l = [] := by
  unfold CommandLine.stale
  split
  · rfl
  · next unit result =>
    obtain ⟨current, none⟩ := h unit result
    have all : (authoritative unit).filter
        (fun artifact => !isCurrent tree (outputDirectory target l.path) artifact) = [] :=
      List.filter_eq_nil_iff.2 fun artifact hartifact => by
        rw [(current artifact hartifact).2]
        decide
    show List.map _ _ ++ _ = []
    rw [all, none]
    rfl

theorem writeArtifact_of_current {artifact : Artifact} (ready : tree.IsReady directory)
    (current : isCurrent tree directory artifact = true) :
    writeArtifact directory artifact tree = (none, tree) := by
  refine andThen_eq_ok.2 ⟨tree, ?_, ?_⟩
  · unfold Change.makeDirectories
    rw [makeDirectories_of_ready ready]
  · unfold write
    rw [writeText_of_readText (isCurrent_iff.1 current)]

theorem inTurn_of_idle {α : Type} {change : α → Change} {items : List α}
    (h : ∀ item ∈ items, change item tree = (none, tree)) :
    inTurn change items tree = (none, tree) := by
  induction items with
  | nil => rfl
  | cons item items ih =>
    exact andThen_eq_ok.2 ⟨tree, h item List.mem_cons_self,
      ih fun other hother => h other (List.mem_cons_of_mem _ hother)⟩

theorem IsDelivered.deliver (h : IsDelivered tree target l) :
    deliver target l tree = (none, tree) := by
  unfold CommandLine.deliver
  cases result : l.result with
  | error e => rfl
  | ok unit =>
    obtain ⟨current, none⟩ := h unit result
    refine andThen_eq_ok.2 ⟨tree, inTurn_of_idle fun artifact hartifact => ?_, ?_⟩
    · exact writeArtifact_of_current (current artifact hartifact).1 (current artifact hartifact).2
    · unfold removeOrphans
      rw [none]
      rfl

/-! ### What delivering leaves -/

theorem writeArtifact_current {artifact : Artifact}
    (done : writeArtifact directory artifact tree = (none, after)) :
    after.IsReady directory ∧ isCurrent after directory artifact = true := by
  obtain ⟨between, made, written⟩ := andThen_eq_ok.1 done
  have ready := ready_of_makeDirectories (makeDirectories_eq_ok made)
  have written := write_eq_ok written
  have keeps := (spares_writeText (List.mem_singleton_self _) written).keeps
  exact ⟨ready.of_keeps keeps, isCurrent_iff.2 (readText_of_writeText written)⟩

theorem touched_of_ok (result : l.result = .ok unit) :
    touched target l = artifactPaths (outputDirectory target l.path) (authoritative unit) ++
      orphanPaths target.options (outputDirectory target l.path) unit := by
  unfold touched
  rw [result]

/-- Files are written before orphans are looked for. -/
theorem deliver_stages (result : l.result = .ok unit)
    (done : deliver target l here = (none, there)) :
    ∃ mid, inTurn (writeArtifact (outputDirectory target l.path)) (authoritative unit) here =
        (none, mid) ∧
      removeOrphans target.options (outputDirectory target l.path) unit mid = (none, there) := by
  unfold deliver at done
  rw [result] at done
  exact andThen_eq_ok.1 done

theorem spares_writeArtifacts (directory : String) (artifacts : List Artifact) :
    Respects (Spares (artifactPaths directory artifacts))
      (inTurn (writeArtifact directory) artifacts) :=
  respects_writeArtifacts (fun tree => spares_makeDirectories tree _)
    fun _ hartifact _ _ => spares_writeText (List.mem_map_of_mem hartifact)

theorem spares_removeOrphans (options : Emission.Options) (directory : String)
    (unit : CompiledUnit) :
    Respects (Spares (orphanPaths options directory unit))
      (removeOrphans options directory unit) :=
  respects_removeOrphans fun _ hpath _ _ => spares_removeFile hpath

theorem shrinks_removeOrphans (options : Emission.Options) (directory : String)
    (unit : CompiledUnit) : Respects Shrinks (removeOrphans options directory unit) :=
  respects_removeOrphans fun _ _ _ _ => shrinks_removeFile

/-- An orphan that is seen does not stay. -/
theorem removeOrphans_erases {options : Emission.Options} {place : Place} {text : String}
    (removes : removeOrphans options directory unit here = (none, there))
    (hpath : path ∈ orphanPaths options directory unit) (leads : here.locate path = .ok place)
    (slash : Path.endsWithSlash path = false)
    (emitted : isEmittedFrom unit.sourceName text = true) :
    there.at? place ≠ some (.file (.text text)) := by
  intro stays
  have shrinks := shrinks_removeOrphans options directory unit here
  rw [removes] at shrinks
  have reads := readText_eq_ok.2 ⟨place, leads, shrinks.at?_eq stays, slash⟩
  have seen : path ∈ orphans here options directory unit :=
    List.mem_filter.2 ⟨hpath, holdsEmitted_iff.2 ⟨text, reads, emitted⟩⟩
  rw [removeAll_erases removes seen leads] at stays
  cases stays

/-- What is written for a file stays, unless something that comes later leads to its place. -/
theorem current_of_deliver (result : l.result = .ok unit) {rest : List String}
    (done : deliver target l here = (none, there)) (later : Spares rest there final)
    (apart : (touched target l ++ rest).Pairwise final.Apart) :
    ∀ artifact ∈ authoritative unit, final.IsReady (outputDirectory target l.path) ∧
      isCurrent final (outputDirectory target l.path) artifact = true := by
  intro artifact hartifact
  rw [touched_of_ok result] at apart
  obtain ⟨mid, writes, removes⟩ := deliver_stages result done
  obtain ⟨front, back, split⟩ := List.append_of_mem hartifact
  rw [split] at writes
  obtain ⟨first, -, writes⟩ := inTurn_append_eq_ok.1 writes
  obtain ⟨second, write, writes⟩ := andThen_eq_ok.1 writes
  obtain ⟨ready, current⟩ := writeArtifact_current write
  -- From here on `second` is the tree in which the artifact has just been written.
  have spares : Spares (artifactPaths (outputDirectory target l.path) back ++
      orphanPaths target.options (outputDirectory target l.path) unit ++ rest) second final := by
    have backs := spares_writeArtifacts (outputDirectory target l.path) back second
    have orphans := spares_removeOrphans target.options (outputDirectory target l.path) unit mid
    rw [writes] at backs
    rw [removes] at orphans
    refine (backs.mono ?_).trans ((orphans.mono ?_).trans (later.mono ?_)) <;> simp
  rw [split, artifactPaths, List.map_append, List.map_cons, List.append_assoc, List.append_assoc,
    List.cons_append, List.pairwise_append, List.pairwise_cons, ← List.append_assoc] at apart
  have others := apart.2.1.1
  exact ⟨ready.of_keeps spares.keeps, isCurrent_iff.2
    (spares.readText (fun path hpath => (others path hpath).symm) (isCurrent_iff.1 current))⟩

/-- Whether paths that lead to old files did so from the beginning on. -/
def FoundBefore (paths : List String) (before after : Tree) : Prop :=
  ∀ path ∈ paths, ∀ place content, after.locate path = .ok place →
    before.at? place = some (.file content) → after.at? place = some (.file content) →
    before.locate path = .ok place

/-- An orphan that is seen afterwards would have been seen, and taken away, unless its path leads to
it only now. -/
theorem orphans_of_deliver (result : l.result = .ok unit) {front rest : List String}
    (earlier : Spares front before here) (done : deliver target l here = (none, there))
    (later : Spares rest there final)
    (apart : (front ++ touched target l ++ rest).Pairwise final.Apart)
    (found : FoundBefore (touched target l) before final) :
    orphans final target.options (outputDirectory target l.path) unit = [] := by
  refine List.filter_eq_nil_iff.2 fun path hpath holds => ?_
  obtain ⟨text, reads, emitted⟩ := holdsEmitted_iff.1 holds
  obtain ⟨place, leads, stands, slash⟩ := readText_eq_ok.1 reads
  rw [touched_of_ok result] at apart found
  obtain ⟨mid, writes, removes⟩ := deliver_stages result done
  have written := spares_writeArtifacts (outputDirectory target l.path) (authoritative unit) here
  have removed := spares_removeOrphans target.options (outputDirectory target l.path) unit mid
  have shrinks := shrinks_removeOrphans target.options (outputDirectory target l.path) unit mid
  rw [writes] at written
  rw [removes] at removed shrinks
  -- No other path leads to the place of the file, so it is there from the beginning on.
  obtain ⟨apart, -, apartRest⟩ := List.pairwise_append.1 apart
  obtain ⟨-, apart, apartFront⟩ := List.pairwise_append.1 apart
  have apartWritten := (List.pairwise_append.1 apart).2.2
  have inTouched :=
    List.mem_append_right (artifactPaths (outputDirectory target l.path) (authoritative unit)) hpath
  have inAll := List.mem_append_right front inTouched
  have atThere : there.at? place = some (.file (.text text)) := by
    rw [← later.at?_eq (.refl final)
      (fun other hother => apartRest path inAll other hother place leads) (.inr stands), stands]
  have atMid := shrinks.at?_eq atThere
  have atHere : here.at? place = some (.file (.text text)) := by
    rw [← written.at?_eq (removed.keeps.trans later.keeps) (fun other hother same =>
      apartWritten other hother path hpath place same leads) (.inr atMid), atMid]
  have atBefore : before.at? place = some (.file (.text text)) := by
    rw [← earlier.at?_eq (written.keeps.trans (removed.keeps.trans later.keeps))
      (fun other hother same => apartFront other hother path inTouched place same leads)
      (.inr atHere), atHere]
  -- So the path led there from the beginning on as well, and the file was seen.
  have leadsBefore := found path inTouched place _ leads atBefore stands
  have leadsMid := locate_of_keeps (earlier.keeps.trans written.keeps) leadsBefore
  exact removeOrphans_erases removes hpath leadsMid slash emitted atThere

theorem delivered_of_run (done : inTurn (deliver target) loaded tree = (none, after))
    (apart : (loaded.flatMap (touched target)).Pairwise after.Apart)
    (found : FoundBefore (loaded.flatMap (touched target)) tree after) :
    ∀ l ∈ loaded, IsDelivered after target l := by
  intro l hl unit result
  obtain ⟨front, back, split⟩ := List.append_of_mem hl
  rw [split] at done
  obtain ⟨here, before, done⟩ := inTurn_append_eq_ok.1 done
  obtain ⟨there, done, rest⟩ := andThen_eq_ok.1 done
  have earlier := spares_deliverAll target front tree
  have later := spares_deliverAll target back there
  rw [before] at earlier
  rw [rest] at later
  rw [split, List.flatMap_append, List.flatMap_cons, ← List.append_assoc] at apart
  have apartLater : (touched target l ++ back.flatMap (touched target)).Pairwise after.Apart := by
    rw [List.append_assoc] at apart
    exact (List.pairwise_append.1 apart).2.1
  refine ⟨current_of_deliver result done later apartLater,
    orphans_of_deliver result earlier done later apart fun path hpath => ?_⟩
  exact found path (List.mem_flatMap.2 ⟨l, hl, hpath⟩)

/-! ### Old files behind new directories -/

theorem steady_deliverAll {directories : List String}
    (h : ∀ l ∈ loaded, outputDirectory target l.path ∈ directories) :
    Respects (Steady directories) (inTurn (deliver target) loaded) :=
  respects_inTurn fun l hl => respects_deliver (fun _ => steady_makeDirectories (h l hl))
    (fun _ _ _ _ _ => steady_writeText) (fun _ _ _ _ => steady_removeFile)

theorem found_of_steady {paths : List String} {directories : List String}
    (steady : Steady directories tree after)
    (ready : ∀ directory ∈ directories, tree.IsReady directory) :
    FoundBefore paths tree after :=
  fun _ _ _ _ leads _ _ => locate_of_keeps (steady ready).2 leads

theorem found_of_rooted {paths : List String} (rooted : tree.IsRooted)
    (up : ∀ path ∈ paths, ".." ∉ Path.names path) : FoundBefore paths tree after :=
  fun path hpath _ _ leads stands stays => locate_of_file rooted (up path hpath) stands stays leads

/-! ### The files of all records -/

/-- The paths of the files that the records of a compiled file have, or would have. -/
def recordPaths (target : Target) (loaded : Loaded) : List String :=
  match loaded.result with
  | .error _ => []
  | .ok unit =>
    unit.records.map fun record =>
      outputPath (outputDirectory target loaded.path) (target.options.fileName record)

/-- Of each record at most one file is written or taken away. -/
theorem records_subperm (options : Emission.Options) (name : String) (file : Go.SourceFile) :
    let unit := CompiledUnit.ofFile options name file
    ((authoritative unit).map (·.record) ++ unplanned unit).Subperm unit.records := by
  intro unit
  have names : (unit.artifacts.map (·.record)) = Plan.names unit.plans := by
    show ((List.map _ _).map _) = _
    rw [List.map_map]
    rfl
  have nodup : ((authoritative unit).map (·.record)).Nodup := by
    refine List.Nodup.sublist (List.filter_sublist.map _) ?_
    rw [names]
    exact Plan.nodup_ofFile file
  have planned : ((authoritative unit).map (·.record)).Subperm (unit.records.filter fun record =>
      !(!(Plan.names unit.plans).contains record &&
        !Diagnostic.hasRecord record unit.diagnostics)) := by
    refine nodup.subperm fun record hrecord => ?_
    obtain ⟨artifact, hartifact, rfl⟩ := List.mem_map.1 hrecord
    have hname : artifact.record ∈ Plan.names unit.plans :=
      names ▸ List.mem_map_of_mem (List.mem_filter.1 hartifact).1
    obtain ⟨plan, hplan, same⟩ := List.mem_map.1 hname
    exact List.mem_filter.2 ⟨same ▸ Plan.ofFile_record hplan, by simp [hname]⟩
  exact ((List.subperm_append_right _).2 planned).trans
    ((List.perm_append_comm.trans (List.filter_append_perm _ _)).subperm)

theorem touched_subperm {source : String}
    (compiled : l.result = CompiledUnit.compile target.options (sourceName l.path) source) :
    (touched target l).Subperm (recordPaths target l) := by
  unfold touched recordPaths
  rw [compiled]
  unfold CompiledUnit.compile
  cases Go.SourceFile.parse source.toList with
  | error e => exact List.Subperm.refl []
  | ok file =>
    obtain ⟨records, perm, sub⟩ :=
      records_subperm target.options (sourceName l.path) file
    let place := fun record =>
      outputPath (outputDirectory target l.path) (target.options.fileName record)
    have files : artifactPaths (outputDirectory target l.path)
        (authoritative (CompiledUnit.ofFile target.options (sourceName l.path) file)) =
        ((authoritative (CompiledUnit.ofFile target.options (sourceName l.path) file)).map
          (·.record)).map place := by
      rw [artifactPaths, List.map_map]
      refine List.map_congr_left fun artifact hartifact => ?_
      obtain ⟨plan, -, rfl⟩ := List.mem_map.1 (List.mem_filter.1 hartifact).1
      rfl
    show List.Subperm (_ ++ List.map place _) (List.map place _)
    rw [files, ← List.map_append]
    exact ⟨records.map place, perm.map place, sub.map place⟩

theorem touched_apart {R : String → String → Prop}
    (symm : ∀ {path other}, R path other → R other path)
    (compiled : ∀ l ∈ loaded, ∃ source,
      l.result = CompiledUnit.compile target.options (sourceName l.path) source)
    (distinct : (loaded.flatMap (recordPaths target)).Pairwise R) :
    (loaded.flatMap (touched target)).Pairwise R := by
  rw [List.pairwise_flatMap] at distinct ⊢
  refine ⟨fun l hl => ?_, ?_⟩
  · obtain ⟨source, hsource⟩ := compiled l hl
    obtain ⟨paths, perm, sub⟩ := touched_subperm hsource
    exact (perm.pairwise_iff symm).1 ((distinct.1 l hl).sublist sub)
  · refine distinct.2.imp_of_mem fun {l other} hl hother apart path hpath path' hpath' => ?_
    obtain ⟨source, hsource⟩ := compiled l hl
    obtain ⟨source', hsource'⟩ := compiled other hother
    exact apart path ((touched_subperm hsource).subset hpath) path'
      ((touched_subperm hsource').subset hpath')

/-! ### Loading again -/

theorem pathsOfAll_of_literal {inputs : List String}
    (literal : ∀ input ∈ inputs, Glob.isPattern input = false) (tree : Tree) :
    pathsOfAll tree inputs = .ok inputs := by
  induction inputs with
  | nil => rfl
  | cons input inputs ih =>
    unfold pathsOfAll pathsOf
    rw [if_neg (by simp [literal input List.mem_cons_self]),
      ih fun other hother => literal other (List.mem_cons_of_mem _ hother)]
    rfl

theorem loadAll_again {options : Emission.Options} {paths : List String}
    (loads : loadAll tree options paths = .ok loaded)
    (same : ∀ l ∈ loaded, after.readText l.path = tree.readText l.path) :
    loadAll after options paths = .ok loaded := by
  rw [loadAll_eq_ok] at loads ⊢
  induction loads with
  | nil => exact .nil
  | cons first _ ih =>
    obtain ⟨text, reads, rfl⟩ := load_eq_ok.1 first
    obtain ⟨sameFirst, sameRest⟩ := List.forall_mem_cons.1 same
    exact .cons (load_eq_ok.2 ⟨text, sameFirst.trans reads, rfl⟩) (ih sameRest)

/-! ### Running again -/

theorem generate_of_ends {style : Style} {inputs : List String}
    (loads : loadInputs tree target.options inputs = .ok loaded)
    (ends : ∀ failure, (generate style target inputs tree).ending ≠ .broken failure) :
    ∃ after, inTurn (deliver target) loaded tree = (none, after) ∧
      generate style target inputs tree =
        report style target.format (loaded.map fun l => (l, [])) after := by
  unfold generate at ends ⊢
  simp only [loads] at ends ⊢
  rcases done : inTurn (deliver target) loaded tree with ⟨_ | failure, after⟩
  · exact ⟨after, rfl, rfl⟩
  · simp only [done] at ends
    exact absurd rfl (ends failure)

theorem check_of_delivered {style : Style} {inputs : List String}
    (loads : loadInputs tree target.options inputs = .ok loaded)
    (delivered : ∀ l ∈ loaded, IsDelivered tree target l) :
    check style target inputs tree =
      report style target.format (loaded.map fun l => (l, [])) tree := by
  unfold check
  rw [loads]
  show report _ _ (loaded.map _) tree = _
  rw [List.map_congr_left fun l hl => congrArg (Prod.mk l) (delivered l hl).stale]

theorem generate_of_delivered {style : Style} {inputs : List String}
    (loads : loadInputs tree target.options inputs = .ok loaded)
    (delivered : ∀ l ∈ loaded, IsDelivered tree target l) :
    generate style target inputs tree =
      report style target.format (loaded.map fun l => (l, [])) tree := by
  have idle : inTurn (deliver target) loaded tree = (none, tree) :=
    inTurn_of_idle fun l hl => (delivered l hl).deliver
  unfold generate
  simp only [loads, idle]

theorem found_of_direct {inputs : List String}
    (loads : loadInputs tree target.options inputs = .ok loaded)
    (done : inTurn (deliver target) loaded tree = (none, after)) (rooted : tree.IsRooted)
    (direct : ∀ directory, target.outDir = some directory → tree.hasDirectory directory = true ∨
      ∀ path ∈ loaded.flatMap (recordPaths target), ".." ∉ Path.names path) :
    FoundBefore (loaded.flatMap (recordPaths target)) tree after := by
  have all : ∀ l ∈ loaded, outputDirectory target l.path ∈
      loaded.map fun l => outputDirectory target l.path :=
    fun l hl => List.mem_map.2 ⟨l, hl, rfl⟩
  have steady := steady_deliverAll all tree
  rw [done] at steady
  cases chosen : target.outDir with
  | none =>
    refine found_of_steady steady fun directory hdirectory => ?_
    obtain ⟨l, hl, rfl⟩ := List.mem_map.1 hdirectory
    obtain ⟨text, reads, -⟩ := mem_loadInputs loads hl
    obtain ⟨place, leads, -⟩ := readText_eq_ok.1 reads
    unfold outputDirectory
    rw [chosen]
    exact ready_parent leads
  | some given =>
    rcases direct given chosen with there | up
    · refine found_of_steady steady fun directory hdirectory => ?_
      obtain ⟨l, hl, rfl⟩ := List.mem_map.1 hdirectory
      unfold outputDirectory
      rw [chosen]
      exact .inr there
    · exact found_of_rooted rooted up

/-- After a run that ended, a check with the same arguments finds nothing stale and ends as the run
did, and so does a further run, which leaves the files as they are.  The inputs are given by name,
the files of records are at different places and at none of an input, and their paths do not go up
behind directories that the run has to make. -/
theorem generate_again {style : Style} {inputs : List String}
    (literal : ∀ input ∈ inputs, Glob.isPattern input = false)
    (loads : loadInputs tree target.options inputs = .ok loaded)
    (ends : ∀ failure, (generate style target inputs tree).ending ≠ .broken failure)
    (distinct : (loaded.flatMap (recordPaths target)).Pairwise
      (generate style target inputs tree).tree.Apart)
    (noInput : ∀ path ∈ loaded.flatMap (recordPaths target), ∀ l ∈ loaded,
      (generate style target inputs tree).tree.Apart path l.path)
    (rooted : tree.IsRooted)
    (direct : ∀ directory, target.outDir = some directory → tree.hasDirectory directory = true ∨
      ∀ path ∈ loaded.flatMap (recordPaths target), ".." ∉ Path.names path) :
    let outcome := generate style target inputs tree
    (∀ l ∈ loaded, stale outcome.tree target l = []) ∧
    check style target inputs outcome.tree = outcome ∧
    generate style target inputs outcome.tree = outcome := by
  obtain ⟨after, done, same⟩ := generate_of_ends loads ends
  rw [same, report_tree] at distinct noInput
  have touches : loaded.flatMap (touched target) ⊆ loaded.flatMap (recordPaths target) := by
    intro path hpath
    obtain ⟨l, hl, hpath⟩ := List.mem_flatMap.1 hpath
    obtain ⟨source, -, compiled⟩ := mem_loadInputs loads hl
    exact List.mem_flatMap.2 ⟨l, hl, (touched_subperm compiled).subset hpath⟩
  have apart : (loaded.flatMap (touched target)).Pairwise after.Apart := by
    refine touched_apart Apart.symm (fun l hl => ?_) distinct
    obtain ⟨source, -, compiled⟩ := mem_loadInputs loads hl
    exact ⟨source, compiled⟩
  have found := found_of_direct loads done rooted direct
  have delivered := delivered_of_run done apart fun path hpath => found path (touches hpath)
  have loadsAgain : loadInputs after target.options inputs = .ok loaded := by
    have spares := spares_deliverAll target loaded tree
    rw [done] at spares
    unfold loadInputs at loads ⊢
    rw [pathsOfAll_of_literal literal] at loads ⊢
    refine loadAll_again loads fun l hl => ?_
    obtain ⟨path, -, loadsPath⟩ := mem_loadAll loads hl
    obtain ⟨text, reads, rfl⟩ := load_eq_ok.1 loadsPath
    exact (spares.readText (fun other hother => noInput other (touches hother) _ hl) reads).trans
      reads.symm
  have left : (generate style target inputs tree).tree = after := by
    rw [same, report_tree]
  intro outcome
  have reported : outcome = report style target.format (loaded.map fun l => (l, [])) after := same
  have leaves : outcome.tree = after := left
  rw [leaves]
  exact ⟨fun l hl => (delivered l hl).stale,
    (check_of_delivered loadsAgain delivered).trans reported.symm,
    (generate_of_delivered loadsAgain delivered).trans reported.symm⟩

/-- A source with a record that has checks and one that lost them, and one that cannot be parsed. -/
def halfBroken : Tree := halfAnnotated.set ["b.go"] (.file (.text "x"))

/-- The run writes one file, takes one away and fails; so do those that follow, which find nothing
to do. -/
theorem generate_again_halfBroken :
    let inputs := ["m/a.go", "b.go"]
    let outcome := generate ⟨false⟩ besideSource inputs halfBroken
    (outcome.ending = .failed ∧ outcome.tree.namesIn "m" = ["a.go", "new_validator.go"]) ∧
    ∃ loaded, loadInputs halfBroken besideSource.options inputs = .ok loaded ∧
      ((∀ input ∈ inputs, Glob.isPattern input = false) ∧
        (∀ failure, outcome.ending ≠ .broken failure) ∧
        (loaded.flatMap (recordPaths besideSource)).Pairwise outcome.tree.Apart ∧
        (∀ path ∈ loaded.flatMap (recordPaths besideSource), ∀ l ∈ loaded,
          outcome.tree.Apart path l.path) ∧
        halfBroken.IsRooted) ∧
      (∀ l ∈ loaded, stale outcome.tree besideSource l = []) ∧
      check ⟨false⟩ besideSource inputs outcome.tree = outcome ∧
      generate ⟨false⟩ besideSource inputs outcome.tree = outcome := by
  intro inputs outcome
  have effect : outcome.ending = .failed ∧
      outcome.tree.namesIn "m" = ["a.go", "new_validator.go"] := by decide +kernel
  obtain ⟨loaded, loads, facts⟩ := exists_loadInputs halfBroken besideSource.options inputs
    (p := fun loaded => decide ((loaded.flatMap (recordPaths besideSource)).Pairwise
        outcome.tree.Apart ∧
      ∀ path ∈ loaded.flatMap (recordPaths besideSource), ∀ l ∈ loaded,
        outcome.tree.Apart path l.path))
    (by decide +kernel)
  obtain ⟨distinct, noInput⟩ := of_decide_eq_true facts
  have literal : ∀ input ∈ inputs, Glob.isPattern input = false := by decide +kernel
  have ends : ∀ failure, outcome.ending ≠ .broken failure := fun failure broken => by
    rw [effect.1] at broken
    cases broken
  have rooted : halfBroken.IsRooted := by decide +kernel
  exact ⟨effect, loaded, loads, ⟨literal, ends, distinct, noInput, rooted⟩,
    generate_again literal loads ends distinct noInput rooted fun _ given => nomatch given⟩

/-- A record without checks, of which a file is left, and one with checks in another source. -/
def forgotten : Tree :=
  ⟨[(["a.go"], .file (.text "package p\ntype Old struct \x7b\x7d\n")),
    (["b.go"], .file (.text
      "package p\ntype New struct \x7b\n// +govalid:required\nX int\n\x7d\n")),
    (["gen"], .directory),
    (["gen", "old_validator.go"], .file (.text
      "// Code generated by govalid; DO NOT EDIT.\n// source: a.go\n"))]⟩

def roundabout : Target := ⟨.default, .human, some "made/../gen"⟩

/-- The first source is seen to before the second one has the directories made through which the
path of its file leads.  So the run leaves the file, a check finds it stale, and a further run takes
it away. -/
theorem generate_missesOrphan :
    let inputs := ["a.go", "b.go"]
    let outcome := generate ⟨false⟩ roundabout inputs forgotten
    ∃ loaded, loadInputs forgotten roundabout.options inputs = .ok loaded ∧
      ((∀ input ∈ inputs, Glob.isPattern input = false) ∧ outcome.ending = .succeeded ∧
        (loaded.flatMap (recordPaths roundabout)).Pairwise outcome.tree.Apart ∧
        (∀ path ∈ loaded.flatMap (recordPaths roundabout), ∀ l ∈ loaded,
          outcome.tree.Apart path l.path) ∧
        forgotten.IsRooted) ∧
      loaded.flatMap (stale outcome.tree roundabout) = ["made/../gen/old_validator.go"] ∧
      (check ⟨false⟩ roundabout inputs outcome.tree).ending = .failed ∧
      outcome.tree.namesIn "gen" = ["new_validator.go", "old_validator.go"] ∧
      (generate ⟨false⟩ roundabout inputs outcome.tree).tree.namesIn "gen" =
        ["new_validator.go"] := by
  intro inputs outcome
  obtain ⟨loaded, loads, facts⟩ := exists_loadInputs forgotten roundabout.options inputs
    (p := fun loaded => decide ((loaded.flatMap (recordPaths roundabout)).Pairwise
        outcome.tree.Apart ∧
      (∀ path ∈ loaded.flatMap (recordPaths roundabout), ∀ l ∈ loaded,
        outcome.tree.Apart path l.path) ∧
      loaded.flatMap (stale outcome.tree roundabout) = ["made/../gen/old_validator.go"]))
    (by decide +kernel)
  obtain ⟨distinct, noInput, old⟩ := of_decide_eq_true facts
  have first : (∀ input ∈ inputs, Glob.isPattern input = false) ∧ outcome.ending = .succeeded ∧
      outcome.tree.namesIn "gen" = ["new_validator.go", "old_validator.go"] := by decide +kernel
  have second : (check ⟨false⟩ roundabout inputs outcome.tree).ending = .failed ∧
      (generate ⟨false⟩ roundabout inputs outcome.tree).tree.namesIn "gen" =
        ["new_validator.go"] := by decide +kernel
  have rooted : forgotten.IsRooted := by decide +kernel
  exact ⟨loaded, loads, ⟨first.1, first.2.1, distinct, noInput, rooted⟩, old, second.1, first.2.2,
    second.2⟩

end CommandLine
end FieldRules
