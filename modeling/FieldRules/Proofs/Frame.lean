/-
What a run may change of the files, and when.

A run puts a file to every path of an authoritative artifact, and takes files away
from paths of records without markers.  Each removal is of a file that was seen to
be emitted from the source it is taken away for.  As no two records have their
files at one place, what is seen there is what was there before the run
(`removed_before`), and what is written stays (`current_of_run`).
-/
import FieldRules.Proofs.Authority
import FieldRules.Proofs.Rerun
import FieldRules.Proofs.Unmarked

namespace FieldRules

open Files

namespace Files.Tree

variable {before after final tree : Tree} {place : Place} {paths : List String} {content : Content}

/-- The file at a place, if a file stands there. -/
def fileAt? (tree : Tree) (place : Place) : Option Content :=
  match tree.at? place with
  | some (.file content) => some content
  | _ => none

theorem fileAt?_eq_some :
    tree.fileAt? place = some content ↔ tree.at? place = some (.file content) := by
  unfold fileAt?
  split
  · next other stands => simp [stands]
  · next other => simpa using other content

/-- A place that none of the paths leads to in the end has the file that it had. -/
theorem Spares.fileAt?_eq (h : Spares paths before after) (keeps : KeepsDirectories after final)
    (apart : ∀ path ∈ paths, final.locate path ≠ .ok place) :
    after.fileAt? place = before.fileAt? place := by
  unfold fileAt?
  rcases h.elsewhere place with same | ⟨free, made⟩ | ⟨path, hpath, leads⟩
  · rw [same]
  · rw [free, made]
  · exact absurd (locate_of_keeps keeps leads) (apart path hpath)

end Files.Tree

namespace CommandLine

open Files.Tree Change

variable {tree after here mid there final : Tree} {target : Target} {loaded : List Loaded}
  {l : Loaded} {unit : CompiledUnit} {directory path record : String} {place : Place}

/-! ### Inputs that can be read -/

theorem loadAll_ok {options : Emission.Options} {paths : List String} :
    (∃ loaded, loadAll tree options paths = .ok loaded) ↔
      ∀ path ∈ paths, ∃ text, tree.readText path = .ok text := by
  induction paths with
  | nil => simp [loadAll]
  | cons path paths ih =>
    rw [List.forall_mem_cons, ← ih, loadAll, load]
    cases tree.readText path with
    | error fault => simp
    | ok text =>
      cases loadAll tree options paths with
      | error failure => simp [Except.map]
      | ok more => simp [Except.map]

theorem loadInputs_ok {options : Emission.Options} {inputs : List String} :
    (∃ loaded, loadInputs tree options inputs = .ok loaded) ↔
      ∃ paths, pathsOfAll tree inputs = .ok paths ∧
        ∀ path ∈ paths, ∃ text, tree.readText path = .ok text := by
  unfold loadInputs
  cases pathsOfAll tree inputs with
  | error failure => simp
  | ok paths => simp [loadAll_ok]

/-- What is loaded and compiles was parsed. -/
theorem exists_file {options : Emission.Options} {inputs : List String}
    (loads : loadInputs tree options inputs = .ok loaded) (hl : l ∈ loaded)
    (result : l.result = .ok unit) :
    ∃ text file, tree.readText l.path = .ok text ∧ Go.SourceFile.parse text.toList = .ok file ∧
      unit = CompiledUnit.ofFile options (sourceName l.path) file := by
  obtain ⟨text, reads, compiled⟩ := mem_loadInputs loads hl
  obtain ⟨file, parsed, same⟩ := CompiledUnit.compile_eq_ok.1 (compiled.symm.trans result)
  exact ⟨text, file, reads, parsed, same.symm⟩

/-! ### Stages of a run -/

/-- A run that is not broken off sees to everything that was loaded. -/
theorem exists_after {style : Style} {inputs : List String}
    (loads : loadInputs tree target.options inputs = .ok loaded)
    (ends : ∀ failure, (generate style target inputs tree).ending ≠ .broken failure) :
    ∃ after, inTurn (deliver target) loaded tree = (none, after) ∧
      (generate style target inputs tree).tree = after := by
  obtain ⟨after, done, same⟩ := generate_of_ends loads ends
  exact ⟨after, done, by rw [same, report_tree]⟩

/-- The inputs before one, the one and those behind it are delivered in this order. -/
theorem exists_stages (done : inTurn (deliver target) loaded tree = (none, after))
    (hl : l ∈ loaded) :
    ∃ front back here there, loaded = front ++ l :: back ∧
      Spares (front.flatMap (touched target)) tree here ∧
      deliver target l here = (none, there) ∧
      Spares (back.flatMap (touched target)) there after := by
  obtain ⟨front, back, split⟩ := List.append_of_mem hl
  rw [split] at done
  obtain ⟨here, before, done⟩ := inTurn_append_eq_ok.1 done
  obtain ⟨there, done, rest⟩ := andThen_eq_ok.1 done
  have earlier := spares_deliverAll target front tree
  have later := spares_deliverAll target back there
  rw [before] at earlier
  rw [rest] at later
  exact ⟨front, back, here, there, split, earlier, done, later⟩

/-- What is written stays to the end of the run. -/
theorem current_of_run (done : inTurn (deliver target) loaded tree = (none, after))
    (apart : (loaded.flatMap (touched target)).Pairwise after.Apart) (hl : l ∈ loaded)
    (result : l.result = .ok unit) :
    ∀ artifact ∈ authoritative unit, after.IsReady (outputDirectory target l.path) ∧
      isCurrent after (outputDirectory target l.path) artifact = true := by
  obtain ⟨front, back, here, there, split, -, done, later⟩ := exists_stages done hl
  rw [split, List.flatMap_append, List.flatMap_cons] at apart
  exact current_of_deliver result done later (List.pairwise_append.1 apart).2.1

theorem isEmittedFrom_iff {sourceName text : String} :
    isEmittedFrom sourceName text = true ↔
      (Text.lines text.toList).take 2 = [headerLine.toList, (sourceLine sourceName).toList] := by
  unfold isEmittedFrom
  split
  · next first second more hlines => simp [hlines]
  · next short =>
    match hlines : Text.lines text.toList with
    | [] => simp
    | [_] => simp
    | first :: second :: more => exact absurd hlines (short first second more)

/-- A place where removing orphans takes a file away is that of an orphan that was seen there. -/
theorem removed_of_changed {options : Emission.Options}
    (removes : removeOrphans options directory unit mid = (none, there))
    (changed : there.fileAt? place ≠ mid.fileAt? place) :
    ∃ record ∈ unplanned unit, ∃ text,
      there.locate (outputPath directory (options.fileName record)) = .ok place ∧
      Path.endsWithSlash (outputPath directory (options.fileName record)) = false ∧
      mid.fileAt? place = some (.text text) ∧ isEmittedFrom unit.sourceName text = true ∧
      there.fileAt? place = none := by
  have spares : Spares (orphans mid options directory unit) mid there := by
    have spares : Respects (Spares (orphans mid options directory unit))
        (inTurn remove (orphans mid options directory unit)) :=
      respects_inTurn fun path hpath => respects_remove fun _ _ => spares_removeFile hpath
    have spares := spares mid
    rw [show inTurn remove (orphans mid options directory unit) mid = _ from removes] at spares
    exact spares
  obtain ⟨path, hpath, leads⟩ : ∃ path ∈ orphans mid options directory unit,
      there.locate path = .ok place := by
    by_contra none
    exact changed (spares.fileAt?_eq (.refl there)
      fun path hpath leads => none ⟨path, hpath, leads⟩)
  obtain ⟨listed, holds⟩ := List.mem_filter.1 hpath
  obtain ⟨record, hrecord, rfl⟩ := List.mem_map.1 listed
  obtain ⟨text, reads, emitted⟩ := holdsEmitted_iff.1 holds
  obtain ⟨seen, leadsMid, stands, slash⟩ := readText_eq_ok.1 reads
  -- Directories stay, so the path led to the place when the file was seen.
  obtain rfl : seen = place :=
    Except.ok.inj ((locate_of_keeps spares.keeps leadsMid).symm.trans leads)
  have gone := removeAll_erases removes hpath leadsMid
  refine ⟨record, hrecord, text, leads, slash, fileAt?_eq_some.2 stands, emitted, ?_⟩
  unfold fileAt?
  rw [gone]

/-! ### Records whose files are apart -/

/-- The path of the file that a record of a compiled file has, or would have. -/
def recordPath (target : Target) (loaded : Loaded) (record : String) : String :=
  outputPath (outputDirectory target loaded.path) (target.options.fileName record)

/-- The records of a compiled file, each with the file. -/
def recordsOf (loaded : Loaded) : List (Loaded × String) :=
  match loaded.result with
  | .error _ => []
  | .ok unit => unit.records.map fun record => (loaded, record)

theorem mem_recordsOf (hl : l ∈ loaded) (result : l.result = .ok unit)
    (hrecord : record ∈ unit.records) : (l, record) ∈ loaded.flatMap recordsOf := by
  refine List.mem_flatMap.2 ⟨l, hl, ?_⟩
  unfold recordsOf
  rw [result]
  exact List.mem_map_of_mem hrecord

theorem recordPaths_eq (target : Target) (loaded : Loaded) :
    recordPaths target loaded =
      (recordsOf loaded).map fun owner => recordPath target owner.1 owner.2 := by
  unfold recordPaths recordsOf
  cases loaded.result with
  | error e => rfl
  | ok unit =>
    rw [List.map_map]
    rfl

/-- Two records of compiled files are the same, or their files are at different places. -/
theorem same_or_apart (distinct : (loaded.flatMap (recordPaths target)).Pairwise after.Apart)
    {owner other : Loaded × String} (howner : owner ∈ loaded.flatMap recordsOf)
    (hother : other ∈ loaded.flatMap recordsOf) :
    owner = other ∨
      after.Apart (recordPath target owner.1 owner.2) (recordPath target other.1 other.2) := by
  rw [show recordPaths target = _ from funext (recordPaths_eq target), ← List.map_flatMap,
    List.pairwise_map] at distinct
  have : Std.Symm fun owner other : Loaded × String =>
      after.Apart (recordPath target owner.1 owner.2) (recordPath target other.1 other.2) :=
    ⟨fun _ _ => Apart.symm⟩
  by_cases same : owner = other
  · exact .inl same
  · exact .inr (distinct.forall howner hother same)

/-- An artifact is made from a plan. -/
theorem exists_plan {options : Emission.Options} {name : String} {file : Go.SourceFile}
    {artifact : Artifact} (h : artifact ∈ (CompiledUnit.ofFile options name file).artifacts) :
    ∃ plan ∈ (Plan.ofFile file).1, artifact.record = plan.record ∧
      artifact.fileName = options.fileName plan.record ∧
      artifact.source = Emission.emit options file.package name plan ∧
      artifact.authoritative = !(Plan.unsettled (Plan.ofFile file).1
        (CompiledUnit.ofFile options name file).diagnostics).contains plan.record := by
  obtain ⟨plan, hplan, rfl⟩ := List.mem_map.1 h
  exact ⟨plan, hplan, rfl, rfl, rfl, rfl⟩

/-- A path that may change is that of a record whose artifact is authoritative, or that has no
marker. -/
theorem exists_record {inputs : List String}
    (loads : loadInputs tree target.options inputs = .ok loaded) (hl : l ∈ loaded)
    (hpath : path ∈ touched target l) :
    ∃ unit, l.result = .ok unit ∧ ∃ record ∈ unit.records,
      path = recordPath target l record ∧
        ((∃ artifact ∈ authoritative unit, artifact.record = record) ∨
          record ∈ unplanned unit) := by
  obtain ⟨text, -, compiled⟩ := mem_loadInputs loads hl
  cases result : l.result with
  | error e =>
    unfold touched at hpath
    rw [result] at hpath
    cases hpath
  | ok unit =>
    obtain ⟨file, -, rfl⟩ := CompiledUnit.compile_eq_ok.1 (compiled.symm.trans result)
    rw [touched_of_ok result] at hpath
    refine ⟨_, rfl, ?_⟩
    rcases List.mem_append.1 hpath with hpath | hpath
    · obtain ⟨artifact, hartifact, rfl⟩ := List.mem_map.1 hpath
      obtain ⟨plan, hplan, record, fileName, -⟩ := exists_plan (List.mem_filter.1 hartifact).1
      refine ⟨plan.record, Plan.ofFile_record hplan, ?_, .inl ⟨artifact, hartifact, record⟩⟩
      rw [fileName]
      rfl
    · obtain ⟨record, hrecord, rfl⟩ := List.mem_map.1 hpath
      exact ⟨record, (List.mem_filter.1 hrecord).1, rfl, .inr hrecord⟩

/-- Nothing is written or taken away for a record that leads to one with a diagnostic. -/
theorem untouched_of_doubt {options : Emission.Options} {name : String} {file : Go.SourceFile}
    {d : Diagnostic} (hd : d ∈ (CompiledUnit.ofFile options name file).diagnostics)
    (leads : Relation.ReflTransGen
      (Plan.HandsOver (CompiledUnit.ofFile options name file).plans) record d.record) :
    (∀ artifact ∈ authoritative (CompiledUnit.ofFile options name file),
      artifact.record ≠ record) ∧
      record ∉ unplanned (CompiledUnit.ofFile options name file) := by
  constructor
  · intro artifact hartifact same
    obtain ⟨hartifact, reliable⟩ := List.mem_filter.1 hartifact
    obtain ⟨plan, hplan, ofPlan, -, -, authoritative⟩ := exists_plan hartifact
    have hrecord : plan.record = record := ofPlan.symm.trans same
    have planned : record ∈ Plan.names (Plan.ofFile file).1 :=
      hrecord ▸ List.mem_map_of_mem hplan
    have unsettled := Plan.mem_unsettled.2
      ⟨d, hd, CompiledUnit.leads_planned planned leads, leads⟩
    rw [authoritative, hrecord, Bool.not_eq_true', Bool.eq_false_iff] at reliable
    exact reliable (List.contains_iff_mem.2 unsettled)
  · intro unplanned
    obtain ⟨-, neither⟩ := List.mem_filter.1 unplanned
    rw [Bool.and_eq_true, Bool.not_eq_true', Bool.not_eq_true', Bool.eq_false_iff,
      Bool.eq_false_iff] at neither
    rcases leads.cases_head with rfl | ⟨next, ⟨plan, hplan, rfl, -⟩, -⟩
    · exact neither.2 (List.any_eq_true.2 ⟨d, hd, beq_self_eq_true _⟩)
    · exact neither.1 (List.contains_iff_mem.2 (List.mem_map_of_mem hplan))

/-! ### What a run changes -/

/-- How a run changes the file at a place for a source: it writes that of an authoritative artifact,
or it takes away that of a record without markers, which was emitted from the source. -/
inductive FileChange (target : Target) (before after : Tree) (l : Loaded) (file : Go.SourceFile)
    (place : Place) : Prop where
  | written (artifact : Artifact) :
      artifact ∈ (CompiledUnit.ofFile target.options (sourceName l.path) file).artifacts →
      artifact.authoritative = true →
      after.locate (outputPath (outputDirectory target l.path) artifact.fileName) = .ok place →
      after.fileAt? place = some (.text artifact.source) →
      FileChange target before after l file place
  | removed (record old : String) :
      file.IsUnmarked record →
      after.locate (recordPath target l record) = .ok place →
      before.fileAt? place = some (.text old) →
      (Text.lines old.toList).take 2 =
        [headerLine.toList, (sourceLine (sourceName l.path)).toList] →
      after.fileAt? place = none →
      FileChange target before after l file place

section

variable {inputs : List String}
  (loads : loadInputs tree target.options inputs = .ok loaded)
  (done : inTurn (deliver target) loaded tree = (none, after))
  (distinct : (loaded.flatMap (recordPaths target)).Pairwise after.Apart)

include loads distinct in
theorem touched_pairwise : (loaded.flatMap (touched target)).Pairwise after.Apart := by
  refine touched_apart Apart.symm (fun l hl => ?_) distinct
  obtain ⟨source, -, compiled⟩ := mem_loadInputs loads hl
  exact ⟨source, compiled⟩

include done in
/-- What changed is at a path of a compiled file. -/
theorem exists_touched (changed : after.fileAt? place ≠ tree.fileAt? place) :
    ∃ l ∈ loaded, ∃ path ∈ touched target l, after.locate path = .ok place := by
  have spares := spares_deliverAll target loaded tree
  rw [done] at spares
  by_contra none
  refine changed (spares.fileAt?_eq (.refl after) fun path hpath leads => none ?_)
  obtain ⟨l, hl, hpath⟩ := List.mem_flatMap.1 hpath
  exact ⟨l, hl, path, hpath, leads⟩

include loads done distinct in
/-- What stands where the file of a record without markers would be is not changed before the
orphans of its source are taken away, nor afterwards. -/
theorem exists_turn (hl : l ∈ loaded) (result : l.result = .ok unit)
    (hpath : path ∈ orphanPaths target.options (outputDirectory target l.path) unit)
    (leads : after.locate path = .ok place) :
    ∃ mid there,
      removeOrphans target.options (outputDirectory target l.path) unit mid = (none, there) ∧
      KeepsDirectories tree mid ∧ KeepsDirectories there after ∧
      mid.fileAt? place = tree.fileAt? place ∧ after.fileAt? place = there.fileAt? place := by
  have apart := touched_pairwise loads distinct
  obtain ⟨front, back, here, there, split, earlier, delivered, later⟩ := exists_stages done hl
  obtain ⟨mid, writes, removes⟩ := deliver_stages result delivered
  have written := spares_writeArtifacts (outputDirectory target l.path) (authoritative unit) here
  have removed := spares_removeOrphans target.options (outputDirectory target l.path) unit mid
  rw [writes] at written
  rw [removes] at removed
  -- No other path of the run leads to the place.
  rw [split, List.flatMap_append, List.flatMap_cons, touched_of_ok result] at apart
  obtain ⟨-, apart, apartFront⟩ := List.pairwise_append.1 apart
  obtain ⟨apart, -, apartBack⟩ := List.pairwise_append.1 apart
  have apartWritten := (List.pairwise_append.1 apart).2.2
  have inTouched :=
    List.mem_append_right (artifactPaths (outputDirectory target l.path) (authoritative unit)) hpath
  have atHere : here.fileAt? place = tree.fileAt? place :=
    earlier.fileAt?_eq (written.keeps.trans (removed.keeps.trans later.keeps))
      fun other hother same =>
        apartFront other hother path (List.mem_append_left _ inTouched) place same leads
  have atMid : mid.fileAt? place = here.fileAt? place :=
    written.fileAt?_eq (removed.keeps.trans later.keeps)
      fun other hother same => apartWritten other hother path hpath place same leads
  have atEnd : after.fileAt? place = there.fileAt? place :=
    later.fileAt?_eq (.refl after)
      fun other hother same => apartBack path inTouched other hother place leads same
  exact ⟨mid, there, removes, earlier.keeps.trans written.keeps, later.keeps,
    atMid.trans atHere, atEnd⟩

include loads done distinct in
/-- A file that is taken away was there before the run as it was seen. -/
theorem removed_before (hl : l ∈ loaded) (result : l.result = .ok unit)
    (hpath : path ∈ orphanPaths target.options (outputDirectory target l.path) unit)
    (leads : after.locate path = .ok place)
    (changed : after.fileAt? place ≠ tree.fileAt? place) :
    ∃ record ∈ unplanned unit, ∃ text, after.locate (recordPath target l record) = .ok place ∧
      Path.endsWithSlash (recordPath target l record) = false ∧
      tree.fileAt? place = some (.text text) ∧ isEmittedFrom unit.sourceName text = true ∧
      after.fileAt? place = none := by
  obtain ⟨mid, there, removes, -, keeps, atMid, atEnd⟩ :=
    exists_turn loads done distinct hl result hpath leads
  rw [atEnd, ← atMid] at changed
  obtain ⟨record, hrecord, text, leadsThere, slash, stood, emitted, gone⟩ :=
    removed_of_changed removes changed
  exact ⟨record, hrecord, text, locate_of_keeps keeps leadsThere, slash, atMid.symm.trans stood,
    emitted, atEnd.trans gone⟩

include loads done distinct in
/-- What changed was written, or taken away. -/
theorem exists_change (changed : after.fileAt? place ≠ tree.fileAt? place) :
    ∃ l ∈ loaded, ∃ text file, tree.readText l.path = .ok text ∧
      Go.SourceFile.parse text.toList = .ok file ∧
      l.result = .ok (CompiledUnit.ofFile target.options (sourceName l.path) file) ∧
      FileChange target tree after l file place := by
  obtain ⟨l, hl, path, hpath, leads⟩ := exists_touched done changed
  obtain ⟨unit, result, -⟩ := exists_record loads hl hpath
  obtain ⟨text, file, reads, parsed, rfl⟩ := exists_file loads hl result
  refine ⟨l, hl, text, file, reads, parsed, result, ?_⟩
  rw [touched_of_ok result] at hpath
  rcases List.mem_append.1 hpath with hpath | hpath
  · obtain ⟨artifact, hartifact, rfl⟩ := List.mem_map.1 hpath
    have current :=
      (current_of_run done (touched_pairwise loads distinct) hl result artifact hartifact).2
    obtain ⟨there, leads', stands, -⟩ := readText_eq_ok.1 (isCurrent_iff.1 current)
    obtain rfl : there = place := Except.ok.inj (leads'.symm.trans leads)
    obtain ⟨hartifact, authoritative⟩ := List.mem_filter.1 hartifact
    exact .written artifact hartifact authoritative leads (fileAt?_eq_some.2 stands)
  · obtain ⟨record, hrecord, old, leads, -, stood, emitted, gone⟩ :=
      removed_before loads done distinct hl result hpath leads changed
    exact .removed record old (mem_unplanned.1 hrecord) leads stood
      (isEmittedFrom_iff.1 emitted) gone

include loads done distinct in
/-- The file of a record that leads to one with a diagnostic is not changed. -/
theorem kept_of_doubt (hl : l ∈ loaded) (result : l.result = .ok unit)
    (hrecord : record ∈ unit.records) {d : Diagnostic} (hd : d ∈ unit.diagnostics)
    (leadsTo : Relation.ReflTransGen (Plan.HandsOver unit.plans) record d.record)
    (leads : after.locate (recordPath target l record) = .ok place) :
    after.fileAt? place = tree.fileAt? place := by
  by_contra changed
  obtain ⟨l', hl', path, hpath, leads'⟩ := exists_touched done changed
  obtain ⟨unit', result', record', hrecord', rfl, cause⟩ := exists_record loads hl' hpath
  rcases same_or_apart distinct (mem_recordsOf hl result hrecord)
    (mem_recordsOf hl' result' hrecord') with same | apart
  · cases same
    cases result.symm.trans result'
    obtain ⟨text, file, -, -, rfl⟩ := exists_file loads hl result
    obtain ⟨unwritten, kept⟩ := untouched_of_doubt hd leadsTo
    rcases cause with ⟨artifact, hartifact, same⟩ | unplanned
    · exact unwritten artifact hartifact same
    · exact kept unplanned
  · exact apart place leads leads'

end

theorem deliver_of_error {e : Go.SyntaxError} (result : l.result = .error e) (here : Tree) :
    deliver target l here = (none, here) := by
  unfold deliver
  rw [result]
  rfl

theorem generate_of_unreadable (style : Style) {inputs : List String}
    (unreadable : ∀ paths, pathsOfAll tree inputs = .ok paths →
      ∃ path ∈ paths, ∀ text, tree.readText path ≠ .ok text) :
    (generate style target inputs tree).tree = tree := by
  unfold generate
  cases loads : loadInputs tree target.options inputs with
  | error failure => rfl
  | ok loaded =>
    obtain ⟨paths, resolved, readable⟩ := loadInputs_ok.1 ⟨loaded, loads⟩
    obtain ⟨path, hpath, broken⟩ := unreadable paths resolved
    obtain ⟨text, reads⟩ := readable path hpath
    exact absurd reads (broken text)

/-- A run whose inputs cannot all be found and read changes nothing.  A run that is not broken off,
with the files of all records at different places, changes files only as `FileChange` says, and does
nothing for a source that cannot be parsed.  The files of records with diagnostics, and of those
that lead to one by handing over, stay as they are. -/
theorem generate_frame (style : Style) (target : Target) (inputs : List String) (tree : Tree) :
    let after := (generate style target inputs tree).tree
    ((∀ paths, pathsOfAll tree inputs = .ok paths →
        ∃ path ∈ paths, ∀ text, tree.readText path ≠ .ok text) → after = tree) ∧
    ∀ loaded, loadInputs tree target.options inputs = .ok loaded →
      (∀ failure, (generate style target inputs tree).ending ≠ .broken failure) →
      (loaded.flatMap (recordPaths target)).Pairwise after.Apart →
      (∀ place, after.fileAt? place ≠ tree.fileAt? place →
        ∃ l ∈ loaded, ∃ text file, tree.readText l.path = .ok text ∧
          Go.SourceFile.parse text.toList = .ok file ∧
          l.result = .ok (CompiledUnit.ofFile target.options (sourceName l.path) file) ∧
          FileChange target tree after l file place) ∧
      (∀ l ∈ loaded, ∀ e, l.result = .error e → ∀ here, deliver target l here = (none, here)) ∧
      ∀ l ∈ loaded, ∀ unit, l.result = .ok unit → ∀ record ∈ unit.records, ∀ d ∈ unit.diagnostics,
        Relation.ReflTransGen (Plan.HandsOver unit.plans) record d.record →
        ∀ place, after.locate (recordPath target l record) = .ok place →
          after.fileAt? place = tree.fileAt? place := by
  intro after
  refine ⟨generate_of_unreadable style, fun loaded loads ends distinct => ?_⟩
  obtain ⟨final, done, left⟩ := exists_after loads ends
  rw [show after = final from left] at distinct ⊢
  refine ⟨fun place changed => exists_change loads done distinct changed,
    fun l hl e result => deliver_of_error result, ?_⟩
  intro l hl unit result record hrecord d hd leadsTo place leads
  exact kept_of_doubt loads done distinct hl result hrecord hd leadsTo leads

/-- The first lines of a file that was emitted from `a.go`. -/
def emitted : String := "// Code generated by govalid; DO NOT EDIT.\n// source: a.go\n"

/-- A source whose records have a check, no marker, a marker of no rule, and a check that hands over
to the record with that marker; and a source that cannot be parsed.  Old files are there. -/
def mixed : Tree :=
  ⟨[(["m"], .directory),
    (["m", "a.go"], .file (.text
      ("package p\ntype New struct \x7b\n// +govalid:required\nX int\n\x7d\n" ++
        "type Old struct \x7b\x7d\n" ++
        "type Odd struct \x7b\n// +govalid:nope\n// +govalid:required\nX int\n\x7d\n" ++
        "type Far struct \x7b\n// +govalid:required\nX Odd\n\x7d\n"))),
    (["m", "old_validator.go"], .file (.text emitted)),
    (["m", "odd_validator.go"], .file (.text emitted)),
    (["m", "far_validator.go"], .file (.text emitted)),
    (["b.go"], .file (.text "x"))]⟩

/-- One file is written and one taken away; those of the records in doubt stay. -/
theorem generate_frame_mixed :
    let inputs := ["m/a.go", "b.go"]
    let outcome := generate ⟨false⟩ besideSource inputs mixed
    let after := outcome.tree
    (outcome.ending = .failed ∧
      after.namesIn "m" =
        ["a.go", "far_validator.go", "new_validator.go", "odd_validator.go"] ∧
      after.fileAt? ["m", "far_validator.go"] = some (.text emitted) ∧
      after.fileAt? ["m", "odd_validator.go"] = some (.text emitted)) ∧
    ∃ loaded, loadInputs mixed besideSource.options inputs = .ok loaded ∧
      ((∀ failure, outcome.ending ≠ .broken failure) ∧
        (loaded.flatMap (recordPaths besideSource)).Pairwise after.Apart) ∧
      (∀ place, after.fileAt? place ≠ mixed.fileAt? place →
        ∃ l ∈ loaded, ∃ text file, mixed.readText l.path = .ok text ∧
          Go.SourceFile.parse text.toList = .ok file ∧
          l.result = .ok (CompiledUnit.ofFile besideSource.options (sourceName l.path) file) ∧
          FileChange besideSource mixed after l file place) ∧
      (∀ l ∈ loaded, ∀ e, l.result = .error e →
        ∀ here, deliver besideSource l here = (none, here)) ∧
      ∀ l ∈ loaded, ∀ unit, l.result = .ok unit → ∀ record ∈ unit.records, ∀ d ∈ unit.diagnostics,
        Relation.ReflTransGen (Plan.HandsOver unit.plans) record d.record →
        ∀ place, after.locate (recordPath besideSource l record) = .ok place →
          after.fileAt? place = mixed.fileAt? place := by
  intro inputs outcome after
  let paths :=
    ["m/new_validator.go", "m/old_validator.go", "m/odd_validator.go", "m/far_validator.go"]
  obtain ⟨loaded, loads, facts⟩ := exists_loadInputs mixed besideSource.options inputs
    (p := fun loaded => decide (loaded.flatMap (recordPaths besideSource) = paths ∧
      paths.Pairwise after.Apart ∧
      outcome.ending = .failed ∧
        after.namesIn "m" =
          ["a.go", "far_validator.go", "new_validator.go", "odd_validator.go"] ∧
        after.fileAt? ["m", "far_validator.go"] = some (.text emitted) ∧
        after.fileAt? ["m", "odd_validator.go"] = some (.text emitted)))
    (by decide +kernel)
  obtain ⟨same, distinct, effect⟩ := of_decide_eq_true facts
  rw [← same] at distinct
  have ends : ∀ failure, outcome.ending ≠ .broken failure := fun failure broken => by
    rw [effect.1] at broken
    cases broken
  exact ⟨effect, loaded, loads, ⟨ends, distinct⟩,
    (generate_frame ⟨false⟩ besideSource inputs mixed).2 loaded loads ends distinct⟩

end CommandLine
end FieldRules
