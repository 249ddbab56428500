/-
A file whose record has lost its markers.

What is emitted starts with two lines, by which it is recognized later as emitted
from its source (`isEmittedFrom_emit`).  So when a source is replaced by one in which
a record has no marker any more, the file that was written for the record is still
there, a check finds it stale, and the next run takes it away
(`generate_removesOrphan`).

The source is recognized by its name, of which the second line is made.  A name with
a newline in it takes up more than a line, and a carriage return at the end of one is
not read as part of it.
-/
import FieldRules.Proofs.Frame

namespace FieldRules

open Files

/-! ### Paths that lead to different places -/

namespace Files.Tree

variable {tree before after : Tree} {place there : Place} {path other text : String}
  {paths : List String}

/-- Two paths that lead to different places do so for as long as directories stay. -/
theorem Apart.of_keeps (apart : before.Apart path other) (keeps : KeepsDirectories before after)
    (leads : before.locate path = .ok place) (leadsOther : before.locate other = .ok there) :
    after.Apart path other := by
  intro same hpath hother
  cases hpath.symm.trans (locate_of_keeps keeps leads)
  cases hother.symm.trans (locate_of_keeps keeps leadsOther)
  exact apart _ leads leadsOther

/-- A change at the place of one path leaves what is read elsewhere. -/
theorem Spares.readText_elsewhere (h : Spares [path] before after)
    (leads : before.locate path = .ok place) (apart : before.Apart path other)
    (reads : before.readText other = .ok text) : after.readText other = .ok text := by
  obtain ⟨there, leadsOther, -⟩ := readText_eq_ok.1 reads
  refine h.readText (fun changed hchanged => ?_) reads
  rw [List.mem_singleton.1 hchanged]
  exact apart.of_keeps h.keeps leads leadsOther

theorem removeFile_of_readText (reads : tree.readText path = .ok text) :
    ∃ after, tree.removeFile path = .ok after := by
  obtain ⟨place, leads, stands, slash⟩ := readText_eq_ok.1 reads
  refine ⟨tree.erase place, ?_⟩
  unfold removeFile
  simp [leads, stands, slash]

end Files.Tree

/-! ### The first lines of an emitted file -/

namespace Text

/-- The first line of a text that goes on behind it. -/
theorem lines_append_newline {line : List Char} (h : '\n' ∉ line) (cs : List Char) :
    lines (line ++ '\n' :: cs) = trimReturn line :: lines cs := by
  have ne := splitAt_ne_nil (· == '\n') cs
  unfold lines
  rw [splitAt_append_separator (p := (· == '\n')) rfl (apart_of_not_mem h)]
  simp only
  rw [List.dropLast_cons_of_ne_nil ne, List.getLast?_cons_of_ne_nil ne]
  rfl

end Text

namespace CommandLine

open Files.Tree Change

/-- The header and the line with the name of the source come first. -/
theorem exists_emit_eq (options : Emission.Options) (package name : String) (plan : Plan) :
    ∃ rest, (Emission.emit options package name plan).toList =
      headerLine.toList ++ '\n' :: ((sourceLine name).toList ++ '\n' :: rest) := by
  obtain ⟨more, lines⟩ : ∃ more, (Emission.codeFile options package name plan).lines =
      ⟨0, headerLine⟩ :: ⟨0, sourceLine name⟩ :: more := ⟨_, rfl⟩
  refine ⟨(String.join (more.map Go.Line.render)).toList, ?_⟩
  unfold Emission.emit Go.CodeFile.render
  rw [lines]
  simp [Go.Line.render]

/-- What is emitted is recognized. -/
theorem isEmittedFrom_emit {name : String} (unbroken : '\n' ∉ name.toList)
    (ended : name.toList.getLast? ≠ some '\r') (options : Emission.Options) (package : String)
    (plan : Plan) : isEmittedFrom name (Emission.emit options package name plan) = true := by
  obtain ⟨rest, starts⟩ := exists_emit_eq options package name plan
  have named : (sourceLine name).toList = "// source: ".toList ++ name.toList := by
    simp [sourceLine, Emission.sourceComment]
  have first : '\n' ∉ headerLine.toList := by decide +kernel
  have second : '\n' ∉ (sourceLine name).toList := by
    rw [named]
    exact List.not_mem_append (by decide) unbroken
  have trimmed : Text.trimReturn (sourceLine name).toList = (sourceLine name).toList := by
    refine if_neg ?_
    rw [named, List.getLast?_append]
    cases last : name.toList.getLast? with
    | none => decide
    | some c => rwa [last] at ended
  rw [isEmittedFrom_iff, starts, Text.lines_append_newline first,
    Text.lines_append_newline second, trimmed]
  rfl

section

variable {tree after replaced : Tree} {target : Target} {inputs paths : List String}
  {loaded : List Loaded} {l : Loaded} {unit : CompiledUnit} {path other record text : String}
  {options : Emission.Options}

/-! ### A source that is replaced -/

theorem loadAll_paths (loads : loadAll tree options paths = .ok loaded) :
    loaded.map (·.path) = paths := by
  induction loadAll_eq_ok.1 loads with
  | nil => rfl
  | cons first rest ih =>
    obtain ⟨text, -, rfl⟩ := load_eq_ok.1 first
    rw [List.map_cons, ih (loadAll_eq_ok.2 rest)]

/-- What could be read before a file was replaced can be read afterwards. -/
theorem readText_of_replaced (writes : tree.writeText path text = .ok replaced)
    (reads : ∃ old, tree.readText other = .ok old) : ∃ new, replaced.readText other = .ok new := by
  obtain ⟨old, reads⟩ := reads
  have spares := spares_writeText (List.mem_singleton_self path) writes
  by_cases apart : tree.Apart path other
  · obtain ⟨place, leads, -⟩ := writeText_eq_ok writes
    exact ⟨old, spares.readText_elsewhere leads apart reads⟩
  · obtain ⟨place, leads, leadsOther⟩ : ∃ place, tree.locate path = .ok place ∧
        tree.locate other = .ok place := by
      unfold Apart at apart
      push Not at apart
      exact apart
    have keeps := spares.keeps
    obtain ⟨there, leadsNew, stands, -⟩ := readText_eq_ok.1 (readText_of_writeText writes)
    cases leadsNew.symm.trans (locate_of_keeps keeps leads)
    obtain ⟨-, -, -, slash⟩ := readText_eq_ok.1 reads
    exact ⟨text, readText_eq_ok.2 ⟨place, locate_of_keeps keeps leadsOther, stands, slash⟩⟩

theorem touched_subset (loads : loadInputs tree target.options inputs = .ok loaded) :
    loaded.flatMap (touched target) ⊆ loaded.flatMap (recordPaths target) := by
  intro path hpath
  obtain ⟨l, hl, hpath⟩ := List.mem_flatMap.1 hpath
  obtain ⟨source, -, compiled⟩ := mem_loadInputs loads hl
  exact List.mem_flatMap.2 ⟨l, hl, (touched_subperm compiled).subset hpath⟩

/-- The paths of what is loaded are the inputs, if these are given by name. -/
theorem loaded_paths (literal : ∀ input ∈ inputs, Glob.isPattern input = false)
    (loads : loadInputs tree options inputs = .ok loaded) : loaded.map (·.path) = inputs := by
  unfold loadInputs at loads
  rw [pathsOfAll_of_literal literal] at loads
  exact loadAll_paths loads

/-- Inputs that are given by name can be loaded again after a run and after one of them was
replaced. -/
theorem loadInputs_of_replaced (literal : ∀ input ∈ inputs, Glob.isPattern input = false)
    (loads : loadInputs tree target.options inputs = .ok loaded)
    (done : inTurn (deliver target) loaded tree = (none, after))
    (noInput : ∀ path ∈ loaded.flatMap (recordPaths target), ∀ l ∈ loaded, after.Apart path l.path)
    (hl : l ∈ loaded) (writes : after.writeText l.path text = .ok replaced) :
    ∃ loaded', loadInputs replaced target.options inputs = .ok loaded' ∧
      ∃ l' ∈ loaded', l'.path = l.path := by
  have spares := spares_deliverAll target loaded tree
  rw [done] at spares
  have readable (input : String) (hinput : input ∈ inputs) :
      ∃ new, replaced.readText input = .ok new := by
    rw [← loaded_paths literal loads] at hinput
    obtain ⟨l', hl', rfl⟩ := List.mem_map.1 hinput
    obtain ⟨old, reads, -⟩ := mem_loadInputs loads hl'
    refine readText_of_replaced writes ⟨old, spares.readText (fun path hpath => ?_) reads⟩
    exact noInput path (touched_subset loads hpath) l' hl'
  obtain ⟨loaded', loads'⟩ := loadInputs_ok.2 ⟨inputs, pathsOfAll_of_literal literal _, readable⟩
  refine ⟨loaded', loads', List.mem_map.1 ?_⟩
  rw [loaded_paths literal loads', ← loaded_paths literal loads]
  exact List.mem_map_of_mem hl

/-! ### The file that is left -/

theorem mem_stale_of_unmarked (result : l.result = .ok unit) (hrecord : record ∈ unplanned unit)
    (reads : tree.readText (recordPath target l record) = .ok text)
    (emitted : isEmittedFrom unit.sourceName text = true) :
    recordPath target l record ∈ stale tree target l := by
  unfold stale
  rw [result]
  refine List.mem_append_right _ (List.mem_filter.2 ⟨?_, ?_⟩)
  · exact List.mem_map_of_mem hrecord
  · exact holdsEmitted_iff.2 ⟨text, reads, emitted⟩

theorem report_ending (style : Style) (format : ReportFormat)
    (reports : List (Loaded × List String)) (tree : Tree) :
    (report style format reports tree).ending =
      endingOf (reports.any fun (loaded, stale) => loaded.failed || !stale.isEmpty) := by
  cases format <;> rfl

/-- A check fails if something is stale, and lists it. -/
theorem check_of_stale (style : Style) (loads : loadInputs tree target.options inputs = .ok loaded)
    (hl : l ∈ loaded) (hpath : path ∈ stale tree target l) :
    check style target inputs tree =
        report style target.format (loaded.map fun l => (l, stale tree target l)) tree ∧
      (check style target inputs tree).ending = .failed := by
  have reported : check style target inputs tree =
      report style target.format (loaded.map fun l => (l, stale tree target l)) tree := by
    unfold check
    rw [loads]
  refine ⟨reported, ?_⟩
  have bad : (loaded.map fun l => (l, stale tree target l)).any
      (fun (loaded, stale) => loaded.failed || !stale.isEmpty) = true := by
    refine List.any_eq_true.2 ⟨(l, stale tree target l), List.mem_map_of_mem hl, ?_⟩
    simp [List.ne_nil_of_mem hpath]
  rw [reported, report_ending, bad]
  rfl

/-- Files at different places can all be taken away. -/
theorem removeAll_succeeds (reads : ∀ path ∈ paths, ∃ text, tree.readText path = .ok text)
    (apart : paths.Pairwise tree.Apart) : ∃ after, inTurn remove paths tree = (none, after) := by
  induction paths generalizing tree with
  | nil => exact ⟨tree, rfl⟩
  | cons path paths ih =>
    obtain ⟨text, readsFirst⟩ := reads path List.mem_cons_self
    obtain ⟨between, removed⟩ := removeFile_of_readText readsFirst
    obtain ⟨place, leads, -⟩ := readText_eq_ok.1 readsFirst
    have spares := spares_removeFile (List.mem_singleton_self path) removed
    obtain ⟨apartFirst, apart⟩ := List.pairwise_cons.1 apart
    obtain ⟨after, rest⟩ := @ih between
      (fun other hother => by
        obtain ⟨text, readsOther⟩ := reads other (List.mem_cons_of_mem _ hother)
        exact ⟨text, spares.readText_elsewhere leads (apartFirst other hother) readsOther⟩)
      (apart.imp_of_mem fun {other more} hother hmore apart => by
        obtain ⟨_, readsOther⟩ := reads other (List.mem_cons_of_mem _ hother)
        obtain ⟨_, readsMore⟩ := reads more (List.mem_cons_of_mem _ hmore)
        obtain ⟨_, leadsOther, -⟩ := readText_eq_ok.1 readsOther
        obtain ⟨_, leadsMore, -⟩ := readText_eq_ok.1 readsMore
        exact apart.of_keeps spares.keeps leadsOther leadsMore)
    refine ⟨after, andThen_eq_ok.2 ⟨between, ?_, rest⟩⟩
    unfold remove
    rw [removed]

/-- A source for which nothing is written is seen to without a failure. -/
theorem deliver_succeeds (result : l.result = .ok unit) (unwritten : authoritative unit = [])
    (apart : (orphanPaths target.options (outputDirectory target l.path) unit).Pairwise
      tree.Apart) : ∃ after, deliver target l tree = (none, after) := by
  have seen (path : String)
      (hpath : path ∈ orphans tree target.options (outputDirectory target l.path) unit) :
      ∃ text, tree.readText path = .ok text := by
    obtain ⟨text, reads, -⟩ := holdsEmitted_iff.1 (List.mem_filter.1 hpath).2
    exact ⟨text, reads⟩
  obtain ⟨after, removes⟩ := removeAll_succeeds seen (apart.sublist List.filter_sublist)
  refine ⟨after, ?_⟩
  unfold deliver
  rw [result]
  refine andThen_eq_ok.2 ⟨tree, ?_, removes⟩
  rw [unwritten]
  rfl

/-- A run that sees to everything is not broken off. -/
theorem generate_ends (style : Style) (loads : loadInputs tree target.options inputs = .ok loaded)
    (done : inTurn (deliver target) loaded tree = (none, after)) (failure : Failure) :
    (generate style target inputs tree).ending ≠ .broken failure := by
  unfold generate
  simp only [loads, done]
  rw [report_ending]
  unfold endingOf
  split <;> simp

/-- A run takes away the file of a record without markers. -/
theorem removed_of_unmarked (loads : loadInputs tree target.options inputs = .ok loaded)
    (done : inTurn (deliver target) loaded tree = (none, after))
    (distinct : (loaded.flatMap (recordPaths target)).Pairwise after.Apart) (hl : l ∈ loaded)
    (result : l.result = .ok unit) (hrecord : record ∈ unplanned unit)
    (reads : tree.readText (recordPath target l record) = .ok text)
    (emitted : isEmittedFrom unit.sourceName text = true) :
    ∃ place, tree.locate (recordPath target l record) = .ok place ∧
      tree.fileAt? place = some (.text text) ∧
      after.locate (recordPath target l record) = .ok place ∧ after.fileAt? place = none := by
  obtain ⟨place, leads, stands, slash⟩ := readText_eq_ok.1 reads
  have keeps := (spares_deliverAll target loaded tree).keeps
  rw [done] at keeps
  have leadsAfter := locate_of_keeps keeps leads
  have listed : recordPath target l record ∈
      orphanPaths target.options (outputDirectory target l.path) unit :=
    List.mem_map_of_mem hrecord
  obtain ⟨mid, there, removes, keepsMid, -, atMid, atEnd⟩ :=
    exists_turn loads done distinct hl result listed leadsAfter
  have stood := fileAt?_eq_some.2 stands
  have leadsMid := locate_of_keeps keepsMid leads
  -- The file is still there when the orphans are looked for, so it is seen.
  have seen : recordPath target l record ∈
      orphans mid target.options (outputDirectory target l.path) unit := by
    refine List.mem_filter.2 ⟨listed, holdsEmitted_iff.2 ⟨text, ?_, emitted⟩⟩
    exact readText_eq_ok.2 ⟨place, leadsMid, fileAt?_eq_some.1 (atMid.trans stood), slash⟩
  have gone := removeAll_erases removes seen leadsMid
  refine ⟨place, leads, stood, leadsAfter, atEnd.trans ?_⟩
  unfold fileAt?
  rw [gone]

/-! ### An artifact and the record it is for -/

/-- The file of an artifact is that of its record, and is emitted from its source. -/
theorem artifact_emitted (loads : loadInputs tree target.options inputs = .ok loaded)
    (hl : l ∈ loaded) (result : l.result = .ok unit) {artifact : Artifact}
    (hartifact : artifact ∈ unit.artifacts) (unbroken : '\n' ∉ (sourceName l.path).toList)
    (ended : (sourceName l.path).toList.getLast? ≠ some '\r') :
    outputPath (outputDirectory target l.path) artifact.fileName =
        recordPath target l artifact.record ∧
      outputPath (outputDirectory target l.path) artifact.fileName ∈ recordPaths target l ∧
      isEmittedFrom (sourceName l.path) artifact.source = true := by
  obtain ⟨text, file, -, -, rfl⟩ := exists_file loads hl result
  obtain ⟨plan, hplan, ofPlan, named, source, -⟩ := exists_plan hartifact
  refine ⟨?_, ?_, ?_⟩
  · rw [named, ofPlan]
    rfl
  · unfold recordPaths
    rw [result, named]
    exact List.mem_map_of_mem (Plan.ofFile_record hplan)
  · rw [source]
    exact isEmittedFrom_emit unbroken ended _ _ _

/-- What is loaded from the place of a replaced file is what it was replaced by. -/
theorem result_of_replaced {file : Go.SourceFile} (writes : tree.writeText path text = .ok replaced)
    (parsed : Go.SourceFile.parse text.toList = .ok file)
    (loads : loadInputs replaced options inputs = .ok loaded) (hl : l ∈ loaded)
    (samePath : l.path = path) :
    l.result = .ok (CompiledUnit.ofFile options (sourceName path) file) := by
  obtain ⟨new, reads, compiled⟩ := mem_loadInputs loads hl
  rw [samePath] at reads compiled
  cases reads.symm.trans (readText_of_writeText writes)
  exact compiled.trans (CompiledUnit.compile_eq_ok.2 ⟨file, parsed, rfl⟩)

end

/-- A source is replaced after a run by one in which a record with an authoritative artifact has no
marker any more.  Then a check lists the file of the record as stale and fails, and the next run
that is not broken off takes the file away.  The files of records are at different places, and those
of the first run at none of an input.  Inputs that are given by name can all be loaded again. -/
theorem generate_removesOrphan {style : Style} {target : Target} {inputs : List String}
    {tree replaced : Tree} {loaded : List Loaded} {l : Loaded} {unit : CompiledUnit}
    {artifact : Artifact} {text : String} {file : Go.SourceFile}
    (loads : loadInputs tree target.options inputs = .ok loaded)
    (ends : ∀ failure, (generate style target inputs tree).ending ≠ .broken failure)
    (distinct : (loaded.flatMap (recordPaths target)).Pairwise
      (generate style target inputs tree).tree.Apart)
    (noInput : ∀ path ∈ loaded.flatMap (recordPaths target), ∀ l ∈ loaded,
      (generate style target inputs tree).tree.Apart path l.path)
    (hl : l ∈ loaded) (result : l.result = .ok unit) (hartifact : artifact ∈ unit.artifacts)
    (reliable : artifact.authoritative = true)
    (unbroken : '\n' ∉ (sourceName l.path).toList)
    (ended : (sourceName l.path).toList.getLast? ≠ some '\r')
    (writes : (generate style target inputs tree).tree.writeText l.path text = .ok replaced)
    (parsed : Go.SourceFile.parse text.toList = .ok file)
    (unmarked : file.IsUnmarked artifact.record) :
    let path := outputPath (outputDirectory target l.path) artifact.fileName
    ((∀ input ∈ inputs, Glob.isPattern input = false) →
      ∃ loaded', loadInputs replaced target.options inputs = .ok loaded' ∧
        ∃ l' ∈ loaded', l'.path = l.path) ∧
    ∀ loaded', loadInputs replaced target.options inputs = .ok loaded' →
      ∀ l' ∈ loaded', l'.path = l.path →
        let checked := check style target inputs replaced
        let next := generate style target inputs replaced
        (path ∈ stale replaced target l' ∧
          checked = report style target.format
            (loaded'.map fun l => (l, stale replaced target l)) replaced ∧
          checked.ending = .failed) ∧
        ((∀ failure, next.ending ≠ .broken failure) →
          (loaded'.flatMap (recordPaths target)).Pairwise next.tree.Apart →
          ∃ place, replaced.locate path = .ok place ∧
            replaced.fileAt? place = some (.text artifact.source) ∧
            next.tree.locate path = .ok place ∧ next.tree.fileAt? place = none) := by
  obtain ⟨after, done, left⟩ := exists_after loads ends
  rw [left] at distinct noInput writes
  intro path
  obtain ⟨ofRecord, listed, emitted⟩ := artifact_emitted loads hl result hartifact unbroken ended
  -- The artifact was written, and it is still there.
  have current := (current_of_run done (touched_pairwise loads distinct) hl result artifact
    (List.mem_filter.2 ⟨hartifact, reliable⟩)).2
  have reads : replaced.readText path = .ok artifact.source := by
    obtain ⟨place, leads, -⟩ := writeText_eq_ok writes
    have apart := noInput path (List.mem_flatMap.2 ⟨l, hl, listed⟩) l hl
    exact (spares_writeText (List.mem_singleton_self l.path) writes).readText_elsewhere leads
      apart.symm (isCurrent_iff.1 current)
  refine ⟨fun literal => loadInputs_of_replaced literal loads done noInput hl writes,
    fun loaded' loads' l' hl' samePath => ?_⟩
  -- The new source declares the record without a marker.
  have result' := result_of_replaced writes parsed loads' hl' samePath
  have hrecord : artifact.record ∈
      unplanned (CompiledUnit.ofFile target.options (sourceName l.path) file) :=
    mem_unplanned.2 unmarked
  have isPath : path = recordPath target l' artifact.record := by
    unfold recordPath
    rw [samePath]
    exact ofRecord
  rw [isPath] at reads ⊢
  have found := mem_stale_of_unmarked result' hrecord reads emitted
  refine ⟨⟨found, check_of_stale style loads' hl' found⟩, fun ends' distinct' => ?_⟩
  obtain ⟨final, done', left'⟩ := exists_after loads' ends'
  rw [left'] at distinct' ⊢
  exact removed_of_unmarked loads' done' distinct' hl' result' hrecord reads emitted

/-- A single input that is given by name. -/
theorem loadInputs_single {tree : Tree} {path text : String} (options : Emission.Options)
    (literal : Glob.isPattern path = false) (reads : tree.readText path = .ok text) :
    loadInputs tree options [path] =
      .ok [⟨path, CompiledUnit.compile options (sourceName path) text⟩] := by
  have first : load tree options path =
      .ok ⟨path, CompiledUnit.compile options (sourceName path) text⟩ :=
    load_eq_ok.2 ⟨text, reads, rfl⟩
  unfold loadInputs
  rw [pathsOfAll_of_literal fun input hinput => List.mem_singleton.1 hinput ▸ literal]
  show loadAll tree options [path] = _
  rw [loadAll, first]
  rfl

/-- A result that there is, with what evaluation shows of it. -/
theorem exists_ok {ε α : Type} (outcome : Except ε α) {p : α → Bool}
    (h : (match outcome with
      | .ok a => p a
      | .error _ => false) = true) : ∃ a, outcome = .ok a ∧ p a = true := by
  cases outcome with
  | error e => cases h
  | ok a => exact ⟨a, rfl, h⟩

/-- A source of one record with a check. -/
def annotated : String := "package p\ntype T struct \x7b\n// +govalid:required\nX int\n\x7d\n"

/-- The same without it. -/
def unannotated : String := "package p\ntype T struct \x7b\nX int\n\x7d\n"

def onlySource : Tree := ⟨[(["m"], .directory), (["m", "a.go"], .file (.text annotated))]⟩

/-- The file that the first run writes is taken away by the second one. -/
theorem generate_removesOrphan_onlySource :
    let inputs := ["m/a.go"]
    let path := "m/t_validator.go"
    let first := generate ⟨false⟩ besideSource inputs onlySource
    (first.ending = .succeeded ∧ first.tree.namesIn "m" = ["a.go", "t_validator.go"]) ∧
    ∃ replaced, first.tree.writeText "m/a.go" unannotated = .ok replaced ∧
      ∃ l, loadInputs replaced besideSource.options inputs = .ok [l] ∧
        path ∈ stale replaced besideSource l ∧
        (check ⟨false⟩ besideSource inputs replaced).ending = .failed ∧
        let next := generate ⟨false⟩ besideSource inputs replaced
        (∀ failure, next.ending ≠ .broken failure) ∧
        ∃ place, replaced.locate path = .ok place ∧ next.tree.locate path = .ok place ∧
          next.tree.fileAt? place = none := by
  intro inputs path first
  have effect : (first.ending = .succeeded ∧
        first.tree.namesIn "m" = ["a.go", "t_validator.go"]) ∧
      first.tree.Apart path "m/a.go" ∧
      outputPath (outputDirectory besideSource "m/a.go") "t_validator.go" = path ∧
      besideSource.options.fileName "T" = "t_validator.go" ∧ sourceName "m/a.go" = "a.go" := by
    decide +kernel
  obtain ⟨effect, apart, atPath, ofT, named⟩ := effect
  obtain ⟨unit, compiled, facts⟩ := exists_ok
    (CompiledUnit.compile besideSource.options (sourceName "m/a.go") annotated)
    (p := fun unit => decide (unit.records = ["T"] ∧ ∃ artifact ∈ unit.artifacts,
      artifact.record = "T" ∧ artifact.fileName = "t_validator.go" ∧
        artifact.authoritative = true)) (by decide +kernel)
  obtain ⟨records, artifact, hartifact, ofRecord, fileName, reliable⟩ := of_decide_eq_true facts
  obtain ⟨unit', compiled', facts⟩ := exists_ok
    (CompiledUnit.compile besideSource.options (sourceName "m/a.go") unannotated)
    (p := fun unit => decide (unit.records = ["T"] ∧ unplanned unit = ["T"] ∧
      (authoritative unit).isEmpty = true)) (by decide +kernel)
  obtain ⟨records', unplanned, unwritten⟩ := of_decide_eq_true facts
  obtain ⟨replaced, writes, -⟩ := exists_ok (first.tree.writeText "m/a.go" unannotated)
    (p := fun _ => true) (by decide +kernel)
  have literal : ∀ input ∈ inputs, Glob.isPattern input = false := by decide +kernel
  have loads : loadInputs onlySource besideSource.options inputs =
      .ok [⟨"m/a.go", .ok unit⟩] := by
    rw [loadInputs_single _ (literal _ List.mem_cons_self) (by rfl), compiled]
  have loads' : loadInputs replaced besideSource.options inputs =
      .ok [⟨"m/a.go", .ok unit'⟩] := by
    rw [loadInputs_single _ (literal _ List.mem_cons_self) (readText_of_writeText writes),
      compiled']
  obtain ⟨file, parsed, rfl⟩ := CompiledUnit.compile_eq_ok.1 compiled'
  have unmarked : file.IsUnmarked artifact.record :=
    mem_unplanned.1 (by rw [unplanned, ofRecord]; exact List.mem_singleton_self "T")
  have paths : ([⟨"m/a.go", .ok unit⟩] : List Loaded).flatMap (recordPaths besideSource) =
      [path] := by
    simp [recordPaths, records, ofT, atPath]
  obtain ⟨-, later⟩ := generate_removesOrphan loads
    (fun failure => by rw [effect.1]; exact fun same => nomatch same)
    (by rw [paths]; exact List.pairwise_singleton _ _)
    (by
      rw [paths]
      intro other hother l hl
      rw [List.mem_singleton.1 hother, List.mem_singleton.1 hl]
      exact apart)
    List.mem_cons_self rfl hartifact reliable (by rw [named]; decide) (by rw [named]; decide)
    writes parsed unmarked
  rw [fileName, atPath] at later
  obtain ⟨⟨found, -, failed⟩, removed⟩ := later _ loads' _ List.mem_cons_self rfl
  -- The second run has nothing to write and one file to take away.
  have apartOrphans : (orphanPaths besideSource.options (outputDirectory besideSource "m/a.go")
      (CompiledUnit.ofFile besideSource.options (sourceName "m/a.go") file)).Pairwise
        replaced.Apart := by
    unfold orphanPaths
    rw [unplanned]
    exact List.pairwise_singleton _ _
  have result : Loaded.result ⟨"m/a.go", .ok (CompiledUnit.ofFile besideSource.options
      (sourceName "m/a.go") file)⟩ = .ok _ := rfl
  obtain ⟨after, delivered⟩ :=
    deliver_succeeds result (List.isEmpty_iff.1 unwritten) apartOrphans
  have ends := generate_ends ⟨false⟩ loads' (andThen_eq_ok.2 ⟨after, delivered, rfl⟩)
  obtain ⟨place, leads, -, leadsNext, gone⟩ := removed ends (by
    simp only [List.flatMap_cons, List.flatMap_nil, recordPaths, records']
    exact List.pairwise_singleton _ _)
  exact ⟨effect, replaced, writes, _, loads', found, failed, ends, place, leads, leadsNext, gone⟩

end CommandLine
end FieldRules
