/-
The order of inputs.

Runs that see to the same inputs in different orders do not pass through the same
trees, but they come to the same end (`Ended.at?_eq`).  Each makes those directories
that its files are put into and that are not there yet, so in the end both have the
same ones, and the same paths lead to the same places.  Whatever a run changes is a
file that it writes, which the other writes as well, or one that it takes away, which
the other sees and takes away as well.

Runs with one input each, one after another, are a run of this kind as well: none
changes what a later one reads as its input (`generateEach_delivers`).

An old file may be seen in one order only, where its path goes up through a directory
that is made for a file of another input (`generate_reordered_roundabout`).
-/
import FieldRules.Proofs.Orphans

namespace FieldRules

open Files

/-! ### Directories that are made -/

namespace Files.Tree

variable {tree before after final : Tree} {path other text : String}

/-- Two paths that lead to different places did so as long as there were fewer directories. -/
theorem Apart.earlier (apart : after.Apart path other) (keeps : KeepsDirectories before after) :
    before.Apart path other :=
  fun place leads same => apart place (locate_of_keeps keeps leads) (locate_of_keeps keeps same)

/-- Whether a change makes no directory that a given tree is without. -/
def StaysWithin (final before after : Tree) : Prop :=
  KeepsDirectories before final → KeepsDirectories after final

instance : Std.Refl (StaysWithin final) := ⟨fun _ keeps => keeps⟩

instance : Trans (StaysWithin final) (StaysWithin final) (StaysWithin final) :=
  ⟨fun h h' keeps => h' (h keeps)⟩

theorem StaysWithin.of_steady (h : Steady [] before after) : StaysWithin final before after :=
  (h (List.forall_mem_nil _)).2.trans

theorem stays_ensureDirectory (h : tree.ensureDirectory path = .ok after)
    (there : final.hasDirectory path = true) : StaysWithin final tree after := by
  intro keeps
  rcases ensureDirectory_eq_ok h with ⟨place, leads, free, rfl⟩ | ⟨-, rfl⟩
  · obtain ⟨found, leadsFinal, stands⟩ := hasDirectory_iff.1 there
    obtain rfl : place = found :=
      Except.ok.inj ((locate_of_keeps keeps leads).symm.trans leadsFinal)
    intro other directory
    by_cases same : other = place
    · rw [same, stands]
    · rw [at?_set_ne same] at directory
      exact keeps other directory
  · exact keeps

/-- A directory that is ready in the given tree is made out of directories that are there. -/
theorem stays_makeDirectoriesWithin (fuel : Nat) (tree : Tree) (ready : final.IsReady path) :
    StaysWithin final tree (makeDirectoriesWithin fuel tree path).2 := by
  induction fuel generalizing tree path with
  | zero => exact Std.Refl.refl tree
  | succ fuel ih =>
    rw [makeDirectoriesWithin]
    split
    · exact Std.Refl.refl tree
    · next named =>
      have there : final.hasDirectory path = true :=
        ready.resolve_left fun empty => named (String.isEmpty_iff.2 empty)
      split
      · next made => exact stays_ensureDirectory made there
      · split
        · exact Std.Refl.refl tree
        · next parent above =>
          obtain ⟨place, leads, -⟩ := hasDirectory_iff.1 there
          have readyParent := ready_parent leads
          rw [above, Option.getD_some] at readyParent
          have stays := ih tree readyParent
          split
          · next fault after stops =>
            rw [stops] at stays
            exact stays
          · next between makes =>
            rw [makes] at stays
            split
            · next made => exact Trans.trans stays (stays_ensureDirectory made there)
            · exact stays
      · exact Std.Refl.refl tree

theorem stays_makeDirectories (tree : Tree) (ready : final.IsReady path) :
    StaysWithin final tree (tree.makeDirectories path).2 :=
  stays_makeDirectoriesWithin _ tree ready

end Files.Tree

namespace CommandLine

open Files.Tree Change

variable {tree here after other final : Tree} {target : Target} {loaded loaded' : List Loaded}
  {l : Loaded} {unit : CompiledUnit} {place : Place} {record text : String}

/-- Whether the directories that files are put into are ready. -/
def HasDirectoriesFor (tree : Tree) (target : Target) (loaded : List Loaded) : Prop :=
  ∀ l ∈ loaded, ∀ unit, l.result = .ok unit → authoritative unit ≠ [] →
    tree.IsReady (outputDirectory target l.path)

theorem stays_deliver (ready : HasDirectoriesFor final target loaded) (hl : l ∈ loaded) :
    Respects (StaysWithin final) (deliver target l) := by
  unfold deliver
  cases result : l.result with
  | error e => exact respects_idle
  | ok unit =>
    refine Respects.andThen ?_ (respects_removeOrphans fun _ _ _ _ removed =>
      .of_steady (steady_removeFile removed))
    by_cases unwritten : authoritative unit = []
    · rw [unwritten]
      exact respects_idle
    · exact respects_writeArtifacts
        (fun tree => stays_makeDirectories tree (ready l hl unit result unwritten))
        fun _ _ _ _ written => .of_steady (steady_writeText written)

/-- The directories that a run leaves are in a tree in which all were ready. -/
theorem keeps_of_done (done : inTurn (deliver target) loaded tree = (none, after))
    (keeps : KeepsDirectories tree final) (ready : HasDirectoriesFor final target loaded) :
    KeepsDirectories after final := by
  have stays := respects_inTurn (fun l hl => stays_deliver ready hl) tree keeps
  rw [done] at stays
  exact stays

/-! ### Runs that saw to everything -/

/-- A run saw to all that was loaded, the files of records are at different places, and old files
could be seen from the beginning on. -/
structure Ended (target : Target) (loaded : List Loaded) (tree after : Tree) : Prop where
  loads : ∃ inputs, loadInputs tree target.options inputs = .ok loaded
  done : inTurn (deliver target) loaded tree = (none, after)
  distinct : (loaded.flatMap (recordPaths target)).Pairwise after.Apart
  found : FoundBefore (loaded.flatMap (recordPaths target)) tree after

namespace Ended

theorem delivered (h : Ended target loaded tree after) :
    ∀ l ∈ loaded, IsDelivered after target l := by
  obtain ⟨inputs, loads⟩ := h.loads
  exact delivered_of_run h.done (touched_pairwise loads h.distinct) fun path hpath =>
    h.found path (touched_subset loads hpath)

theorem hasDirectories (h : Ended target loaded tree after) :
    HasDirectoriesFor after target loaded := by
  intro l hl unit result written
  obtain ⟨artifact, hartifact⟩ := List.exists_mem_of_ne_nil _ written
  exact ((h.delivered l hl unit result).1 artifact hartifact).1

/-- The file of an authoritative artifact holds what it should. -/
theorem written (h : Ended target loaded tree after) (hl : l ∈ loaded)
    (result : l.result = .ok unit) {artifact : Artifact}
    (hartifact : artifact ∈ authoritative unit)
    (leads : after.locate (outputPath (outputDirectory target l.path) artifact.fileName) =
      .ok place) : after.fileAt? place = some (.text artifact.source) := by
  have current := ((h.delivered l hl unit result).1 artifact hartifact).2
  obtain ⟨there, leadsThere, stands, -⟩ := readText_eq_ok.1 (isCurrent_iff.1 current)
  obtain rfl : there = place := Except.ok.inj (leadsThere.symm.trans leads)
  exact fileAt?_eq_some.2 stands

/-- No file that was emitted from the source is left for a record without markers. -/
theorem unheld (h : Ended target loaded tree after) (hl : l ∈ loaded) (result : l.result = .ok unit)
    (hrecord : record ∈ unplanned unit)
    (leads : after.locate (recordPath target l record) = .ok place)
    (slash : Path.endsWithSlash (recordPath target l record) = false)
    (emitted : isEmittedFrom unit.sourceName text = true) :
    after.fileAt? place ≠ some (.text text) := by
  intro stands
  have reads := readText_eq_ok.2 ⟨place, leads, fileAt?_eq_some.1 stands, slash⟩
  have seen : recordPath target l record ∈
      orphans after target.options (outputDirectory target l.path) unit :=
    List.mem_filter.2 ⟨List.mem_map_of_mem hrecord, holdsEmitted_iff.2 ⟨text, reads, emitted⟩⟩
  rw [(h.delivered l hl unit result).2] at seen
  cases seen

/-- What changed is the file of an authoritative artifact, or is gone and was emitted for a record
without markers. -/
theorem change (h : Ended target loaded tree after)
    (changed : after.fileAt? place ≠ tree.fileAt? place) :
    ∃ l ∈ loaded, ∃ unit, l.result = .ok unit ∧
      ((∃ artifact ∈ authoritative unit,
          after.locate (outputPath (outputDirectory target l.path) artifact.fileName) =
            .ok place) ∨
        ∃ record ∈ unplanned unit, ∃ text,
          after.locate (recordPath target l record) = .ok place ∧
          Path.endsWithSlash (recordPath target l record) = false ∧
          tree.fileAt? place = some (.text text) ∧ isEmittedFrom unit.sourceName text = true ∧
          after.fileAt? place = none) := by
  obtain ⟨inputs, loads⟩ := h.loads
  obtain ⟨l, hl, path, hpath, leads⟩ := exists_touched h.done changed
  obtain ⟨unit, result, -⟩ := exists_record loads hl hpath
  refine ⟨l, hl, unit, result, ?_⟩
  rw [touched_of_ok result] at hpath
  rcases List.mem_append.1 hpath with hpath | hpath
  · obtain ⟨artifact, hartifact, rfl⟩ := List.mem_map.1 hpath
    exact .inl ⟨artifact, hartifact, leads⟩
  · exact .inr (removed_before loads h.done h.distinct hl result hpath leads changed)

/-! ### Two orders -/

theorem keepsBefore (h : Ended target loaded tree after) : KeepsDirectories tree after := by
  have spares := spares_deliverAll target loaded tree
  rw [h.done] at spares
  exact spares.keeps

variable (h : Ended target loaded tree after) (h' : Ended target loaded' tree other)
  (same : ∀ l, l ∈ loaded' ↔ l ∈ loaded)

include h h' same in
theorem keeps : KeepsDirectories after other :=
  keeps_of_done h.done h'.keepsBefore fun l hl => h'.hasDirectories l ((same l).2 hl)

include h h' same in
/-- What one run changed is the same after both. -/
theorem fileAt?_eq_of_changed (changed : after.fileAt? place ≠ tree.fileAt? place) :
    other.fileAt? place = after.fileAt? place := by
  have keeps := h.keeps h' same
  have back := h'.keeps h fun l => (same l).symm
  obtain ⟨l, hl, unit, result, ⟨artifact, hartifact, leads⟩ |
    ⟨record, hrecord, text, leads, slash, stood, emitted, gone⟩⟩ := h.change changed
  · rw [h.written hl result hartifact leads]
    exact h'.written ((same l).2 hl) result hartifact (locate_of_keeps keeps leads)
  · rw [gone]
    by_cases changed' : other.fileAt? place = tree.fileAt? place
    · -- What was there is an orphan, which the other run does not leave.
      refine absurd (changed'.trans stood) ?_
      exact h'.unheld ((same l).2 hl) result hrecord (locate_of_keeps keeps leads) slash emitted
    · obtain ⟨l', hl', unit', result', ⟨artifact, hartifact, leads'⟩ |
        ⟨-, -, -, -, -, -, -, gone'⟩⟩ := h'.change changed'
      · -- What the other run writes there this one writes as well.
        rw [h.written ((same l').1 hl') result' hartifact (locate_of_keeps back leads')] at gone
        cases gone
      · exact gone'

include h h' same in
theorem fileAt?_eq (place : Place) : other.fileAt? place = after.fileAt? place := by
  by_cases changed : after.fileAt? place = tree.fileAt? place
  · by_cases changed' : other.fileAt? place = tree.fileAt? place
    · rw [changed, changed']
    · exact (h'.fileAt?_eq_of_changed h (fun l => (same l).symm) changed').symm
  · exact h.fileAt?_eq_of_changed h' same changed

include h h' same in
/-- Runs that see to the same leave the same. -/
theorem at?_eq (place : Place) : other.at? place = after.at? place := by
  have keeps := h.keeps h' same place
  have back := h'.keeps h (fun l => (same l).symm) place
  have files := h.fileAt?_eq h' same place
  unfold fileAt? at files
  rcases atAfter : after.at? place with _ | _ | content
  · rcases atOther : other.at? place with _ | _ | content
    · rfl
    · rw [back atOther] at atAfter
      cases atAfter
    · rw [atAfter, atOther] at files
      cases files
  · exact keeps atAfter
  · rcases atOther : other.at? place with _ | _ | content'
    · rw [atAfter, atOther] at files
      cases files
    · rw [back atOther] at atAfter
      cases atAfter
    · rw [atAfter, atOther] at files
      rw [Option.some.inj files]

/-- A run over the same in another order has its files at different places as well. -/
theorem of_perm (h : Ended target loaded tree after) (perm : loaded'.Perm loaded)
    {order : List String} (loads : loadInputs tree target.options order = .ok loaded')
    (done : inTurn (deliver target) loaded' tree = (none, other)) (rooted : tree.IsRooted)
    (direct : ∀ directory, target.outDir = some directory → tree.hasDirectory directory = true ∨
      ∀ path ∈ loaded.flatMap (recordPaths target), ".." ∉ Path.names path) :
    Ended target loaded' tree other := by
  have paths := perm.flatMap_right (recordPaths target)
  have back : KeepsDirectories other after :=
    keeps_of_done done h.keepsBefore fun l hl => h.hasDirectories l (perm.mem_iff.1 hl)
  refine ⟨⟨order, loads⟩, done, ?_, found_of_direct loads done rooted fun directory given => ?_⟩
  · exact ((paths.pairwise_iff Apart.symm).2 h.distinct).imp fun apart => apart.earlier back
  · exact (direct directory given).imp_right fun up path hpath => up path (paths.mem_iff.1 hpath)

end Ended

/-! ### Loading in another order -/

theorem loadInputs_literal {options : Emission.Options} {inputs : List String}
    (literal : ∀ input ∈ inputs, Glob.isPattern input = false) :
    loadInputs tree options inputs = .ok loaded ↔
      List.Forall₂ (fun input l => load tree options input = .ok l) inputs loaded := by
  rw [loadInputs, pathsOfAll_of_literal literal]
  exact loadAll_eq_ok

/-! ### How runs end -/

theorem generate_ending {style : Style} {inputs : List String}
    (loads : loadInputs tree target.options inputs = .ok loaded)
    (ends : ∀ failure, (generate style target inputs tree).ending ≠ .broken failure) :
    (generate style target inputs tree).ending = endingOf (loaded.any (·.failed)) := by
  obtain ⟨after, -, same⟩ := generate_of_ends loads ends
  rw [same, report_ending, List.any_map]
  simp [Function.comp_def]

theorem endingOf_eq_failed {bad : Bool} : endingOf bad = .failed ↔ bad = true := by
  cases bad <;> decide

/-- Runs with one input each, one after another: how each ends, and the files as the last leaves
them. -/
def generateEach (style : Style) (target : Target) : List String → Tree → List Ending × Tree
  | [], tree => ([], tree)
  | input :: inputs, tree =>
    let outcome := generate style target [input] tree
    let (endings, after) := generateEach style target inputs outcome.tree
    (outcome.ending :: endings, after)

/-- Runs with one input each see to their inputs in turn, as no file that they write or take away is
at the place of an input. -/
theorem generateEach_delivers {style : Style} {order paths : List String}
    (literal : ∀ input ∈ order, Glob.isPattern input = false)
    (loads : List.Forall₂ (fun input l => load tree target.options input = .ok l) order loaded)
    (spares : Spares paths tree here) (keeps : KeepsDirectories here final)
    (apart : ∀ path ∈ paths, ∀ l ∈ loaded, final.Apart path l.path)
    (touches : ∀ l ∈ loaded, touched target l ⊆ paths)
    (ready : HasDirectoriesFor final target loaded)
    (ends : ∀ failure, .broken failure ∉ (generateEach style target order here).1) :
    inTurn (deliver target) loaded here = (none, (generateEach style target order here).2) ∧
      (generateEach style target order here).1 = loaded.map fun l => endingOf l.failed := by
  induction loads generalizing here with
  | nil => exact ⟨rfl, rfl⟩
  | @cons input l order loaded first rest ih =>
    obtain ⟨literalFirst, literal⟩ := List.forall_mem_cons.1 literal
    have hl : l ∈ l :: loaded := List.mem_cons_self
    have tail : ∀ l' ∈ loaded, l' ∈ l :: loaded := fun _ => List.mem_cons_of_mem l
    -- The input reads as it did before all runs.
    have loadsHere : loadInputs here target.options [input] = .ok [l] := by
      obtain ⟨text, reads, rfl⟩ := load_eq_ok.1 first
      refine (loadInputs_literal (by simpa using literalFirst)).2 (.cons (load_eq_ok.2 ?_) .nil)
      exact ⟨text, spares.readText (fun path hpath => (apart path hpath _ hl).earlier keeps) reads,
        rfl⟩
    have endsFirst : ∀ failure, (generate style target [input] here).ending ≠ .broken failure :=
      fun failure same => ends failure (same ▸ List.mem_cons_self)
    obtain ⟨there, done, left⟩ := exists_after loadsHere endsFirst
    obtain ⟨between, delivered, idles⟩ := andThen_eq_ok.1 done
    cases idles
    have sparesFirst := spares_deliver target l here
    have staysFirst := stays_deliver ready hl here keeps
    rw [delivered] at sparesFirst staysFirst
    obtain ⟨doneRest, endings⟩ := @ih there literal
      (spares.trans (sparesFirst.mono (touches l hl))) staysFirst
      (fun path hpath l' hl' => apart path hpath l' (tail l' hl'))
      (fun l' hl' => touches l' (tail l' hl')) (fun l' hl' => ready l' (tail l' hl'))
      (fun failure broken => ends failure (by
        rw [generateEach, left]
        exact List.mem_cons_of_mem _ broken))
    rw [generateEach, left]
    refine ⟨andThen_eq_ok.2 ⟨there, delivered, doneRest⟩, ?_⟩
    rw [List.map_cons, ← endings, generate_ending loadsHere endsFirst]
    simp

/-- Something was found wrong exactly if it is in a run over one input alone. -/
theorem failed_iff_alone {style : Style} {inputs : List String}
    (literal : ∀ input ∈ inputs, Glob.isPattern input = false)
    (loads : List.Forall₂ (fun input l => load tree target.options input = .ok l) inputs loaded)
    (ends : ∀ input ∈ inputs, ∀ failure,
      (generate style target [input] tree).ending ≠ .broken failure) :
    loaded.any (·.failed) = true ↔
      ∃ input ∈ inputs, (generate style target [input] tree).ending = .failed := by
  have alone {input : String} {l : Loaded} (hinput : input ∈ inputs)
      (first : load tree target.options input = .ok l) :
      (generate style target [input] tree).ending = .failed ↔ l.failed = true := by
    have loadsOne : loadInputs tree target.options [input] = .ok [l] :=
      (loadInputs_literal (by simpa using literal input hinput)).2 (.cons first .nil)
    rw [generate_ending loadsOne (ends input hinput), endingOf_eq_failed]
    simp
  rw [List.any_eq_true]
  constructor
  · rintro ⟨l, hl, failed⟩
    obtain ⟨input, hinput, first⟩ := exists_related loads.flip hl
    exact ⟨input, hinput, (alone hinput first).2 failed⟩
  · rintro ⟨input, hinput, failed⟩
    obtain ⟨l, hl, first⟩ := exists_related loads hinput
    exact ⟨l, hl, (alone hinput first).1 failed⟩

/-! ### Any order -/

/-- The inputs are given by name, the files of records are at different places and at none of an
input, and their paths do not go up behind directories that the run has to make.  If nothing breaks
off, runs over the inputs in any order leave the same at every place and end in the same way, and so
do runs with one input each, one after another, of which one fails exactly if a run over all does.
-/
theorem generate_reordered {style : Style} {inputs : List String}
    (literal : ∀ input ∈ inputs, Glob.isPattern input = false)
    (loads : loadInputs tree target.options inputs = .ok loaded)
    (ends : ∀ failure, (generate style target inputs tree).ending ≠ .broken failure)
    (distinct : (loaded.flatMap (recordPaths target)).Pairwise
      (generate style target inputs tree).tree.Apart)
    (noInput : ∀ path ∈ loaded.flatMap (recordPaths target), ∀ l ∈ loaded,
      (generate style target inputs tree).tree.Apart path l.path)
    (rooted : tree.IsRooted)
    (direct : ∀ directory, target.outDir = some directory → tree.hasDirectory directory = true ∨
      ∀ path ∈ loaded.flatMap (recordPaths target), ".." ∉ Path.names path) :
    let outcome := generate style target inputs tree
    (∀ order : List String, order.Perm inputs →
      let other := generate style target order tree
      let alone := generateEach style target order tree
      ((∀ failure, other.ending ≠ .broken failure) →
        other.ending = outcome.ending ∧ ∀ place, other.tree.at? place = outcome.tree.at? place) ∧
      ((∀ failure, .broken failure ∉ alone.1) →
        (outcome.ending = .failed ↔ .failed ∈ alone.1) ∧
          ∀ place, alone.2.at? place = outcome.tree.at? place)) ∧
    ((∀ input ∈ inputs, ∀ failure,
        (generate style target [input] tree).ending ≠ .broken failure) →
      (outcome.ending = .failed ↔
        ∃ input ∈ inputs, (generate style target [input] tree).ending = .failed)) := by
  intro outcome
  obtain ⟨after, done, left⟩ := exists_after loads ends
  have tree_eq : outcome.tree = after := left
  have ending : outcome.ending = endingOf (loaded.any (·.failed)) := generate_ending loads ends
  rw [left] at distinct noInput
  have ended : Ended target loaded tree after :=
    ⟨⟨inputs, loads⟩, done, distinct, found_of_direct loads done rooted direct⟩
  have pairs := (loadInputs_literal literal).1 loads
  rw [ending, tree_eq]
  constructor
  · intro order perm other eachAlone
    obtain ⟨loaded', pairs', perm'⟩ := List.perm_comp_forall₂ perm pairs
    have literal' : ∀ input ∈ order, Glob.isPattern input = false :=
      fun input hinput => literal input (perm.mem_iff.1 hinput)
    have loads' := (loadInputs_literal literal').2 pairs'
    have same : ∀ l, l ∈ loaded' ↔ l ∈ loaded := fun _ => perm'.mem_iff
    constructor
    · intro endsOther
      obtain ⟨final, done', left'⟩ := exists_after loads' endsOther
      rw [show other.tree = final from left', show other.ending = _ from
        generate_ending loads' endsOther]
      refine ⟨congrArg endingOf (Bool.eq_iff_iff.2 ?_), ?_⟩
      · simp only [List.any_eq_true, same]
      · exact ended.at?_eq (ended.of_perm perm' loads' done' rooted direct) same
    · intro endsEach
      obtain ⟨done', endings⟩ := generateEach_delivers literal' pairs'
        (Spares.refl (loaded.flatMap (recordPaths target)) tree) ended.keepsBefore
        (fun path hpath l hl => noInput path hpath l ((same l).1 hl))
        (fun l hl path hpath => touched_subset loads
          (List.mem_flatMap.2 ⟨l, (same l).1 hl, hpath⟩))
        (fun l hl => ended.hasDirectories l ((same l).1 hl)) endsEach
      refine ⟨?_, ended.at?_eq (ended.of_perm perm' loads' done' rooted direct) same⟩
      rw [show eachAlone.1 = _ from endings, endingOf_eq_failed]
      simp [endingOf_eq_failed, same]
  · intro endsAlone
    rw [endingOf_eq_failed]
    exact failed_iff_alone literal pairs endsAlone

/-- Of three sources one has its file taken away, one has its file written and one cannot be
parsed. -/
def unequal : Tree := forgotten.set ["c.go"] (.file (.text "x"))

def intoGen : Target := ⟨.default, .human, some "gen"⟩

theorem generate_reordered_unequal :
    let inputs := ["a.go", "b.go", "c.go"]
    let outcome := generate ⟨false⟩ intoGen inputs unequal
    (outcome.ending = .failed ∧ outcome.tree.namesIn "gen" = ["new_validator.go"] ∧
      (generate ⟨false⟩ intoGen ["c.go", "b.go", "a.go"] unequal).ending = .failed ∧
      (generateEach ⟨false⟩ intoGen ["c.go", "b.go", "a.go"] unequal).1 =
        [.failed, .succeeded, .succeeded]) ∧
    ∃ loaded, loadInputs unequal intoGen.options inputs = .ok loaded ∧
      ((∀ input ∈ inputs, Glob.isPattern input = false) ∧
        (∀ failure, outcome.ending ≠ .broken failure) ∧
        (loaded.flatMap (recordPaths intoGen)).Pairwise outcome.tree.Apart ∧
        (∀ path ∈ loaded.flatMap (recordPaths intoGen), ∀ l ∈ loaded,
          outcome.tree.Apart path l.path) ∧
        unequal.IsRooted ∧ unequal.hasDirectory "gen" = true) ∧
      (∀ order : List String, order.Perm inputs →
        let other := generate ⟨false⟩ intoGen order unequal
        let alone := generateEach ⟨false⟩ intoGen order unequal
        ((∀ failure, other.ending ≠ .broken failure) →
          other.ending = outcome.ending ∧ ∀ place, other.tree.at? place = outcome.tree.at? place) ∧
        ((∀ failure, .broken failure ∉ alone.1) →
          (outcome.ending = .failed ↔ .failed ∈ alone.1) ∧
            ∀ place, alone.2.at? place = outcome.tree.at? place)) ∧
      ((∀ input ∈ inputs, ∀ failure,
          (generate ⟨false⟩ intoGen [input] unequal).ending ≠ .broken failure) →
        (outcome.ending = .failed ↔
          ∃ input ∈ inputs, (generate ⟨false⟩ intoGen [input] unequal).ending = .failed)) := by
  intro inputs outcome
  have effect : outcome.ending = .failed ∧ outcome.tree.namesIn "gen" = ["new_validator.go"] ∧
      (generate ⟨false⟩ intoGen ["c.go", "b.go", "a.go"] unequal).ending = .failed ∧
      (generateEach ⟨false⟩ intoGen ["c.go", "b.go", "a.go"] unequal).1 =
        [.failed, .succeeded, .succeeded] := by decide +kernel
  obtain ⟨loaded, loads, facts⟩ := exists_loadInputs unequal intoGen.options inputs
    (p := fun loaded => decide ((loaded.flatMap (recordPaths intoGen)).Pairwise
        outcome.tree.Apart ∧
      ∀ path ∈ loaded.flatMap (recordPaths intoGen), ∀ l ∈ loaded,
        outcome.tree.Apart path l.path))
    (by decide +kernel)
  obtain ⟨distinct, noInput⟩ := of_decide_eq_true facts
  have literal : ∀ input ∈ inputs, Glob.isPattern input = false := by decide +kernel
  have ends : ∀ failure, outcome.ending ≠ .broken failure := fun failure broken => by
    rw [effect.1] at broken
    cases broken
  have rooted : unequal.IsRooted := by decide +kernel
  have there : unequal.hasDirectory "gen" = true := by decide +kernel
  have direct : ∀ directory, intoGen.outDir = some directory →
      unequal.hasDirectory directory = true ∨
        ∀ path ∈ loaded.flatMap (recordPaths intoGen), ".." ∉ Path.names path :=
    fun _ given => .inl (Option.some.inj given ▸ there)
  exact ⟨effect, loaded, loads, ⟨literal, ends, distinct, noInput, rooted, there⟩,
    generate_reordered literal loads ends distinct noInput rooted direct⟩

/-- In one order the old file is looked for before the directory is made through which its path
leads, and stays; in the other it is taken away.  So it is with runs over one input each. -/
theorem generate_reordered_roundabout :
    let inputs := ["a.go", "b.go"]
    let order := ["b.go", "a.go"]
    let outcome := generate ⟨false⟩ roundabout inputs forgotten
    let other := generate ⟨false⟩ roundabout order forgotten
    let alone := generateEach ⟨false⟩ roundabout order forgotten
    ∃ loaded, loadInputs forgotten roundabout.options inputs = .ok loaded ∧
      ((∀ input ∈ inputs, Glob.isPattern input = false) ∧ order.Perm inputs ∧
        outcome.ending = .succeeded ∧ other.ending = .succeeded ∧
        alone.1 = [.succeeded, .succeeded] ∧
        (loaded.flatMap (recordPaths roundabout)).Pairwise outcome.tree.Apart ∧
        (∀ path ∈ loaded.flatMap (recordPaths roundabout), ∀ l ∈ loaded,
          outcome.tree.Apart path l.path) ∧
        forgotten.IsRooted) ∧
      outcome.tree.fileAt? ["gen", "old_validator.go"] = some (.text emitted) ∧
      other.tree.fileAt? ["gen", "old_validator.go"] = none ∧
      alone.2.fileAt? ["gen", "old_validator.go"] = none := by
  intro inputs order outcome other alone
  obtain ⟨loaded, loads, facts⟩ := exists_loadInputs forgotten roundabout.options inputs
    (p := fun loaded => decide ((loaded.flatMap (recordPaths roundabout)).Pairwise
        outcome.tree.Apart ∧
      ∀ path ∈ loaded.flatMap (recordPaths roundabout), ∀ l ∈ loaded,
        outcome.tree.Apart path l.path))
    (by decide +kernel)
  obtain ⟨distinct, noInput⟩ := of_decide_eq_true facts
  have literal : ∀ input ∈ inputs, Glob.isPattern input = false := by decide +kernel
  have runs : outcome.ending = .succeeded ∧ other.ending = .succeeded ∧
      alone.1 = [.succeeded, .succeeded] := by decide +kernel
  have left : outcome.tree.fileAt? ["gen", "old_validator.go"] = some (.text emitted) ∧
      other.tree.fileAt? ["gen", "old_validator.go"] = none ∧
      alone.2.fileAt? ["gen", "old_validator.go"] = none := by decide +kernel
  have rooted : forgotten.IsRooted := by decide +kernel
  exact ⟨loaded, loads, ⟨literal, .swap _ _ _, runs.1, runs.2.1, runs.2.2, distinct, noInput,
    rooted⟩, left⟩

end CommandLine
end FieldRules
