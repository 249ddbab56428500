/-
The order of declarations makes no difference.

Where names are declared once, what a name stands for does not depend on where it is
declared, so neither do kinds, nor what the markers of a record come to.  A round of
settling looks at all plans only to see which records have one: after it, plans that were
the same in another order still are, and so they are after all rounds (`Settles.perm`).
Which records lead to one with a diagnostic is a question about a relation, with no order
in it (`unsettled_perm`).
-/
import FieldRules.Proofs.Separation
import Mathlib.Data.List.Find

namespace FieldRules

open Go

/-- Under a name that only one has, the same is found in any order. -/
theorem find?_of_perm {α : Type} (nameOf : α → String) {as bs : List α}
    (unique : (as.map nameOf).Nodup) (perm : as.Perm bs) (name : String) :
    as.find? (fun a => nameOf a == name) = bs.find? fun a => nameOf a == name := by
  refine List.find?_eq_find?_of_perm perm fun a ha b hb => ?_
  exact List.inj_on_of_nodup_map unique ha.1 hb.1
    ((beq_iff_eq.1 ha.2).trans (beq_iff_eq.1 hb.2).symm)

/-! ### Kinds -/

namespace Kind

variable {decls others : List TypeDecl}

theorem declaration?_of_perm (unique : (decls.map (·.name)).Nodup) (perm : decls.Perm others) :
    declaration? decls = declaration? others := by
  funext name
  have reversed : (decls.reverse.map (·.name)).Nodup := by
    rw [List.map_reverse]
    exact List.nodup_reverse.2 unique
  exact find?_of_perm TypeDecl.name reversed
    ((List.reverse_perm decls).trans (perm.trans (List.reverse_perm others).symm)) name

/-- Only what names stand for counts, and how many there are. -/
theorem comparableName_congr (same : declaration? decls = declaration? others) (depth : Nat) :
    comparableName decls depth = comparableName others depth := by
  induction depth with
  | zero => rfl
  | succ depth ih =>
    funext visiting name
    rw [comparableName, comparableName, same, ih]

theorem isComparable_congr (same : declaration? decls = declaration? others)
    (size : decls.length = others.length) : isComparable decls = isComparable others := by
  funext visiting type
  unfold isComparable fullDepth
  rw [size, comparableName_congr same]

theorem kindOfName_congr (same : declaration? decls = declaration? others)
    (size : decls.length = others.length) (depth : Nat) :
    kindOfName decls depth = kindOfName others depth := by
  induction depth with
  | zero => rfl
  | succ depth ih =>
    funext visiting name
    rw [kindOfName, kindOfName, same, ih, isComparable_congr same size]

/-- Types have the same kinds wherever their names are declared. -/
theorem ofType_of_perm (unique : (decls.map (·.name)).Nodup) (perm : decls.Perm others)
    (type : TypeExpr) : ofType decls type = ofType others type := by
  have same := declaration?_of_perm unique perm
  have size := perm.length_eq
  unfold ofType fullDepth
  rw [size, kindOfName_congr same size, isComparable_congr same size]

end Kind

/-! ### Plans -/

namespace Plan

variable {plans twins left : List Plan} {ds : List Diagnostic}

theorem names_perm (perm : plans.Perm twins) : (names plans).Perm (names twins) := perm.map _

theorem settleCheck_perm (perm : plans.Perm twins) :
    settleCheck (names plans) = settleCheck (names twins) :=
  funext fun _ => settleCheck_congr fun _ _ => (names_perm perm).mem_iff

/-- A round leaves the same, and drops the same, in whatever order the plans are. -/
theorem settleRound_perm (perm : plans.Perm twins) :
    (settleRound plans).1.Perm (settleRound twins).1 ∧
      (settleRound plans).2.Perm (settleRound twins).2 := by
  have checks := settleCheck_perm perm
  constructor
  · have same : settleChecks (names plans) = settleChecks (names twins) :=
      funext fun _ => settleChecks_congr fun check _ => congrFun checks check
    rw [settleRound_fst, settleRound_fst, trim, trim, same]
    exact (perm.map _).filter _
  · have same : droppedFrom (names plans) = droppedFrom (names twins) :=
      funext fun _ => droppedFrom_congr fun check _ => congrFun checks check
    show (plans.flatMap (droppedFrom (names plans))).Perm _
    rw [same]
    exact perm.flatMap_right _

theorem Settles.perm (h : Settles plans left ds) (perm : plans.Perm twins) :
    ∃ other es, Settles twins other es ∧ left.Perm other ∧ ds.Perm es := by
  induction h generalizing twins with
  | last idle =>
    obtain ⟨left, dropped⟩ := settleRound_perm perm
    rw [idle] at dropped
    exact ⟨_, [], .last dropped.nil_eq.symm, left, .nil⟩
  | more busy _ ih =>
    obtain ⟨left, dropped⟩ := settleRound_perm perm
    obtain ⟨other, es, settles, sameLeft, sameRest⟩ := ih left
    refine ⟨other, _, .more (fun idle => busy ?_) settles, sameLeft, dropped.append sameRest⟩
    rw [idle] at dropped
    exact dropped.eq_nil

theorem settle_perm (perm : plans.Perm twins) :
    (settle plans).1.Perm (settle twins).1 ∧ (settle plans).2.Perm (settle twins).2 := by
  obtain ⟨other, es, settles, left, dropped⟩ := (settle_settles plans).perm perm
  obtain ⟨rfl, rfl⟩ := settles.unique (settle_settles twins)
  exact ⟨left, dropped⟩

theorem handsOver_perm (perm : plans.Perm twins) : HandsOver plans = HandsOver twins := by
  funext record target
  unfold HandsOver
  simp only [perm.mem_iff]

theorem unsettled_perm (perm : plans.Perm twins) {es : List Diagnostic} (same : ds.Perm es)
    (name : String) : name ∈ unsettled plans ds ↔ name ∈ unsettled twins es := by
  rw [mem_unsettled, mem_unsettled, handsOver_perm perm]
  simp only [same.mem_iff, (names_perm perm).mem_iff]

variable {file other : SourceFile}

theorem distinctRecords_of_decls (unique : (file.decls.map (·.name)).Nodup) :
    DistinctRecords file :=
  unique.sublist (List.filter_sublist.map _)

/-- The plans of a file and what was found wrong, in whatever order its declarations are. -/
theorem ofFile_perm (unique : (file.decls.map (·.name)).Nodup)
    (perm : file.decls.Perm other.decls) :
    (ofFile file).1.Perm (ofFile other).1 ∧ (ofFile file).2.Perm (ofFile other).2 := by
  have unique' : (other.decls.map (·.name)).Nodup := (perm.map _).nodup_iff.1 unique
  have records : ofRecord file.decls = ofRecord other.decls :=
    funext (ofRecord_congr (Kind.ofType_of_perm unique perm))
  have declared := perm.filter (·.isRecord)
  have plans : (initial file).Perm (initial other) := by
    unfold initial
    rw [records]
    exact declared.filterMap _
  have found : (initialDiagnostics file).Perm (initialDiagnostics other) := by
    unfold initialDiagnostics
    rw [records]
    exact declared.flatMap_right _
  obtain ⟨left, dropped⟩ := settle_perm plans
  rw [ofFile_eq (distinctRecords_of_decls unique), ofFile_eq (distinctRecords_of_decls unique')]
  exact ⟨left, found.append dropped⟩

end Plan

namespace CompiledUnit

/-- Two units say the same of every record: its plan, and its artifact, with the code and whether
that is authoritative; and they report the same diagnostics.  Only the order may be different. -/
structure SameButOrder (unit twin : CompiledUnit) : Prop where
  plan : ∀ name, unit.plans.find? (·.record == name) = twin.plans.find? (·.record == name)
  artifact : ∀ name,
    unit.artifacts.find? (·.record == name) = twin.artifacts.find? (·.record == name)
  records : unit.records.Perm twin.records
  plans : unit.plans.Perm twin.plans
  artifacts : unit.artifacts.Perm twin.artifacts
  diagnostics : unit.diagnostics.Perm twin.diagnostics

/-- Where all declared names are different, the order of the declarations makes no difference to a
unit but for the order of its records and diagnostics. -/
theorem ofFile_permuted {file other : SourceFile} (package : file.package = other.package)
    (unique : (file.decls.map (·.name)).Nodup) (perm : file.decls.Perm other.decls)
    (options : Emission.Options) (sourceName : String) :
    SameButOrder (ofFile options sourceName file) (ofFile options sourceName other) := by
  obtain ⟨plans, found⟩ := Plan.ofFile_perm unique perm
  have diagnostics : (Diagnostic.sort (Plan.ofFile file).2).Perm
      (Diagnostic.sort (Plan.ofFile other).2) :=
    (Diagnostic.sort_perm _).trans (found.trans (Diagnostic.sort_perm _).symm)
  have emitted : CompiledUnit.artifact options file.package sourceName
        (Plan.unsettled (Plan.ofFile file).1 (Diagnostic.sort (Plan.ofFile file).2)) =
      CompiledUnit.artifact options other.package sourceName
        (Plan.unsettled (Plan.ofFile other).1 (Diagnostic.sort (Plan.ofFile other).2)) := by
    funext plan
    unfold CompiledUnit.artifact
    rw [package, List.contains_eq_mem, List.contains_eq_mem,
      decide_eq_decide.2 (Plan.unsettled_perm plans diagnostics plan.record)]
  have artifacts : (ofFile options sourceName file).artifacts.Perm
      (ofFile options sourceName other).artifacts := by
    unfold ofFile
    simp only [emitted]
    exact plans.map _
  constructor
  case plan => exact find?_of_perm Plan.record (Plan.nodup_ofFile file) plans
  case artifact =>
    refine find?_of_perm Artifact.record ?_ artifacts
    have names : (ofFile options sourceName file).artifacts.map Artifact.record =
        Plan.names (Plan.ofFile file).1 := List.map_map
    rw [names]
    exact Plan.nodup_ofFile file
  case records => exact (perm.filter _).map _
  case plans => exact plans
  case artifacts => exact artifacts
  case diagnostics => exact diagnostics

set_option maxRecDepth 4000 in
theorem ofFile_permuted_reversed :
    ∃ file other : SourceFile, SourceFile.parse chainAndCircle.toList = .ok file ∧
      file.package = other.package ∧ (file.decls.map (·.name)).Nodup ∧
      file.decls.Perm other.decls ∧
      (ofFile .default "a.go" other).artifacts.map
          (fun artifact => (artifact.record, artifact.authoritative)) =
        [("Right", true), ("Left", true), ("Address", false), ("User", false),
          ("Account", false)] ∧
      SameButOrder (ofFile .default "a.go" file) (ofFile .default "a.go" other) := by
  obtain ⟨file, parsed, facts⟩ := exists_parse (rfl : chainAndCircle = _)
    (p := fun file => decide (file.decls.map TypeDecl.name).Nodup &&
      (ofFile .default "a.go" ⟨file.package, file.decls.reverse⟩).artifacts.map
        (fun artifact => (artifact.record, artifact.authoritative)) ==
        [("Right", true), ("Left", true), ("Address", false), ("User", false),
          ("Account", false)])
    (by decide +kernel)
  rw [Bool.and_eq_true, decide_eq_true_iff, beq_iff_eq] at facts
  obtain ⟨unique, flags⟩ := facts
  have package : file.package = SourceFile.package ⟨file.package, file.decls.reverse⟩ := rfl
  have perm : file.decls.Perm file.decls.reverse := (List.reverse_perm file.decls).symm
  exact ⟨file, _, parsed, package, unique, perm, flags,
    ofFile_permuted package unique perm .default "a.go"⟩

end CompiledUnit

end FieldRules
