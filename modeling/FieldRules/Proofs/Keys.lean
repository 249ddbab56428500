/-
No rule is reported twice at one path.

A rule is applied to a path once, whatever it was spelled like (`ofFile_keys`).  A check
that hands over is about a named record, and the walk through a record does not go into
named types: so no other check stands below such a one, and what is reported there comes
from the other record alone.  Hence a violation's path and rule tell which check it comes
from (`Validator.IsKeyed.apart`), and by induction on the depth of handing over no two
violations have the same (`Validator.run_keys`).
-/
import FieldRules.Proofs.Imports
import FieldRules.Proofs.Mismatch
import FieldRules.Proofs.Resolution
import FieldRules.Proofs.Routes

namespace FieldRules

open Go

/-! ### The text of a path -/

namespace FieldPath

/-- A path of names is read back from its text. -/
theorem parse_rendered {path : FieldPath}
    (named : ∀ segment ∈ path.segments, isName segment.toList = true) :
    parse path.render = path := by
  obtain ⟨segments⟩ := path
  unfold parse render
  rw [Text.toList_intercalate (c := '.') rfl]
  by_cases empty : segments = []
  · rw [empty]
    rfl
  · have noDot : ∀ piece ∈ segments.map String.toList, '.' ∉ piece := by
      intro piece hpiece
      obtain ⟨segment, hsegment, rfl⟩ := List.mem_map.1 hpiece
      exact noDot_of_isName (named segment hsegment)
    have filled : ∀ piece ∈ segments.map String.toList, (!piece.isEmpty) = true := by
      intro piece hpiece
      obtain ⟨segment, hsegment, rfl⟩ := List.mem_map.1 hpiece
      have isName := named segment hsegment
      cases htext : segment.toList with
      | nil => rw [htext] at isName; cases isName
      | cons c cs => rfl
    have ne : segments.map String.toList ≠ [] := mt List.map_eq_nil_iff.1 empty
    rw [Text.splitAt_joinWith ne noDot, List.filter_eq_self.2 filled, List.map_map]
    exact congrArg mk
      ((List.map_congr_left fun segment _ => String.ofList_toList).trans (List.map_id _))

end FieldPath

/-! ### Checks of one record -/

/-- What a check is known by. -/
def Check.key (check : Check) : FieldPath × Rule := (check.path, check.rule)

/-- A rule that a check may report so far below its own path: its own rule right there, and any rule
further down where it hands over. -/
def Check.MayReport (check : Check) (below : FieldPath) (rule : Rule) : Prop :=
  below = FieldPath.root ∧ rule = check.rule ∨
    below ≠ FieldPath.root ∧ check.delegate.isSome = true

/-- What a violation is known by. -/
def Violation.key (violation : Violation) : FieldPath × Rule := (violation.path, violation.rule)

namespace Plan

theorem isTaken_iff {checks : List Check} {check : Check} :
    isTaken checks check = true ↔ check.key ∈ checks.map Check.key := by
  simp [isTaken, Check.key]

theorem ofMarkers_keys {decls : List TypeDecl} {record : String} {before : List Check}
    (unique : (before.map Check.key).Nodup) (markers : List (Occurrence × Marker)) :
    ((ofMarkers decls record before markers).1.map Check.key).Nodup := by
  induction markers generalizing before with
  | nil => exact unique
  | cons found markers ih =>
    obtain ⟨occurrence, marker⟩ := found
    rw [ofMarkers]
    cases hstep : checkOrDiagnose decls record before occurrence marker with
    | error d => exact ih unique
    | ok made =>
      have fresh : made.key ∉ before.map Check.key := by
        rw [← isTaken_iff, (checkOrDiagnose_ok hstep).2]
        exact Bool.false_ne_true
      refine ih ?_
      rw [List.map_append, List.map_singleton, List.nodup_append_comm]
      exact List.nodup_cons.2 ⟨fresh, unique⟩

theorem settleCheck_key {kept : List String} {check settled : Check}
    (h : settleCheck kept check = some settled) : settled.key = check.key := by
  rw [(settleCheck_some h).1]
  rfl

/-- No two checks of a plan have the same path and rule. -/
theorem ofFile_keys {file : SourceFile} {plan : Plan} (hplan : plan ∈ (ofFile file).1) :
    (plan.checks.map Check.key).Nodup := by
  obtain ⟨decl, -, built, hbuilt, rfl, -⟩ := mem_ofFile hplan
  have none : (([] : List Check).map Check.key).Nodup := List.nodup_nil
  have unique : (built.checks.map Check.key).Nodup := by
    rw [(ofRecord_some hbuilt).2]
    exact ofMarkers_keys none _
  rw [List.Nodup, List.pairwise_map] at unique ⊢
  refine unique.filterMap _ fun check other apart settled hsettled settled' hsettled' => ?_
  rw [settleCheck_key hsettled, settleCheck_key hsettled']
  exact apart

end Plan

namespace Validator

variable {lookup : String → Option Validator}

/-! ### Where a violation comes from -/

/-- A violation at a place comes from a check: from its own judgement, or from a check of the
validator that it hands over to. -/
inductive ComesFrom (lookup : String → Option Validator) :
    FieldPath → Check → Violation → Prop where
  | judged {above : FieldPath} {check : Check} {violation : Violation} :
      violation.path = above.append check.path → violation.rule = check.rule →
      ComesFrom lookup above check violation
  | handed {above : FieldPath} {check deeper : Check} {violation : Violation} {target : String}
      {inner : Validator} : check.delegate = some target → lookup target = some inner →
      deeper ∈ inner.checks → ComesFrom lookup (above.append check.path) deeper violation →
      ComesFrom lookup above check violation

variable {above : FieldPath} {check : Check} {violation : Violation}

theorem ComesFrom.path (h : ComesFrom lookup above check violation) :
    ∃ below, violation.path = (above.append check.path).append below := by
  induction h with
  | judged hpath _ => exact ⟨FieldPath.root, by rw [hpath, FieldPath.append_root]⟩
  | @handed above check deeper _ _ _ _ _ _ _ ih =>
    obtain ⟨below, hbelow⟩ := ih
    exact ⟨deeper.path.append below, by rw [hbelow, FieldPath.append_append]⟩

theorem ComesFrom.mayReport (paths : ∀ name inner, lookup name = some inner → inner.HasPaths)
    (h : ComesFrom lookup above check violation) :
    ∃ below, violation.path = above.append (check.path.append below) ∧
      check.MayReport below violation.rule := by
  cases h with
  | judged hpath hrule =>
    exact ⟨FieldPath.root, by rw [hpath, FieldPath.append_root], .inl ⟨rfl, hrule⟩⟩
  | @handed _ _ deeper _ target inner delegate looked hdeeper comes =>
    obtain ⟨below, hbelow⟩ := comes.path
    refine ⟨deeper.path.append below, ?_, .inr ⟨?_, by rw [delegate]; rfl⟩⟩
    · rw [hbelow, FieldPath.append_append, FieldPath.append_append]
    · intro root
      have none := congrArg FieldPath.segments root
      exact paths target inner looked deeper hdeeper
        (congrArg FieldPath.mk (List.append_eq_nil_iff.1 none).1)

/-- A path is made of the segments of the checks on the way. -/
theorem ComesFrom.segments {named : String → Prop}
    (others : ∀ name inner, lookup name = some inner → ∀ check ∈ inner.checks,
      ∀ segment ∈ check.path.segments, named segment)
    (h : ComesFrom lookup above check violation)
    (outside : ∀ segment ∈ above.segments, named segment)
    (own : ∀ segment ∈ check.path.segments, named segment) :
    ∀ segment ∈ violation.path.segments, named segment := by
  induction h with
  | judged hpath _ =>
    rw [hpath]
    exact List.forall_mem_append.2 ⟨outside, own⟩
  | handed _ looked hdeeper _ ih =>
    exact ih (List.forall_mem_append.2 ⟨outside, own⟩) (others _ _ looked _ hdeeper)

/-! ### Checks that keep apart -/

/-- A validator whose checks are told apart by what they report: each rule is applied to a path
once, and below a check that hands over there is no other. -/
structure IsKeyed (validator : Validator) : Prop where
  paths : validator.HasPaths
  unique : (validator.checks.map Check.key).Nodup
  required : ∀ check ∈ validator.checks, check.delegate.isSome = true → check.rule = .required
  ends : ∀ check ∈ validator.checks, check.delegate.isSome = true →
    ∀ other ∈ validator.checks, ∀ below, other.path = check.path.append below →
      below = FieldPath.root

/-- Of two checks one of which stands at or below the other, what is reported at one place has
different rules. -/
theorem IsKeyed.apart_below {validator : Validator} (keyed : validator.IsKeyed)
    {upper lower : Check} (hupper : upper ∈ validator.checks) (hlower : lower ∈ validator.checks)
    (ne : upper.key ≠ lower.key) {between below : FieldPath}
    (stands : lower.path = upper.path.append between) {rule rule' : Rule}
    (reports : upper.MayReport (between.append below) rule)
    (reports' : lower.MayReport below rule') : rule ≠ rule' := by
  -- Only a check that hands over reports something lower down, and there are no checks there.
  have here : between = FieldPath.root := by
    rcases reports with ⟨root, -⟩ | ⟨-, delegate⟩
    · exact congrArg FieldPath.mk (List.append_eq_nil_iff.1 (congrArg FieldPath.segments root)).1
    · exact keyed.ends upper hupper delegate lower hlower between stands
  rw [here, FieldPath.root_append] at reports
  rw [here, FieldPath.append_root] at stands
  have rules : upper.rule ≠ lower.rule := fun same => ne (Prod.ext stands.symm same)
  rcases reports with ⟨root, own⟩ | ⟨filled, delegate⟩
  · rcases reports' with ⟨-, own'⟩ | ⟨filled, -⟩
    · rw [own, own']
      exact rules
    · exact absurd root filled
  · rcases reports' with ⟨root, -⟩ | ⟨-, delegate'⟩
    · exact absurd root filled
    · have same := (keyed.required upper hupper delegate).trans
        (keyed.required lower hlower delegate').symm
      exact absurd same rules

/-- What comes from different checks of a validator has different paths or different rules. -/
theorem IsKeyed.apart {validator : Validator} (keyed : validator.IsKeyed)
    (others : ∀ name inner, lookup name = some inner → inner.HasPaths) {a b : Check}
    (ha : a ∈ validator.checks) (hb : b ∈ validator.checks) (ne : a.key ≠ b.key) {v w : Violation}
    (hv : ComesFrom lookup above a v) (hw : ComesFrom lookup above b w) : v.key ≠ w.key := by
  intro same
  obtain ⟨samePath, sameRule⟩ := Prod.ext_iff.1 same
  obtain ⟨below, hbelow, reports⟩ := hv.mayReport others
  obtain ⟨below', hbelow', reports'⟩ := hw.mayReport others
  have meet : a.path.segments ++ below.segments = b.path.segments ++ below'.segments :=
    List.append_cancel_left
      (congrArg FieldPath.segments (hbelow.symm.trans (samePath.trans hbelow')))
  -- At one place the path of one of the checks goes on from that of the other.
  rcases List.append_eq_append_iff.1 meet with ⟨between, lower, split⟩ | ⟨between, lower, split⟩
  · have further : below = FieldPath.append ⟨between⟩ below' := congrArg FieldPath.mk split
    rw [further] at reports
    exact keyed.apart_below ha hb ne (congrArg FieldPath.mk lower) reports reports' sameRule
  · have further : below' = FieldPath.append ⟨between⟩ below := congrArg FieldPath.mk split
    rw [further] at reports'
    exact keyed.apart_below hb ha ne.symm (congrArg FieldPath.mk lower) reports' reports
      sameRule.symm

/-! ### Runs -/

/-- Where each check reports nothing twice, and no two checks report the same, nothing is reported
twice. -/
theorem runChecks_keys {run : Check → Option (List Violation)} {checks : List Check}
    (apart : checks.Pairwise fun a b => ∀ v w, ComesFrom lookup above a v →
      ComesFrom lookup above b w → v.key ≠ w.key)
    (each : ∀ check ∈ checks, ∀ block, run check = some block →
      (block.map Violation.key).Nodup ∧ ∀ v ∈ block, ComesFrom lookup above check v)
    {found : List Violation} (h : runChecks run checks = some found) :
    (found.map Violation.key).Nodup ∧
      ∀ v ∈ found, ∃ check ∈ checks, ComesFrom lookup above check v := by
  obtain ⟨blocks, all, rfl⟩ := runChecks_blocks h
  clear h
  induction all with
  | nil => exact ⟨List.nodup_nil, fun v h => nomatch h⟩
  | @cons check block checks blocks hcheck _ ih =>
    obtain ⟨first, later⟩ := List.pairwise_cons.1 apart
    obtain ⟨unique, comes⟩ := each check List.mem_cons_self block hcheck
    obtain ⟨uniques, come⟩ :=
      ih later fun other hother => each other (List.mem_cons_of_mem _ hother)
    rw [List.flatten_cons]
    constructor
    · rw [List.map_append, List.nodup_append]
      refine ⟨unique, uniques, ?_⟩
      intro key hkey key' hkey'
      obtain ⟨v, hv, rfl⟩ := List.mem_map.1 hkey
      obtain ⟨w, hw, rfl⟩ := List.mem_map.1 hkey'
      obtain ⟨other, hother, hfrom⟩ := come w hw
      exact first other hother v w (comes v hv) hfrom
    · refine List.forall_mem_append.2 ⟨fun v hv => ⟨check, List.mem_cons_self, comes v hv⟩, ?_⟩
      intro v hv
      obtain ⟨other, hother, hfrom⟩ := come v hv
      exact ⟨other, List.mem_cons_of_mem _ hother, hfrom⟩

/-- A check reports nothing twice where the validators that it may hand over to do not. -/
theorem runCheck_keys {handOver : Validator → Record → FieldPath → Option (List Violation)}
    (inside : ∀ name inner, lookup name = some inner → ∀ record above found,
      handOver inner record above = some found → (found.map Violation.key).Nodup ∧
        ∀ v ∈ found, ∃ check ∈ inner.checks, ComesFrom lookup above check v)
    {record : Record} {block : List Violation}
    (h : runCheck lookup handOver record above check = some block) :
    (block.map Violation.key).Nodup ∧ ∀ v ∈ block, ComesFrom lookup above check v := by
  unfold runCheck at h
  split at h
  · cases h
    exact ⟨List.nodup_nil, fun v h => nomatch h⟩
  · next value _ =>
    simp only at h
    split at h
    · next inner hinner =>
      obtain ⟨target, delegate, looked⟩ := Option.bind_eq_some_iff.1 hinner
      obtain ⟨unique, comes⟩ := inside target inner looked _ _ _ h
      refine ⟨unique, fun v hv => ?_⟩
      obtain ⟨deeper, hdeeper, hfrom⟩ := comes v hv
      exact .handed delegate looked hdeeper hfrom
    · cases h
      rcases judge_cases check (above.append check.path) value with none | ⟨complaint, one⟩
      · rw [none]
        exact ⟨List.nodup_nil, fun v h => nomatch h⟩
      · rw [one]
        refine ⟨List.nodup_singleton _, fun v hv => ?_⟩
        rw [List.mem_singleton.1 hv]
        exact .judged rfl rfl

/-- A run reports nothing twice, and every violation comes from a check. -/
theorem run_keys (others : ∀ name inner, lookup name = some inner → inner.IsKeyed) {depth : Nat}
    {validator : Validator} (keyed : validator.IsKeyed) {record : Record} {found : List Violation}
    (h : run lookup depth validator record above = some found) :
    (found.map Violation.key).Nodup ∧
      ∀ v ∈ found, ∃ check ∈ validator.checks, ComesFrom lookup above check v := by
  induction depth generalizing validator record above found with
  | zero => cases h
  | succ depth ih =>
    rw [run] at h
    have paths : ∀ name inner, lookup name = some inner → inner.HasPaths :=
      fun name inner looked => (others name inner looked).paths
    have apart : validator.checks.Pairwise fun a b => ∀ v w, ComesFrom lookup above a v →
        ComesFrom lookup above b w → v.key ≠ w.key := by
      have unique := keyed.unique
      rw [List.Nodup, List.pairwise_map] at unique
      exact unique.imp_of_mem fun ha hb ne v w hv hw => keyed.apart paths ha hb ne hv hw
    refine runChecks_keys apart (fun check _ block hblock => runCheck_keys ?_ hblock) h
    exact fun name inner looked record above found => ih (others name inner looked)

end Validator

/-! ### Validators of compiled plans -/

namespace Plan

variable {file : SourceFile} {plan : Plan}

/-- What has the kind of a named record is a name, and no fields are selected from its type. -/
theorem fields?_of_target {decls : List TypeDecl} {type : TypeExpr} {owner : String}
    {comparable : Bool} (h : Kind.ofType decls type = .record (some owner) comparable) :
    type.fields? = none := by
  obtain ⟨fields, stands⟩ := Kind.ofType_record h
  cases stands <;> rfl

/-- With different names of fields no check stands below one that hands over. -/
theorem ofFile_ends (fields : file.hasDistinctFields = true) (hplan : plan ∈ (ofFile file).1)
    {check other : Check} (hcheck : check ∈ plan.checks) (delegate : check.delegate.isSome = true)
    (hother : other ∈ plan.checks) {below : FieldPath}
    (path : other.path = check.path.append below) : below = FieldPath.root := by
  obtain ⟨decl, hdecl, -, own, hown, leads⟩ := ofFile_declared hplan
  obtain ⟨chain, leaf, upper⟩ := leads check hcheck
  obtain ⟨longer, last, lower⟩ := leads other hother
  have names : Chain.names (longer ++ [last]) = Chain.names chain ++ leaf.1 :: below.segments := by
    rw [Chain.names, List.map_append]
    refine lower.path.symm.trans ?_
    rw [path, FieldPath.append, upper.path, List.append_assoc, List.singleton_append]
  obtain ⟨rest, split, hrest⟩ := upper.declared.extends
    (areDistinct_of_recordFields? fields hdecl hown) lower.declared names
  -- The upper field is of a named type, so nothing goes on from it.
  have closed : leaf.2.fields? = none := by
    obtain ⟨target, htarget⟩ := Option.isSome_iff_exists.1 delegate
    have required := (ofFile_delegate hplan hcheck htarget).1
    unfold target? at required
    split at required
    · next kind =>
      cases required
      exact fields?_of_target (upper.kind.symm.trans kind)
    · cases required
  have last : rest = [] := by
    by_contra ne
    have opened := (split ▸ lower.declared).opened ne
    rw [closed] at opened
    cases opened
  rw [last] at hrest
  exact congrArg FieldPath.mk hrest.symm

theorem target?_required {check : Check} {name : String} (h : target? check = some name) :
    check.rule = .required := by
  unfold target? at h
  split at h
  · next rule _ => exact rule
  · cases h

theorem ofFile_isKeyed (fields : file.hasDistinctFields = true) (hplan : plan ∈ (ofFile file).1) :
    (Validator.ofPlan plan).IsKeyed := by
  constructor
  case paths => exact ofFile_hasPaths hplan
  case unique => exact ofFile_keys hplan
  case required =>
    intro check hcheck delegate
    obtain ⟨target, htarget⟩ := Option.isSome_iff_exists.1 delegate
    exact target?_required (ofFile_delegate hplan hcheck htarget).1
  case ends =>
    exact fun check hcheck delegate other hother below =>
      ofFile_ends fields hplan hcheck delegate hother

theorem ofFile_isName {source : List Char} (parsed : SourceFile.parse source = .ok file)
    (hplan : plan ∈ (ofFile file).1) :
    ∀ check ∈ plan.checks, ∀ name ∈ check.path.segments, isName name.toList = true := by
  intro check hcheck
  obtain ⟨decl, hdecl, -, own, hown, leads⟩ := ofFile_declared hplan
  obtain ⟨chain, leaf, leadsTo⟩ := leads check hcheck
  exact leadsTo.isName parsed hdecl hown

theorem find?_isKeyed (fields : file.hasDistinctFields = true) {name : String} {inner : Validator}
    (h : Validator.find? ((ofFile file).1.map Validator.ofPlan) name = some inner) :
    inner.IsKeyed := by
  obtain ⟨plan, hplan, rfl⟩ := List.mem_map.1 (Validator.find?_mem h)
  exact ofFile_isKeyed fields hplan

theorem find?_isName {source : List Char} (parsed : SourceFile.parse source = .ok file)
    {name : String} {inner : Validator}
    (h : Validator.find? ((ofFile file).1.map Validator.ofPlan) name = some inner) :
    ∀ check ∈ inner.checks, ∀ name ∈ check.path.segments, isName name.toList = true := by
  obtain ⟨plan, hplan, rfl⟩ := List.mem_map.1 (Validator.find?_mem h)
  exact ofFile_isName parsed hplan

end Plan

/-- Violations that differ in path or rule differ in the text of the path or in the rule, where
paths can be read back from their texts. -/
theorem Violation.texts_nodup {found : List Violation} (unique : (found.map key).Nodup)
    (readBack : ∀ violation ∈ found, FieldPath.parse violation.path.render = violation.path) :
    (found.map fun violation => (violation.path.render, violation.rule)).Nodup := by
  have texts : (found.map fun violation => (violation.path.render, violation.rule)) =
      (found.map key).map fun key => (key.1.render, key.2) := by
    rw [List.map_map]
    rfl
  rw [texts]
  refine unique.map_on ?_
  intro key hkey key' hkey' same
  obtain ⟨v, hv, rfl⟩ := List.mem_map.1 hkey
  obtain ⟨w, hw, rfl⟩ := List.mem_map.1 hkey'
  obtain ⟨sameText, sameRule⟩ := Prod.ext_iff.1 same
  have samePath := congrArg FieldPath.parse sameText
  exact Prod.ext ((readBack v hv).symm.trans (samePath.trans (readBack w hw))) sameRule

namespace CompiledUnit

open Validator

/-- No two checks of a plan have the same path and rule, whatever the rules were spelled like.  And
if in each struct the fields have different names, no two violations of a record have the same path,
as text, and the same rule, those of records that are handed over among them. -/
theorem compile_keys {options : Emission.Options} {sourceName source : String} {unit : CompiledUnit}
    (compiled : compile options sourceName source = .ok unit) :
    (∀ plan ∈ unit.plans, (plan.checks.map fun check => (check.path, check.rule)).Nodup) ∧
    ∀ file, SourceFile.parse source.toList = .ok file → file.hasDistinctFields = true →
      ∀ plan ∈ unit.plans, ∀ record found,
        validate (ofPlan plan) unit.validators record = some found →
          (found.map fun violation => (violation.path.render, violation.rule)).Nodup := by
  obtain ⟨file, parsed, rfl⟩ := compile_eq_ok.1 compiled
  refine ⟨fun plan hplan => Plan.ofFile_keys hplan, ?_⟩
  intro file' parsed' fields plan hplan record found validated
  cases parsed.symm.trans parsed'
  obtain ⟨unique, comes⟩ := run_keys (fun name inner looked => Plan.find?_isKeyed fields looked)
    (Plan.ofFile_isKeyed fields hplan) validated
  refine Violation.texts_nodup unique fun violation hviolation => ?_
  obtain ⟨check, hcheck, hfrom⟩ := comes violation hviolation
  exact FieldPath.parse_rendered (hfrom.segments
    (fun name inner looked => Plan.find?_isName parsed looked) (fun _ h => nomatch h)
    (Plan.ofFile_isName parsed hplan check hcheck))

/-- A source with a rule asked for under two spellings, and with records that hand over to another
from several places. -/
def residents : String :=
  "package p
  type City struct \x7b
    // +govalid:required
    Name string
  \x7d
  type User struct \x7b
    // +govalid:min=18
    // +govalid:gte=21
    // +govalid:required
    Age, Rank int
    // +govalid:required
    Home City
    Next *struct \x7b
      // +govalid:required
      Home City
    \x7d
  \x7d
  "

set_option maxRecDepth 4000 in
theorem compile_keys_residents :
    ∃ unit, compile .default "a.go" residents = .ok unit ∧
      (∀ plan ∈ unit.plans, (plan.checks.map fun check => (check.path, check.rule)).Nodup) ∧
      ∃ plan ∈ unit.plans, ∃ found,
        validate (ofPlan plan) unit.validators [("Next", .record [])] = some found ∧
        (found.map fun violation => (violation.path.render, violation.rule)) =
          [("Age", .gte), ("Age", .required), ("Rank", .gte), ("Rank", .required),
            ("Home.Name", .required), ("Next.Home.Name", .required)] ∧
        (found.map fun violation => (violation.path.render, violation.rule)).Nodup := by
  obtain ⟨file, parsed, facts⟩ := exists_parse (rfl : residents = _)
    (p := fun file => file.hasDistinctFields && (Plan.ofFile file).1.any fun plan =>
      (validate (ofPlan plan) ((Plan.ofFile file).1.map ofPlan) [("Next", .record [])]).map
          (·.map fun violation => (violation.path.render, violation.rule)) ==
        some [("Age", .gte), ("Age", .required), ("Rank", .gte), ("Rank", .required),
          ("Home.Name", .required), ("Next.Home.Name", .required)])
    (by decide +kernel)
  rw [Bool.and_eq_true, List.any_eq_true] at facts
  obtain ⟨fields, plan, hplan, facts⟩ := facts
  obtain ⟨found, validated, keys⟩ := Option.map_eq_some_iff.1 (beq_iff_eq.1 facts)
  have compiled : compile .default "a.go" residents = _ := compile_of_parse parsed
  obtain ⟨checks, violations⟩ := compile_keys compiled
  exact ⟨_, compiled, checks, plan, hplan, found, validated, keys,
    violations file parsed fields plan hplan _ found validated⟩

end CompiledUnit

end FieldRules
