/-
Reports line by line.

A report is meant to have one line for each diagnostic.  The line has newlines only if
the message has, for the names in it are names of Go.  A message quotes its marker, and
a marker is read from one line of the source; it names a record whose check is dropped;
and it shows the type of a field that the rule is not for.  That type is the only text
that can bring a newline along: what is kept of it as it was written may go over many
lines.  So a report has a line for each diagnostic exactly if the types of all fields
that refuse their rules are written on one line (`compile_oneLineEach`).
-/
import FieldRules.Proofs.Emitted
import FieldRules.Proofs.Naming
import FieldRules.Proofs.Resolution
import FieldRules.Proofs.Verbatim
import FieldRules.Proofs.LineEnds
import FieldRules.Proofs.Written

namespace FieldRules

open Go Text

/-! ### Texts on one line -/

namespace Text

theorem not_mem_of_within {c : Char} {piece cs : List Char} (within : piece <:+: cs) (h : c ∉ cs) :
    c ∉ piece := fun found => h (within.subset found)

theorem trimEnd_within (cs : List Char) : trimEnd cs <:+: cs := by
  obtain ⟨blanks, split, -⟩ := trimEnd_append cs
  exact ⟨[], blanks, split.symm⟩

theorem newline_not_in_numeral {text : List Char} (h : IsNumeral text) : '\n' ∉ text := by
  intro found
  exact absurd (h.2 _ found) (by decide +kernel)

theorem Position.newline_not_in_render (p : Position) : '\n' ∉ p.render.toList :=
  noNewline_append
    (noNewline_append (newline_not_in_numeral (isNumeral_digits p.line)) (by decide))
    (newline_not_in_numeral (isNumeral_digits p.column))

/-- Replacing brings no character in that the replacement does not have. -/
theorem not_mem_replaceFrom {c : Char} {pattern replacement : List Char} (h : c ∉ replacement)
    {behind : Nat} {cs : List Char} (hcs : c ∉ cs) :
    c ∉ replaceFrom pattern replacement behind cs := by
  induction cs generalizing behind with
  | nil => cases behind <;> exact List.not_mem_nil
  | cons d cs ih =>
    obtain ⟨other, rest⟩ := not_or.1 (fun found => hcs (List.mem_cons.2 found))
    cases behind with
    | succ behind => exact ih rest
    | zero =>
      rw [replaceFrom]
      split
      · exact fun found => (List.mem_append.1 found).elim h (ih rest)
      · exact fun found => (List.mem_cons.1 found).elim other (ih rest)

end Text

namespace Style

variable {codes text : String}

theorem newline_not_in_wrap (style : Style) (hcodes : '\n' ∉ codes.toList)
    (htext : '\n' ∉ text.toList) : '\n' ∉ (style.wrap codes text).toList := by
  have start : '\n' ∉ ("\x1b[" ++ codes ++ "m").toList :=
    noNewline_append (noNewline_append (by decide) hcodes) (by decide)
  unfold wrap
  simp only
  split
  · refine noNewline_append (noNewline_append start ?_) (by decide)
    rw [String.toList_ofList]
    exact not_mem_replaceFrom (noNewline_append (by decide) start) htext
  · exact htext

end Style

/-! ### Lines of a report -/

namespace Diagnostic

/-- A report is made of lines, each ended by a newline and with none inside, one for each
diagnostic: it starts with the name of the file and ends with the message. -/
def OneLineEach (style : Style) (file : String) (ds : List Diagnostic) : Prop :=
  ∃ lines : List (List Char), (renderAll style file ds).toList = lines.flatMap (· ++ ['\n']) ∧
    (∀ line ∈ lines, '\n' ∉ line) ∧
    List.Forall₂ (fun d line => (style.bold file).toList <+: line ∧ d.message.toList <:+ line)
      ds lines

/-- What is reported of a diagnostic before the line ends. -/
def line (style : Style) (file : String) (d : Diagnostic) : String :=
  style.bold file ++ ":" ++ d.position.render ++ " " ++
    style.alarm ("error[" ++ d.kind.label ++ "]") ++ " " ++ d.record ++ "." ++ style.tint d.path ++
    ": " ++ d.message

/-- What is said before the message stays on the line. -/
structure OnLine (d : Diagnostic) : Prop where
  record : '\n' ∉ d.record.toList
  path : '\n' ∉ d.path.toList

variable {style : Style} {file : String} {ds : List Diagnostic} {d : Diagnostic}

theorem renderAll_toList (style : Style) (file : String) (ds : List Diagnostic) :
    (renderAll style file ds).toList =
      (ds.map fun d => (line style file d).toList).flatMap (· ++ ['\n']) := by
  have ended (d : Diagnostic) : renderIn d style file = line style file d ++ "\n" := rfl
  simp [renderAll, String.toList_join, List.flatMap_map, ended]

theorem line_front (d : Diagnostic) : (style.bold file).toList <+: (line style file d).toList := by
  simp only [line, String.toList_append, List.append_assoc]
  exact List.prefix_append _ _

theorem line_end (d : Diagnostic) : d.message.toList <:+ (line style file d).toList := by
  simp only [line, String.toList_append]
  exact List.suffix_append _ _

theorem newline_not_in_line (hfile : '\n' ∉ file.toList) (named : d.OnLine)
    (hmessage : '\n' ∉ d.message.toList) : '\n' ∉ (line style file d).toList := by
  have bold : '\n' ∉ (style.bold file).toList := style.newline_not_in_wrap (by decide) hfile
  have label : '\n' ∉ d.kind.label.toList := by cases d.kind <;> decide
  have alarm : '\n' ∉ (style.alarm ("error[" ++ d.kind.label ++ "]")).toList :=
    style.newline_not_in_wrap (by decide)
      (noNewline_append (noNewline_append (by decide) label) (by decide))
  have tint : '\n' ∉ (style.tint d.path).toList := style.newline_not_in_wrap (by decide) named.path
  have place := d.position.newline_not_in_render
  have record := named.record
  simp only [line, String.toList_append, List.append_assoc, List.mem_append, not_or]
  exact ⟨bold, by decide, place, by decide, alarm, by decide, record, by decide, tint, by decide,
    hmessage⟩

theorem OneLineEach.messages (h : OneLineEach style file ds) :
    ∀ d ∈ ds, '\n' ∉ d.message.toList := by
  obtain ⟨lines, -, inline, pairs⟩ := h
  intro d hd
  obtain ⟨line, hline, -, ends⟩ := exists_related pairs hd
  exact not_mem_of_within ends.isInfix (inline line hline)

/-- Where the names stay on their line, a report has a line for each diagnostic exactly if no
message has a newline. -/
theorem oneLineEach_iff (hfile : '\n' ∉ file.toList) (named : ∀ d ∈ ds, d.OnLine) :
    OneLineEach style file ds ↔ ∀ d ∈ ds, '\n' ∉ d.message.toList := by
  refine ⟨OneLineEach.messages, fun inline => ?_⟩
  refine ⟨ds.map fun d => (line style file d).toList, renderAll_toList style file ds, ?_, ?_⟩
  · rw [List.forall_mem_map]
    exact fun d hd => newline_not_in_line hfile (named d hd) (inline d hd)
  · rw [List.forall₂_map_right_iff]
    exact List.forall₂_same.2 fun d _ => ⟨line_front d, line_end d⟩

end Diagnostic

/-! ### What is quoted of a marker -/

/-- What is done with a value does not bring an error about. -/
theorem error_of_map {α β ε : Type} {f : α → β} {result : Except ε α} {e : ε}
    (h : result.map f = .error e) : result = .error e := by
  cases result with
  | error _ => exact congrArg Except.error (Except.error.inj h)
  | ok _ => cases h

theorem Rule.newline_not_in_name (rule : Rule) : '\n' ∉ rule.name.toList := by
  cases rule <;> decide

theorem Kind.newline_not_in_describe (kind : Kind) : '\n' ∉ kind.describe.toList := by
  unfold describe
  split <;> decide

namespace Marker

variable {text : List Char}

theorem ruleName_within {body : List Char} (h : behind? markerStart text = some body) :
    ruleName body <:+: text := by
  rw [behind?_eq_some h]
  exact (ruleName_front body).isInfix.trans (List.suffix_append _ _).isInfix

theorem behindRule_within {body : List Char} (h : behind? markerStart text = some body) :
    body.drop (ruleName body).length <:+: text := by
  rw [behind?_eq_some h]
  exact ((List.drop_suffix _ _).trans (List.suffix_append _ _)).isInfix

theorem readArgument_ok {rule rest : List Char} {argument : Option String}
    (h : readArgument rule rest = .ok argument) :
    ∀ raw ∈ argument, raw.toList <:+: rest := by
  unfold readArgument at h
  split at h
  · next argument =>
    cases h
    intro raw hraw
    cases hraw
    rw [String.toList_ofList]
    exact (trimEnd_within argument).trans (List.suffix_cons _ _).isInfix
  · split at h
    · cases h
      exact fun _ hraw => nomatch hraw
    · cases h

/-- The rule and the argument of a marker stand in its text. -/
theorem read_ok {rule : String} {argument : Option String} (h : read text = .ok (rule, argument)) :
    rule.toList <:+: text ∧ ∀ raw ∈ argument, raw.toList <:+: text := by
  unfold read at h
  split at h
  · cases h
  · next body hbody =>
    split at h
    · cases h
    · simp only at h
      split at h
      · cases h
      · cases hargument : readArgument (ruleName body) (body.drop (ruleName body).length) with
        | error fault =>
          rw [hargument] at h
          cases h
        | ok found =>
          rw [hargument] at h
          cases h
          rw [String.toList_ofList]
          exact ⟨ruleName_within hbody, fun raw hraw =>
            (readArgument_ok hargument raw hraw).trans (behindRule_within hbody)⟩

end Marker

namespace MarkerFault

/-- The texts that are quoted in what is said of a fault. -/
def quoted : MarkerFault → List String
  | notMarker text => [text]
  | noRule text => [text]
  | unexpected rest rule => [rest, rule]

theorem newline_not_in_message {fault : MarkerFault}
    (h : ∀ text ∈ fault.quoted, '\n' ∉ text.toList) : '\n' ∉ fault.message.toList := by
  cases fault with
  | notMarker text | noRule text =>
    have text := h text List.mem_cons_self
    exact noNewline_append (noNewline_append (by decide) text) (by decide)
  | unexpected rest rule =>
    have rest := h rest List.mem_cons_self
    have rule := h rule (List.mem_cons_of_mem _ List.mem_cons_self)
    have start : '\n' ∉ (String.ofList markerStart).toList := by
      rw [String.toList_ofList]
      decide
    exact noNewline_append (noNewline_append (noNewline_append (noNewline_append (noNewline_append
      (noNewline_append (noNewline_append (by decide) rest) (by decide)) rule) (by decide)) start)
      rule) (by decide)

/-- What is quoted of a marker that cannot be read stands in its text. -/
theorem quoted_within {text : List Char} {fault : MarkerFault}
    (h : Marker.read text = .error fault) : ∀ piece ∈ fault.quoted, piece.toList <:+: text := by
  have single {quote : String} (within : quote.toList <:+: text) :
      ∀ piece ∈ [quote], piece.toList <:+: text := List.forall_mem_singleton.2 within
  unfold Marker.read at h
  split at h
  · cases h
    exact single (String.toList_ofList ▸ List.infix_refl text)
  · next body hbody =>
    split at h
    · cases h
      exact single (String.toList_ofList ▸ List.infix_refl text)
    · simp only at h
      split at h
      · cases h
        exact single (String.toList_ofList ▸ trimEnd_within text)
      · unfold Marker.readArgument at h
        split at h
        · cases h
        · split at h
          · cases h
          · cases h
            refine List.forall_mem_cons.2 ⟨?_, single ?_⟩
            · rw [String.toList_ofList]
              exact (trim_within _).trans (Marker.behindRule_within hbody)
            · rw [String.toList_ofList]
              exact Marker.ruleName_within hbody

end MarkerFault

namespace ArgumentError

/-- The text that is quoted in what is said of an error. -/
def quoted? : ArgumentError → Option String
  | notInteger raw => some raw
  | notNumber raw => some raw
  | floatOverflow raw _ => some raw
  | notCount raw => some raw
  | _ => none

theorem newline_not_in_message {error : ArgumentError}
    (h : ∀ text ∈ error.quoted?, '\n' ∉ text.toList) : '\n' ∉ error.message.toList := by
  have number (value : Int) := newline_not_in_numeral (isNumeral_int value)
  cases error with
  | empty => decide
  | unexpected rule =>
    exact noNewline_append (noNewline_append (by decide) rule.newline_not_in_name) (by decide)
  | missing rule =>
    have name := rule.newline_not_in_name
    exact noNewline_append (noNewline_append (noNewline_append (noNewline_append (by decide) name)
      (by decide)) name) (by decide)
  | untypable kind =>
    exact noNewline_append (noNewline_append (by decide) kind.newline_not_in_describe) (by decide)
  | outOfRange value min max =>
    exact noNewline_append (noNewline_append (noNewline_append (noNewline_append (noNewline_append
      (number value) (by decide)) (number min)) (by decide)) (number max)) (by decide)
  | notInteger raw | notNumber raw | notCount raw =>
    exact noNewline_append (noNewline_append (by decide) (h raw rfl)) (by decide)
  | floatOverflow raw bits =>
    have bits := newline_not_in_numeral (isNumeral_digits bits)
    exact noNewline_append (noNewline_append (noNewline_append (noNewline_append (by decide)
      (h raw rfl)) (by decide)) bits) (by decide)

variable {raw : List Char} {error : ArgumentError}

theorem quoted_integer {min max : Int} (h : Argument.integer raw min max = .error error) :
    ∀ text ∈ error.quoted?, text.toList = raw := by
  unfold Argument.integer at h
  split at h
  · cases h
    rintro _ ⟨⟩
    exact String.toList_ofList
  · split at h
    · cases h
      exact fun _ htext => nomatch htext
    · cases h

theorem quoted_float {bits : Nat} (h : Argument.float raw bits = .error error) :
    ∀ text ∈ error.quoted?, text.toList = raw := by
  have whole : ∀ text ∈ some (String.ofList raw), text.toList = raw := by
    rintro _ ⟨⟩
    exact String.toList_ofList
  unfold Argument.float at h
  split at h
  · cases h
    exact whole
  · split at h
    · cases h
      exact whole
    · split at h
      · cases h
      · cases h
        exact whole

theorem quoted_scalar {kind : Kind} (h : Argument.scalar kind raw = .error error) :
    ∀ text ∈ error.quoted?, text.toList = raw := by
  unfold Argument.scalar at h
  split at h
  · exact quoted_integer h
  · exact quoted_float h
  · cases h
  · cases h
    exact fun _ htext => nomatch htext

theorem quoted_count (h : Argument.count raw = .error error) :
    ∀ text ∈ error.quoted?, text.toList = raw := by
  unfold Argument.count at h
  split at h
  · cases h
    rintro _ ⟨⟩
    exact String.toList_ofList
  · cases h

theorem quoted_scalars {kind : Kind} {raws : List (List Char)}
    (h : Argument.scalars kind raws = .error error) :
    ∀ text ∈ error.quoted?, text.toList ∈ raws := by
  intro text htext
  induction raws with
  | nil => cases h
  | cons raw raws ih =>
    unfold Argument.scalars at h
    split at h
    · next first =>
      cases h
      rw [quoted_scalar first text htext]
      exact List.mem_cons_self
    · exact List.mem_cons_of_mem _ (ih (error_of_map h))

/-- What is quoted of an argument stands in it. -/
theorem quoted_present {rule : Rule} {kind : Kind}
    (h : Argument.present rule raw kind = .error error) :
    ∀ text ∈ error.quoted?, text.toList <:+: raw := by
  intro text htext
  unfold Argument.present at h
  split at h
  · cases h
    cases htext
  · split at h
    · cases h
      cases htext
    · exact (quoted_scalar (error_of_map h) text htext).symm ▸ List.infix_refl raw
    · exact (quoted_count (error_of_map h) text htext).symm ▸ List.infix_refl raw
    · exact splitAt_within (List.mem_filter.1 (quoted_scalars (error_of_map h) text htext)).1

theorem quoted_within {rule : Rule} {argument : Option String} {kind : Kind}
    (h : typeArgument rule argument kind = .error error) :
    ∀ text ∈ error.quoted?, ∃ raw ∈ argument, text.toList <:+: raw.toList := by
  intro text htext
  unfold typeArgument at h
  split at h
  · cases h
  · cases h
    cases htext
  · cases h
    cases htext
  · next raw _ => exact ⟨raw, rfl, quoted_present h text htext⟩

end ArgumentError

/-! ### What is wrong with a marker line -/

/-- The marker on a line asks for a rule that is not for the type of its field. -/
def Occurrence.IsRefused (occurrence : Occurrence) (decls : List TypeDecl) : Prop :=
  ∃ marker rule, occurrence.reading = .ok marker ∧ Rule.ofSpelling? marker.rule = some rule ∧
    (rule.accepts (Kind.ofType decls occurrence.type) = false ∨
      Plan.neverRequired rule (Kind.ofType decls occurrence.type) = true)

namespace Plan

/-- A marker line is rejected as it is, for what it asks, or when its check is dropped. -/
inductive Rejects (decls : List TypeDecl) (occurrence : Occurrence) : Rejection → Prop where
  | malformed {bad : Malformed} : occurrence.reading = .error bad →
      Rejects decls occurrence (.malformed bad.fault)
  | refused {marker : Marker} {rejection : Rejection} : occurrence.reading = .ok marker →
      checkOf decls occurrence marker = .error rejection → Rejects decls occurrence rejection
  | repeated (rule : Rule) : Rejects decls occurrence (.duplicate rule)
  | dropped {name : String} {comparable : Bool} :
      Kind.ofType decls occurrence.type = .record (some name) comparable →
      Rejects decls occurrence (.uncheckable occurrence.type.render)

/-- A diagnostic tells of a marker line of a record that it is rejected. -/
def Tells (decls : List TypeDecl) (decl : TypeDecl) (d : Diagnostic) : Prop :=
  ∃ occurrence ∈ Occurrence.inRecord decl, ∃ rejection rule position,
    Rejects decls occurrence rejection ∧
      d = rejection.diagnostic decl.name occurrence.path rule position

variable {decls : List TypeDecl} {decl : TypeDecl} {occurrence : Occurrence} {marker : Marker}
  {d : Diagnostic}

theorem checkOf_error {rejection : Rejection}
    (h : checkOf decls occurrence marker = .error rejection) :
    rejection = .unknown marker.rule ∨
      (∃ rule, Rule.ofSpelling? marker.rule = some rule ∧
        (rule.accepts (Kind.ofType decls occurrence.type) = false ∨
          neverRequired rule (Kind.ofType decls occurrence.type) = true) ∧
        rejection = .incompatible marker.rule (Kind.ofType decls occurrence.type)
          occurrence.type.render) ∨
      ∃ rule error, typeArgument rule marker.argument (Kind.ofType decls occurrence.type) =
          .error error ∧ rejection = .argument marker.rule error := by
  unfold checkOf at h
  split at h
  · cases h
    exact .inl rfl
  · next rule hrule =>
    simp only at h
    split at h
    · next refuses =>
      cases h
      rw [Bool.or_eq_true, Bool.not_eq_true'] at refuses
      exact .inr (.inl ⟨rule, hrule, refuses, rfl⟩)
    · split at h
      · next error herror =>
        cases h
        exact .inr (.inr ⟨rule, error, herror, rfl⟩)
      · cases h

theorem checkOf_refused {rule : Rule} (hrule : Rule.ofSpelling? marker.rule = some rule)
    (refuses : rule.accepts (Kind.ofType decls occurrence.type) = false ∨
      neverRequired rule (Kind.ofType decls occurrence.type) = true) :
    checkOf decls occurrence marker = .error (.incompatible marker.rule
      (Kind.ofType decls occurrence.type) occurrence.type.render) := by
  unfold checkOf
  rw [hrule]
  simp only
  rw [if_pos]
  rwa [Bool.or_eq_true, Bool.not_eq_true']

/-! ### Every diagnostic tells of a rejection -/

theorem checkOrDiagnose_error {record : String} {before : List Check}
    (h : checkOrDiagnose decls record before occurrence marker = .error d) :
    ∃ rejection, (checkOf decls occurrence marker = .error rejection ∨
        ∃ rule, rejection = .duplicate rule) ∧
      d = rejection.diagnostic record occurrence.path (some marker.rule) marker.position := by
  unfold checkOrDiagnose at h
  simp only at h
  split at h
  · next rejection hrejection =>
    cases h
    exact ⟨rejection, .inl hrejection, rfl⟩
  · next check _ =>
    split at h
    · cases h
      exact ⟨_, .inr ⟨check.rule, rfl⟩, rfl⟩
    · cases h

theorem ofMarkers_refused {record : String} {before : List Check}
    {markers : List (Occurrence × Marker)} (found : (occurrence, marker) ∈ markers)
    {rejection : Rejection} (h : checkOf decls occurrence marker = .error rejection) :
    rejection.diagnostic record occurrence.path (some marker.rule) marker.position ∈
      (ofMarkers decls record before markers).2 := by
  induction markers generalizing before with
  | nil => cases found
  | cons first markers ih =>
    obtain ⟨other, otherMarker⟩ := first
    unfold ofMarkers
    rcases List.mem_cons.1 found with here | later
    · cases here
      have reported : checkOrDiagnose decls record before occurrence marker =
          .error (rejection.diagnostic record occurrence.path (some marker.rule)
            marker.position) := by
        unfold checkOrDiagnose
        rw [h]
      rw [reported]
      exact List.mem_cons_self
    · cases checkOrDiagnose decls record before other otherMarker with
      | ok made => exact ih later
      | error first => exact List.mem_cons_of_mem _ (ih later)

theorem malformed_tells (h : d ∈ malformed decl) : Tells decls decl d := by
  obtain ⟨occurrence, hoccurrence, told⟩ := List.mem_filterMap.1 h
  split at told
  · cases told
  · next bad hbad =>
    cases told
    exact ⟨occurrence, hoccurrence, _, none, bad.position, .malformed hbad, rfl⟩

theorem ofRecord_tells (h : d ∈ (ofRecord decls decl).2) : Tells decls decl d := by
  rcases List.mem_append.1 h with bad | h
  · exact malformed_tells bad
  · obtain ⟨found, hfound, before, told⟩ := mem_ofMarkers_error h
    obtain ⟨hoccurrence, hreading⟩ := mem_wellFormed hfound
    obtain ⟨rejection, rejected, rfl⟩ := checkOrDiagnose_error told
    refine ⟨found.1, hoccurrence, rejection, _, _, ?_, rfl⟩
    rcases rejected with refused | ⟨rule, rfl⟩
    · exact .refused hreading refused
    · exact .repeated rule

theorem isLost_kind {kept : List String} {check : Check} (h : isLost kept check = true) :
    ∃ name, check.kind = .record (some name) false := by
  unfold isLost at h
  split at h
  · next name _ hkind => exact ⟨name, hkind⟩
  · cases h

/-- A diagnostic of settling is that of a check of one of the plans. -/
theorem Settles.mem_dropped {plans left : List Plan} {ds : List Diagnostic}
    (h : Settles plans left ds) (nonempty : ∀ plan ∈ plans, plan.checks ≠ []) (hd : d ∈ ds) :
    ∃ plan ∈ plans, ∃ check ∈ plan.checks, (∃ name, check.kind = .record (some name) false) ∧
      d = dropped plan.record check := by
  obtain ⟨plan, hplan, hd⟩ := List.mem_flatMap.1 ((h.losses_perm nonempty).mem_iff.1 hd)
  obtain ⟨check, hcheck, rfl⟩ := List.mem_map.1 hd
  obtain ⟨hcheck, lost⟩ := List.mem_filter.1 hcheck
  exact ⟨plan, hplan, check, hcheck, isLost_kind lost, rfl⟩

/-- Every diagnostic of a file tells why a marker line of one of its records is rejected. -/
theorem ofFile_tells {file : SourceFile} (hd : d ∈ (ofFile file).2) :
    ∃ decl ∈ file.decls, Tells file.decls decl d := by
  have settled := settle_settles (ofRecords file.decls [] (file.decls.filter (·.isRecord))).1
  have isPlan {plan : Plan}
      (hplan : plan ∈ (ofRecords file.decls [] (file.decls.filter (·.isRecord))).1) :
      ∃ decl ∈ file.decls, (ofRecord file.decls decl).1 = some plan := by
    rcases mem_ofRecords hplan with hnone | ⟨decl, hdecl, made⟩
    · cases hnone
    · exact ⟨decl, (List.mem_filter.1 hdecl).1, made⟩
  rcases List.mem_append.1 hd with found | late
  · obtain ⟨decl, hdecl, found⟩ := mem_ofRecords_snd found
    exact ⟨decl, (List.mem_filter.1 hdecl).1, ofRecord_tells found⟩
  · have nonempty : ∀ plan ∈ (ofRecords file.decls [] (file.decls.filter (·.isRecord))).1,
        plan.checks ≠ [] := by
      intro plan hplan
      obtain ⟨decl, -, made⟩ := isPlan hplan
      exact (ofRecord_some made).1
    obtain ⟨plan, hplan, check, hcheck, ⟨name, hkind⟩, rfl⟩ := settled.mem_dropped nonempty late
    obtain ⟨decl, hdecl, made⟩ := isPlan hplan
    obtain ⟨occurrence, hoccurrence, marker, -, hmade⟩ := mem_ofRecord_checks made hcheck
    obtain ⟨path, -, kind, goType, -, -⟩ := checkOf_ok hmade
    refine ⟨decl, hdecl, occurrence, hoccurrence, .uncheckable occurrence.type.render,
      some check.rule.name, check.position, .dropped (kind.symm.trans hkind), ?_⟩
    have named : plan.record = decl.name := congrArg Plan.record (ofRecord_some made).2
    rw [dropped, named, path, goType]

/-- A marker that is refused is reported. -/
theorem ofFile_refused {file : SourceFile} (hdecl : decl ∈ file.decls)
    (found : occurrence ∈ Occurrence.inRecord decl) (hmarker : occurrence.reading = .ok marker)
    {rejection : Rejection} (h : checkOf file.decls occurrence marker = .error rejection) :
    rejection.diagnostic decl.name occurrence.path (some marker.rule) marker.position ∈
      (ofFile file).2 := by
  have listed : (occurrence, marker) ∈ wellFormed decl := by
    refine List.mem_filterMap.2 ⟨occurrence, found, ?_⟩
    rw [hmarker]
  have isRecord : decl.isRecord = true := by
    unfold Occurrence.inRecord at found
    split at found
    · next hfields =>
      rw [TypeDecl.isRecord, hfields]
      rfl
    · cases found
  have declared : decl ∈ file.decls.filter (·.isRecord) := List.mem_filter.2 ⟨hdecl, isRecord⟩
  have reported := ((ofRecords_grows file.decls [] _).2 decl declared).2
  exact List.mem_append_left _ (reported (List.mem_append_right _ (ofMarkers_refused listed h)))

end Plan

/-! ### Messages of a source -/

namespace Marker

variable {text : List Char} {place : Position}

theorem read_of_parse {marker : Marker} (h : parse text place = .ok marker) :
    read text = .ok (marker.rule, marker.argument) := by
  unfold parse at h
  split at h
  · cases h
  · next hread =>
    cases h
    exact hread

theorem read_of_malformed {bad : Malformed} (h : parse text place = .error bad) :
    read text = .error bad.fault := by
  unfold parse at h
  split at h
  · next hread =>
    cases h
    exact hread
  · cases h

end Marker

section

variable {source : List Char} {file : SourceFile} {decl : TypeDecl} {occurrence : Occurrence}

/-- The path of a marker line is made of names. -/
theorem Occurrence.isNamed (parsed : SourceFile.parse source = .ok file) (hdecl : decl ∈ file.decls)
    (found : occurrence ∈ inRecord decl) : occurrence.path.IsNamed := by
  rw [Site.inRecord_occurrences] at found
  obtain ⟨site, hsite, found⟩ := List.mem_flatMap.1 found
  obtain ⟨reading, -, rfl⟩ := List.mem_map.1 found
  obtain ⟨fields, hfields, chain, name, declared, path, -⟩ := Site.inRecord_reached hsite
  intro segment hsegment
  refine parse_names parsed decl hdecl segment ?_
  rw [Site.recordFields?_type hfields, TypeExpr.names]
  refine declared.names_subset ?_
  rw [Chain.names, List.map_append]
  exact path ▸ hsegment

/-- A type of the kind of a named record is written as a name. -/
theorem Kind.isName_of_record (parsed : SourceFile.parse source = .ok file) {type : TypeExpr}
    {name : String} {comparable : Bool}
    (h : Kind.ofType file.decls type = .record (some name) comparable) :
    isName type.render.toList = true := by
  rcases kindWith_record h with ⟨_, -, none⟩ | ⟨written, rfl, hkind⟩
  · cases none
  · obtain ⟨decl, hdecl, -⟩ := kindOfName_record_cases hkind
    obtain ⟨hmem, rfl⟩ := declaration?_some hdecl
    exact parse_isName parsed decl hmem

/-- Why a marker line is rejected is said on one line, but for the type of a field that refuses the
rule. -/
theorem Plan.Rejects.onLine {rejection : Rejection} (h : Rejects file.decls occurrence rejection)
    (parsed : SourceFile.parse source = .ok file) (hdecl : decl ∈ file.decls)
    (found : occurrence ∈ Occurrence.inRecord decl)
    (shown : occurrence.IsRefused file.decls → '\n' ∉ occurrence.type.render.toList) :
    '\n' ∉ rejection.message.toList := by
  obtain ⟨text, -, -, inline, reading⟩ := Occurrence.exists_written parsed hdecl found
  cases h with
  | malformed hbad =>
    refine MarkerFault.newline_not_in_message fun quote hquote => ?_
    exact not_mem_of_within
      (MarkerFault.quoted_within (Marker.read_of_malformed (reading.symm.trans hbad)) quote hquote)
      inline
  | @refused marker _ hmarker refused =>
    obtain ⟨ruleWithin, argumentWithin⟩ :=
      Marker.read_ok (Marker.read_of_parse (reading.symm.trans hmarker))
    have spelling := not_mem_of_within ruleWithin inline
    rcases checkOf_error refused with rfl | ⟨rule, hrule, refuses, rfl⟩ | ⟨rule, error, typed, rfl⟩
    · exact noNewline_append (noNewline_append (by decide) spelling) (by decide)
    · have type := shown ⟨marker, rule, hmarker, hrule, refuses⟩
      have kind := (Kind.ofType file.decls occurrence.type).newline_not_in_describe
      exact noNewline_append (noNewline_append (noNewline_append (noNewline_append (noNewline_append
        (noNewline_append (by decide) spelling) (by decide)) kind) (by decide)) type) (by decide)
    · have message : '\n' ∉ error.message.toList := by
        refine ArgumentError.newline_not_in_message fun quote hquote => ?_
        obtain ⟨raw, hraw, within⟩ := ArgumentError.quoted_within typed quote hquote
        exact not_mem_of_within (within.trans (argumentWithin raw hraw)) inline
      exact noNewline_append (noNewline_append (noNewline_append (by decide) spelling) (by decide))
        message
  | repeated rule =>
    exact noNewline_append (noNewline_append (by decide) rule.newline_not_in_name) (by decide)
  | dropped hkind =>
    have type := noNewline_of_isName (Kind.isName_of_record parsed hkind)
    exact noNewline_append (noNewline_append (by decide) type) (by decide)

/-- No message has a newline exactly if no type of a field that refuses its rule does. -/
theorem Plan.ofFile_onLine (parsed : SourceFile.parse source = .ok file) :
    (∀ d ∈ (ofFile file).2, '\n' ∉ d.message.toList) ↔
      ∀ decl ∈ file.decls, ∀ occurrence ∈ Occurrence.inRecord decl,
        occurrence.IsRefused file.decls → '\n' ∉ occurrence.type.render.toList := by
  constructor
  · intro inline decl hdecl occurrence found refused newline
    obtain ⟨marker, rule, hmarker, hrule, refuses⟩ := refused
    refine inline _ (ofFile_refused hdecl found hmarker (checkOf_refused hrule refuses)) ?_
    show '\n' ∈ (_ ++ occurrence.type.render ++ "\x60)").toList
    rw [String.toList_append, String.toList_append]
    exact List.mem_append_left _ (List.mem_append_right _ newline)
  · intro shown d hd
    obtain ⟨decl, hdecl, occurrence, found, rejection, _, _, rejects, rfl⟩ := ofFile_tells hd
    exact rejects.onLine parsed hdecl found (shown decl hdecl occurrence found)

end

/-! ### Reports of a source -/

namespace CompiledUnit

/-- A source that can be read compiles.  Under a name that stays on a line, its report has a line
for each diagnostic, in their order, exactly if every type of a field that refuses its rule is
written on one line.  Each line starts with the name and ends with the message. -/
theorem compile_oneLineEach {source : String} {file : SourceFile}
    (parsed : SourceFile.parse source.toList = .ok file) {name : String}
    (onLine : '\n' ∉ name.toList) (options : Emission.Options) (sourceName : String)
    (style : Style) :
    ∃ unit, compile options sourceName source = .ok unit ∧
      (Diagnostic.OneLineEach style name unit.diagnostics ↔
        ∀ decl ∈ file.decls, ∀ occurrence ∈ Occurrence.inRecord decl,
          occurrence.IsRefused file.decls → '\n' ∉ occurrence.type.render.toList) := by
  refine ⟨_, compile_of_parse parsed, ?_⟩
  have same (d : Diagnostic) : d ∈ (ofFile options sourceName file).diagnostics ↔
      d ∈ (Plan.ofFile file).2 := (Diagnostic.sort_perm _).mem_iff
  have named : ∀ d ∈ (ofFile options sourceName file).diagnostics, d.OnLine := by
    intro d hd
    obtain ⟨decl, hdecl, occurrence, found, rejection, _, _, -, rfl⟩ :=
      Plan.ofFile_tells ((same d).1 hd)
    exact ⟨noNewline_of_isName (parse_isName parsed decl hdecl),
      (Occurrence.isNamed parsed hdecl found).noNewline⟩
  rw [Diagnostic.oneLineEach_iff onLine named, ← Plan.ofFile_onLine parsed]
  exact forall_congr' fun d => imp_congr_left (same d)

/-- Markers with a fault each, and two types that refuse a rule: one kept as it was written, one
that is written anew. -/
def objections : String :=
  "package p
type A struct \x7b
\t// +govalid:min=a few
\t// +govalid:nope=1
\t// +govalid:ne!
\t// +govalid:max=9223372036854775808
\tX int
\t// +govalid:email
\tF func(int) string
\t// +govalid:required
\tS []struct \x7b
\t\tA, B int
\t\tC struct\x7b\x7d
\t\x7d
\x7d
"

theorem compile_oneLineEach_objections :
    ∃ file, SourceFile.parse objections.toList = .ok file ∧ '\n' ∉ "a.go".toList ∧
      (Plan.ofFile file).2.length = 6 ∧
      (∀ decl ∈ file.decls, ∀ occurrence ∈ Occurrence.inRecord decl,
        occurrence.IsRefused file.decls → '\n' ∉ occurrence.type.render.toList) ∧
      ∃ unit, compile .default "a.go" objections = .ok unit ∧
        (Diagnostic.OneLineEach ⟨true⟩ "a.go" unit.diagnostics ↔
          ∀ decl ∈ file.decls, ∀ occurrence ∈ Occurrence.inRecord decl,
            occurrence.IsRefused file.decls → '\n' ∉ occurrence.type.render.toList) := by
  obtain ⟨file, parsed, facts⟩ := exists_parse (rfl : objections = _)
    (p := fun file => (Plan.ofFile file).2.length == 6 &&
      (Plan.ofFile file).2.all fun d => !d.message.toList.contains '\n')
    (by decide +kernel)
  rw [Bool.and_eq_true, beq_iff_eq, List.all_eq_true] at facts
  have messages : ∀ d ∈ (Plan.ofFile file).2, '\n' ∉ d.message.toList := by
    intro d hd
    simpa using facts.2 d hd
  exact ⟨file, parsed, by decide, facts.1, (Plan.ofFile_onLine parsed).1 messages,
    compile_oneLineEach parsed (by decide) .default "a.go" ⟨true⟩⟩

/-- An interface over three lines, in a field that refuses its rule. -/
def wideInterface : String :=
  "package p
type T struct \x7b
// +govalid:email
F interface \x7b
\tM()
\x7d
\x7d
"

theorem compile_oneLineEach_wideInterface :
    '\n' ∉ "a.go".toList ∧ ∃ unit, compile .default "a.go" wideInterface = .ok unit ∧
      unit.diagnostics.map (·.message) =
        ["rule \x60email\x60 cannot be applied to a opaque type field (\x60interface " ++
          "\x7b\n\tM()\n\x7d\x60)"] ∧
      ¬Diagnostic.OneLineEach ⟨false⟩ "a.go" unit.diagnostics := by
  obtain ⟨file, parsed, facts⟩ := exists_parse (rfl : wideInterface = _)
    (p := fun file => (ofFile .default "a.go" file).diagnostics.map (·.message) ==
      ["rule \x60email\x60 cannot be applied to a opaque type field (\x60interface " ++
        "\x7b\n\tM()\n\x7d\x60)"])
    (by decide +kernel)
  rw [beq_iff_eq] at facts
  refine ⟨by decide, _, compile_of_parse parsed, facts, fun oneLineEach => ?_⟩
  obtain ⟨d, hd, message⟩ := List.mem_map.1 (facts ▸ List.mem_cons_self)
  refine oneLineEach.messages d hd ?_
  rw [message]
  decide +kernel

end CompiledUnit

end FieldRules
