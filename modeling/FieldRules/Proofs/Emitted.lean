/-
What is emitted for a plan.

All that a plan puts into code are names, texts and numbers, and the type of a struct
that is compared with its zero value.  Names that are made from other names need not be
names again: a capital may be written with a mark that no name holds.  Where the names
that are made for a plan are names, and its types have their brackets in pairs, the
code for it is sound (`Plan.IsWritable.isSound`).
-/
import FieldRules.Proofs.CodeLines
import FieldRules.Proofs.Sentinels
import FieldRules.Proofs.Typing

namespace FieldRules

open Go Text

/-! ### Names -/

namespace Go

variable {cs more : List Char} {c : Char}

theorem continues_of_isName (h : isName cs = true) : cs.all continuesName = true := by
  cases cs with
  | nil => cases h
  | cons first rest =>
    obtain ⟨starts, goesOn⟩ := Bool.and_eq_true_iff.1 h
    exact Bool.and_eq_true_iff.2 ⟨Bool.or_eq_true_iff.2 (.inl starts), goesOn⟩

theorem isName_append (h : isName cs = true) (goesOn : more.all continuesName = true) :
    isName (cs ++ more) = true := by
  cases cs with
  | nil => cases h
  | cons first rest =>
    obtain ⟨starts, inner⟩ := Bool.and_eq_true_iff.1 h
    have whole : (rest ++ more).all continuesName = true := by
      rw [List.all_append, inner, goesOn]
      rfl
    exact Bool.and_eq_true_iff.2 ⟨starts, whole⟩

theorem noNewline_of_isName (h : isName cs = true) : '\n' ∉ cs := by
  intro found
  have goesOn := List.all_eq_true.1 (continues_of_isName h) '\n' found
  revert goesOn
  decide +kernel

theorem noNewline_append {a b : String} (h : '\n' ∉ a.toList) (h' : '\n' ∉ b.toList) :
    '\n' ∉ (a ++ b).toList := by
  rw [String.toList_append, List.mem_append]
  exact not_or.2 ⟨h, h'⟩

end Go

theorem Text.not_mem_joinWith {separator c : Char} (other : c ≠ separator)
    {pieces : List (List Char)} (h : ∀ piece ∈ pieces, c ∉ piece) :
    c ∉ joinWith separator pieces := by
  induction pieces with
  | nil => exact List.not_mem_nil
  | cons piece pieces ih =>
    obtain ⟨first, rest⟩ := List.forall_mem_cons.1 h
    cases pieces with
    | nil => exact first
    | cons next pieces =>
      rw [joinWith_cons_cons, List.mem_append, List.mem_cons]
      exact not_or.2 ⟨first, not_or.2 ⟨other, ih rest⟩⟩

namespace FieldPath

/-- All names on the way are names of Go. -/
def IsNamed (path : FieldPath) : Prop := ∀ segment ∈ path.segments, isName segment.toList = true

theorem IsNamed.noNewline {path : FieldPath} (h : path.IsNamed) : '\n' ∉ path.render.toList := by
  unfold render
  rw [toList_intercalate (c := '.') rfl]
  refine not_mem_joinWith (by decide) fun piece hpiece => ?_
  obtain ⟨segment, hsegment, rfl⟩ := List.mem_map.1 hpiece
  exact noNewline_of_isName (h segment hsegment)

end FieldPath

/-! ### Plans that can be written -/

/-- What a check puts into code is read there as it is meant. -/
structure Check.IsWritable (check : Check) : Prop where
  path : check.path.IsNamed
  guards : ∀ guard ∈ check.guards, guard.IsNamed
  target : ∀ target ∈ check.delegate, isName target.toList = true
  argument : check.rule.Takes check.kind check.argument
  /-- The type of a struct has its brackets in pairs. -/
  zero : check.rule = .required → ∀ owner comparable, check.kind = .record owner comparable →
    Lexes check.goType.toList (· != '\x7b') IsNested
  /-- With their first letters as capitals the words of the path go on with a name. -/
  error : check.delegate = none → ∀ segment ∈ check.path.segments,
    (Emission.pascal segment).all continuesName = true

/-- A value for a field is written by itself. -/
theorem Literal.Fits.single {kind : Kind} {item : Literal} (h : item.Fits kind) :
    item.isSingle = true := by
  cases h <;> rfl

/-- What a rule compares with is one value, if it takes one or a count. -/
theorem Rule.Takes.level {rule : Rule} {kind : Kind} {argument : Option Literal}
    (h : rule.Takes kind argument)
    (shape : rule.argumentShape = .fieldTyped ∨ rule.argumentShape = .count) :
    (Expr.literal argument).IsLevel := by
  cases h with
  | nothing other | list other =>
    rw [other] at shape
    rcases shape with shape | shape <;> cases shape
  | scalar _ fits => exact Expr.isLevel_literal fits.single
  | count => exact Expr.isLevel_literal rfl

structure Plan.IsWritable (plan : Plan) : Prop where
  record : isName plan.record.toList = true
  checks : ∀ check ∈ plan.checks, check.IsWritable
  /-- With a small first letter the name of the record is a name, if a pattern is named for it. -/
  patterns : (plan.uses .email || plan.uses .uuid) = true →
    isName (Emission.lowerFirst plan.record).toList = true

namespace Emission

variable {plan : Plan} {check : Check} {record name base : String} {taken : List String}

/-! ### Names that are made -/

theorem isName_nilName (h : isName record.toList = true) :
    isName (nilName record).toList = true := by
  rw [nilName, String.toList_append]
  exact isName_append (by decide) (continues_of_isName h)

theorem isName_validateName (h : isName record.toList = true) :
    isName (validateName record).toList = true := by
  rw [validateName, String.toList_append]
  exact isName_append (by decide) (continues_of_isName h)

theorem isName_patternName {rule : Rule} (h : isName (lowerFirst record).toList = true) :
    isName (patternName record rule).toList = true := by
  have format : (if rule = .email then "Email" else "UUID").toList.all continuesName = true := by
    split <;> decide
  rw [patternName_toList]
  exact isName_append (isName_append h format) (by decide)

theorem isName_sentinelBase (h : isName record.toList = true)
    (words : ∀ segment ∈ check.path.segments, (pascal segment).all continuesName = true) :
    isName (sentinelBase record check).toList = true := by
  have path : (check.path.segments.flatMap pascal).all continuesName = true := by
    rw [List.all_flatMap]
    exact List.all_eq_true.2 words
  have rule : (rulePart check.rule).toList.all continuesName = true := by
    cases check.rule <;> decide
  have front : isName ("Err".toList ++ record.toList) = true :=
    isName_append (by decide) (continues_of_isName h)
  have behind : isName ("Err".toList ++ record.toList ++ "_".toList) = true :=
    isName_append front (by decide)
  simp only [sentinelBase, String.toList_append, String.toList_ofList]
  exact isName_append (isName_append (isName_append behind path) rule) (by decide)

theorem isName_number (h : isName name.toList = true) (n : Nat) :
    isName (name ++ toString n).toList = true := by
  rw [String.toList_append]
  refine isName_append h (List.all_eq_true.2 fun c hc => ?_)
  rw [Nat.toString_eq_repr, Nat.toList_repr] at hc
  have digit : isAsciiDigit c = true :=
    (Nat.isDigit_of_mem_toDigits (by decide) (by decide) hc : c.isDigit = true)
  have ascii : c.toNat < 0x80 := by
    have bounds := isAsciiDigit_iff.1 digit
    omega
  rw [continuesName, isNumber, if_pos ascii, digit, Bool.or_true]

/-! ### Code of a check -/

theorem isPrimary_fieldExpr {path : FieldPath} (h : path.IsNamed) : (fieldExpr path).IsPrimary := by
  have select (names : List String) (e : Expr) (first : e.IsPrimary)
      (more : ∀ name ∈ names, isName name.toList = true) :
      (names.foldl Expr.select e).IsPrimary := by
    induction names generalizing e with
    | nil => exact first
    | cons name names ih =>
      obtain ⟨here, rest⟩ := List.forall_mem_cons.1 more
      exact ih (e.select name) (first.select here) rest
  exact select path.segments subject (Expr.isPrimary_name (by decide)) h

theorem isLevel_nil : nil.IsLevel := (Expr.isPrimary_name (by decide)).level

theorem isLevel_isNotNil {e : Expr} (h : e.IsPrimary) : (isNotNil e).IsLevel :=
  h.level.compare isLevel_nil .notEqual

theorem isPrimary_errName : errName.IsPrimary := Expr.isPrimary_name (by decide)

/-- A call with a text in it. -/
theorem isPrimary_call {function : Expr} (h : function.IsPrimary) (text : String) {es : List Expr}
    (more : ∀ e ∈ es, e.IsLevel) :
    (Expr.call function (.literal (some (.text text)) :: es)).IsPrimary :=
  h.call (List.forall_mem_cons.2 ⟨Expr.isLevel_literal rfl, more⟩)

namespace Condition

/-- The condition is a sound one of a statement. -/
structure IsSound (c : Condition) : Prop where
  binding : ∀ b ∈ c.binding, Stmt.Binds b
  test : c.test.IsLevel

theorem isSound_plain {test : Expr} (h : test.IsLevel) : (plain test).IsSound :=
  ⟨Stmt.binds_none, h⟩

end Condition

section

variable (h : check.IsWritable)

include h

theorem isPrimary_text : (textExpr check).IsPrimary := by
  unfold textExpr
  split
  · exact isPrimary_fieldExpr h.path
  · exact (Expr.isPrimary_name (by decide)).call
      (List.forall_mem_singleton.2 (isPrimary_fieldExpr h.path).level)

theorem isLevel_zeroTest (required : check.rule = .required) : (zeroTest check).IsLevel := by
  have field := isPrimary_fieldExpr h.path
  have compared {e : Expr} (he : e.IsLevel) : (Expr.compare .equal (fieldExpr check.path) e).IsLevel :=
    field.level.compare he .equal
  unfold zeroTest
  cases hkind : check.kind with
  | integer | float => exact compared (Expr.isLevel_literal rfl)
  | text => exact compared (Expr.isLevel_literal rfl)
  | bool => exact field.not
  | record owner comparable =>
    exact compared (Expr.isLevel_zeroOf (h.zero required owner comparable hkind))
  | pointer | collection | «foreign» => exact compared isLevel_nil

theorem isSound_compareField (comparison : Comparison)
    (shape : check.rule.argumentShape = .fieldTyped) :
    (compareField comparison check).IsSound :=
  Condition.isSound_plain
    ((isPrimary_fieldExpr h.path).level.compare (h.argument.level (.inl shape)) comparison)

theorem isSound_compareLength (comparison : Comparison)
    (shape : check.rule.argumentShape = .count) :
    (compareLength comparison check).IsSound := by
  have count : (Expr.call (.qualified .utf8 "RuneCountInString") [textExpr check]).IsPrimary :=
    (Expr.isPrimary_qualified _ (by decide)).call (List.forall_mem_singleton.2 (isPrimary_text h).level)
  exact Condition.isSound_plain (count.level.compare (h.argument.level (.inr shape)) comparison)

theorem isSound_unmatched (pattern : isName (patternName record check.rule).toList = true) :
    (unmatched record check).IsSound := by
  have method : (Expr.select (.name (patternName record check.rule)) "MatchString").IsPrimary :=
    (Expr.isPrimary_name pattern).select (by decide)
  exact Condition.isSound_plain
    (method.call (List.forall_mem_singleton.2 (isPrimary_text h).level)).not

theorem isSound_unparsed {failures : List Expr} (hfailures : ∀ e ∈ failures, e.IsLevel) :
    (unparsedAddress check failures).IsSound := by
  have parse : (Expr.call (.qualified .netip "ParseAddr") [textExpr check]).IsPrimary :=
    (Expr.isPrimary_qualified _ (by decide)).call (List.forall_mem_singleton.2 (isPrimary_text h).level)
  have names : ∀ name ∈ ["addr", "err"], isName name.toList = true := by decide
  refine ⟨fun b hb => ?_, ?_⟩
  · cases hb
    exact ⟨⟨List.cons_ne_nil _ _, names⟩, parse.level⟩
  · exact Expr.isLevel_any (List.cons_ne_nil _ _)
      (List.forall_mem_cons.2 ⟨isLevel_isNotNil isPrimary_errName, hfailures⟩)

theorem isSound_unlisted (enum : check.rule = .enum) : (unlisted check).IsSound := by
  unfold unlisted
  split
  · next items hitems =>
    have takes := h.argument
    rw [hitems] at takes
    cases takes with
    | list _ filled fits =>
      refine Condition.isSound_plain (Expr.isLevel_all (mt List.map_eq_nil_iff.1 filled) ?_)
      intro e he
      obtain ⟨item, hitem, rfl⟩ := List.mem_map.1 he
      have value := Expr.isLevel_literal (fits item hitem).single
      exact (isPrimary_fieldExpr h.path).level.compare value .notEqual
    | scalar other =>
      rw [enum] at other
      cases other
  · exact Condition.isSound_plain (Expr.isPrimary_name (by decide)).level

theorem isSound_condition (pattern : check.rule = .email ∨ check.rule = .uuid →
    isName (patternName record check.rule).toList = true) :
    (condition record check).IsSound := by
  have method (name : String) (hname : isName name.toList = true) :
      (methodOf addr name).IsPrimary :=
    ((Expr.isPrimary_name (by decide)).select hname).call (List.forall_mem_nil _)
  unfold condition
  cases hrule : check.rule with
  | required => exact Condition.isSound_plain (isLevel_zeroTest h hrule)
  | eq | ne | gte | lte | gt | lt => exact isSound_compareField h _ (by rw [hrule]; rfl)
  | length | minLength | maxLength => exact isSound_compareLength h _ (by rw [hrule]; rfl)
  | email => exact isSound_unmatched h (pattern (.inl hrule))
  | uuid => exact isSound_unmatched h (pattern (.inr hrule))
  | ipv4 =>
    exact isSound_unparsed h (List.forall_mem_singleton.2 (method "Is4" (by decide)).not)
  | ipv6 =>
    refine isSound_unparsed h ?_
    have empty : (Expr.literal (some (.text ""))).IsLevel := Expr.isLevel_literal rfl
    have zone := (method "Zone" (by decide)).level.compare empty .notEqual
    exact List.forall_mem_cons.2 ⟨(method "Is6" (by decide)).not, List.forall_mem_singleton.2 zone⟩
  | enum => exact isSound_unlisted h hrule

end

theorem isSound_appendError {e : Expr} (h : e.IsLevel) : (appendError e).IsSound := by
  have errs : (Expr.name "errs").IsLevel := (Expr.isPrimary_name (by decide)).level
  exact .assign (by decide) ((Expr.isPrimary_name (by decide)).call
    (List.forall_mem_cons.2 ⟨errs, List.forall_mem_singleton.2 h⟩)).level

theorem isSound_handOver (h : check.IsWritable) {target : String}
    (delegate : check.delegate = some target) : (handOver target check).IsSound := by
  have validate : (Expr.call (.name (validateName target))
      [.address (fieldExpr check.path)]).IsPrimary :=
    (Expr.isPrimary_name (isName_validateName (h.target target delegate))).call
      (List.forall_mem_singleton.2 (isPrimary_fieldExpr h.path).address)
  have errorf : (Expr.qualified .fmt "Errorf").IsPrimary := Expr.isPrimary_qualified _ (by decide)
  have wrapped := isPrimary_call errorf ("field " ++ check.path.render ++ ": %w")
    (List.forall_mem_singleton.2 isPrimary_errName.level)
  refine .when (fun b hb => ?_) (isLevel_isNotNil isPrimary_errName)
    (List.forall_mem_singleton.2 (isSound_appendError wrapped.level))
  cases hb
  exact ⟨⟨List.cons_ne_nil _ _, List.forall_mem_singleton.2 (by decide)⟩, validate.level⟩

theorem isSound_unguarded (h : check.IsWritable) {sentinel : Option String}
    (pattern : check.delegate = none → check.rule = .email ∨ check.rule = .uuid →
      isName (patternName record check.rule).toList = true)
    (named : check.delegate = none → isName (sentinel.getD "").toList = true) :
    (unguarded record check sentinel).IsSound := by
  unfold unguarded
  cases delegate : check.delegate with
  | some target => exact isSound_handOver h delegate
  | none =>
    have sound := isSound_condition h (pattern delegate)
    have error := isSound_appendError (Expr.isPrimary_name (named delegate)).level
    exact .when sound.binding sound.test (List.forall_mem_singleton.2 error)

theorem isSound_guarded (h : check.IsWritable) {sentinel : Option String}
    (inner : (unguarded record check sentinel).IsSound) :
    (guarded record check sentinel).IsSound := by
  unfold guarded
  simp only
  split
  · exact inner
  · next filled =>
    have ne : check.guards ≠ [] := mt List.isEmpty_iff.2 filled
    have test : (guardTest check.guards).IsLevel := by
      refine Expr.isLevel_all (mt List.map_eq_nil_iff.1 ne) fun e he => ?_
      obtain ⟨guard, hguard, rfl⟩ := List.mem_map.1 he
      exact isLevel_isNotNil (isPrimary_fieldExpr (h.guards guard hguard))
    exact .when Stmt.binds_none test (List.forall_mem_singleton.2 inner)

/-! ### Code of a plan -/

theorem isLevel_newError (text : String) : (newError text).IsLevel := by
  have call : (Expr.call (.qualified .errors "New") [.literal (some (.text text))]).IsPrimary :=
    isPrimary_call (Expr.isPrimary_qualified _ (by decide)) text (List.forall_mem_nil _)
  exact call.level

theorem areSound_record (h : isName record.toList = true) : AreSound [("t", "*" ++ record)] := by
  have pointer : LevelText ("*" ++ record).toList := by
    rw [String.toList_append]
    exact LevelText.mark rfl rfl (levelText_word h)
  have name : isName "t".toList = true := by decide
  exact List.forall_mem_singleton.2 ⟨name, pointer⟩

theorem levelText_error : LevelText "error".toList := levelText_word (by decide)

section

variable (h : plan.IsWritable)

include h

theorem isName_sentinels : ∀ name ∈ (sentinels plan).reduceOption, isName name.toList = true := by
  have names : Names plan.record [nilName plan.record] plan.checks (sentinels plan) :=
    names_sentinelsFrom _ _ _
  exact names.forall (fun check hcheck delegate =>
    isName_sentinelBase h.record ((h.checks check hcheck).error delegate)) fun _ n isName =>
    isName_number isName n

theorem isName_pattern {rule : Rule} (format : rule = .email ∨ rule = .uuid)
    (uses : plan.uses rule = true) : isName (patternName plan.record rule).toList = true := by
  refine isName_patternName (h.patterns ?_)
  rcases format with rfl | rfl
  · rw [uses, Bool.true_or]
  · rw [uses, Bool.or_true]

theorem isSound_check {named : Check × Option String} (hnamed : named ∈ namedChecks plan) :
    (guarded plan.record named.1 named.2).IsSound := by
  obtain ⟨check, sentinel⟩ := named
  obtain ⟨hcheck, hsentinel⟩ := of_mem_namedChecks hnamed
  have writable := h.checks check hcheck
  have names : Names plan.record [nilName plan.record] plan.checks (sentinels plan) :=
    names_sentinelsFrom _ _ _
  refine isSound_guarded writable (isSound_unguarded writable (fun own format => ?_) fun own => ?_)
  · exact isName_pattern h format (uses_iff.2 ⟨check, hcheck, own, rfl⟩)
  · have isSome := (List.forall₂_zip names.isSome_iff hnamed).2 own
    obtain ⟨name, rfl⟩ := Option.isSome_iff_exists.1 isSome
    exact isName_sentinels h name (List.reduceOption_mem_iff.2 hsentinel)

theorem isSound_group : ∀ v ∈ group plan, v.IsSound := by
  have record := noNewline_of_isName h.record
  refine List.forall_mem_cons.2 ⟨?_, fun v hv => ?_⟩
  · have name := isName_nilName h.record
    refine ⟨?_, name, isLevel_newError _⟩
    exact noNewline_append (noNewline_append (noNewline_append (noNewline_of_isName name)
      (by decide)) record) (by decide)
  · obtain ⟨⟨check, sentinel⟩, hnamed, hv⟩ := List.mem_filterMap.1 hv
    obtain ⟨name, rfl, rfl⟩ := Option.map_eq_some_iff.1 hv
    obtain ⟨hcheck, hsentinel⟩ := of_mem_namedChecks hnamed
    have isName := isName_sentinels h name (List.reduceOption_mem_iff.2 hsentinel)
    have rule : '\n' ∉ check.rule.name.toList := by cases check.rule <;> decide
    have path := noNewline_append (noNewline_append (noNewline_of_isName isName)
      (show '\n' ∉ " reports that ".toList by decide)) (h.checks check hcheck).path.noNewline
    refine ⟨?_, isName, isLevel_newError _⟩
    exact noNewline_append (noNewline_append (noNewline_append path (by decide)) rule) (by decide)

theorem isSound_patterns : ∀ entry ∈ patterns plan,
    isName entry.1.toList = true ∧ entry.2.IsLevel := by
  intro entry hentry
  obtain ⟨rule, pattern, format, uses, rfl⟩ := mem_patterns.1 hentry
  have compile : (Expr.call (.qualified .regexp "MustCompile")
      [.literal (some (.text pattern))]).IsPrimary :=
    isPrimary_call (Expr.isPrimary_qualified _ (by decide)) pattern (List.forall_mem_nil _)
  exact ⟨isName_pattern h (format.imp And.left And.left) uses, compile.level⟩

theorem isSound_validateFunction : (validateFunction plan).IsSound := by
  have name := isName_validateName h.record
  have nilError : (Expr.name (nilName plan.record)).IsLevel :=
    (Expr.isPrimary_name (isName_nilName h.record)).level
  have subjectLevel : subject.IsLevel := (Expr.isPrimary_name (by decide)).level
  have errors : LevelText "[]error".toList := by
    have brackets : Lexes ['[', ']'] (fun _ => false) Go.IsLevel := lexes_brackets rfl rfl rfl rfl
    exact brackets.append levelText_error
      (fun _ _ _ _ => rfl) fun _ _ => IsLevel.append
  have join : (Expr.call (.qualified .errors "Join") [.spread (.name "errs")]).IsPrimary :=
    (Expr.isPrimary_qualified _ (by decide)).call
      (List.forall_mem_singleton.2 (Expr.isPrimary_name (by decide)).spread)
  constructor
  case comment =>
    exact noNewline_append (noNewline_append (noNewline_append (noNewline_of_isName name)
      (by decide)) (noNewline_of_isName h.record)) (by decide)
  case receiver => exact List.forall_mem_nil _
  case name => exact name
  case parameters => exact areSound_record h.record
  case result => exact levelText_error
  case body =>
    simp only [validateFunction, List.forall_mem_append, List.forall_mem_cons]
    refine ⟨⟨⟨?_, ?_, ?_⟩, ?_⟩, ?_, ?_⟩
    · exact .when Stmt.binds_none (subjectLevel.compare isLevel_nil .equal)
        (List.forall_mem_singleton.2 (.return nilError))
    · exact .declare (by decide) errors
    · exact List.forall_mem_nil _
    · intro stmt hstmt
      obtain ⟨named, hnamed, rfl⟩ := List.mem_map.1 hstmt
      exact isSound_check h hnamed
    · exact .return join.level
    · exact List.forall_mem_nil _

theorem isSound_validateMethod : (validateMethod plan.record).IsSound := by
  have name : isName "Validate".toList = true := by decide
  have validate : (Expr.call (.name (validateName plan.record)) [subject]).IsPrimary :=
    (Expr.isPrimary_name (isName_validateName h.record)).call
      (List.forall_mem_singleton.2 (Expr.isPrimary_name (by decide)).level)
  constructor
  case comment =>
    exact noNewline_append (noNewline_append (by decide) (noNewline_of_isName h.record)) (by decide)
  case receiver => exact areSound_record h.record
  case name => exact name
  case parameters => exact List.forall_mem_nil _
  case result => exact levelText_error
  case body => exact List.forall_mem_singleton.2 (.return validate.level)

/-- The code for a plan is sound. -/
theorem isSound_codeFile (options : Options) {package source : String} (hpackage : IsWord package)
    (oneLine : '\n' ∉ source.toList) : (codeFile options package source plan).IsSound := by
  constructor
  case header =>
    refine List.forall_mem_cons.2 ⟨by decide, List.forall_mem_singleton.2 ?_⟩
    exact noNewline_append (by decide) oneLine
  case package => exact hpackage
  case group => exact isSound_group h
  case single => exact isSound_patterns h
  case functions =>
    refine List.forall_mem_cons.2 ⟨isSound_validateFunction h, ?_⟩
    split
    · exact List.forall_mem_singleton.2 (isSound_validateMethod h)
    · exact List.forall_mem_nil _

end

end Emission

end FieldRules
