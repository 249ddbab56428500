/-
A validator imports the packages that its code names.

What stands before the dot of a qualified name is a package, unless it is a
variable of the file.  The code that is made for a check names the package of its
rule (`condition_dotted`, `condition_uses`), and these packages are the ones
imported (`mem_imports`).  The one text taken over from the source is the type of a
struct that is compared with its zero value.  Where the struct is anonymous, that
text may name packages, and these are not imported (`compile_imports_missing`).
-/
import FieldRules.CompiledUnit
import FieldRules.Proofs.Naming
import FieldRules.Proofs.Resolution
import FieldRules.Proofs.Trimming

namespace FieldRules
namespace Go

/-! ### Qualified names -/

/-- The qualified names among some tokens: a name with a dot and a name behind it, and no dot before
it. -/
def qualifiedIn : Option Token → List Token → List (String × String)
  | _, [] => []
  | previous, t :: ts =>
    (match t, ts with
      | .identifier package, .dot :: .identifier name :: _ =>
        if previous = some .dot then [] else [(package, name)]
      | _, _ => []) ++ qualifiedIn (some t) ts

/-- The qualified names in the text of a type. -/
def typeNames (type : String) : List (String × String) :=
  match lex type.toList with
  | .ok lexemes => qualifiedIn none ((lexemes.map (·.token)).filter (!·.isTrivia))
  | .error _ => []

namespace Expr

mutual

/-- What stands before the dots of an expression, with what stands behind them. -/
def dotted : Expr → List (String × String)
  | .name _ => []
  | .qualified package member => [(package.baseName, member)]
  | .select (.name operand) field => [(operand, field)]
  | .select operand _ => operand.dotted
  | .literal _ => []
  | .call function arguments => function.dotted ++ dottedList arguments
  | .spread operand => operand.dotted
  | .address operand => operand.dotted
  | .not operand => operand.dotted
  | .compare _ left right => left.dotted ++ right.dotted
  | .all operands => dottedList operands
  | .any operands => dottedList operands
  | .zeroOf type => typeNames type

def dottedList : List Expr → List (String × String)
  | [] => []
  | e :: es => e.dotted ++ dottedList es

end

end Expr

namespace Stmt

mutual

def dotted : Stmt → List (String × String)
  | .declare _ type => typeNames type
  | .assign _ value => value.dotted
  | .return value => value.dotted
  | .when binding condition body =>
    (binding.map (·.2.dotted)).getD [] ++ condition.dotted ++ dottedList body

def dottedList : List Stmt → List (String × String)
  | [] => []
  | stmt :: stmts => stmt.dotted ++ dottedList stmts

end

mutual

/-- The variables that a statement declares. -/
def declared : Stmt → List String
  | .declare name _ => [name]
  | .assign _ _ => []
  | .return _ => []
  | .when binding _ body => (binding.map (·.1)).getD [] ++ declaredList body

def declaredList : List Stmt → List String
  | [] => []
  | stmt :: stmts => stmt.declared ++ declaredList stmts

end

end Stmt

namespace Function

/-- The receiver, where there is one, and the parameters. -/
def inputs (f : Function) : List (String × String) := f.receiver.toList ++ f.parameters

def dotted (f : Function) : List (String × String) :=
  f.inputs.flatMap (typeNames ·.2) ++ typeNames f.result ++ Stmt.dottedList f.body

def declared (f : Function) : List String := f.inputs.map (·.1) ++ Stmt.declaredList f.body

end Function

namespace CodeFile

def dotted (file : CodeFile) : List (String × String) :=
  file.group.flatMap (·.value.dotted) ++ file.single.flatMap (·.2.dotted) ++
    file.functions.flatMap Function.dotted

/-- The variables of a file, those of its functions included. -/
def declared (file : CodeFile) : List String :=
  file.group.map (·.name) ++ file.single.map (·.1) ++ file.functions.flatMap Function.declared

end CodeFile

/-! ### Types without qualified names -/

theorem qualifiedIn_of_noDot {previous : Option Token} {ts : List Token} (h : Token.dot ∉ ts) :
    qualifiedIn previous ts = [] := by
  induction ts generalizing previous with
  | nil => rfl
  | cons t ts ih =>
    unfold qualifiedIn
    rw [ih (fun found => h (List.mem_cons_of_mem _ found)), List.append_nil]
    split
    · exact absurd (List.mem_cons_of_mem _ List.mem_cons_self) h
    · rfl

theorem Scans.dot_text {token : Token} {text rest : List Char} (h : Scans token text rest)
    (isDot : token = .dot) : text = ['.'] := by
  have noWord (cs : List Char) : Token.ofWord cs ≠ .dot := by
    unfold Token.ofWord
    split <;> exact nofun
  cases h with
  | dot => rfl
  | mark h =>
    unfold mark? at h
    subst isDot
    split at h <;> cases h
  | operator =>
    unfold operatorToken at isDot
    split at isDot
    · cases isDot
    · split at isDot <;> cases isDot
  | word => exact absurd isDot (noWord _)
  | _ => cases isDot

theorem Lexed.text_subset {spot : Spot} {cs : List Char} {ls : List Lexeme}
    (h : Lexed spot cs ls) : ∀ l ∈ ls, l.text ⊆ cs := by
  induction h with
  | done => exact fun l hl => nomatch hl
  | @next spot gap more c scanned ls _ _ hscan _ ih =>
    have split := (scan_heads hscan).append_rest
    rw [← split]
    intro l hl
    rcases List.mem_cons.1 hl with rfl | hl
    · exact fun e he => List.mem_append_right _ (List.mem_append_left _ he)
    · exact fun e he => List.mem_append_right _ (List.mem_append_right _ (ih l hl he))

theorem noDot_of_isName {cs : List Char} (h : isName cs = true) : '.' ∉ cs := by
  unfold isName at h
  split at h
  · cases h
  · next c cs =>
    simp only [Bool.and_eq_true, List.all_eq_true] at h
    intro found
    rcases List.mem_cons.1 found with rfl | found
    · have starts : startsName '.' = true := h.1
      revert starts
      decide +kernel
    · have goes := h.2 '.' found
      revert goes
      decide +kernel

theorem typeNames_of_noDot {type : String} (h : '.' ∉ type.toList) : typeNames type = [] := by
  unfold typeNames
  split
  · next lexemes hlex =>
    apply qualifiedIn_of_noDot
    intro found
    obtain ⟨l, hl, token⟩ := List.mem_map.1 (List.mem_filter.1 found).1
    have lexed := lex_lexed hlex
    obtain ⟨-, rest, scans⟩ := lexed.isScanned l hl
    have text : l.text = ['.'] := scans.dot_text token
    exact h (lexed.text_subset l hl (text ▸ List.mem_cons_self))
  · rfl

theorem Expr.dottedList_eq (es : List Expr) : Expr.dottedList es = es.flatMap Expr.dotted := by
  induction es with
  | nil => rfl
  | cons e es ih => rw [Expr.dottedList, ih, List.flatMap_cons]

theorem Stmt.dottedList_eq (stmts : List Stmt) :
    Stmt.dottedList stmts = stmts.flatMap Stmt.dotted := by
  induction stmts with
  | nil => rfl
  | cons stmt stmts ih => rw [Stmt.dottedList, ih, List.flatMap_cons]

theorem Stmt.declaredList_eq (stmts : List Stmt) :
    Stmt.declaredList stmts = stmts.flatMap Stmt.declared := by
  induction stmts with
  | nil => rfl
  | cons stmt stmts ih => rw [Stmt.declaredList, ih, List.flatMap_cons]

/-- A selection names what it selects from, or what that names. -/
theorem Expr.dotted_select {e : Expr} {field : String} {n : String × String}
    (h : n ∈ (Expr.select e field).dotted) : e = .name n.1 ∨ n ∈ e.dotted := by
  cases e with
  | name operand =>
    rw [Expr.dotted, List.mem_singleton] at h
    exact .inl (by rw [h])
  | _ => exact .inr h

end Go

namespace Emission

open Go

variable {plan : Plan} {check : Check} {n : String × String}

/-! ### Packages of rules -/

/-- The package that the code for a rule needs. -/
def packageOf? : Rule → Option Package
  | .length => some .utf8
  | .minLength => some .utf8
  | .maxLength => some .utf8
  | .email => some .regexp
  | .uuid => some .regexp
  | .ipv4 => some .netip
  | .ipv6 => some .netip
  | _ => none

theorem uses_iff {rule : Rule} :
    plan.uses rule = true ↔ ∃ check ∈ plan.checks, check.delegate = none ∧ check.rule = rule := by
  simp [Plan.uses, and_comm]

theorem mem_imports {package : Package} :
    package ∈ imports plan ↔ package = .errors ∨
      (package = .fmt ∧ plan.delegates = true) ∨
      ∃ check ∈ plan.checks, check.delegate = none ∧ packageOf? check.rule = some package := by
  have listed : package ∈ Package.all := by cases package <;> decide
  have netip (rule : Rule) : packageOf? rule = some .netip ↔ rule = .ipv4 ∨ rule = .ipv6 := by
    cases rule <;> simp [packageOf?]
  have regexp (rule : Rule) : packageOf? rule = some .regexp ↔ rule = .email ∨ rule = .uuid := by
    cases rule <;> simp [packageOf?]
  have utf8 (rule : Rule) : packageOf? rule = some .utf8 ↔
      rule = .length ∨ rule = .minLength ∨ rule = .maxLength := by
    cases rule <;> simp [packageOf?]
  have fmt (rule : Rule) : packageOf? rule ≠ some .fmt := by cases rule <;> simp [packageOf?]
  unfold imports
  rw [List.mem_filter, and_iff_right listed]
  cases package with
  | errors => simp
  | fmt => simp [fmt]
  | netip => simp [netip, uses_iff, and_or_left, exists_or]
  | regexp => simp [regexp, uses_iff, and_or_left, exists_or]
  | utf8 => simp [utf8, uses_iff, and_or_left, exists_or, or_assoc]

/-! ### Names in the code of a check -/

theorem fieldExpr_dotted {path : FieldPath} (h : n ∈ (fieldExpr path).dotted) : n.1 = "t" := by
  have select (names : List String) (e : Expr) (name : ∀ p, e = .name p → p = "t")
      (inner : ∀ m ∈ e.dotted, m.1 = "t") :
      ∀ m ∈ (names.foldl Expr.select e).dotted, m.1 = "t" := by
    induction names generalizing e with
    | nil => exact inner
    | cons field names ih =>
      apply ih
      · intro p isName
        cases isName
      · intro m hm
        rcases Expr.dotted_select hm with named | hm
        · exact name m.1 named
        · exact inner m hm
  apply select path.segments subject
  · intro p isName
    cases isName
    rfl
  · intro m hm
    cases hm
  · exact h

theorem textExpr_dotted (h : n ∈ (textExpr check).dotted) : n.1 = "t" := by
  unfold textExpr at h
  split at h
  · exact fieldExpr_dotted h
  · simp only [Expr.dotted, Expr.dottedList, List.append_nil, List.nil_append] at h
    exact fieldExpr_dotted h

theorem guardTest_dotted {guards : List FieldPath} (h : n ∈ (guardTest guards).dotted) :
    n.1 = "t" := by
  simp only [guardTest, Expr.dotted, Expr.dottedList_eq, List.mem_flatMap, List.mem_map] at h
  obtain ⟨e, ⟨guard, -, rfl⟩, h⟩ := h
  simp only [isNotNil, nil, Expr.dotted, List.append_nil] at h
  exact fieldExpr_dotted h

theorem zeroTest_dotted (h : n ∈ (zeroTest check).dotted) :
    n.1 = "t" ∨ ∃ owner comparable, check.kind = .record owner comparable ∧
      n ∈ typeNames check.goType := by
  unfold zeroTest at h
  cases hkind : check.kind with
  | record owner comparable =>
    simp only [hkind, Expr.dotted, List.mem_append] at h
    rcases h with h | h
    · exact .inl (fieldExpr_dotted h)
    · exact .inr ⟨owner, comparable, rfl, h⟩
  | _ =>
    simp only [hkind, nil, Expr.dotted, List.append_nil] at h
    exact .inl (fieldExpr_dotted h)

namespace Condition

def dotted (c : Condition) : List (String × String) :=
  (c.binding.map (·.2.dotted)).getD [] ++ c.test.dotted

def declared (c : Condition) : List String := (c.binding.map (·.1)).getD []

@[simp] theorem plain_dotted (test : Expr) : (plain test).dotted = test.dotted := rfl

end Condition

theorem compareField_dotted {comparison : Comparison}
    (h : n ∈ (compareField comparison check).dotted) : n.1 = "t" := by
  simp only [compareField, Condition.plain_dotted, Expr.dotted, List.append_nil] at h
  exact fieldExpr_dotted h

theorem compareLength_dotted {comparison : Comparison}
    (h : n ∈ (compareLength comparison check).dotted) : n.1 = "t" ∨ n.1 = "utf8" := by
  simp only [compareLength, Condition.plain_dotted, Expr.dotted, Expr.dottedList, List.append_nil,
    List.mem_append, List.mem_singleton] at h
  rcases h with rfl | h
  · exact .inr rfl
  · exact .inl (textExpr_dotted h)

theorem unmatched_dotted {record : String} (h : n ∈ (unmatched record check).dotted) :
    n.1 = "t" ∨ n.1 = patternName record check.rule := by
  simp only [unmatched, Condition.plain_dotted, Expr.dotted, Expr.dottedList, List.append_nil,
    List.mem_append, List.mem_singleton] at h
  rcases h with rfl | h
  · exact .inr rfl
  · exact .inl (textExpr_dotted h)

theorem unparsedAddress_dotted {failures : List Expr}
    (h : n ∈ (unparsedAddress check failures).dotted) :
    n.1 = "t" ∨ n.1 = "netip" ∨ n ∈ Expr.dottedList failures := by
  simp only [unparsedAddress, isNotNil, errName, nil, Condition.dotted, Option.map_some,
    Option.getD_some, Expr.dotted, Expr.dottedList, List.append_nil, List.nil_append,
    List.mem_append, List.mem_singleton] at h
  rcases h with (rfl | h) | h
  · exact .inr (.inl rfl)
  · exact .inl (textExpr_dotted h)
  · exact .inr (.inr h)

theorem unlisted_dotted (h : n ∈ (unlisted check).dotted) : n.1 = "t" := by
  unfold unlisted at h
  split at h
  · simp only [Condition.plain_dotted, Expr.dotted, Expr.dottedList_eq, List.mem_flatMap,
      List.mem_map] at h
    obtain ⟨e, ⟨item, -, rfl⟩, h⟩ := h
    simp only [Expr.dotted, List.append_nil] at h
    exact fieldExpr_dotted h
  · cases h

/-- What stands before a dot in the condition of a check. -/
theorem condition_dotted {record : String} (h : n ∈ (condition record check).dotted) :
    n.1 = "t" ∨ n.1 ∈ (condition record check).declared ∨
      ((check.rule = .email ∨ check.rule = .uuid) ∧ n.1 = patternName record check.rule) ∨
      (∃ package, packageOf? check.rule = some package ∧ n.1 = package.baseName) ∨
      (check.rule = .required ∧ ∃ owner comparable, check.kind = .record owner comparable ∧
        n ∈ typeNames check.goType) := by
  unfold condition at h ⊢
  cases hrule : check.rule with
  | required =>
    simp only [hrule, Condition.plain_dotted] at h
    rcases zeroTest_dotted h with here | record
    · exact .inl here
    · exact .inr (.inr (.inr (.inr ⟨rfl, record⟩)))
  | eq | ne | gte | lte | gt | lt =>
    simp only [hrule] at h
    exact .inl (compareField_dotted h)
  | length | minLength | maxLength =>
    simp only [hrule] at h
    rcases compareLength_dotted h with here | counts
    · exact .inl here
    · exact .inr (.inr (.inr (.inl ⟨.utf8, rfl, counts⟩)))
  | email | uuid =>
    simp only [hrule] at h
    rcases unmatched_dotted h with here | pattern
    · exact .inl here
    · rw [hrule] at pattern
      exact .inr (.inr (.inl ⟨by simp, pattern⟩))
  | ipv4 | ipv6 =>
    simp only [hrule] at h
    rcases unparsedAddress_dotted h with here | parses | methods
    · exact .inl here
    · exact .inr (.inr (.inr (.inl ⟨.netip, rfl, parses⟩)))
    · have method : n.1 = "addr" := by
        simp only [Expr.dottedList, Expr.dotted, methodOf, addr, List.append_nil, List.mem_append,
          List.mem_singleton] at methods
        rcases methods with rfl | rfl <;> rfl
      exact .inr (.inl (method ▸ List.mem_cons_self))
  | enum =>
    simp only [hrule] at h
    exact .inl (unlisted_dotted h)

/-- What may stand before a dot in the code for a check: the record, what a statement declares
beside it, a pattern, a package, or a package in the type of the field. -/
def IsNamed (plan : Plan) (check : Check) (declared : List String) (n : String × String) : Prop :=
  n.1 = "t" ∨ n.1 ∈ declared ∨ n.1 ∈ (patterns plan).map (·.1) ∨
    (∃ package ∈ imports plan, package.baseName = n.1) ∨
    (check.rule = .required ∧ check.delegate = none ∧ ∃ owner comparable,
      check.kind = .record owner comparable ∧ n ∈ typeNames check.goType)

theorem handOver_dotted (hcheck : check ∈ plan.checks) {target : String}
    (handsOver : check.delegate = some target) (h : n ∈ (handOver target check).dotted) :
    IsNamed plan check (handOver target check).declared n := by
  have imported : Package.fmt ∈ imports plan :=
    mem_imports.2 (.inr (.inl ⟨rfl, List.any_eq_true.2 ⟨check, hcheck, by simp [handsOver]⟩⟩))
  simp only [handOver, appendError, isNotNil, errName, nil, Stmt.dotted, Stmt.dottedList,
    Option.map_some, Option.getD_some, Expr.dotted, Expr.dottedList, List.append_nil,
    List.nil_append, List.mem_append, List.mem_singleton] at h
  rcases h with h | rfl
  · exact .inl (fieldExpr_dotted h)
  · exact .inr (.inr (.inr (.inl ⟨.fmt, imported, rfl⟩)))

theorem unguarded_dotted (hcheck : check ∈ plan.checks) {name : Option String}
    (h : n ∈ (unguarded plan.record check name).dotted) :
    IsNamed plan check (unguarded plan.record check name).declared n := by
  unfold unguarded at h ⊢
  cases handsOver : check.delegate with
  | some target =>
    rw [handsOver] at h
    exact handOver_dotted hcheck handsOver h
  | none =>
    rw [handsOver] at h
    simp only [appendError, Stmt.dotted, Stmt.dottedList, Expr.dotted, Expr.dottedList,
      List.append_nil] at h
    rcases condition_dotted h with here | here | ⟨format, pattern⟩ | ⟨package, needs, here⟩ | here
    · exact .inl here
    · exact .inr (.inl (List.mem_append_left _ here))
    · refine .inr (.inr (.inl ?_))
      have uses : plan.uses check.rule = true := uses_iff.2 ⟨check, hcheck, handsOver, rfl⟩
      rw [pattern]
      rcases format with rule | rule
      · exact List.mem_map.2 ⟨_, mem_patterns.2 ⟨_, _, .inl ⟨rule, rfl⟩, uses, rfl⟩, rfl⟩
      · exact List.mem_map.2 ⟨_, mem_patterns.2 ⟨_, _, .inr ⟨rule, rfl⟩, uses, rfl⟩, rfl⟩
    · have imported : package ∈ imports plan :=
        mem_imports.2 (.inr (.inr ⟨check, hcheck, handsOver, needs⟩))
      exact .inr (.inr (.inr (.inl ⟨package, imported, here.symm⟩)))
    · exact .inr (.inr (.inr (.inr ⟨here.1, handsOver, here.2⟩)))

theorem guarded_dotted (hcheck : check ∈ plan.checks) {name : Option String}
    (h : n ∈ (guarded plan.record check name).dotted) :
    IsNamed plan check (guarded plan.record check name).declared n := by
  unfold guarded at h ⊢
  simp only at h ⊢
  by_cases bare : check.guards.isEmpty = true
  · rw [if_pos bare] at h ⊢
    exact unguarded_dotted hcheck h
  · rw [if_neg bare] at h ⊢
    simp only [Stmt.dotted, Stmt.dottedList, Option.map_none, Option.getD_none, List.nil_append,
      List.append_nil, List.mem_append] at h
    rcases h with h | h
    · exact .inl (guardTest_dotted h)
    · simpa [Stmt.declared, Stmt.declaredList] using unguarded_dotted hcheck h

/-! ### Names in a file -/

theorem length_sentinelsFrom (record : String) (taken : List String) (checks : List Check) :
    (sentinelsFrom record taken checks).length = checks.length := by
  induction checks generalizing taken with
  | nil => rfl
  | cons check checks ih =>
    unfold sentinelsFrom
    split
    · simp [ih]
    · simp [ih]

theorem mem_namedChecks (hcheck : check ∈ plan.checks) :
    ∃ name, (check, name) ∈ namedChecks plan := by
  have same : plan.checks.length ≤ (sentinels plan).length :=
    Nat.le_of_eq (length_sentinelsFrom _ _ _).symm
  have all := List.map_fst_zip same
  have found : check ∈ (namedChecks plan).map Prod.fst := by
    rw [show (namedChecks plan).map Prod.fst = plan.checks from all]
    exact hcheck
  obtain ⟨⟨_, name⟩, hnamed, rfl⟩ := List.mem_map.1 found
  exact ⟨name, hnamed⟩

theorem of_mem_namedChecks {named : Check × Option String} (h : named ∈ namedChecks plan) :
    named.1 ∈ plan.checks ∧ named.2 ∈ sentinels plan :=
  List.of_mem_zip h

theorem freeName_extends (taken : List String) (base : String) :
    ∃ more, freeName taken base = base ++ more := by
  have numbers (fuel start : Nat) : ∃ more, numbered taken base fuel start = base ++ more := by
    induction fuel generalizing start with
    | zero => exact ⟨_, rfl⟩
    | succ fuel ih =>
      unfold numbered
      simp only
      split
      · exact ih (start + 1)
      · exact ⟨_, rfl⟩
  unfold freeName
  split
  · exact numbers _ _
  · exact ⟨"", (String.append_empty).symm⟩

/-- Names of error variables start with a capital. -/
theorem sentinelsFrom_capital {record : String} {taken : List String} {checks : List Check}
    {name : String} (h : some name ∈ sentinelsFrom record taken checks) :
    name.toList.head? = some 'E' := by
  induction checks generalizing taken with
  | nil => cases h
  | cons check checks ih =>
    unfold sentinelsFrom at h
    split at h
    · rcases List.mem_cons.1 h with h | h
      · cases h
      · exact ih h
    · rcases List.mem_cons.1 h with h | h
      · obtain ⟨more, hmore⟩ := freeName_extends taken (sentinelBase record check)
        rw [Option.some.inj h, hmore]
        simp [sentinelBase]
      · exact ih h

theorem group_capital {v : Variable} (h : v ∈ group plan) : v.name.toList.head? = some 'E' := by
  unfold group at h
  rcases List.mem_cons.1 h with rfl | h
  · simp [nilSentinel, nilName]
  · obtain ⟨⟨check, name⟩, hnamed, h⟩ := List.mem_filterMap.1 h
    obtain ⟨given, rfl, rfl⟩ := Option.map_eq_some_iff.1 h
    exact sentinelsFrom_capital (of_mem_namedChecks hnamed).2

theorem condition_declared {record name : String}
    (h : name ∈ (condition record check).declared) : name = "addr" ∨ name = "err" := by
  have parsed {failures : List Expr} (h : name ∈ (unparsedAddress check failures).declared) :
      name = "addr" ∨ name = "err" := by
    simpa [unparsedAddress, Condition.declared] using h
  unfold condition at h
  cases hrule : check.rule with
  | ipv4 | ipv6 =>
    simp only [hrule] at h
    exact parsed h
  | enum =>
    simp only [hrule, unlisted] at h
    split at h <;> cases h
  | _ =>
    simp only [hrule] at h
    cases h

theorem guarded_declared {record name : String} {sentinel : Option String}
    (h : name ∈ (guarded record check sentinel).declared) : name = "addr" ∨ name = "err" := by
  have inner (h : name ∈ (unguarded record check sentinel).declared) :
      name = "addr" ∨ name = "err" := by
    unfold unguarded at h
    split at h
    · right
      simpa [handOver, appendError, Stmt.declared, Stmt.declaredList] using h
    · simp only [appendError, Stmt.declared, Stmt.declaredList, List.append_nil] at h
      exact condition_declared h
  unfold guarded at h
  simp only at h
  split at h
  · exact inner h
  · simp only [Stmt.declared, Stmt.declaredList, Option.map_none, Option.getD_none,
      List.nil_append, List.append_nil] at h
    exact inner h

theorem validateFunction_declared (plan : Plan) : (validateFunction plan).declared =
    "t" :: "errs" :: (namedChecks plan).flatMap fun (check, name) =>
      (guarded plan.record check name).declared := by
  simp only [Function.declared, Function.inputs, validateFunction, Stmt.declaredList_eq,
    List.flatMap_append, List.flatMap_map]
  simp [Stmt.declared, Stmt.declaredList]

theorem validateMethod_declared (record : String) : (validateMethod record).declared = ["t"] :=
  rfl

/-- The variables of the functions. -/
theorem functions_declared {options : Options} {package source name : String} {f : Function}
    (hf : f ∈ (codeFile options package source plan).functions) (h : name ∈ f.declared) :
    name ∈ ["t", "errs", "addr", "err"] := by
  unfold codeFile at hf
  rcases List.mem_cons.1 hf with hf | hf
  · rw [hf, validateFunction_declared] at h
    rcases List.mem_cons.1 h with rfl | h
    · decide
    · rcases List.mem_cons.1 h with rfl | h
      · decide
      · obtain ⟨named, -, h⟩ := List.mem_flatMap.1 h
        rcases guarded_declared h with rfl | rfl
        · decide
        · decide
  · split at hf
    · rw [List.mem_singleton.1 hf, validateMethod_declared, List.mem_singleton] at h
      rw [h]
      decide
    · cases hf

/-- No variable has the name of a package. -/
theorem package_not_declared {options : Options} {name source : String} (package : Package) :
    package.baseName ∉ (codeFile options name source plan).declared := by
  have start : package.baseName.toList.head? ≠ some 'E' := by
    cases package <;> decide
  have short : package.baseName.toList.length ≤ 6 := by
    cases package <;> decide
  have other : package.baseName ∉ ["t", "errs", "addr", "err"] := by
    cases package <;> decide
  intro h
  rcases List.mem_append.1 h with h | h
  · rcases List.mem_append.1 h with h | h
    · obtain ⟨v, hv, same⟩ := List.mem_map.1 h
      exact start (same ▸ group_capital hv)
    · obtain ⟨v, hv, same⟩ := List.mem_map.1 h
      obtain ⟨rule, pattern, -, -, rfl⟩ := mem_patterns.1 hv
      have long := congrArg (fun s : String => s.toList.length) same
      simp only [patternName_toList, List.length_append] at long
      split at long
      · simp at long
        omega
      · simp at long
        omega
  · obtain ⟨f, hf, h⟩ := List.mem_flatMap.1 h
    exact other (functions_declared hf h)

theorem typeNames_pointer {record : String} (hname : isName record.toList = true) :
    typeNames ("*" ++ record) = [] := by
  apply typeNames_of_noDot
  rw [String.toList_append, List.mem_append, not_or]
  exact ⟨by decide, noDot_of_isName hname⟩

theorem validateFunction_dotted (hname : isName plan.record.toList = true) :
    (validateFunction plan).dotted =
      ((namedChecks plan).flatMap fun (check, name) =>
        (guarded plan.record check name).dotted) ++ [("errors", "Join")] := by
  have error : typeNames "error" = [] := typeNames_of_noDot (by decide)
  have errors : typeNames "[]error" = [] := typeNames_of_noDot (by decide)
  simp only [Function.dotted, Function.inputs, validateFunction, Stmt.dottedList_eq,
    List.flatMap_append, List.flatMap_map, Option.toList_none, List.nil_append,
    List.flatMap_singleton, typeNames_pointer hname, error]
  simp [Stmt.dotted, Stmt.dottedList, Expr.dotted, Expr.dottedList, subject, nil, errors,
    Package.baseName]

theorem validateMethod_dotted {record : String} (hname : isName record.toList = true) :
    (validateMethod record).dotted = [] := by
  have error : typeNames "error" = [] := typeNames_of_noDot (by decide)
  show typeNames ("*" ++ record) ++ [] ++ typeNames "error" ++ [] = []
  rw [typeNames_pointer hname, error]
  rfl

theorem group_dotted {v : Variable} (hv : v ∈ group plan) :
    v.value.dotted = [("errors", "New")] := by
  unfold group at hv
  rcases List.mem_cons.1 hv with rfl | hv
  · rfl
  · obtain ⟨⟨check, name⟩, -, hv⟩ := List.mem_filterMap.1 hv
    obtain ⟨given, -, rfl⟩ := Option.map_eq_some_iff.1 hv
    rfl

section

variable {options : Options} {package source : String}

/-- What stands before a dot in the file for a plan. -/
theorem codeFile_dotted (hname : isName plan.record.toList = true)
    (h : n ∈ (codeFile options package source plan).dotted) :
    n.1 ∈ (codeFile options package source plan).declared ∨
      (∃ package ∈ imports plan, package.baseName = n.1) ∨
      ∃ check ∈ plan.checks, check.rule = .required ∧ check.delegate = none ∧
        ∃ owner comparable, check.kind = .record owner comparable ∧ n ∈ typeNames check.goType := by
  have errors : Package.errors ∈ imports plan := mem_imports.2 (.inl rfl)
  have inFunction {name : String} (found : name ∈ (validateFunction plan).declared) :
      name ∈ (codeFile options package source plan).declared :=
    List.mem_append_right _ (List.mem_flatMap.2 ⟨_, List.mem_cons_self, found⟩)
  rcases List.mem_append.1 h with h | h
  · rcases List.mem_append.1 h with h | h
    · obtain ⟨v, hv, h⟩ := List.mem_flatMap.1 h
      rw [group_dotted hv, List.mem_singleton] at h
      exact .inr (.inl ⟨.errors, errors, by rw [h]; rfl⟩)
    · obtain ⟨v, hv, h⟩ := List.mem_flatMap.1 h
      obtain ⟨rule, pattern, hrule, uses, rfl⟩ := mem_patterns.1 hv
      rw [show Expr.dotted _ = [("regexp", "MustCompile")] from rfl, List.mem_singleton] at h
      obtain ⟨check, hcheck, own, made⟩ := uses_iff.1 uses
      have needs : packageOf? check.rule = some .regexp := by
        rw [made]
        rcases hrule with ⟨rfl, -⟩ | ⟨rfl, -⟩ <;> rfl
      exact .inr (.inl ⟨.regexp, mem_imports.2 (.inr (.inr ⟨check, hcheck, own, needs⟩)),
        by rw [h]; rfl⟩)
  · obtain ⟨f, hf, h⟩ := List.mem_flatMap.1 h
    unfold codeFile at hf
    rcases List.mem_cons.1 hf with hf | hf
    · rw [hf, validateFunction_dotted hname] at h
      rcases List.mem_append.1 h with h | h
      · obtain ⟨⟨check, name⟩, hnamed, h⟩ := List.mem_flatMap.1 h
        have hcheck := (of_mem_namedChecks hnamed).1
        rcases guarded_dotted hcheck h with here | inside | pattern | imported | ofField
        · refine .inl (inFunction ?_)
          rw [validateFunction_declared, here]
          exact List.mem_cons_self
        · refine .inl (inFunction ?_)
          rw [validateFunction_declared]
          exact List.mem_cons_of_mem _ (List.mem_cons_of_mem _
            (List.mem_flatMap.2 ⟨_, hnamed, inside⟩))
        · exact .inl (List.mem_append_left _ (List.mem_append_right _ pattern))
        · exact .inr (.inl imported)
        · exact .inr (.inr ⟨check, hcheck, ofField⟩)
      · rw [List.mem_singleton] at h
        exact .inr (.inl ⟨.errors, errors, by rw [h]; rfl⟩)
    · split at hf
      · rw [List.mem_singleton.1 hf, validateMethod_dotted hname] at h
        cases h
      · cases hf

/-- The code for a check that is made here names the package of its rule. -/
theorem condition_uses (record : String) {needed : Package}
    (needs : packageOf? check.rule = some needed) (other : needed ≠ .regexp) :
    ∃ n ∈ (condition record check).dotted, n.1 = needed.baseName := by
  unfold condition
  cases hrule : check.rule with
  | length | minLength | maxLength =>
    rw [hrule] at needs
    cases needs
    exact ⟨("utf8", "RuneCountInString"), by
      simp [compareLength, Condition.plain, Condition.dotted, Expr.dotted, Package.baseName], rfl⟩
  | ipv4 | ipv6 =>
    rw [hrule] at needs
    cases needs
    exact ⟨("netip", "ParseAddr"), by
      simp [unparsedAddress, Condition.dotted, Expr.dotted, Package.baseName], rfl⟩
  | email | uuid =>
    rw [hrule] at needs
    cases needs
    exact absurd rfl other
  | _ =>
    rw [hrule] at needs
    cases needs

theorem guarded_uses {record : String} {name : Option String}
    (h : n ∈ (unguarded record check name).dotted) : n ∈ (guarded record check name).dotted := by
  unfold guarded
  simp only
  split
  · exact h
  · simp [Stmt.dotted, Stmt.dottedList, h]

/-- Every package that is imported is named. -/
theorem codeFile_uses (hname : isName plan.record.toList = true) {needed : Package}
    (h : needed ∈ imports plan) :
    ∃ n ∈ (codeFile options package source plan).dotted, n.1 = needed.baseName := by
  have function {n : String × String} (found : n ∈ (validateFunction plan).dotted) :
      n ∈ (codeFile options package source plan).dotted :=
    List.mem_append_right _ (List.mem_flatMap.2 ⟨_, List.mem_cons_self, found⟩)
  have code {check : Check} (hcheck : check ∈ plan.checks)
      (uses : ∀ name, ∃ n ∈ (unguarded plan.record check name).dotted, n.1 = needed.baseName) :
      ∃ n ∈ (codeFile options package source plan).dotted, n.1 = needed.baseName := by
    obtain ⟨name, hnamed⟩ := mem_namedChecks hcheck
    obtain ⟨n, hn, same⟩ := uses name
    refine ⟨n, function ?_, same⟩
    rw [validateFunction_dotted hname]
    exact List.mem_append_left _ (List.mem_flatMap.2 ⟨_, hnamed, guarded_uses hn⟩)
  rcases mem_imports.1 h with rfl | ⟨rfl, delegates⟩ | ⟨check, hcheck, own, needs⟩
  · refine ⟨("errors", "Join"), function ?_, rfl⟩
    rw [validateFunction_dotted hname]
    exact List.mem_append_right _ List.mem_cons_self
  · obtain ⟨check, hcheck, handsOver⟩ := List.any_eq_true.1 delegates
    obtain ⟨target, handsOver⟩ := Option.isSome_iff_exists.1 handsOver
    refine code hcheck fun name => ⟨("fmt", "Errorf"), ?_, rfl⟩
    unfold unguarded
    rw [handsOver]
    simp [handOver, appendError, Stmt.dotted, Stmt.dottedList, Expr.dotted, Expr.dottedList,
      Package.baseName]
  · by_cases other : needed = .regexp
    · subst other
      have uses : plan.uses check.rule = true := uses_iff.2 ⟨check, hcheck, own, rfl⟩
      have held {rule : Rule} {pattern : String} (hrule : rule = .email ∧
          pattern = Format.emailPattern ∨ rule = .uuid ∧ pattern = Format.uuidPattern)
          (uses : plan.uses rule = true) :
          ("regexp", "MustCompile") ∈ (codeFile options package source plan).dotted :=
        List.mem_append_left _ (List.mem_append_right _ (List.mem_flatMap.2
          ⟨_, mem_patterns.2 ⟨rule, pattern, hrule, uses, rfl⟩, List.mem_cons_self⟩))
      refine ⟨("regexp", "MustCompile"), ?_, rfl⟩
      cases hrule : check.rule with
      | email => exact held (.inl ⟨rfl, rfl⟩) (hrule ▸ uses)
      | uuid => exact held (.inr ⟨rfl, rfl⟩) (hrule ▸ uses)
      | _ =>
        rw [hrule] at needs
        cases needs
    · refine code hcheck fun name => ?_
      obtain ⟨n, hn, same⟩ := condition_uses plan.record needs other
      refine ⟨n, ?_, same⟩
      unfold unguarded
      rw [own]
      exact List.mem_append_left _ hn

end

end Emission

/-! ### Types that are compared -/

theorem Go.StandsFor.declaration {decls : List Go.TypeDecl} {name : String}
    {owner : Option String} {fields : List Go.Field}
    (h : StandsFor decls (.named name) owner fields) :
    ∃ decl, Kind.declaration? decls name = some decl := by
  cases h with
  | declared hdecl => exact ⟨_, hdecl⟩
  | aliased hdecl => exact ⟨_, hdecl⟩
  | anew hdecl => exact ⟨_, hdecl⟩

namespace Plan

open Go

theorem checkOf_not_never {decls : List TypeDecl} {occurrence : Occurrence} {marker : Marker}
    {check : Check} (h : checkOf decls occurrence marker = .ok check) :
    neverRequired check.rule check.kind = false := by
  unfold checkOf at h
  split at h
  · cases h
  · simp only at h
    split at h
    · cases h
    · next admitted =>
      split at h
      · cases h
      · cases h
        simpa using (not_or.1 (mt Bool.or_eq_true_iff.2 admitted)).2

/-- Where a check of a plan comes from: an occurrence of a marker, the path and the type of which it
has, and the kind of which does not rule it out. -/
theorem ofFile_occurrence {file : SourceFile} {plan : Plan} (hplan : plan ∈ (ofFile file).1)
    {check : Check} (hcheck : check ∈ plan.checks) :
    ∃ decl ∈ file.decls, decl.name = plan.record ∧
      ∃ occurrence ∈ Occurrence.inRecord decl, check.path = occurrence.path ∧
        check.kind = Kind.ofType file.decls occurrence.type ∧
        check.goType = occurrence.type.render ∧ neverRequired check.rule check.kind = false := by
  obtain ⟨decl, hdecl, hname, occurrence, hoccurrence, marker, made, -, hcheckOf, same⟩ :=
    mem_ofFile_marker hplan hcheck
  obtain ⟨path, -, kind, goType, -⟩ := checkOf_ok hcheckOf
  have never := checkOf_not_never hcheckOf
  refine ⟨decl, hdecl, hname, occurrence, hoccurrence, ?_⟩
  rw [same]
  exact ⟨path, kind, goType, never⟩

/-- Of the types that are compared with their zero values only those of anonymous structs name
packages. -/
theorem ofFile_typeNames {file : SourceFile}
    (names : ∀ decl ∈ file.decls, isName decl.name.toList = true) {plan : Plan}
    (hplan : plan ∈ (ofFile file).1) {check : Check} (hcheck : check ∈ plan.checks)
    (required : check.rule = .required) {owner : Option String} {comparable : Bool}
    (hkind : check.kind = .record owner comparable) {n : String × String}
    (h : n ∈ typeNames check.goType) : check.kind = .record none true := by
  obtain ⟨decl, -, -, occurrence, -, -, kind, goType, never⟩ := ofFile_occurrence hplan hcheck
  rcases Kind.kindWith_record (kind.symm.trans hkind) with ⟨fields, -, rfl⟩ | ⟨name, htype, hname⟩
  · rw [required, hkind] at never
    cases comparable with
    | true => exact hkind
    | false => cases never
  · obtain ⟨record, fields, -, stands⟩ := Kind.kindOfName_record hname
    have isName : isName name.toList = true := by
      obtain ⟨found, hfound⟩ := stands.declaration
      obtain ⟨hmem, rfl⟩ := Kind.declaration?_some hfound
      exact names found hmem
    rw [goType, htype, TypeExpr.render, typeNames_of_noDot (noDot_of_isName isName)] at h
    cases h

end Plan

namespace CompiledUnit

variable {options : Emission.Options} {sourceName source : String} {unit : CompiledUnit}

/-- A qualified name in the file for a record is that of a variable of the file or of an imported
package, unless the type of an anonymous struct that a check compares with its zero value has it.
Every package that is imported has a qualified name in the file. -/
theorem compile_imports (compiled : compile options sourceName source = .ok unit) :
    ∀ a ∈ unit.artifacts, ∃ plan ∈ unit.plans, ∃ file,
      file = Emission.codeFile options unit.package sourceName plan ∧ a.source = file.render ∧
      (∀ n ∈ file.dotted, n.1 ∉ file.declared →
        (∃ package ∈ file.imports, package.baseName = n.1) ∨
          ∃ check ∈ plan.checks, check.rule = .required ∧ check.kind = .record none true ∧
            n ∈ Go.typeNames check.goType) ∧
      ∀ package ∈ file.imports, package.baseName ∉ file.declared ∧
        ∃ n ∈ file.dotted, n.1 = package.baseName := by
  intro a ha
  have names := compile_isName compiled
  obtain ⟨file, parsed, rfl⟩ := compile_eq_ok.1 compiled
  obtain ⟨plan, hplan, rfl⟩ := List.mem_map.1 ha
  have hname := names plan hplan
  refine ⟨plan, hplan, _, rfl, rfl, ?_, ?_⟩
  · intro n hn free
    rcases Emission.codeFile_dotted hname hn with isVariable | imported | ofField
    · exact absurd isVariable free
    · exact .inl imported
    · obtain ⟨check, hcheck, required, -, owner, comparable, kind, found⟩ := ofField
      exact .inr ⟨check, hcheck, required, Plan.ofFile_typeNames (Go.parse_isName parsed) hplan
        hcheck required kind found, found⟩
  · intro package imported
    exact ⟨Emission.package_not_declared package, Emission.codeFile_uses hname imported⟩

/-- A source with an anonymous struct that holds a type of another package. -/
def stamped : String :=
  "package p\n\nimport \"time\"\n
  type T struct \x7b
    // +govalid:required
    F struct \x7b At time.Time \x7d
    // +govalid:email
    E string
  \x7d
  "

/-- The qualified names, the variables and the imports of the files for a source. -/
def codeFacts (unit : CompiledUnit) :
    List (List (String × String) × List String × List Go.Package) :=
  unit.plans.map fun plan =>
    let file := Emission.codeFile .default unit.package unit.sourceName plan
    (file.dotted, file.declared, file.imports)

theorem compile_imports_stamped :
    ∃ unit, compile .default "a.go" stamped = .ok unit ∧
      unit.codeFacts =
        [([("errors", "New"), ("errors", "New"), ("errors", "New"), ("regexp", "MustCompile"),
            ("t", "F"), ("time", "Time"), ("tEmailRegexp", "MatchString"), ("t", "E"),
            ("errors", "Join")],
          ["ErrNilT", "ErrT_FRequiredValidation", "ErrT_EEmailValidation", "tEmailRegexp", "t",
            "errs", "t"],
          [.errors, .regexp])] ∧
      ∀ a ∈ unit.artifacts, ∃ plan ∈ unit.plans, ∃ file,
        file = Emission.codeFile .default unit.package "a.go" plan ∧ a.source = file.render ∧
        (∀ n ∈ file.dotted, n.1 ∉ file.declared →
          (∃ package ∈ file.imports, package.baseName = n.1) ∨
            ∃ check ∈ plan.checks, check.rule = .required ∧ check.kind = .record none true ∧
              n ∈ Go.typeNames check.goType) ∧
        ∀ package ∈ file.imports, package.baseName ∉ file.declared ∧
          ∃ n ∈ file.dotted, n.1 = package.baseName := by
  obtain ⟨file, parsed, facts⟩ := Go.exists_parse (rfl : stamped = _)
    (p := fun file => decide ((ofFile .default "a.go" file).codeFacts =
      [([("errors", "New"), ("errors", "New"), ("errors", "New"), ("regexp", "MustCompile"),
          ("t", "F"), ("time", "Time"), ("tEmailRegexp", "MatchString"), ("t", "E"),
          ("errors", "Join")],
        ["ErrNilT", "ErrT_FRequiredValidation", "ErrT_EEmailValidation", "tEmailRegexp", "t",
          "errs", "t"],
        [.errors, .regexp])]))
    (by decide +kernel)
  have compiled : compile .default "a.go" stamped = .ok (ofFile .default "a.go" file) :=
    compile_of_parse parsed
  exact ⟨_, compiled, of_decide_eq_true facts, compile_imports compiled⟩

/-- The type of an anonymous struct is written down with a package that is not imported. -/
theorem compile_imports_missing :
    ∃ unit, compile .default "a.go" stamped = .ok unit ∧
      ∃ plan ∈ unit.plans, ¬∀ n ∈ (Emission.codeFile .default unit.package "a.go" plan).dotted,
        n.1 ∉ (Emission.codeFile .default unit.package "a.go" plan).declared →
          ∃ package ∈ Emission.imports plan, package.baseName = n.1 := by
  obtain ⟨file, parsed, facts⟩ := Go.exists_parse (rfl : stamped = _)
    (p := fun file => decide (∃ plan ∈ (ofFile .default "a.go" file).plans,
      ¬∀ n ∈ (Emission.codeFile .default file.package "a.go" plan).dotted,
        n.1 ∉ (Emission.codeFile .default file.package "a.go" plan).declared →
          ∃ package ∈ Emission.imports plan, package.baseName = n.1))
    (by decide +kernel)
  exact ⟨_, compile_of_parse parsed, of_decide_eq_true facts⟩

end CompiledUnit
end FieldRules
