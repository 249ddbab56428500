/-
What files of code are written as.

Line by line a file leads from one state of reading to the next: between two
declarations, or within one with some brackets open (`Leads`).  The lines of a
statement lead back to where they began (`Stmt.IsSound.leads`), a function and a
group of variables lead from between declarations to between declarations, and so a
file of code with sound pieces is read as a package clause and nothing that declares
a type (`CodeFile.IsSound.parse`).
-/
import FieldRules.Proofs.CodeText
import FieldRules.Proofs.Rendering

namespace FieldRules
namespace Go

open Text

/-! ### States of reading -/

/-- Lexemes that start within a declaration, with a number of brackets open. -/
def Unfinished (depth : Nat) (ls : List Lexeme) : Prop :=
  ∃ as n more, ls = as ++ n :: more ∧ Within depth (as.map (·.token)) 0 ∧ n.token = .newline ∧
    Overlooked more

/-- What follows a newline in front of which some brackets are open. -/
def Follows : Nat → List Lexeme → Prop
  | 0, ls => Overlooked ls
  | depth + 1, ls => Unfinished (depth + 1) ls

/-- Lexemes that start with a package clause, the only one. -/
def Headed (package : String) (ls : List Lexeme) : Prop :=
  ∃ above l m more, ls = above ++ l :: m :: more ∧ (∀ k ∈ above, isAbove k.token = true) ∧
    l.token = .package ∧ m.token = .identifier package ∧ Overlooked more

/-- In front of a text with one property a text makes one with another. -/
def Leads (P : List Lexeme → Prop) (text : List Char) (Q : List Lexeme → Prop) : Prop :=
  ∀ spot rest ms, Lexed (spot.advance text) rest ms → Q ms →
    ∃ ls, Lexed spot (text ++ rest) ls ∧ P ls

section

variable {P Q R : List Lexeme → Prop} {depth last : Nat} {ls ms : List Lexeme} {l n : Lexeme}
  {as bs : List Char}

theorem Unfinished.behind (h : Follows last ms) (within : Within depth (ls.map (·.token)) last)
    (newline : n.token = .newline) : Unfinished depth (ls ++ n :: ms) := by
  cases last with
  | zero => exact ⟨ls, n, ms, rfl, within, newline, h⟩
  | succ last =>
    obtain ⟨more, m, others, rfl, withinMore, newlineMore, overlooked⟩ := h
    refine ⟨ls ++ n :: more, m, others, by simp, ?_, newlineMore, overlooked⟩
    rw [List.map_append, List.map_cons, newline]
    exact within.append (.plain withinMore rfl rfl fun _ => Nat.succ_pos last)

/-- A declaration starts, one that is neither a package clause nor declares types. -/
theorem Unfinished.overlooked (h : Unfinished 0 (l :: ls)) (plain : isAbove l.token = false)
    (noPackage : l.token ≠ .package) (noType : l.token ≠ .type) : Overlooked (l :: ls) := by
  obtain ⟨more, n, others, split, within, newline, overlooked⟩ := h
  cases more with
  | nil =>
    obtain ⟨rfl, rfl⟩ := List.cons.inj split
    rw [newline] at plain
    cases plain
  | cons m more =>
    obtain ⟨rfl, rfl⟩ := List.cons.inj split
    have nothing : ∀ k ∈ ([] : List Lexeme), isAbove k.token = true := fun _ hk => nomatch hk
    exact .next nothing plain noPackage noType within newline overlooked

/-- What comments may stand in front of. -/
def TakesAbove (P : List Lexeme → Prop) : Prop :=
  ∀ l ls, isAbove l.token = true → P ls → P (l :: ls)

theorem takesAbove_overlooked : TakesAbove Overlooked :=
  fun _ _ above h => h.behind (List.forall_mem_singleton.2 above)

theorem takesAbove_headed (package : String) : TakesAbove (Headed package) := by
  rintro l _ above ⟨more, k, m, rest, rfl, comments, hk, hm, overlooked⟩
  exact ⟨l :: more, k, m, rest, rfl, List.forall_mem_cons.2 ⟨above, comments⟩, hk, hm, overlooked⟩

theorem takesAbove_unfinished (inside : 0 < depth) : TakesAbove (Unfinished depth) := by
  rintro l _ above ⟨as, n, more, rfl, within, newline, overlooked⟩
  have brackets : l.token.isOpening = false ∧ l.token.isClosing = false := by
    cases token : l.token <;> rw [token] at above <;> first | exact ⟨rfl, rfl⟩ | cases above
  exact ⟨l :: as, n, more, rfl, within.plain brackets.1 brackets.2 fun _ => inside, newline,
    overlooked⟩

namespace Leads

theorem refl : Leads P [] P := fun _ _ ms lexed h => ⟨ms, lexed, h⟩

theorem append (h : Leads P as Q) (h' : Leads Q bs R) : Leads P (as ++ bs) R := by
  intro spot rest ms lexed hms
  rw [Spot.advance_append] at lexed
  obtain ⟨behind, lexed, hbehind⟩ := h' _ _ _ lexed hms
  obtain ⟨ls, lexed, hls⟩ := h _ _ _ lexed hbehind
  rw [← List.append_assoc] at lexed
  exact ⟨ls, lexed, hls⟩

/-- A text that leads there from nothing. -/
theorem lex (h : Leads P as Q) (nothing : Q []) : ∃ ls, lex as = .ok ls ∧ P ls := by
  obtain ⟨ls, lexed, hls⟩ := h Spot.first [] [] (.done isGap_nil) nothing
  rw [List.append_nil] at lexed
  exact ⟨ls, Lexed.lex lexed, hls⟩

end Leads

end

/-! ### Lines -/

/-- The text of a line is cut into lexemes that lead from one number of open brackets to another. -/
def LineText (depth : Nat) (text : List Char) (last : Nat) : Prop :=
  Lexes text (· != '\n') fun ls => Within depth (ls.map (·.token)) last

theorem LevelText.line {text : List Char} (h : LevelText text) (depth : Nat) :
    LineText depth text depth := by
  refine h.imp (fun rest ends c hc => ?_) fun ls hls => hls depth
  rw [bne_eq_false_iff_eq.1 (ends c hc)]
  decide +kernel

def linesText (lines : List Line) : List Char := lines.flatMap (·.render.toList)

section

variable {P Q R : List Lexeme → Prop} {depth last indent : Nat} {text : String} {line : Line}
  {lines more : List Line} {blocks : List (List Line)}

theorem Line.render_toList (line : Line) :
    line.render.toList = List.replicate line.depth '\t' ++ (line.text.toList ++ ['\n']) := by
  simp [render]

/-- A line behind its tabs, in front of other lexemes. -/
theorem Line.leads {p : Char → Bool} (h : Lexes line.text.toList p P)
    (ends : ∀ rest, Ends p ('\n' :: rest))
    (both : ∀ ls n ms, P ls → n.token = .newline → Q ms → R (ls ++ n :: ms)) :
    Leads R line.render.toList Q := by
  intro spot rest ms lexed hms
  rw [line.render_toList, ← List.append_assoc, Spot.advance_append] at lexed
  have newline : Scans .newline ['\n'] rest := .mark rfl
  have blank : IsGap (List.replicate line.depth '\t') := by
    intro c hc
    rw [List.eq_of_mem_replicate hc]
    rfl
  obtain ⟨ls, whole, hls⟩ := h spot _ _ _ blank (ends rest) (newline.lexed isGap_nil lexed)
  rw [show line.render.toList ++ rest = List.replicate line.depth '\t' ++
    (line.text.toList ++ '\n' :: rest) by simp [line.render_toList]]
  exact ⟨_, whole, both ls _ ms hls rfl hms⟩

/-- A line within a declaration. -/
theorem LineText.leads (h : LineText depth text.toList last) (indent : Nat) :
    Leads (Unfinished depth) (Line.mk indent text).render.toList (Follows last) :=
  Line.leads h (fun rest c hc => by cases hc; rfl) fun ls n ms hls newline hms =>
    .behind hms hls newline

/-- Words with which a declaration starts that is neither a package clause nor declares types. -/
def startsOther (word : List Char) : Bool :=
  isName word && !isAbove (Token.ofWord word) && Token.ofWord word != .package &&
    Token.ofWord word != .type

/-- The first line of a declaration. -/
theorem LineText.leads_front {rest : List Char} (h : LineText 0 rest last) (word : String)
    (starts : startsOther word.toList = true) (split : text.toList = word.toList ++ ' ' :: rest) :
    Leads Overlooked (Line.mk 0 text).render.toList (Follows last) := by
  simp only [startsOther, Bool.and_eq_true, Bool.not_eq_true', bne_iff_ne] at starts
  obtain ⟨⟨⟨name, plain⟩, noPackage⟩, noType⟩ := starts
  have whole : Lexes text.toList (· != '\n') fun ls => ∃ l more, ls = l :: more ∧
      l.token = Token.ofWord word.toList ∧ Within 0 (ls.map (·.token)) last := by
    rw [split]
    refine Lexes.word name h.space (fun rest _ c hc => by cases hc; rfl) ?_
    intro l ms hl hms
    refine ⟨l, ms, rfl, hl, ?_⟩
    have level : IsLevel [l] := isLevel_singleton (by rw [hl]; exact ofWord_inner word.toList)
    exact (level 0).append hms
  refine Line.leads whole (fun rest c hc => by cases hc; rfl) ?_
  rintro _ n ms ⟨l, more, rfl, hl, within⟩ newline hms
  rw [← hl] at plain noPackage noType
  exact (Unfinished.behind hms within newline).overlooked plain noPackage noType

/-- A line with the bracket that closes those before it. -/
theorem leads_close {c : Char} {token : Token} (hc : mark? c = some token)
    (closing : token.isClosing = true) (indent depth : Nat) :
    Leads (Unfinished (depth + 1)) (Line.mk indent (String.ofList [c])).render.toList
      (Follows depth) := by
  refine LineText.leads ?_ indent
  rw [String.toList_ofList]
  refine (lexes_token fun rest _ => .mark hc).imp (fun _ ends => ends) ?_
  rintro _ ⟨l, rfl, hl⟩
  rw [List.map_singleton, hl]
  exact .closes .nil closing

/-- A comment on a line of its own. -/
theorem leads_comment (takes : TakesAbove P) (inside : '\n' ∉ text.toList) (indent : Nat) :
    Leads P (Line.mk indent ("// " ++ text)).render.toList P := by
  have comment : Lexes ("// " ++ text).toList (· != '\n') fun ls => ∃ l, ls = [l] ∧
      l.token = .lineComment (String.ofList (' ' :: text.toList)) := by
    have spelled : ("// " ++ text).toList = '/' :: '/' :: ' ' :: text.toList := by simp
    rw [spelled]
    refine lexes_token fun rest ends => .lineComment (fun newline => ?_) ends
    rcases List.mem_cons.1 newline with space | found
    · exact absurd space (by decide)
    · exact inside found
  refine Line.leads (Q := P) comment (fun rest c hc => by cases hc; rfl) ?_
  rintro _ n ms ⟨l, rfl, hl⟩ newline hms
  exact takes l _ (by rw [hl]; rfl) (takes n ms (by rw [newline]; rfl) hms)

theorem leads_blank (takes : TakesAbove P) : Leads P Line.blank.render.toList P := by
  intro spot rest ms lexed hms
  have newline : Scans .newline ['\n'] rest := .mark rfl
  have blank : Lexed spot (['\n'] ++ rest) (spot.lexeme [] ['\n'] .newline :: ms) :=
    newline.lexed isGap_nil lexed
  exact ⟨_, blank, takes _ ms rfl hms⟩

theorem linesText_cons (line : Line) (lines : List Line) :
    linesText (line :: lines) = line.render.toList ++ linesText lines := List.flatMap_cons

theorem linesText_append (lines more : List Line) :
    linesText (lines ++ more) = linesText lines ++ linesText more := List.flatMap_append

theorem leads_flatMap {α : Type} {xs : List α} {text : α → List Char}
    (h : ∀ x ∈ xs, Leads P (text x) P) : Leads P (xs.flatMap text) P := by
  induction xs with
  | nil => exact .refl
  | cons x xs ih =>
    obtain ⟨first, more⟩ := List.forall_mem_cons.1 h
    rw [List.flatMap_cons]
    exact first.append (ih more)

/-- Blocks with blank lines between them. -/
theorem leads_parted (takes : TakesAbove P) (h : ∀ block ∈ blocks, Leads P (linesText block) P) :
    Leads P (linesText (parted blocks)) P := by
  induction blocks with
  | nil => exact .refl
  | cons block blocks ih =>
    obtain ⟨first, more⟩ := List.forall_mem_cons.1 h
    cases blocks with
    | nil => exact first
    | cons second blocks =>
      rw [parted, linesText_append, linesText_cons]
      exact first.append ((leads_blank takes).append (ih more))
      exact List.cons_ne_nil _ _

end

/-! ### Statements -/

theorem level_names {names : List String} (filled : names ≠ [])
    (h : ∀ name ∈ names, isName name.toList = true) :
    LevelText (String.intercalate ", " names).toList := by
  rw [String.toList_intercalate]
  refine separates_comma.intercalate (by simpa using filled) fun text htext => ?_
  obtain ⟨name, hname, rfl⟩ := List.mem_map.1 htext
  exact levelText_word (h name hname)

/-- A brace behind a text. -/
theorem lineText_brace {text : List Char} (h : LevelText text) (depth : Nat) :
    LineText depth (text ++ [' ', '\x7b']) (depth + 1) := by
  have brace : Lexes ['\x7b'] (· != '\n') fun ls => ∃ l, ls = [l] ∧ l.token = .leftBrace :=
    lexes_token fun rest _ => .mark rfl
  refine Lexes.append h brace.space (fun rest _ c hc => by cases hc; rfl) ?_
  rintro ls _ hls ⟨l, rfl, hl⟩
  rw [List.map_append, List.map_singleton, hl]
  exact (hls depth).append (.opens .nil rfl)

namespace Stmt

/-- Some names are bound, with names that are names, to an expression with its brackets in pairs. -/
def Binds (binding : List String × Expr) : Prop :=
  (binding.1 ≠ [] ∧ ∀ name ∈ binding.1, isName name.toList = true) ∧ binding.2.IsLevel

theorem binds_none : ∀ b ∈ (none : Option (List String × Expr)), Binds b := by
  rintro _ ⟨⟩

/-- A statement whose names are names, and whose expressions and types have their brackets in
pairs. -/
inductive IsSound : Stmt → Prop where
  | declare {name type : String} : isName name.toList = true → LevelText type.toList →
      IsSound (.declare name type)
  | assign {name : String} {value : Expr} : isName name.toList = true → value.IsLevel →
      IsSound (.assign name value)
  | return {value : Expr} : value.IsLevel → IsSound (.return value)
  | when {binding : Option (List String × Expr)} {condition : Expr} {body : List Stmt} :
      (∀ b ∈ binding, Binds b) → condition.IsLevel → (∀ stmt ∈ body, stmt.IsSound) →
      IsSound (.when binding condition body)

theorem linesOf_eq (depth : Nat) (stmts : List Stmt) :
    linesOf depth stmts = stmts.flatMap (lines depth) := by
  induction stmts with
  | nil => rfl
  | cons stmt stmts ih => rw [linesOf, ih, List.flatMap_cons]

/-- The line that opens a block. -/
theorem lineText_when {binding : Option (List String × Expr)} {condition : Expr}
    (hbinding : ∀ b ∈ binding, Binds b) (hcondition : condition.IsLevel) {depth : Nat}
    (inside : 0 < depth) :
    LineText depth (whenText binding condition).toList (depth + 1) := by
  have keyword : isName "if".toList = true := by decide
  cases binding with
  | none =>
    have text : (whenText none condition).toList =
        ("if".toList ++ ' ' :: condition.render.toList) ++ [' ', '\x7b'] := by simp [whenText]
    rw [text]
    exact lineText_brace ((levelText_word keyword).spaced hcondition) depth
  | some b =>
    obtain ⟨⟨filled, names⟩, value⟩ := hbinding b rfl
    have text : (whenText (some b) condition).toList = ("if".toList ++ ' ' ::
        ((String.intercalate ", " b.1).toList ++ (' ' :: ([':', '='] ++ [' ']) ++
          b.2.render.toList))) ++ ';' :: ' ' :: (condition.render.toList ++ [' ', '\x7b']) := by
      simp [whenText]
    have first := (levelText_word keyword).spaced
      (separates_operator [':', '='] rfl (by decide) _ _ (level_names filled names) value)
    have behind : LineText depth (';' :: ' ' :: (condition.render.toList ++ [' ', '\x7b']))
        (depth + 1) := by
      refine Lexes.mark rfl (Lexes.space (lineText_brace hcondition depth)) fun l ms hl hms => ?_
      rw [List.map_cons, hl]
      exact hms.plain rfl rfl fun _ => inside
    rw [text]
    refine Lexes.append first behind (fun rest _ c hc => by cases hc; rfl) fun ls ms hls hms => ?_
    rw [List.map_append]
    exact (hls depth).append hms

/-- A line that leaves as many brackets open as it finds. -/
theorem leads_level {text : String} (h : LevelText text.toList) (indent : Nat) {depth : Nat}
    (inside : 0 < depth) :
    Leads (Unfinished depth) (linesText [⟨indent, text⟩]) (Unfinished depth) := by
  obtain ⟨outer, rfl⟩ : ∃ outer, depth = outer + 1 := ⟨depth - 1, (Nat.sub_add_cancel inside).symm⟩
  have line : Leads (Unfinished (outer + 1)) (Line.mk indent text).render.toList
      (Unfinished (outer + 1)) := (h.line (outer + 1)).leads indent
  rw [linesText_cons]
  exact line.append .refl

/-- The lines of a statement lead back to where they begin. -/
theorem IsSound.leads {stmt : Stmt} (h : stmt.IsSound) (indent : Nat) {depth : Nat}
    (inside : 0 < depth) :
    Leads (Unfinished depth) (linesText (stmt.lines indent)) (Unfinished depth) := by
  induction h generalizing indent depth with
  | @declare name type hname htype =>
    have text : ("var " ++ name ++ " " ++ type).toList =
        "var".toList ++ ' ' :: (name.toList ++ ' ' :: type.toList) := by simp
    refine leads_level ?_ indent inside
    rw [text]
    exact (levelText_word (by decide)).spaced ((levelText_word hname).spaced htype)
  | @assign name value hname hvalue =>
    have text : (name ++ " = " ++ value.render).toList =
        name.toList ++ (' ' :: (['='] ++ [' ']) ++ value.render.toList) := by simp
    refine leads_level ?_ indent inside
    rw [text]
    exact separates_operator ['='] rfl (by decide) _ _ (levelText_word hname) hvalue
  | @«return» value hvalue =>
    have text : ("return " ++ value.render).toList =
        "return".toList ++ ' ' :: value.render.toList := by simp
    refine leads_level ?_ indent inside
    rw [text]
    exact (levelText_word (by decide)).spaced hvalue
  | @when binding condition body hbinding hcondition _ ih =>
    have front : Leads (Unfinished depth) (Line.mk indent (whenText binding condition)).render.toList
        (Unfinished (depth + 1)) :=
      (lineText_when hbinding hcondition inside).leads indent
    have inner : Leads (Unfinished (depth + 1)) (linesText (linesOf (indent + 1) body))
        (Unfinished (depth + 1)) := by
      rw [linesOf_eq, linesText, List.flatMap_assoc]
      exact leads_flatMap fun stmt hstmt => ih stmt hstmt (indent + 1) (Nat.succ_pos depth)
    have last : Leads (Unfinished (depth + 1)) (Line.mk indent "\x7d").render.toList
        (Unfinished depth) := by
      obtain ⟨outer, rfl⟩ : ∃ outer, depth = outer + 1 :=
        ⟨depth - 1, (Nat.sub_add_cancel inside).symm⟩
      exact leads_close (c := '\x7d') rfl rfl indent (outer + 1)
    rw [lines, linesText_cons, linesText_append, linesText_cons]
    exact front.append (inner.append (last.append .refl))

end Stmt

/-! ### Files -/

/-- A variable with a comment on one line. -/
structure Variable.IsSound (v : Variable) : Prop where
  comment : '\n' ∉ v.comment.toList
  name : isName v.name.toList = true
  value : v.value.IsLevel

/-- Names of parameters are names, and their types have their brackets in pairs. -/
def AreSound (parameters : List (String × String)) : Prop :=
  ∀ p ∈ parameters, isName p.1.toList = true ∧ LevelText p.2.toList

structure Function.IsSound (f : Function) : Prop where
  comment : '\n' ∉ f.comment.toList
  receiver : AreSound f.receiver.toList
  name : isName f.name.toList = true
  parameters : AreSound f.parameters
  result : LevelText f.result.toList
  body : ∀ stmt ∈ f.body, stmt.IsSound

structure CodeFile.IsSound (file : CodeFile) : Prop where
  header : ∀ text ∈ file.header, '\n' ∉ text.toList
  package : IsWord file.package
  group : ∀ v ∈ file.group, v.IsSound
  single : ∀ entry ∈ file.single, isName entry.1.toList = true ∧ entry.2.IsLevel
  functions : ∀ f ∈ file.functions, f.IsSound

theorem Variable.IsSound.leads {v : Variable} (h : v.IsSound) :
    Leads (Unfinished 1) (linesText v.lines) (Unfinished 1) := by
  have text : (v.name ++ " = " ++ v.value.render).toList =
      v.name.toList ++ (' ' :: (['='] ++ [' ']) ++ v.value.render.toList) := by simp
  have assignment : LevelText (v.name ++ " = " ++ v.value.render).toList := by
    rw [text]
    exact separates_operator ['='] rfl (by decide) _ _ (levelText_word h.name) h.value
  have comment := leads_comment (takesAbove_unfinished Nat.one_pos) h.comment 1
  rw [lines, linesText_cons]
  exact comment.append (Stmt.leads_level assignment 1 Nat.one_pos)

namespace Function

variable {f : Function} {parameters : List (String × String)}

theorem parameterList_toList (parameters : List (String × String)) :
    (parameterList parameters).toList = '(' :: ([',', ' '].intercalate
      (parameters.map fun p => p.1.toList ++ ' ' :: p.2.toList) ++ [')']) := by
  have spelled : (String.toList ∘ fun p : String × String => p.1 ++ " " ++ p.2) =
      fun p => p.1.toList ++ ' ' :: p.2.toList := funext fun p => by simp
  simp [parameterList, spelled]

theorem lexes_parameterList (h : AreSound parameters) {p : Char → Bool} :
    Lexes (parameterList parameters).toList p IsLevel := by
  rw [parameterList_toList]
  by_cases nothing : parameters = []
  · rw [nothing]
    exact lexes_brackets rfl rfl rfl rfl
  · refine Lexes.enclosed rfl rfl rfl rfl (p := isSolid) (P := IsLevel) ?_
      (fun _ hls => hls.isNested) fun rest c hc => by cases hc; rfl
    refine separates_comma.intercalate (by simpa using nothing) fun text htext => ?_
    obtain ⟨parameter, hparameter, rfl⟩ := List.mem_map.1 htext
    obtain ⟨name, type⟩ := h parameter hparameter
    exact (levelText_word name).spaced type

/-- The line with which a function starts. -/
theorem IsSound.heading (h : f.IsSound) :
    Leads Overlooked (Line.mk 0 f.heading).render.toList (Unfinished 1) := by
  have signature : LevelText (f.name.toList ++ (parameterList f.parameters).toList) := by
    refine (primaryText_word h.name).lexes.append (lexes_parameterList h.parameters)
      (fun rest _ c hc => ?_) fun _ _ => IsLevel.append
    rw [parameterList_toList] at hc
    cases hc
    rfl
  have plain := signature.spaced h.result
  cases hreceiver : f.receiver with
  | none =>
    have text : f.heading.toList = "func".toList ++ ' ' ::
        ((f.name.toList ++ (parameterList f.parameters).toList ++ ' ' :: f.result.toList) ++
          [' ', '\x7b']) := by
      simp [Function.heading, hreceiver]
    exact (lineText_brace plain 0).leads_front "func" (by decide) text
  | some pair =>
    have receiver : AreSound [pair] := by
      have sound := h.receiver
      rwa [hreceiver] at sound
    have text : f.heading.toList = "func".toList ++ ' ' ::
        (((parameterList [pair]).toList ++ ' ' ::
          (f.name.toList ++ (parameterList f.parameters).toList ++ ' ' :: f.result.toList)) ++
          [' ', '\x7b']) := by
      simp [Function.heading, hreceiver]
    have whole := LevelText.spaced (lexes_parameterList receiver) plain
    exact (lineText_brace whole 0).leads_front "func" (by decide) text

theorem IsSound.leads (h : f.IsSound) : Leads Overlooked (linesText f.lines) Overlooked := by
  have body : Leads (Unfinished 1) (linesText (parted (f.body.map (Stmt.lines 1))))
      (Unfinished 1) := by
    refine leads_parted (takesAbove_unfinished Nat.one_pos) fun block hblock => ?_
    obtain ⟨stmt, hstmt, rfl⟩ := List.mem_map.1 hblock
    exact (h.body stmt hstmt).leads 1 Nat.one_pos
  have comment := leads_comment takesAbove_overlooked h.comment 0
  have last : Leads (Unfinished 1) (Line.mk 0 "\x7d").render.toList Overlooked :=
    leads_close (c := '\x7d') rfl rfl 0 0
  rw [lines, linesText_cons, linesText_cons, linesText_append, linesText_cons]
  exact comment.append (h.heading.append (body.append (last.append .refl)))

end Function

namespace CodeFile

variable {file : CodeFile}

/-- The line that opens a group of declarations. -/
theorem leads_open (word : String) (starts : startsOther word.toList = true) :
    Leads Overlooked (Line.mk 0 (word ++ " (")).render.toList (Unfinished 1) := by
  have bracket : LineText 0 ['('] 1 := by
    refine (lexes_token fun rest _ => .mark rfl).imp (fun _ ends => ends) ?_
    rintro _ ⟨l, rfl, hl⟩
    rw [List.map_singleton, hl]
    exact .opens .nil rfl
  exact bracket.leads_front word starts (by simp)

theorem leads_imports (packages : List Package) :
    Leads Overlooked (linesText (importLines packages)) Overlooked := by
  have path (package : Package) : LevelText ("\"" ++ package.importPath ++ "\"").toList := by
    have quoted : ("\"" ++ package.importPath ++ "\"").toList =
        Quoted.encode package.importPath.toList := by cases package <;> decide
    rw [quoted]
    exact levelText_quoted _
  have last : Leads (Unfinished 1) (Line.mk 0 ")").render.toList Overlooked :=
    leads_close (c := ')') rfl rfl 0 0
  unfold importLines
  split
  · next package =>
    have text : ("import \"" ++ package.importPath ++ "\"").toList =
        "import".toList ++ ' ' :: ("\"" ++ package.importPath ++ "\"").toList := by simp
    have line := ((path package).line 0).leads_front "import" (by decide) text
    rw [linesText_cons]
    exact line.append .refl
  · have inner : Leads (Unfinished 1) (linesText (packages.map fun package =>
        ⟨1, "\"" ++ package.importPath ++ "\""⟩)) (Unfinished 1) := by
      rw [linesText, List.flatMap_map]
      refine leads_flatMap fun package _ => ?_
      have line := Stmt.leads_level (path package) 1 Nat.one_pos
      rwa [linesText_cons, linesText, List.flatMap_nil, List.append_nil] at line
    rw [linesText_cons, linesText_append, linesText_cons]
    exact (leads_open "import" (by decide)).append (inner.append (last.append .refl))

theorem IsSound.leads_group (h : file.IsSound) :
    Leads Overlooked (linesText (⟨0, "var ("⟩ ::
      (parted (file.group.map Variable.lines) ++ [⟨0, ")"⟩]))) Overlooked := by
  have inner : Leads (Unfinished 1) (linesText (parted (file.group.map Variable.lines)))
      (Unfinished 1) := by
    refine leads_parted (takesAbove_unfinished Nat.one_pos) fun block hblock => ?_
    obtain ⟨v, hv, rfl⟩ := List.mem_map.1 hblock
    exact (h.group v hv).leads
  have last : Leads (Unfinished 1) (Line.mk 0 ")").render.toList Overlooked :=
    leads_close (c := ')') rfl rfl 0 0
  rw [linesText_cons, linesText_append, linesText_cons]
  exact (leads_open "var" (by decide)).append (inner.append (last.append .refl))

theorem IsSound.leads_single (h : file.IsSound) :
    Leads Overlooked (linesText (file.single.map singleLine)) Overlooked := by
  rw [linesText, List.flatMap_map]
  refine leads_flatMap fun entry hentry => ?_
  obtain ⟨name, value⟩ := h.single entry hentry
  have text : ("var " ++ entry.1 ++ " = " ++ entry.2.render).toList = "var".toList ++ ' ' ::
      (entry.1.toList ++ (' ' :: (['='] ++ [' ']) ++ entry.2.render.toList)) := by simp
  have assignment := separates_operator ['='] rfl (by decide) _ _ (levelText_word name) value
  exact (LevelText.line assignment 0).leads_front "var" (by decide) text

theorem render_toList (file : CodeFile) : file.render.toList = linesText file.lines := by
  rw [render, String.toList_join, List.flatMap_map]
  rfl

/-- The package clause, behind a blank line. -/
theorem leads_package {package : String} (h : IsWord package) :
    Leads (Headed package) (linesText [⟨0, "package " ++ package⟩]) Overlooked := by
  have text : ("package " ++ package).toList = "package".toList ++ ' ' :: package.toList := by simp
  have clause : Lexes ("package " ++ package).toList continuesName fun ls => ∃ l m, ls = [l, m] ∧
      l.token = .package ∧ m.token = .identifier package := by
    rw [text]
    refine Lexes.word (by decide) (lexes_word h.name).space (fun rest _ c hc => by cases hc; rfl) ?_
    rintro l _ hl ⟨m, rfl, hm⟩
    exact ⟨l, m, rfl, hl, hm.trans h.token⟩
  have line : Leads (Headed package) (Line.mk 0 ("package " ++ package)).render.toList
      Overlooked := by
    refine Line.leads clause (fun rest c hc => by cases hc; decide +kernel) ?_
    rintro _ n ms ⟨l, m, rfl, hl, hm⟩ newline hms
    have nothing : ∀ k ∈ ([] : List Lexeme), isAbove k.token = true := fun _ hk => nomatch hk
    exact ⟨[], l, m, n :: ms, rfl, nothing, hl, hm,
      takesAbove_overlooked n ms (by rw [newline]; rfl) hms⟩
  rw [linesText_cons]
  exact line.append .refl

/-- The lines behind the package clause. -/
def declarationLines (file : CodeFile) : List Line :=
  parted (importLines file.imports ::
    (⟨0, "var ("⟩ :: (parted (file.group.map Variable.lines) ++ [⟨0, ")"⟩])) ::
    (singleLines file.single ++ file.functions.map Function.lines))

theorem lines_eq (file : CodeFile) : file.lines = file.header.map (fun text => ⟨0, "// " ++ text⟩) ++
    Line.blank :: ([⟨0, "package " ++ file.package⟩] ++ Line.blank :: file.declarationLines) := by
  simp only [lines, List.cons_append, List.nil_append]
  rfl

theorem IsSound.leads_declarations (h : file.IsSound) :
    Leads Overlooked (linesText file.declarationLines) Overlooked := by
  refine leads_parted takesAbove_overlooked ?_
  simp only [List.forall_mem_cons, List.forall_mem_append]
  refine ⟨leads_imports _, h.leads_group, fun block hblock => ?_, fun block hblock => ?_⟩
  · unfold singleLines at hblock
    split at hblock
    · cases hblock
    · rw [List.mem_singleton.1 hblock]
      exact h.leads_single
  · obtain ⟨f, hf, rfl⟩ := List.mem_map.1 hblock
    exact (h.functions f hf).leads

/-- A file of code with sound pieces is read, and declares no type. -/
theorem IsSound.parse (h : file.IsSound) :
    SourceFile.parse file.render.toList = .ok ⟨file.package, []⟩ := by
  have header : Leads (Headed file.package) (linesText (file.header.map fun text =>
      ⟨0, "// " ++ text⟩)) (Headed file.package) := by
    rw [linesText, List.flatMap_map]
    exact leads_flatMap fun text htext => leads_comment (takesAbove_headed _) (h.header text htext) 0
  have whole : Leads (Headed file.package) file.render.toList Overlooked := by
    rw [render_toList, lines_eq, linesText_append, linesText_cons, linesText_append, linesText_cons]
    have behind := (leads_package h.package).append
      ((leads_blank takesAbove_overlooked).append h.leads_declarations)
    exact header.append ((leads_blank (takesAbove_headed _)).append behind)
  obtain ⟨ls, hlex, above, l, m, more, rfl, comments, hl, hm, overlooked⟩ :=
    whole.lex (.done fun _ hl => nomatch hl)
  exact parse_overlooked hlex comments hl hm overlooked

end CodeFile

end Go
end FieldRules
