/-
A text that is written in another way.

Lexemes echo others where they are the same some lines further down, with further
characters in their texts that count for nothing (`Lexeme.Echoes`).  Declarations
may differ in their texts and places alike (`Recast`).
-/
import FieldRules.Proofs.Completeness
import FieldRules.Proofs.Copying
import FieldRules.Proofs.Trimming
import Mathlib.Data.List.Forall2

namespace FieldRules

open Text

/-! ### Other texts and places -/

namespace Text

/-- A text without some characters. -/
def without (drops : Char → Bool) (s : String) : String :=
  String.ofList (s.toList.filter fun c => !drops c)

def Position.below (down : Nat) (p : Position) : Position := ⟨p.line + down, p.column⟩

end Text

namespace Go

/-- Other texts of comments and of what is kept as it was written, and other places. -/
structure Recast where
  text : String → String
  place : Position → Position

namespace Recast

def comment (r : Recast) (c : Comment) : Comment := ⟨r.text c.text, r.place c.position⟩

mutual

def type (r : Recast) : TypeExpr → TypeExpr
  | .named name => .named name
  | .qualified package name => .qualified package name
  | .instantiated base arguments => .instantiated (r.type base) (r.text arguments)
  | .pointer target => .pointer (r.type target)
  | .slice element => .slice (r.type element)
  | .array length element => .array (r.text length) (r.type element)
  | .map key value => .map (r.type key) (r.type value)
  | .chan direction element => .chan direction (r.type element)
  | .struct fields => .struct (r.fields fields)
  | .func text => .func (r.text text)
  | .interface text => .interface (r.text text)

def field (r : Recast) : Field → Field
  | ⟨names, embedded, type, tag, doc, position⟩ =>
    ⟨names, embedded, r.type type, tag, doc.map r.comment, r.place position⟩

def fields (r : Recast) : List Field → List Field
  | [] => []
  | field :: fields => r.field field :: r.fields fields

end

def decl (r : Recast) (d : TypeDecl) : TypeDecl :=
  { d with
    typeParameters := d.typeParameters.map r.text
    type := r.type d.type
    doc := d.doc.map r.comment
    position := r.place d.position }

/-- Everything some lines further down. -/
def below (down : Nat) : Recast := ⟨id, Position.below down⟩

/-- All texts without some characters. -/
def without (drops : Char → Bool) : Recast := ⟨Text.without drops, id⟩

theorem type_named? (r : Recast) (t : TypeExpr) :
    Parser.embeddedName? (r.type t) = Parser.embeddedName? t := by
  match t with
  | .named _ | .qualified _ _ | .slice _ | .array _ _ | .map _ _ | .chan _ _ | .struct _ | .func _
  | .interface _ => rfl
  | .instantiated base _ => exact r.type_named? base
  | .pointer target => exact r.type_named? target

/-! ### What does not change -/

mutual

theorem type_id {r : Recast} (text : ∀ s, r.text s = s) (place : ∀ p, r.place p = p)
    (t : TypeExpr) : r.type t = t := by
  match t with
  | .named _ | .qualified _ _ => rfl
  | .instantiated base _ => rw [type, type_id text place base, text]
  | .pointer target => rw [type, type_id text place target]
  | .slice element => rw [type, type_id text place element]
  | .array _ element => rw [type, type_id text place element, text]
  | .map key value => rw [type, type_id text place key, type_id text place value]
  | .chan _ element => rw [type, type_id text place element]
  | .struct fs => rw [type, fields_id text place fs]
  | .func _ => rw [type, text]
  | .interface _ => rw [type, text]

theorem field_id {r : Recast} (text : ∀ s, r.text s = s) (place : ∀ p, r.place p = p)
    (f : Field) : r.field f = f := by
  match f with
  | ⟨_, _, type, _, doc, _⟩ =>
    have comment (c : Comment) : r.comment c = c := by rw [Recast.comment, text, place]
    rw [field, type_id text place type, place, funext comment]
    simp

theorem fields_id {r : Recast} (text : ∀ s, r.text s = s) (place : ∀ p, r.place p = p)
    (fs : List Field) : r.fields fs = fs := by
  match fs with
  | [] => rfl
  | f :: fs => rw [fields, field_id text place f, fields_id text place fs]

end

theorem decl_id {r : Recast} (text : ∀ s, r.text s = s) (place : ∀ p, r.place p = p)
    (d : TypeDecl) : r.decl d = d := by
  have comment (c : Comment) : r.comment c = c := by rw [Recast.comment, text, place]
  rw [decl, type_id text place, place, funext text, funext comment]
  simp

theorem map_below_zero (ds : List TypeDecl) : ds.map (below 0).decl = ds := by
  have kept : (below 0).decl = id := funext fun d => decl_id (fun _ => rfl) (fun _ => rfl) d
  rw [kept, List.map_id]

end Recast

/-! ### Echoes -/

namespace Token

/-- The token of a comment without some characters. -/
def without (drops : Char → Bool) : Token → Token
  | lineComment text => lineComment (Text.without drops text)
  | blockComment text => blockComment (Text.without drops text)
  | other => other

variable {drops : Char → Bool}

theorem without_eq_iff {token other : Token} (plain : other.isComment = false) :
    token.without drops = other ↔ token = other := by
  cases token <;> first
    | rfl
    | constructor <;> (rintro rfl; cases plain)

@[simp] theorem without_isComment (token : Token) :
    (token.without drops).isComment = token.isComment := by
  cases token <;> rfl

@[simp] theorem without_isTrivia (token : Token) :
    (token.without drops).isTrivia = token.isTrivia := by
  cases token <;> rfl

@[simp] theorem without_isOpening (token : Token) :
    (token.without drops).isOpening = token.isOpening := by
  cases token <;> rfl

@[simp] theorem without_isClosing (token : Token) :
    (token.without drops).isClosing = token.isClosing := by
  cases token <;> rfl

@[simp] theorem without_startsResult (token : Token) :
    Parser.startsResult (token.without drops) = Parser.startsResult token := by
  cases token <;> rfl

@[simp] theorem without_tag? (token : Token) :
    (token.without drops).tag? = token.tag? := by
  cases token <;> rfl

end Token

/-- The same lexeme some lines further down, with further characters that do not count.  Only a
newline may stand further to the right. -/
structure Lexeme.Echoes (drops : Char → Bool) (down : Nat) (l m : Lexeme) : Prop where
  token : l.token = m.token.without drops
  gap : l.gap = m.gap.filter fun c => !drops c
  text : l.text = m.text.filter fun c => !drops c
  line : m.position.line = l.position.line + down
  column : l.token ≠ .newline → m.position.column = l.position.column

section

variable {drops : Char → Bool} {down : Nat}

namespace Lexeme.Echoes

variable {l m : Lexeme} (h : l.Echoes drops down m)

include h

theorem token_eq {token : Token} (found : l.token = token) (plain : token.isComment = false) :
    m.token = token :=
  (Token.without_eq_iff plain).1 (h.token.symm.trans found)

theorem token_iff {token : Token} (plain : token.isComment = false) :
    m.token = token ↔ l.token = token := by
  rw [h.token, Token.without_eq_iff plain]

theorem position (other : l.token ≠ .newline) : m.position = l.position.below down := by
  have column := h.column other
  have line := h.line
  unfold Position.below
  rw [← column, ← line]

end Lexeme.Echoes

/-- The lexemes of the same text. -/
abbrev AreEchoed (drops : Char → Bool) (down : Nat) (ls ms : List Lexeme) : Prop :=
  List.Forall₂ (Lexeme.Echoes drops down) ls ms

theorem AreEchoed.spanText {ls ms : List Lexeme} (h : AreEchoed drops down ls ms) :
    spanText ls = (spanText ms).filter fun c => !drops c := by
  have whole {ls ms : List Lexeme} (h : AreEchoed drops down ls ms) :
      (ls.flatMap fun m => m.gap ++ m.text) =
        (ms.flatMap fun m => m.gap ++ m.text).filter fun c => !drops c := by
    induction h with
    | nil => rfl
    | cons here _ ih =>
      simp only [List.flatMap_cons, List.filter_append, ih, here.gap, here.text]
  cases h with
  | nil => rfl
  | cons here more => rw [Go.spanText, Go.spanText, List.filter_append, whole more, here.text]

/-- The text of some lexemes is that of their echo without what does not count. -/
theorem AreEchoed.text {ls ms : List Lexeme} (h : AreEchoed drops down ls ms) :
    String.ofList (Go.spanText ls) = without drops (String.ofList (Go.spanText ms)) := by
  rw [h.spanText, without, String.toList_ofList]

theorem AreEchoed.getLast {ls ms : List Lexeme} (h : AreEchoed drops down ls ms)
    (filled : ls ≠ []) :
    ∃ l m, ls.getLast? = some l ∧ ms.getLast? = some m ∧ l.Echoes drops down m := by
  induction h with
  | nil => exact absurd rfl filled
  | @cons l m ls ms here more ih =>
    cases more with
    | nil => exact ⟨l, m, rfl, rfl, here⟩
    | cons next more =>
      rw [List.getLast?_cons_cons, List.getLast?_cons_cons]
      exact ih (List.cons_ne_nil _ _)

/-- White space that does not count does not matter at the ends of a text. -/
theorem trim_filter (blank : ∀ c, drops c = true → isBlank c = true) (cs : List Char) :
    trim (cs.filter fun c => !drops c) = (trim cs).filter fun c => !drops c := by
  obtain ⟨front, core, behind, rfl, blankFront, blankBehind, head, last⟩ := exists_core isBlank cs
  have stays {c : Char} (plain : isBlank c = false) : (!drops c) = true := by
    cases h : drops c with
    | false => rfl
    | true => rw [blank c h] at plain; cases plain
  have filtered {cs : List Char} (all : ∀ c ∈ cs, isBlank c = true) :
      ∀ c ∈ cs.filter (fun c => !drops c), isBlank c = true :=
    fun c hc => all c (List.mem_of_mem_filter hc)
  rw [trim_eq blankFront blankBehind head last, List.filter_append, List.filter_append]
  refine trim_eq (filtered blankFront) (filtered blankBehind) (fun c hc => ?_) fun c hc => ?_
  · cases core with
    | nil => cases hc
    | cons d ds =>
      rw [List.filter_cons_of_pos (by exact stays (head d rfl))] at hc
      cases hc
      exact head c rfl
  · rcases List.eq_nil_or_concat core with rfl | ⟨ds, d, rfl⟩
    · cases hc
    · rw [List.concat_eq_append] at *
      have plain := last d List.getLast?_concat
      rw [List.filter_append, List.filter_cons_of_pos (by exact stays plain), List.filter_nil,
        List.getLast?_concat] at hc
      cases hc
      exact plain

end

end Go
end FieldRules
