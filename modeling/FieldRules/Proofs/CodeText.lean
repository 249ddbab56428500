/-
What expressions are written as.

The text of an expression is cut into lexemes with their brackets in pairs, if its
names are names and the types in it are written so (`Expr.IsLevel`); an expression
that something may be selected from also ends where a name ends (`Expr.IsPrimary`).
Values of all types are, whatever is in them: text is quoted, and numbers are made of
digits, points, letters and signs.
-/
import FieldRules.Proofs.Balance

namespace FieldRules

/-- A value that is written by itself. -/
def Literal.isSingle : Literal → Bool
  | list _ => false
  | _ => true

namespace Go

open Text

/-! ### Numbers as they are written -/

/-- A text that is made as numbers are. -/
def IsNumeral (text : List Char) : Prop := text ≠ [] ∧ ∀ c ∈ text, isNumeric c = true

section

variable {digits : List Char}

theorem isNumeral_digits (n : Nat) : IsNumeral (toString n).toList := by
  rw [Nat.toString_eq_repr, Nat.toList_repr]
  refine ⟨Nat.toDigits_ne_nil, fun c hc => ?_⟩
  have digit : isAsciiDigit c = true :=
    (Nat.isDigit_of_mem_toDigits (by decide) (by decide) hc : c.isDigit = true)
  simp [isNumeric, continuesNumber, digit]

theorem isNumeral_int (i : Int) : IsNumeral (toString i).toList := by
  cases i with
  | ofNat n => exact isNumeral_digits n
  | negSucc n =>
    rw [show toString (Int.negSucc n) = "-" ++ toString (n + 1) from rfl, String.toList_append]
    exact ⟨List.append_ne_nil_of_left_ne_nil (by decide) _,
      List.forall_mem_append.2 ⟨List.forall_mem_singleton.2 rfl, (isNumeral_digits (n + 1)).2⟩⟩

theorem isNumeral_placePoint (h : ∀ c ∈ digits, isNumeric c = true) (count : Int) :
    IsNumeral (Number.placePoint digits count) := by
  have zeros (n : Nat) : ∀ c ∈ Number.zeros n, isNumeric c = true := by
    intro c hc
    rw [List.eq_of_mem_replicate hc]
    rfl
  unfold Number.placePoint
  split
  · refine ⟨List.cons_ne_nil _ _, ?_⟩
    simp only [List.forall_mem_cons, List.forall_mem_append]
    exact ⟨rfl, rfl, zeros _, h⟩
  · split
    · refine ⟨List.append_ne_nil_of_right_ne_nil _ (List.cons_ne_nil _ _), ?_⟩
      simp only [List.forall_mem_append, List.forall_mem_cons]
      exact ⟨⟨h, zeros _⟩, rfl, rfl, fun _ hc => nomatch hc⟩
    · refine ⟨List.append_ne_nil_of_right_ne_nil _ (List.cons_ne_nil _ _), ?_⟩
      simp only [List.forall_mem_append, List.forall_mem_cons]
      exact ⟨fun c hc => h c (List.mem_of_mem_take hc), rfl,
        fun c hc => h c (List.mem_of_mem_drop hc)⟩

theorem isNumeral_exponential (h : ∀ c ∈ digits, isNumeric c = true) (exponent : Int) :
    IsNumeral (Literal.floatLayout.exponential digits exponent) := by
  have rest : ∀ c ∈ digits.drop 1, isNumeric c = true := fun c hc => h c (List.mem_of_mem_drop hc)
  unfold Number.Layout.exponential
  refine ⟨List.append_ne_nil_of_right_ne_nil _ (List.cons_ne_nil _ _), ?_⟩
  simp only [List.forall_mem_append, List.forall_mem_cons]
  refine ⟨⟨fun c hc => h c (List.mem_of_mem_take hc), ?_⟩, rfl, ?_, (isNumeral_int exponent).2⟩
  · split
    · exact fun _ hc => nomatch hc
    · exact List.forall_mem_cons.2 ⟨rfl, rest⟩
  · exact fun _ hc => nomatch hc

/-- A double is written so, whatever its bits are. -/
theorem isNumeral_float (x : Float) : IsNumeral (Literal.floatLayout.render x).toList := by
  have signed (negative : Bool) {body : List Char} (h : IsNumeral body) :
      IsNumeral ((if negative then ['-'] else []) ++ body) := by
    refine ⟨List.append_ne_nil_of_right_ne_nil _ h.1, List.forall_mem_append.2 ⟨?_, h.2⟩⟩
    split
    · exact List.forall_mem_singleton.2 rfl
    · exact fun _ hc => nomatch hc
  unfold Number.Layout.render
  simp only
  split
  · split
    · exact ⟨by decide, List.all_eq_true.1 (by decide)⟩
    · split
      · exact ⟨by decide, List.all_eq_true.1 (by decide)⟩
      · exact ⟨by decide, List.all_eq_true.1 (by decide)⟩
  · rw [String.toList_ofList]
    refine signed _ ?_
    split
    · exact ⟨by decide, List.all_eq_true.1 (by decide)⟩
    · unfold Number.Layout.magnitude
      simp only
      split
      · exact isNumeral_placePoint (isNumeral_digits _).2 _
      · exact isNumeral_exponential (isNumeral_digits _).2 _

end

/-! ### Expressions -/

theorem levelText_literal {value : Literal} (single : value.isSingle = true) :
    LevelText (Expr.literalText value).toList := by
  have numeral {text : List Char} (h : IsNumeral text) : LevelText text :=
    levelText_numeric h.1 h.2
  cases value with
  | int i => exact numeral (isNumeral_int i)
  | float x => exact numeral (isNumeral_float x)
  | text s =>
    rw [show Expr.literalText (.text s) = quoted s from rfl, quoted, String.toList_ofList]
    exact levelText_quoted s.toList
  | count n => exact numeral (isNumeral_digits n)
  | list items => cases single

/-- A separator leaves the brackets around it in pairs. -/
def Separates (separator : List Char) : Prop :=
  ∀ a b, LevelText a → LevelText b → LevelText (a ++ (separator ++ b))

theorem separates_comma : Separates [',', ' '] := by
  intro a b ha hb
  have behind : LevelText (',' :: ' ' :: b) := .mark rfl rfl hb.space
  exact ha.append behind fun c hc => by cases hc; rfl

theorem separates_operator (op : List Char) (hop : op.all isOperatorChar = true)
    (ordinary : op ≠ [] ∧ op.head? ≠ some '/') : Separates (' ' :: (op ++ [' '])) := by
  intro a b ha hb
  have behind : LevelText (op ++ ' ' :: b) :=
    .operator hop ordinary hb.space fun c hc => by cases hc; rfl
  have text : a ++ (' ' :: (op ++ [' ']) ++ b) = a ++ ' ' :: (op ++ ' ' :: b) := by simp
  rw [text]
  exact ha.spaced behind

theorem Separates.intercalate {separator : List Char} (parts : Separates separator)
    {texts : List (List Char)} (filled : texts ≠ []) (h : ∀ text ∈ texts, LevelText text) :
    LevelText (separator.intercalate texts) := by
  induction texts with
  | nil => exact absurd rfl filled
  | cons text texts ih =>
    obtain ⟨first, more⟩ := List.forall_mem_cons.1 h
    cases texts with
    | nil => simpa [List.intercalate] using first
    | cons second texts =>
      have behind := parts _ _ first (ih (List.cons_ne_nil _ _) more)
      simpa [List.intercalate, List.intersperse] using behind

namespace Expr

/-- The expression is written with its brackets in pairs. -/
def IsLevel (e : Expr) : Prop := LevelText e.render.toList

/-- Something may be selected from the expression. -/
def IsPrimary (e : Expr) : Prop := PrimaryText e.render.toList

section

variable {e left right : Expr} {es : List Expr} {name : String}

theorem IsPrimary.level (h : e.IsPrimary) : e.IsLevel := PrimaryText.level h

theorem isPrimary_name (h : isName name.toList = true) : (Expr.name name).IsPrimary :=
  primaryText_word h

theorem IsPrimary.select (h : e.IsPrimary) (field : isName name.toList = true) :
    (e.select name).IsPrimary := by
  have text : (e.select name).render.toList = e.render.toList ++ '.' :: name.toList := by
    simp [render]
  rw [IsPrimary, text]
  exact PrimaryText.select h field

theorem isPrimary_qualified (package : Package) (h : isName name.toList = true) :
    (Expr.qualified package name).IsPrimary := by
  have base : isName package.baseName.toList = true := by cases package <;> decide
  exact (isPrimary_name base).select h

theorem renderList_toList (separator : String) (es : List Expr) :
    (renderList separator es).toList =
      separator.toList.intercalate (es.map fun e => e.render.toList) := by
  induction es with
  | nil => rfl
  | cons e es ih =>
    cases es with
    | nil => simp [renderList, List.intercalate]
    | cons second es =>
      rw [renderList, String.toList_append, String.toList_append, ih]
      · simp [List.intercalate]
      · exact List.cons_ne_nil _ _

theorem level_renderList {separator : String} (parts : Separates separator.toList) (filled : es ≠ [])
    (h : ∀ e ∈ es, e.IsLevel) : LevelText (renderList separator es).toList := by
  rw [renderList_toList]
  refine parts.intercalate (by simpa using filled) fun text htext => ?_
  obtain ⟨e, he, rfl⟩ := List.mem_map.1 htext
  exact h e he

theorem IsPrimary.call (h : e.IsPrimary) (arguments : ∀ a ∈ es, a.IsLevel) :
    (e.call es).IsPrimary := by
  have text : (e.call es).render.toList =
      e.render.toList ++ '(' :: ((renderList ", " es).toList ++ [')']) := by simp [render]
  rw [IsPrimary, text]
  cases es with
  | nil => exact PrimaryText.call_nil h
  | cons a es =>
    exact PrimaryText.call h (level_renderList separates_comma (List.cons_ne_nil _ _) arguments)

theorem IsPrimary.spread (h : e.IsPrimary) : (Expr.spread e).IsLevel := by
  have text : (Expr.spread e).render.toList = e.render.toList ++ ['.', '.', '.'] := by
    simp [render]
  rw [IsLevel, text]
  exact PrimaryText.spread h

theorem IsPrimary.address (h : e.IsPrimary) : (Expr.address e).IsLevel := by
  have text : (Expr.address e).render.toList = ['&'] ++ e.render.toList := by simp [render]
  have apart := (PrimaryText.apart h []).1
  rw [List.append_nil] at apart
  rw [IsLevel, text]
  exact .operator rfl (by decide) h.level apart

theorem IsPrimary.not (h : e.IsPrimary) : (Expr.not e).IsLevel := by
  have text : (Expr.not e).render.toList = ['!'] ++ e.render.toList := by simp [render]
  have apart := (PrimaryText.apart h []).1
  rw [List.append_nil] at apart
  rw [IsLevel, text]
  exact .operator rfl (by decide) h.level apart

theorem IsLevel.compare (h : left.IsLevel) (h' : right.IsLevel) (comparison : Comparison) :
    (Expr.compare comparison left right).IsLevel := by
  have symbol : Separates (' ' :: (comparison.symbol.toList ++ [' '])) := by
    cases comparison <;> exact separates_operator _ (by decide) (by decide)
  have text : (Expr.compare comparison left right).render.toList = left.render.toList ++
      (' ' :: (comparison.symbol.toList ++ [' ']) ++ right.render.toList) := by simp [render]
  rw [IsLevel, text]
  exact symbol _ _ h h'

theorem isLevel_all (filled : es ≠ []) (h : ∀ e ∈ es, e.IsLevel) : (Expr.all es).IsLevel :=
  level_renderList (separates_operator ['&', '&'] rfl (by decide)) filled h

theorem isLevel_any (filled : es ≠ []) (h : ∀ e ∈ es, e.IsLevel) : (Expr.any es).IsLevel :=
  level_renderList (separates_operator ['|', '|'] rfl (by decide)) filled h

theorem isLevel_literal {value : Literal} (single : value.isSingle = true) :
    (Expr.literal (some value)).IsLevel :=
  levelText_literal single

/-- The zero value of a type that is written in front of a brace. -/
theorem isLevel_zeroOf {type : String} (h : Lexes type.toList (· != '\x7b') IsNested) :
    (Expr.zeroOf type).IsLevel := by
  have text : (Expr.zeroOf type).render.toList =
      '(' :: ((type.toList ++ ['\x7b', '\x7d']) ++ [')']) := by simp [render]
  have braces : Lexes ['\x7b', '\x7d'] (fun _ => false) Go.IsLevel :=
    lexes_brackets rfl rfl rfl rfl
  have inner : Lexes (type.toList ++ ['\x7b', '\x7d']) (fun _ => false) IsNested :=
    h.append braces (fun rest _ c hc => by cases hc; rfl) fun _ _ hls hms => hls.append hms.isNested
  rw [IsLevel, text]
  exact Lexes.enclosed rfl rfl rfl rfl inner (fun _ hls => hls) fun _ _ _ => rfl

end

end Expr

end Go
end FieldRules
