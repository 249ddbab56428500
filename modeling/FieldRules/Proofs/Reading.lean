/-
Emitted expressions are read as what they were written for.

`Spells` says which words a piece of text is made of, and is put together piece
by piece: names, whole numbers, quoted strings, operators.  `IsOperand`, `IsTest`
and `IsWhole` say which term the words of a text make up at the three levels of
precedence, and grow with the text.  So a text that was written for a term is
read as that term (`IsWhole.ofText`).
-/
import FieldRules.Proofs.Expressions
import FieldRules.Proofs.Lexemes

namespace FieldRules
namespace Go

open Text Word

/-! ### Quoted strings -/

theorem hexValue?_hexDigit : ∀ n, n < 16 → hexValue? (Quoted.hexDigit n) = some n := by
  decide

/-- Reading a string back takes one encoded character at a time. -/
theorem unquote_encodeChar (c : Char) (rest : List Char) :
    unquote (Quoted.encodeChar c ++ rest) =
      (unquote rest).map fun (text, after) => (c :: text, after) := by
  unfold Quoted.encodeChar
  split
  · next h => subst h; rfl
  split
  · next h => subst h; rfl
  split
  · next h => subst h; rfl
  split
  · next h => subst h; rfl
  split
  · next h => subst h; rfl
  split
  · next h =>
    have low : c.toNat < 0x80 := by omega
    have hhigh := hexValue?_hexDigit (c.toNat / 16) (by omega)
    have hlow := hexValue?_hexDigit (c.toNat % 16) (by omega)
    have whole : 16 * (c.toNat / 16) + c.toNat % 16 = c.toNat := by omega
    have same : Char.ofNat c.toNat = c := Char.ofNat_toNat c
    simp only [List.cons_append, List.nil_append]
    rw [unquote]
    simp only [hhigh, hlow, whole, low, if_true, same]
  · next hquote hslash hnewline _ _ _ =>
    rw [List.singleton_append, unquote.eq_def]
    split
    · next h => cases h
    · next h => cases h; exact absurd rfl hslash
    · next h => cases h; exact absurd rfl hslash
    · next first more _ _ h =>
      cases h
      rw [if_neg hquote, if_neg (by simp [hnewline, hslash])]

theorem unquote_encode (cs rest : List Char) :
    unquote (cs.flatMap Quoted.encodeChar ++ '"' :: rest) = some (cs, rest) := by
  induction cs with
  | nil => rfl
  | cons c cs ih =>
    rw [List.flatMap_cons, List.append_assoc, unquote_encodeChar, ih]
    rfl

/-! ### Digits -/

theorem digitsValue_toDigits (n : Nat) : Number.digitsValue (Nat.toDigits 10 n) = n :=
  Nat.ofDigitChars_ten_toDigits

theorem isDigit_toDigits {n : Nat} {c : Char} (h : c ∈ Nat.toDigits 10 n) :
    Number.isDigit c = true := by
  have digit : c.isDigit = true := Nat.isDigit_of_mem_toDigits (by decide) (by decide) h
  exact digit

/-- No zero is written in front. -/
theorem toDigits_head (n : Nat) (h : (Nat.toDigits 10 n).head? = some '0') :
    Nat.toDigits 10 n = ['0'] := by
  induction n using Nat.strongRecOn with
  | _ n ih =>
    by_cases small : n < 10
    · rw [Nat.toDigits_of_lt_base small] at h ⊢
      rw [Option.some.inj h]
    · have split := Nat.toDigits_of_base_le (b := 10) (by decide) (by omega : 10 ≤ n)
      obtain ⟨first, more, hdigits⟩ := List.exists_cons_of_ne_nil
        (Nat.toDigits_ne_nil : Nat.toDigits 10 (n / 10) ≠ [])
      rw [split, hdigits] at h
      have zero := ih (n / 10) (by omega) (by rw [hdigits]; exact h)
      have value := congrArg Number.digitsValue zero
      rw [digitsValue_toDigits] at value
      have : n / 10 = 0 := value
      omega

theorem ofDigits?_toDigits (n : Nat) : ofDigits? (Nat.toDigits 10 n) = some (.int n) := by
  unfold ofDigits?
  rw [if_neg fun h => h.2 (toDigits_head n h.1), digitsValue_toDigits]

/-! ### Pieces of text -/

/-- The characters that follow a name or a number in emitted code. -/
def isStop (c : Char) : Bool := c == ' ' || c == '.' || c == '(' || c == ')'

def Stops (rest : List Char) : Prop := ∀ c ∈ rest.head?, isStop c = true

theorem isStop_iff {c : Char} : isStop c = true ↔ c = ' ' ∨ c = '.' ∨ c = '(' ∨ c = ')' := by
  simp [isStop, or_assoc]

theorem isStop_name {c : Char} (h : isStop c = true) : continuesName c = false := by
  rcases isStop_iff.1 h with rfl | rfl | rfl | rfl <;> decide +kernel

theorem isStop_digit {c : Char} (h : isStop c = true) : Number.isDigit c = false := by
  rcases isStop_iff.1 h with rfl | rfl | rfl | rfl <;> decide

theorem isStop_operator {c : Char} (h : isStop c = true) : isOperatorChar c = false := by
  rcases isStop_iff.1 h with rfl | rfl | rfl | rfl <;> decide

theorem Stops.nil : Stops [] := fun _ hc => nomatch hc

theorem Stops.cons {c : Char} {rest : List Char} (h : isStop c = true) : Stops (c :: rest) := by
  intro d hd
  cases hd
  exact h

/-- The characters by which a word is told that is neither a name nor a number. -/
def isMark (c : Char) : Bool :=
  isOperatorChar c || c == ' ' || c == '.' || c == '(' || c == ')' || c == '"'

theorem isMark_iff {c : Char} : isMark c = false ↔
    isOperatorChar c = false ∧ c ≠ ' ' ∧ c ≠ '.' ∧ c ≠ '(' ∧ c ≠ ')' ∧ c ≠ '"' := by
  simp [isMark, and_assoc]

theorem isDigit_iff {c : Char} :
    Number.isDigit c = true ↔ ∃ k < 10, c = Char.ofNat (48 + k) := by
  constructor
  · intro h
    unfold Number.isDigit at h
    rw [Bool.and_eq_true, decide_eq_true_iff, decide_eq_true_iff] at h
    have low : 48 ≤ c.toNat := h.1
    have high : c.toNat ≤ 57 := h.2
    refine ⟨c.toNat - 48, by omega, ?_⟩
    rw [show 48 + (c.toNat - 48) = c.toNat by omega, Char.ofNat_toNat]
  · rintro ⟨k, hk, rfl⟩
    have all : ∀ k < 10, Number.isDigit (Char.ofNat (48 + k)) = true := by decide
    exact all k hk

theorem isMark_digit {c : Char} (h : Number.isDigit c = true) : isMark c = false := by
  obtain ⟨k, hk, rfl⟩ := isDigit_iff.1 h
  have all : ∀ k < 10, isMark (Char.ofNat (48 + k)) = false := by decide
  exact all k hk

theorem isDigit_name {c : Char} (h : startsName c = true) : Number.isDigit c = false := by
  rw [Bool.eq_false_iff]
  intro digit
  obtain ⟨k, hk, rfl⟩ := isDigit_iff.1 digit
  have all : ∀ k < 10, startsName (Char.ofNat (48 + k)) = false := by decide +kernel
  rw [all k hk] at h
  cases h

theorem isMark_name {c : Char} (h : startsName c = true) : isMark c = false := by
  rw [Bool.eq_false_iff]
  intro mark
  have all : ['-', '+', '/', '%', '&', '|', '^', '<', '>', '!', '~', '=', ':', ' ', '.', '(', ')',
      '"'].all (fun d => !startsName d) = true := by decide +kernel
  have mem : c ∈ ['-', '+', '/', '%', '&', '|', '^', '<', '>', '!', '~', '=', ':', ' ', '.', '(',
      ')', '"'] := by
    simpa [isMark, isOperatorChar, or_assoc] using mark
  have other := List.all_eq_true.1 all c mem
  rw [h] at other
  cases other

/-- What is not taken any more behind a piece that is. -/
theorem takeWhile_append {p : Char → Bool} {piece rest : List Char} (h : ∀ c ∈ piece, p c = true)
    (stop : ∀ c ∈ rest.head?, p c = false) :
    (piece ++ rest).takeWhile p = piece ∧ (piece ++ rest).dropWhile p = rest := by
  induction piece with
  | nil =>
    cases rest with
    | nil => exact ⟨rfl, rfl⟩
    | cons c rest =>
      have hc : ¬(p c = true) := by rw [stop c rfl]; exact Bool.false_ne_true
      exact ⟨List.takeWhile_cons_of_neg hc, List.dropWhile_cons_of_neg hc⟩
  | cons c piece ih =>
    have hc := h c List.mem_cons_self
    obtain ⟨taken, dropped⟩ := ih fun d hd => h d (List.mem_cons_of_mem _ hd)
    rw [List.cons_append, List.takeWhile_cons_of_pos hc, List.dropWhile_cons_of_pos hc, taken,
      dropped]
    exact ⟨rfl, rfl⟩

/-- The words that a piece of text is made of, whatever stands behind it. -/
def Spells (text : List Char) (words : List Word) : Prop :=
  ∃ n ≤ text.length, ∀ fuel rest, Stops rest →
    wordsFrom (n + fuel) (text ++ rest) = (wordsFrom fuel rest).map (words ++ ·)

namespace Spells

variable {text more : List Char} {words others : List Word}

theorem nil : Spells [] [] := by
  refine ⟨0, Nat.le_refl _, fun fuel rest _ => ?_⟩
  rw [Nat.zero_add, List.nil_append]
  cases wordsFrom fuel rest <;> rfl

theorem append (h : Spells text words) (h' : Spells more others) (stop : Stops more) :
    Spells (text ++ more) (words ++ others) := by
  obtain ⟨n, hn, hwords⟩ := h
  obtain ⟨m, hm, hothers⟩ := h'
  refine ⟨n + m, by rw [List.length_append]; omega, fun fuel rest hrest => ?_⟩
  have behind : Stops (more ++ rest) := by
    cases more with
    | nil => exact hrest
    | cons c more => exact stop
  rw [List.append_assoc, Nat.add_assoc, hwords _ _ behind, hothers _ _ hrest, Option.map_map]
  congr 1
  funext read
  exact (List.append_assoc words others read).symm

/-- One character more that is a word by itself. -/
theorem cons {c : Char} {word : Word} (h : Spells text words)
    (step : ∀ fuel cs, wordsFrom (fuel + 1) (c :: cs) = (wordsFrom fuel cs).map (word :: ·)) :
    Spells (c :: text) (word :: words) := by
  obtain ⟨n, hn, hwords⟩ := h
  refine ⟨n + 1, Nat.succ_le_succ hn, fun fuel rest hrest => ?_⟩
  rw [List.cons_append, Nat.add_right_comm, step, hwords fuel rest hrest, Option.map_map]
  rfl

theorem space (h : Spells text words) : Spells (' ' :: text) words := by
  obtain ⟨n, hn, hwords⟩ := h
  refine ⟨n + 1, Nat.succ_le_succ hn, fun fuel rest hrest => ?_⟩
  rw [List.cons_append, Nat.add_right_comm]
  exact hwords fuel rest hrest

theorem dot (h : Spells text words) : Spells ('.' :: text) (.dot :: words) :=
  h.cons fun _ _ => rfl

theorem leftParen (h : Spells text words) : Spells ('(' :: text) (.leftParen :: words) :=
  h.cons fun _ _ => rfl

theorem rightParen (h : Spells text words) : Spells (')' :: text) (.rightParen :: words) :=
  h.cons fun _ _ => rfl

/-- A run of operator characters, in front of something else. -/
theorem operator {word : Word} (h : Spells text words) (run : List Char)
    (known : ofOperator? run = some word) (all : run.all isOperatorChar = true)
    (ends : ∀ c ∈ text.head?, isOperatorChar c = false) : Spells (run ++ text) (word :: words) := by
  cases run with
  | nil => cases known
  | cons c run =>
    obtain ⟨n, hn, hwords⟩ := h
    refine ⟨n + 1, by simp only [List.length_append, List.length_cons]; omega,
      fun fuel rest hrest => ?_⟩
    have stop : ∀ d ∈ (text ++ rest).head?, isOperatorChar d = false := by
      cases text with
      | nil => exact fun d hd => isStop_operator (hrest d hd)
      | cons d text => exact ends
    rw [List.all_cons, Bool.and_eq_true, List.all_eq_true] at all
    obtain ⟨hc, hrun⟩ := all
    obtain ⟨taken, dropped⟩ := takeWhile_append hrun stop
    have other : ∀ d, isOperatorChar d = false → c ≠ d := by
      intro d hd same
      rw [same, hd] at hc
      cases hc
    rw [List.cons_append, List.cons_append, List.append_assoc, Nat.add_right_comm, wordsFrom,
      if_neg (other ' ' (by decide)), if_neg (other '.' (by decide)),
      if_neg (other '(' (by decide)), if_neg (other ')' (by decide)),
      if_neg (other '"' (by decide)), if_pos hc, taken, dropped,
      known, Option.bind_some, hwords fuel rest hrest, Option.map_map]
    rfl

theorem digits (n : Nat) : Spells (toString n).toList [.int n] := by
  rw [Nat.toString_eq_repr, Nat.toList_repr]
  have digit : ∀ c ∈ Nat.toDigits 10 n, Number.isDigit c = true := fun c hc => isDigit_toDigits hc
  have value := ofDigits?_toDigits n
  cases hdigits : Nat.toDigits 10 n with
  | nil => exact absurd hdigits Nat.toDigits_ne_nil
  | cons c cs =>
    rw [hdigits] at digit value
    refine ⟨1, by simp, fun fuel rest hrest => ?_⟩
    obtain ⟨taken, dropped⟩ := takeWhile_append
      (fun d hd => digit d (List.mem_cons_of_mem _ hd)) fun d hd => isStop_digit (hrest d hd)
    have hc := digit c List.mem_cons_self
    obtain ⟨plain, blank, dot, left, right, quote⟩ := isMark_iff.1 (isMark_digit hc)
    rw [List.cons_append, Nat.add_comm, wordsFrom, if_neg blank, if_neg dot, if_neg left,
      if_neg right, if_neg quote, if_neg (by rw [plain]; exact Bool.false_ne_true), if_pos hc,
      taken, dropped, value]
    rfl

theorem name {name : String} (h : isName name.toList = true) : Spells name.toList [.name name] := by
  cases hname : name.toList with
  | nil => rw [hname] at h; cases h
  | cons c cs =>
    rw [hname, isName, Bool.and_eq_true, List.all_eq_true] at h
    obtain ⟨hc, hcs⟩ := h
    refine ⟨1, by simp, fun fuel rest hrest => ?_⟩
    obtain ⟨taken, dropped⟩ := takeWhile_append hcs fun d hd => isStop_name (hrest d hd)
    obtain ⟨plain, blank, dot, left, right, quote⟩ := isMark_iff.1 (isMark_name hc)
    have word : String.ofList (c :: cs) = name := by rw [← hname, String.ofList_toList]
    rw [List.cons_append, Nat.add_comm, wordsFrom, if_neg blank, if_neg dot, if_neg left,
      if_neg right, if_neg quote, if_neg (by rw [plain]; exact Bool.false_ne_true),
      if_neg (by rw [isDigit_name hc]; exact Bool.false_ne_true), if_pos hc, taken, dropped, word]
    rfl

theorem string (s : String) : Spells (quoted s).toList [.string s] := by
  have text : (quoted s).toList = '"' :: (s.toList.flatMap Quoted.encodeChar ++ ['"']) := by
    unfold quoted Quoted.encode
    rw [String.toList_ofList]
  rw [text]
  refine ⟨1, by simp, fun fuel rest _ => ?_⟩
  rw [List.cons_append, List.append_assoc, Nat.add_comm, wordsFrom, if_neg (by decide),
    if_neg (by decide), if_neg (by decide), if_neg (by decide), if_pos rfl, List.singleton_append,
    unquote_encode, Option.bind_some]
  show Option.map (Word.string (String.ofList s.toList) :: ·) _ = _
  rw [String.ofList_toList]
  rfl

/-- A text is its words when it ends there. -/
theorem wordsOf (h : Spells text words) : wordsOf text = some words := by
  obtain ⟨n, hn, hwords⟩ := h
  have all := hwords (text.length - n) [] Stops.nil
  rw [List.append_nil, Nat.add_sub_cancel' hn] at all
  unfold Word.wordsOf
  rw [all]
  cases text.length - n <;> simp [wordsFrom]

end Spells

/-! ### Terms -/

/-- Nothing is selected or called behind an operand. -/
def EndsOperand (rest : List Word) : Prop := ∀ w ∈ rest.head?, w ≠ .dot ∧ w ≠ .leftParen

def EndsTest (rest : List Word) : Prop := ∀ w ∈ rest.head?, w = .and ∨ w = .rightParen

def EndsWhole (rest : List Word) : Prop := ∀ w ∈ rest.head?, w = .rightParen

theorem EndsTest.endsOperand {rest : List Word} (h : EndsTest rest) : EndsOperand rest := by
  intro w hw
  rcases h w hw with rfl | rfl <;> exact ⟨Word.noConfusion, Word.noConfusion⟩

theorem EndsWhole.endsTest {rest : List Word} (h : EndsWhole rest) : EndsTest rest :=
  fun w hw => Or.inr (h w hw)

/-- The words of the text are read as an operand, whatever ends it. -/
def IsOperand (text : String) (t : Term) : Prop :=
  ∃ words, Spells text.toList words ∧ ∀ fuel rest, EndsOperand rest →
    2 * words.length ≤ fuel + 1 → Term.unary fuel (words ++ rest) = some (t, rest)

/-- The words of the text are read as an operand or as two that are compared. -/
def IsTest (text : String) (t : Term) : Prop :=
  ∃ words, Spells text.toList words ∧ ∀ fuel rest, EndsTest rest →
    2 * words.length ≤ fuel + 1 →
      Term.comparison (Term.unary fuel) (words ++ rest) = some (t, rest)

/-- The words of the text are read as an expression of any form. -/
def IsWhole (text : String) (t : Term) : Prop :=
  ∃ words, Spells text.toList words ∧ ∀ fuel rest, EndsWhole rest →
    2 * words.length ≤ fuel → Term.conjunction fuel (words ++ rest) = some (t, rest)

def selection (first : String) (names : List String) : String :=
  names.foldl (fun text name => text ++ "." ++ name) first

theorem selection_toList (first : String) (names : List String) :
    ∃ tail, (selection first names).toList = first.toList ++ tail := by
  induction names generalizing first with
  | nil => exact ⟨[], (List.append_nil _).symm⟩
  | cons name names ih =>
    obtain ⟨tail, htail⟩ := ih (first ++ "." ++ name)
    refine ⟨".".toList ++ name.toList ++ tail, ?_⟩
    rw [String.toList_append, String.toList_append, List.append_assoc, List.append_assoc] at htail
    rw [List.append_assoc]
    exact htail

def selectionWords (names : List String) : List Word := names.flatMap fun n => [.dot, .name n]

theorem Spells.selection {first : String} {words : List Word} (h : Spells first.toList words)
    {names : List String} (hnames : ∀ name ∈ names, isName name.toList = true) :
    Spells (selection first names).toList (words ++ selectionWords names) := by
  induction names generalizing first words with
  | nil =>
    rw [selectionWords, List.flatMap_nil, List.append_nil]
    exact h
  | cons name names ih =>
    have step : Spells (first ++ "." ++ name).toList (words ++ [.dot, .name name]) := by
      have selected := (Spells.name (hnames name List.mem_cons_self)).dot
      have joined := h.append selected (Stops.cons rfl)
      rw [String.toList_append, String.toList_append, List.append_assoc]
      exact joined
    have more := ih step fun n hn => hnames n (List.mem_cons_of_mem _ hn)
    rw [List.append_assoc] at more
    exact more

theorem selectors_selectionWords (names : List String) (rest : List Word)
    (h : ∀ w ∈ rest.head?, w ≠ .dot) :
    Term.selectors (selectionWords names ++ rest) = (names, rest) := by
  induction names with
  | nil =>
    rw [selectionWords, List.flatMap_nil, List.nil_append]
    unfold Term.selectors
    split
    · exact absurd rfl (h .dot rfl)
    · rfl
  | cons name names ih =>
    have step : selectionWords (name :: names) ++ rest =
        .dot :: .name name :: (selectionWords names ++ rest) := rfl
    rw [step, Term.selectors, ih]

namespace IsOperand

variable {source : String} {t : Term}

theorem path {first : String} {names : List String} (hfirst : isName first.toList = true)
    (hnames : ∀ name ∈ names, isName name.toList = true) :
    IsOperand (selection first names) (.path (first :: names)) := by
  refine ⟨_, (Spells.name hfirst).selection hnames, fun fuel rest ends enough => ?_⟩
  cases fuel with
  | zero =>
    rw [List.length_append, List.length_singleton] at enough
    omega
  | succ fuel =>
    have selected := selectors_selectionWords names rest fun w hw => (ends w hw).1
    rw [List.singleton_append, List.cons_append, Term.unary, selected]
    cases rest with
    | nil => rfl
    | cons w rest =>
      have opens := (ends w rfl).2
      cases w <;> first | rfl | exact absurd rfl opens

theorem call (first : String) (names : List String) (hfirst : isName first.toList = true)
    (hnames : ∀ name ∈ names, isName name.toList = true) (h : IsWhole source t) :
    IsOperand (selection first names ++ "(" ++ source ++ ")") (.call (first :: names) t) := by
  obtain ⟨words, hwords, hread⟩ := h
  have argument :
      Spells ('(' :: (source.toList ++ [')'])) (.leftParen :: (words ++ [.rightParen])) :=
    (hwords.append Spells.nil.rightParen (Stops.cons rfl)).leftParen
  have whole := ((Spells.name hfirst).selection hnames).append argument (Stops.cons rfl)
  refine ⟨[.name first] ++ selectionWords names ++ .leftParen :: (words ++ [.rightParen]), ?_,
    fun fuel rest ends enough => ?_⟩
  · rw [String.toList_append, String.toList_append, String.toList_append, List.append_assoc,
      List.append_assoc]
    exact whole
  · simp only [List.length_append, List.length_cons] at enough
    cases fuel with
    | zero => omega
    | succ fuel =>
      have selected := selectors_selectionWords names
        (.leftParen :: (words ++ .rightParen :: rest)) fun w hw => by
          cases hw
          exact Word.noConfusion
      have inside := hread fuel (.rightParen :: rest) (fun w hw => by cases hw; rfl) (by omega)
      rw [List.singleton_append, List.cons_append, List.cons_append, List.append_assoc,
        List.cons_append, List.append_assoc, List.singleton_append, Term.unary, selected]
      show (Term.closed (Term.conjunction fuel (words ++ .rightParen :: rest))).map _ = _
      rw [inside]
      rfl

theorem not (h : IsOperand source t) (ends : ∀ c ∈ source.toList.head?, isOperatorChar c = false) :
    IsOperand ("!" ++ source) (.not t) := by
  obtain ⟨words, hwords, hread⟩ := h
  refine ⟨.not :: words, ?_, fun fuel rest hrest enough => ?_⟩
  · rw [String.toList_append]
    exact hwords.operator ['!'] rfl rfl ends
  · rw [List.length_cons] at enough
    cases fuel with
    | zero => omega
    | succ fuel =>
      rw [List.cons_append, Term.unary, hread fuel rest hrest (by omega)]
      rfl

theorem count (n : Nat) : IsOperand (toString n) (.int n) := by
  refine ⟨_, Spells.digits n, fun fuel rest _ enough => ?_⟩
  cases fuel with
  | zero =>
    rw [List.length_singleton] at enough
    omega
  | succ fuel => rfl

theorem int (value : Int) : IsOperand (toString value) (.int value) := by
  cases value with
  | ofNat n => exact count n
  | negSucc n =>
    have written : toString (Int.negSucc n) = "-" ++ toString (n + 1) := rfl
    have first : ∀ c ∈ (toString (n + 1)).toList.head?, isOperatorChar c = false := by
      intro c hc
      rw [Nat.toString_eq_repr, Nat.toList_repr] at hc
      exact (isMark_iff.1 (isMark_digit (isDigit_toDigits (List.mem_of_mem_head? hc)))).1
    refine ⟨[.minus, .int (n + 1)], ?_, fun fuel rest _ enough => ?_⟩
    · rw [written, String.toList_append]
      exact (Spells.digits (n + 1)).operator ['-'] rfl rfl first
    · cases fuel with
      | zero =>
        rw [List.length_cons, List.length_singleton] at enough
        omega
      | succ fuel => rfl

theorem text (s : String) : IsOperand (quoted s) (.text s) := by
  refine ⟨_, Spells.string s, fun fuel rest _ enough => ?_⟩
  cases fuel with
  | zero =>
    rw [List.length_singleton] at enough
    omega
  | succ fuel => rfl

theorem test (h : IsOperand source t) : IsTest source t := by
  obtain ⟨words, hwords, hread⟩ := h
  refine ⟨words, hwords, fun fuel rest ends enough => ?_⟩
  rw [Term.comparison, hread fuel rest ends.endsOperand enough]
  cases rest with
  | nil => rfl
  | cons w rest => rcases ends w rfl with rfl | rfl <;> rfl

theorem compare {left right : String} {a b : Term} (h : IsOperand left a) (h' : IsOperand right b)
    (c : Comparison) : IsTest (left ++ " " ++ c.symbol ++ " " ++ right) (.compare c a b) := by
  obtain ⟨words, hwords, hread⟩ := h
  obtain ⟨others, hothers, hread'⟩ := h'
  refine ⟨words ++ .comparison c :: others, ?_, fun fuel rest ends enough => ?_⟩
  · have known : ofOperator? c.symbol.toList = some (.comparison c) := by cases c <;> decide
    have all : c.symbol.toList.all isOperatorChar = true := by cases c <;> rfl
    have behind := (hothers.space.operator _ known all fun d hd => by cases hd; decide).space
    have joined := hwords.append behind (Stops.cons rfl)
    simp only [String.toList_append, List.append_assoc]
    exact joined
  · rw [List.length_append, List.length_cons] at enough
    have first := hread fuel (.comparison c :: (others ++ rest))
      (fun w hw => by cases hw; exact ⟨Word.noConfusion, Word.noConfusion⟩) (by omega)
    have second := hread' fuel rest ends.endsOperand (by omega)
    rw [List.append_assoc, List.cons_append, Term.comparison, first]
    show (Term.unary fuel (others ++ rest)).map _ = _
    rw [second]
    rfl

end IsOperand

namespace IsTest

variable {text : String} {t : Term}

theorem whole (h : IsTest text t) : IsWhole text t := by
  obtain ⟨words, hwords, hread⟩ := h
  refine ⟨words, hwords, fun fuel rest ends enough => ?_⟩
  cases fuel with
  | zero =>
    have empty := hread 0 [] (fun _ hw => nomatch hw) (by omega)
    cases empty
  | succ fuel =>
    rw [Term.conjunction, hread fuel rest ends.endsTest (by omega)]
    cases rest with
    | nil => rfl
    | cons w rest => rw [ends w rfl]

theorem and {left right : String} {a b : Term} (h : IsTest left a) (h' : IsWhole right b) :
    IsWhole (left ++ " && " ++ right) (.and a b) := by
  obtain ⟨words, hwords, hread⟩ := h
  obtain ⟨others, hothers, hread'⟩ := h'
  refine ⟨words ++ .and :: others, ?_, fun fuel rest ends enough => ?_⟩
  · have behind := (hothers.space.operator ['&', '&'] rfl rfl
      fun d hd => by cases hd; decide).space
    have joined := hwords.append behind (Stops.cons rfl)
    rw [String.toList_append, String.toList_append, List.append_assoc]
    exact joined
  · rw [List.length_append, List.length_cons] at enough
    cases fuel with
    | zero => omega
    | succ fuel =>
      have first := hread fuel (.and :: (others ++ rest))
        (fun w hw => by cases hw; exact Or.inl rfl) (by omega)
      rw [List.append_assoc, List.cons_append, Term.conjunction, first]
      show (Term.conjunction fuel (others ++ rest)).map _ = _
      rw [hread' fuel rest ends (by omega)]
      rfl

end IsTest

/-- A text that was written for a term is read as that term. -/
theorem IsWhole.ofText {text : String} {t : Term} (h : IsWhole text t) :
    Term.ofText text = some t := by
  obtain ⟨words, hwords, hread⟩ := h
  have all := hread (2 * words.length) [] (fun _ hw => nomatch hw) (Nat.le_refl _)
  rw [List.append_nil] at all
  rw [Term.ofText, hwords.wordsOf, Option.bind_some, Term.ofWords, all]

example : Term.ofText "t.A.B != \"x\\ty\" && !t.C" =
    some (.and (.compare .notEqual (.path ["t", "A", "B"]) (.text "x\ty"))
      (.not (.path ["t", "C"]))) := by decide +kernel

end Go
end FieldRules
