/-
What conditions written in Go mean.

The text of an expression is cut into words, the words are put together by
precedence, and the term is evaluated over what `t.<path>` reads.  Covered are
selections of fields, whole numbers in base ten, interpreted strings, `nil`,
conversions to `string`, the number of runes of a string, comparisons, `!` and
`&&`.  What is not covered has no meaning, and neither has an evaluation that
follows a nil pointer.  Whole numbers are compared exactly, and the second operand
of `&&` is evaluated only where the first is true.
-/
import FieldRules.Go.Code
import FieldRules.Go.Lexer
import FieldRules.Number.Numeral

namespace FieldRules
namespace Go

/-! ### Words -/

inductive Word where
  | name (text : String)
  | int (value : Nat)
  | string (value : String)
  | comparison (comparison : Comparison)
  | and
  | not
  | minus
  | dot
  | leftParen
  | rightParen
  deriving DecidableEq, Repr

namespace Word

def hexValue? (c : Char) : Option Nat :=
  if '0' ≤ c ∧ c ≤ '9' then some (c.toNat - '0'.toNat)
  else if 'a' ≤ c ∧ c ≤ 'f' then some (c.toNat - 'a'.toNat + 10)
  else if 'A' ≤ c ∧ c ≤ 'F' then some (c.toNat - 'A'.toNat + 10)
  else none

/-- What a character means behind a backslash in a string. -/
def escape? : Char → Option Char
  | 'a' => some '\x07'
  | 'b' => some '\x08'
  | 'f' => some '\x0c'
  | 'n' => some '\n'
  | 'r' => some '\r'
  | 't' => some '\t'
  | 'v' => some '\x0b'
  | '\\' => some '\\'
  | '"' => some '"'
  | _ => none

/-- The text that an interpreted string denotes, read behind its opening quote, and what follows its
closing quote.  A byte given by two digits counts where it is a character by itself. -/
def unquote : List Char → Option (List Char × List Char)
  | [] => none
  | '\\' :: 'x' :: high :: low :: rest =>
    match hexValue? high, hexValue? low with
    | some h, some l =>
      if 16 * h + l < 0x80 then
        (unquote rest).map fun (text, after) => (Char.ofNat (16 * h + l) :: text, after)
      else none
    | _, _ => none
  | '\\' :: c :: rest =>
    match escape? c with
    | some meant => (unquote rest).map fun (text, after) => (meant :: text, after)
    | none => none
  | c :: rest =>
    if c = '"' then some ([], rest)
    else if c = '\n' ∨ c = '\\' then none
    else (unquote rest).map fun (text, after) => (c :: text, after)

/-- The word of a run of operator characters. -/
def ofOperator? : List Char → Option Word
  | ['=', '='] => some (.comparison .equal)
  | ['!', '='] => some (.comparison .notEqual)
  | ['<'] => some (.comparison .less)
  | ['<', '='] => some (.comparison .lessEqual)
  | ['>'] => some (.comparison .greater)
  | ['>', '='] => some (.comparison .greaterEqual)
  | ['&', '&'] => some .and
  | ['!'] => some .not
  | ['-'] => some .minus
  | _ => none

/-- The number that some digits write; a zero in front would make them octal. -/
def ofDigits? (digits : List Char) : Option Word :=
  if digits.head? = some '0' ∧ digits ≠ ['0'] then none
  else some (.int (Number.digitsValue digits))

/-- The words of a text; `fuel` bounds their number and that of the blanks. -/
def wordsFrom : Nat → List Char → Option (List Word)
  | _, [] => some []
  | 0, _ :: _ => none
  | fuel + 1, c :: cs =>
    if c = ' ' then wordsFrom fuel cs
    else if c = '.' then (wordsFrom fuel cs).map (.dot :: ·)
    else if c = '(' then (wordsFrom fuel cs).map (.leftParen :: ·)
    else if c = ')' then (wordsFrom fuel cs).map (.rightParen :: ·)
    else if c = '"' then
      (unquote cs).bind fun (text, rest) =>
        (wordsFrom fuel rest).map (.string (String.ofList text) :: ·)
    else if isOperatorChar c then
      (ofOperator? (c :: cs.takeWhile isOperatorChar)).bind fun word =>
        (wordsFrom fuel (cs.dropWhile isOperatorChar)).map (word :: ·)
    else if Number.isDigit c then
      (ofDigits? (c :: cs.takeWhile Number.isDigit)).bind fun word =>
        (wordsFrom fuel (cs.dropWhile Number.isDigit)).map (word :: ·)
    else if startsName c then
      (wordsFrom fuel (cs.dropWhile continuesName)).map
        (.name (String.ofList (c :: cs.takeWhile continuesName)) :: ·)
    else none

def wordsOf (text : List Char) : Option (List Word) := wordsFrom text.length text

end Word

/-! ### Terms -/

inductive Term where
  /-- A name and what is selected from it in turn. -/
  | path (names : List String)
  | int (value : Int)
  | text (value : String)
  | call (function : List String) (argument : Term)
  | not (operand : Term)
  | compare (comparison : Comparison) (left right : Term)
  | and (left right : Term)
  deriving DecidableEq, Repr

namespace Term

/-- The selections at the front of some words. -/
def selectors : List Word → List String × List Word
  | .dot :: .name field :: rest => (field :: (selectors rest).1, (selectors rest).2)
  | words => ([], words)

/-- Takes the closing parenthesis behind a term. -/
def closed : Option (Term × List Word) → Option (Term × List Word)
  | some (t, .rightParen :: rest) => some (t, rest)
  | _ => none

/-- One operand, or two that are compared. -/
def comparison (operand : List Word → Option (Term × List Word)) (words : List Word) :
    Option (Term × List Word) :=
  match operand words with
  | some (left, .comparison c :: more) =>
    (operand more).map fun (right, rest) => (compare c left right, rest)
  | found => found

mutual

/-- An operand with the operators before it and the calls and selections behind it. -/
def unary : Nat → List Word → Option (Term × List Word)
  | 0, _ => none
  | fuel + 1, words =>
    match words with
    | .int n :: rest => some (int n, rest)
    | .minus :: .int n :: rest => some (int (-n), rest)
    | .string s :: rest => some (text s, rest)
    | .not :: rest => (unary fuel rest).map fun (t, rest) => (not t, rest)
    | .leftParen :: rest => closed (conjunction fuel rest)
    | .name n :: rest =>
      match (selectors rest).2 with
      | .leftParen :: inside =>
        (closed (conjunction fuel inside)).map fun (t, after) =>
          (call (n :: (selectors rest).1) t, after)
      | after => some (path (n :: (selectors rest).1), after)
    | _ => none

/-- Comparisons that are joined by `&&`. -/
def conjunction : Nat → List Word → Option (Term × List Word)
  | 0, _ => none
  | fuel + 1, words =>
    match comparison (unary fuel) words with
    | some (left, .and :: more) =>
      (conjunction fuel more).map fun (right, rest) => (and left right, rest)
    | found => found

end

/-- The term that some words make up; twice their number bounds the nesting. -/
def ofWords (words : List Word) : Option Term :=
  match conjunction (2 * words.length) words with
  | some (t, []) => some t
  | _ => none

def ofText (text : String) : Option Term := (Word.wordsOf text.toList).bind ofWords

end Term

/-! ### Values -/

/-- What an expression evaluates to. -/
inductive Datum where
  | int (value : Int)
  | text (value : String)
  | bool (value : Bool)
  | pointer (isNil : Bool)
  | nil
  deriving DecidableEq, Repr

namespace Comparison

def ofInts (a b : Int) : Comparison → Bool
  | equal => a == b
  | notEqual => a != b
  | less => decide (a < b)
  | lessEqual => decide (a ≤ b)
  | greater => decide (b < a)
  | greaterEqual => decide (b ≤ a)

/-- The comparison of values that are equal or not and have no order. -/
def ofEquality (same : Bool) : Comparison → Option Bool
  | equal => some same
  | notEqual => some !same
  | _ => none

end Comparison

/-- A comparison of two values of one type, or of a pointer with `nil`. -/
def Datum.compare (c : Comparison) : Datum → Datum → Option Bool
  | int a, int b => some (c.ofInts a b)
  | text a, text b => c.ofEquality (a == b)
  | bool a, bool b => c.ofEquality (a == b)
  | pointer isNil, nil => c.ofEquality isNil
  | nil, pointer isNil => c.ofEquality isNil
  | _, _ => none

/-- The value of a term, where `memory` gives what `t` holds under some field names. -/
def Term.eval (memory : List String → Option Datum) : Term → Option Datum
  | path ["nil"] => some .nil
  | path ("t" :: fields) => memory fields
  | path _ => none
  | int value => some (.int value)
  | text value => some (.text value)
  | call ["string"] t =>
    match t.eval memory with
    | some (.text s) => some (.text s)
    | _ => none
  | call ["utf8", "RuneCountInString"] t =>
    match t.eval memory with
    | some (.text s) => some (.int s.toList.length)
    | _ => none
  | call _ _ => none
  | not t =>
    match t.eval memory with
    | some (.bool b) => some (.bool !b)
    | _ => none
  | compare c left right =>
    match left.eval memory, right.eval memory with
    | some a, some b => (Datum.compare c a b).map .bool
    | _, _ => none
  | and left right =>
    match left.eval memory with
    | some (.bool true) =>
      match right.eval memory with
      | some (.bool b) => some (.bool b)
      | _ => none
    | some (.bool false) => some (.bool false)
    | _ => none

def meaning (memory : List String → Option Datum) (text : String) : Option Datum :=
  (Term.ofText text).bind (Term.eval memory)

/-- Whether all tests of nested statements hold, the outermost first; none if one of them that is
made has no truth value. -/
def passes (memory : List String → Option Datum) : List String → Option Bool
  | [] => some true
  | test :: tests =>
    match meaning memory test with
    | some (.bool true) => passes memory tests
    | some (.bool false) => some false
    | _ => none

end Go
end FieldRules
