/-
Tokens of Go source text, as far as declarations need them.

Newlines and comments are tokens: newlines end fields, and blank lines part
groups of comments.  Operators are never interpreted and share one token.
-/
import FieldRules.Text.Bytes
import FieldRules.Text.Position

namespace FieldRules
namespace Go

open Text

inductive Token where
  | newline
  /-- The text behind the two slashes. -/
  | lineComment (text : String)
  /-- The text between the delimiters. -/
  | blockComment (text : String)
  | package
  | imports
  | type
  | struct
  | interface
  | map
  | chan
  | func
  | identifier (name : String)
  /-- An interpreted string with its quotes. -/
  | string (quoted : String)
  /-- A raw string with its quotes. -/
  | rawString (quoted : String)
  | rune
  | number
  | leftBrace
  | rightBrace
  | leftParen
  | rightParen
  | leftBracket
  | rightBracket
  | comma
  | semicolon
  | dot
  | ellipsis
  | star
  | assign
  | arrow
  | operator
  deriving DecidableEq, Repr

namespace Token

def isComment : Token → Bool
  | lineComment _ => true
  | blockComment _ => true
  | _ => false

def isTrivia (t : Token) : Bool := t == newline || t.isComment

def isOpening : Token → Bool
  | leftBrace => true
  | leftParen => true
  | leftBracket => true
  | _ => false

def isClosing : Token → Bool
  | rightBrace => true
  | rightParen => true
  | rightBracket => true
  | _ => false

/-- The token of a word: a keyword or an identifier. -/
def ofWord (word : List Char) : Token :=
  match String.ofList word with
  | "package" => package
  | "import" => imports
  | "type" => type
  | "struct" => struct
  | "interface" => interface
  | "map" => map
  | "chan" => chan
  | "func" => func
  | name => identifier name

/-- The text that a token carries along. -/
def payload? : Token → Option String
  | lineComment text => some text
  | blockComment text => some text
  | identifier name => some name
  | string quoted => some quoted
  | rawString quoted => some quoted
  | _ => none

end Token

/-- A token in its place: the blanks in front of it and the characters it is made of. -/
structure Lexeme where
  gap : List Char
  text : List Char
  token : Token
  position : Position
  /-- Bytes before its first character. -/
  start : Nat
  deriving DecidableEq, Repr

namespace Lexeme

/-- Bytes before the character behind it. -/
def stop (l : Lexeme) : Nat := l.start + byteLength l.text

end Lexeme

/-- The source text from the first of some neighbouring lexemes to the last. -/
def spanText : List Lexeme → List Char
  | [] => []
  | l :: ls => l.text ++ ls.flatMap fun m => m.gap ++ m.text

end Go
end FieldRules
