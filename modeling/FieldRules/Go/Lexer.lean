/-
From text to lexemes.

`scan` takes the longest token at the front of a text that starts with no blank.
A run of operator characters is one operator, except that a run of two slashes
at its very start opens a comment, and that a lone `=` and a lone `<-` are
tokens of their own.  `lex` applies it until the text is used up; every lexeme
keeps the blanks before it, so gaps and lexemes together are the text.
-/
import FieldRules.Text.Letter
import FieldRules.Go.Token
import FieldRules.Go.SyntaxError

namespace FieldRules
namespace Go

open Text

def isGap (c : Char) : Bool := c == ' ' || c == '\t' || c == '\r' || c == '\x0c'

def startsName (c : Char) : Bool := isLetter c || c == '_'

def continuesName (c : Char) : Bool := startsName c || isNumber c

def continuesNumber (c : Char) : Bool := isAsciiDigit c || isAsciiLetter c || c == '_'

def isOperatorChar (c : Char) : Bool :=
  c == '-' || c == '+' || c == '/' || c == '%' || c == '&' || c == '|' || c == '^' || c == '<' ||
    c == '>' || c == '!' || c == '~' || c == '=' || c == ':'

/-- A text cut in two behind the delimiter that closes it. -/
structure Cut where
  closed : Bool
  body : List Char
  rest : List Char

namespace Cut

def cons (c : Char) (cut : Cut) : Cut := { cut with body := c :: cut.body }

end Cut

/-- Cuts behind an unescaped quote.  A text that has none on its line is cut before the newline,
or before a backslash with nothing behind it on the line. -/
def cutQuoted (quote : Char) : List Char → Cut
  | [] => ⟨false, [], []⟩
  | [c] =>
    if c = quote then ⟨true, [c], []⟩
    else if c = '\n' ∨ c = '\\' then ⟨false, [], [c]⟩
    else ⟨false, [c], []⟩
  | c :: d :: cs =>
    if c = quote then ⟨true, [c], d :: cs⟩
    else if c = '\n' then ⟨false, [], c :: d :: cs⟩
    else if c = '\\' then
      if d = '\n' then ⟨false, [], c :: d :: cs⟩ else ((cutQuoted quote cs).cons d).cons c
    else (cutQuoted quote (d :: cs)).cons c

def cutRaw : List Char → Cut
  | [] => ⟨false, [], []⟩
  | c :: cs => if c = '\x60' then ⟨true, [c], cs⟩ else (cutRaw cs).cons c

def cutComment : List Char → Cut
  | [] => ⟨false, [], []⟩
  | c :: cs =>
    match c, cs with
    | '*', '/' :: rest => ⟨true, [c, '/'], rest⟩
    | _, _ => (cutComment cs).cons c

structure Scanned where
  token : Token
  text : List Char
  rest : List Char

def scanSingle (token : Token) (c : Char) (cs : List Char) : Except (List Char) Scanned :=
  .ok ⟨token, [c], cs⟩

def scanQuoted (token : List Char → Token) (c : Char) (cut : Cut) : Except (List Char) Scanned :=
  if cut.closed then .ok ⟨token (c :: cut.body), c :: cut.body, cut.rest⟩
  else .error (c :: cut.body)

def scanBlockComment (cs : List Char) : Except (List Char) Scanned :=
  let cut := cutComment cs
  if cut.closed then
    .ok ⟨.blockComment (String.ofList (cut.body.take (cut.body.length - 2))),
      '/' :: '*' :: cut.body, cut.rest⟩
  else .error ['/', '*']

def scanLineComment (cs : List Char) : Except (List Char) Scanned :=
  let text := cs.takeWhile (· != '\n')
  .ok ⟨.lineComment (String.ofList text), '/' :: '/' :: text, cs.dropWhile (· != '\n')⟩

def scanOperator (c : Char) (cs : List Char) : Except (List Char) Scanned :=
  let text := c :: cs.takeWhile isOperatorChar
  let token := if text = ['='] then .assign else if text = ['<', '-'] then .arrow else .operator
  .ok ⟨token, text, cs.dropWhile isOperatorChar⟩

/-- Digits, letters and underscores, with at most one point among them. -/
def scanNumber (c : Char) (cs : List Char) : Except (List Char) Scanned :=
  let whole := cs.takeWhile continuesNumber
  match cs.dropWhile continuesNumber with
  | '.' :: more =>
    .ok ⟨.number, c :: (whole ++ '.' :: more.takeWhile continuesNumber),
      more.dropWhile continuesNumber⟩
  | rest => .ok ⟨.number, c :: whole, rest⟩

def scanName (c : Char) (cs : List Char) : Except (List Char) Scanned :=
  let text := c :: cs.takeWhile continuesName
  .ok ⟨Token.ofWord text, text, cs.dropWhile continuesName⟩

def scanDot (cs : List Char) : Except (List Char) Scanned :=
  match cs with
  | '.' :: '.' :: rest => .ok ⟨.ellipsis, ['.', '.', '.'], rest⟩
  | _ => .ok ⟨.dot, ['.'], cs⟩

/-- The token at the front of `c :: cs`, where `c` is no blank, or the text that starts none. -/
def scan (c : Char) (cs : List Char) : Except (List Char) Scanned :=
  match c with
  | '\n' => scanSingle .newline c cs
  | '\x7b' => scanSingle .leftBrace c cs
  | '\x7d' => scanSingle .rightBrace c cs
  | '(' => scanSingle .leftParen c cs
  | ')' => scanSingle .rightParen c cs
  | '[' => scanSingle .leftBracket c cs
  | ']' => scanSingle .rightBracket c cs
  | ',' => scanSingle .comma c cs
  | ';' => scanSingle .semicolon c cs
  | '*' => scanSingle .star c cs
  | '.' => scanDot cs
  | '"' => scanQuoted (fun text => .string (String.ofList text)) c (cutQuoted c cs)
  | '\'' => scanQuoted (fun _ => .rune) c (cutQuoted c cs)
  | '\x60' => scanQuoted (fun text => .rawString (String.ofList text)) c (cutRaw cs)
  | '/' =>
    match cs with
    | '/' :: more => scanLineComment more
    | '*' :: more => scanBlockComment more
    | _ => scanOperator c cs
  | _ =>
    if isOperatorChar c then scanOperator c cs
    else if isAsciiDigit c then scanNumber c cs
    else if startsName c then scanName c cs
    else .error [c]

/-- Where the lexer stands: the place, and the bytes behind it. -/
structure Spot where
  position : Position
  offset : Nat

namespace Spot

def first : Spot := ⟨Position.first, 0⟩

def advance (spot : Spot) (cs : List Char) : Spot :=
  ⟨spot.position.advance cs, spot.offset + byteLength cs⟩

end Spot

/-- The lexemes of a text that starts at `spot`; `fuel` bounds their number. -/
def lexFrom : Nat → Spot → List Char → Except SyntaxError (List Lexeme)
  | 0, _, _ => .ok []
  | fuel + 1, spot, cs =>
    let gap := cs.takeWhile isGap
    let here := spot.advance gap
    match cs.dropWhile isGap with
    | [] => .ok []
    | c :: more =>
      match scan c more with
      | .error text => .error (.unexpectedCharacter (String.ofList text) here.position)
      | .ok scanned =>
        match lexFrom fuel (here.advance scanned.text) scanned.rest with
        | .error e => .error e
        | .ok lexemes =>
          .ok (⟨gap, scanned.text, scanned.token, here.position, here.offset⟩ :: lexemes)

/-- The lexemes of a source text.  Each takes at least one character, so their number is at most
the length of the text. -/
def lex (source : List Char) : Except SyntaxError (List Lexeme) :=
  lexFrom source.length Spot.first source

end Go
end FieldRules
