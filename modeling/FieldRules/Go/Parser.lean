/-
From lexemes to declarations.

Only the package clause and type declarations are read; anything else at the top
level is passed over up to the end of its line, counting brackets.  Newlines end
fields and declarations.  A comment group belongs to the declaration directly
below it: a blank line or a `;` parts them, and a comment that shares its line
with the token before it belongs to that token.

Types nest, so their readers take a bound on the depth of nesting.  Every level
of nesting takes a token, and twice the number of tokens left covers a level of
types and a level of fields for each; with no bound left there is no token left
either, and the answer is that the text has ended.
-/
import FieldRules.Text.Blank
import FieldRules.Text.Escaped
import FieldRules.Go.Lexer
import FieldRules.Go.SourceFile

namespace FieldRules
namespace Go

open Text

/-- Between two lexemes: the one just taken, and those that follow. -/
structure Place where
  previous : Option Lexeme
  rest : List Lexeme

abbrev Parser := StateT Place (Except SyntaxError)

namespace Place

/-- The line of the lexeme just taken, unless it is a newline or a comment. -/
def previousLine? (place : Place) : Option Nat :=
  match place.previous with
  | some l => if l.token.isTrivia then none else some l.position.line
  | none => none

def peek? (place : Place) : Option Token := place.rest.head?.map (·.token)

def peekSecond? (place : Place) : Option Token := (place.rest.drop 1).head?.map (·.token)

/-- Moves past some lexemes, of which the rest is a tail. -/
def moveTo (place : Place) (taken rest : List Lexeme) : Place :=
  match taken.getLast? with
  | some l => ⟨some l, rest⟩
  | none => ⟨place.previous, rest⟩

def takenSince (earlier place : Place) : List Lexeme :=
  earlier.rest.take (earlier.rest.length - place.rest.length)

end Place

/-! ### Comments -/

/-- What is known about the comments before a declaration: the group so far, last first, the
newlines since the last comment, and the line whose comments belong to the token before. -/
structure CommentGroup where
  comments : List Comment
  newlines : Nat
  sharedLine : Option Nat

namespace CommentGroup

def newline (g : CommentGroup) : CommentGroup :=
  ⟨if 2 ≤ g.newlines + 1 then [] else g.comments, g.newlines + 1, none⟩

def semicolon (g : CommentGroup) : CommentGroup := ⟨[], 0, g.sharedLine⟩

def comment (g : CommentGroup) (text : String) (position : Position) : CommentGroup :=
  ⟨if g.sharedLine = some position.line then g.comments else ⟨text, position⟩ :: g.comments, 0,
    g.sharedLine⟩

/-- Takes one lexeme, if it is a newline, a `;` or a comment. -/
def take? (g : CommentGroup) (l : Lexeme) : Option CommentGroup :=
  match l.token with
  | .newline => some g.newline
  | .semicolon => some g.semicolon
  | .lineComment text => some (g.comment text l.position)
  | .blockComment text => some (g.comment text l.position)
  | _ => none

/-- The group at the first lexeme that is none of these, and the place before that lexeme. -/
def collect (g : CommentGroup) (previous : Option Lexeme) : List Lexeme → CommentGroup × Place
  | [] => (g, ⟨previous, []⟩)
  | l :: ls =>
    match g.take? l with
    | some next => next.collect (some l) ls
    | none => (g, ⟨previous, l :: ls⟩)

end CommentGroup

/-! ### Brackets -/

/-- The lexemes from an opening bracket to the one that closes it, and what follows. -/
def takeGroup : Nat → List Lexeme → Option (List Lexeme × List Lexeme)
  | _, [] => none
  | depth, l :: ls =>
    if l.token.isClosing ∧ depth ≤ 1 then some ([l], ls)
    else
      let inner := if l.token.isOpening then depth + 1
        else if l.token.isClosing then depth - 1 else depth
      (takeGroup inner ls).map fun (taken, rest) => (l :: taken, rest)

/-- The lexemes before the `]` that ends an array length. -/
def takeLength : Nat → List Lexeme → Option (List Lexeme × List Lexeme)
  | _, [] => none
  | depth, l :: ls =>
    if l.token = .rightBracket ∧ depth = 0 then some ([], l :: ls)
    else
      let inner := if l.token = .leftBracket ∨ l.token = .leftParen then depth + 1
        else if l.token = .rightBracket ∨ l.token = .rightParen then depth - 1 else depth
      (takeLength inner ls).map fun (taken, rest) => (l :: taken, rest)

/-- Passes over a declaration: up to the first newline or `;` outside of brackets. -/
def passDeclaration (depth : Nat) (previous : Option Lexeme) : List Lexeme → Place
  | [] => ⟨previous, []⟩
  | l :: ls =>
    if (l.token = .newline ∨ l.token = .semicolon) ∧ depth = 0 then ⟨some l, ls⟩
    else
      let inner := if l.token.isOpening then depth + 1
        else if l.token.isClosing then depth - 1 else depth
      passDeclaration inner (some l) ls

namespace Parser

/-! ### Single tokens -/

def peek : Parser (Option Token) := fun place => .ok (place.peek?, place)

def peekSecond : Parser (Option Token) := fun place => .ok (place.peekSecond?, place)

def advance : Parser Unit := fun place =>
  match place.rest with
  | [] => .ok ((), place)
  | l :: ls => .ok ((), ⟨some l, ls⟩)

def missing {α : Type} (wanted : Wanted) : Parser α := fun place =>
  match place.rest with
  | [] => .error (.unexpectedEnd wanted)
  | l :: _ => .error (.unexpected wanted (String.ofList (escaped l.text)) l.position)

def accept (token : Token) : Parser Bool := do
  if (← peek) = some token then do
    advance
    pure true
  else pure false

def expect (token : Token) (wanted : Wanted) : Parser Unit := do
  if ← accept token then pure () else missing wanted

def identifier (wanted : Wanted) : Parser (String × Position) := fun place =>
  match place.rest with
  | l :: ls =>
    match l.token with
    | .identifier name => .ok ((name, l.position), ⟨some l, ls⟩)
    | _ => missing wanted place
  | [] => missing wanted place

/-! ### Runs of tokens -/

/-- The comment group directly above what follows. -/
def leadingComments : Parser (List Comment) := fun place =>
  let (group, next) :=
    CommentGroup.collect ⟨[], 0, place.previousLine?⟩ place.previous place.rest
  .ok (group.comments.reverse, next)

/-- Takes a comment that shares its line with the token before it. -/
def trailingComment : Parser Unit := fun place =>
  match place.previousLine?, place.rest with
  | some line, l :: ls =>
    if l.token.isComment ∧ l.position.line = line then .ok ((), ⟨some l, ls⟩)
    else .ok ((), place)
  | _, _ => .ok ((), place)

def endOfItem (wanted : Wanted) : Parser Unit := do
  match ← peek with
  | none => pure ()
  | some token =>
    if token.isTrivia ∨ token = .semicolon ∨ token = .rightBrace ∨ token = .rightParen then pure ()
    else missing wanted

/-- Takes the bracketed group in front and gives its text. -/
def group : Parser String := fun place =>
  match takeGroup 0 place.rest with
  | none => .error (.unexpectedEnd .delimitedGroup)
  | some (taken, rest) => .ok (String.ofList (spanText taken), place.moveTo taken rest)

/-- The text of an array length, up to its closing bracket. -/
def arrayLength : Parser String := fun place =>
  match takeLength 0 place.rest with
  | none => .error (.unexpectedEnd .arrayLength)
  | some (taken, rest) => .ok (String.ofList (trim (spanText taken)), place.moveTo taken rest)

def skipDeclaration : Parser Unit := fun place =>
  .ok ((), passDeclaration 0 place.previous place.rest)

/-- Runs a reader and gives the text that it took. -/
def textOf (reader : Parser Unit) : Parser String := fun place =>
  match reader place with
  | .ok ((), next) => .ok (String.ofList (spanText (place.takenSince next)), next)
  | .error e => .error e

/-! ### Fields -/

/-- Whether a token behind the first name of a field shows that the name is a type. -/
def endsEmbedded : Option Token → Bool
  | none => true
  | some (.string _) => true
  | some (.rawString _) => true
  | some token =>
    token.isTrivia || token == .dot || token == .semicolon || token == .rightBrace

def embeddedName? : TypeExpr → Option String
  | .named name => some name
  | .qualified _ name => some name
  | .pointer target => embeddedName? target
  | .instantiated base _ => embeddedName? base
  | _ => none

def tag? : Parser (Option String) := do
  match ← peek with
  | some (.string quoted) => advance *> pure (some quoted)
  | some (.rawString quoted) => advance *> pure (some quoted)
  | _ => pure none

/-- Further names of a field, each behind a comma; `fuel` bounds their number. -/
def moreNames : Nat → Parser (List String)
  | 0 => pure []
  | fuel + 1 => do
    if ← accept .comma then do
      let name ← identifier .fieldName
      let names ← moreNames fuel
      pure (name.1 :: names)
    else pure []

def namedField (type : Parser TypeExpr) : Parser (List String × TypeExpr) := do
  let name ← identifier .fieldName
  let place ← get
  let names ← moreNames place.rest.length
  let t ← type
  pure (name.1 :: names, t)

def embeddedField (type : Parser TypeExpr) (position : Position) :
    Parser (List String × TypeExpr) := do
  let t ← type
  match embeddedName? t with
  | some name => pure ([name], t)
  | none => throw (.unexpected .embeddedTypeName t.render position)

/-- A field, where `type` reads its type. -/
def field (type : Parser TypeExpr) (doc : List Comment) : Parser Field := do
  let place ← get
  match place.rest with
  | [] => missing .fieldName
  | l :: _ => do
    let embedded ← match l.token with
      | .star => pure true
      | .identifier _ => pure (endsEmbedded (← peekSecond))
      | _ => missing .fieldName
    let (names, t) ← if embedded then embeddedField type l.position else namedField type
    let tag ← tag?
    pure ⟨names, embedded, t, tag, doc, l.position⟩

/-! ### Types -/

def startsResult : Token → Bool
  | .identifier _ => true
  | .star => true
  | .leftBracket => true
  | .map => true
  | .chan => true
  | .func => true
  | .struct => true
  | .interface => true
  | .arrow => true
  | _ => false

/-- A name, with a package before it or type arguments behind it. -/
def nameType (name : String) : Parser TypeExpr := do
  let base ← if ← accept .dot then do
      let second ← identifier .typeName
      pure (TypeExpr.qualified name second.1)
    else pure (TypeExpr.named name)
  if (← peek) = some .leftBracket then TypeExpr.instantiated base <$> group else pure base

/-- Parameters and results of a function type, behind its keyword. -/
def signature (type : Parser TypeExpr) : Parser Unit := do
  if (← peek) ≠ some .leftParen then missing .leftParen
  let _ ← group
  match ← peek with
  | some .leftParen => do
    let _ ← group
  | some token =>
    if startsResult token then do
      let _ ← type
  | none => pure ()

/-- The body of an interface type, behind its keyword. -/
def interfaceBody : Parser Unit := do
  if (← peek) ≠ some .leftBrace then missing .leftBrace
  let _ ← group

mutual

/-- A type; the bound covers twice the tokens left. -/
def type : Nat → Parser TypeExpr
  | 0 => missing .type
  | fuel + 1 => do
    let place ← get
    match place.rest with
    | [] => missing .type
    | l :: _ =>
      match l.token with
      | .identifier name => advance *> nameType name
      | .star => advance *> (TypeExpr.pointer <$> type fuel)
      | .leftBracket => do
        advance
        if ← accept .rightBracket then TypeExpr.slice <$> type fuel
        else do
          let length ← arrayLength
          advance
          TypeExpr.array length <$> type fuel
      | .map => do
        advance
        expect .leftBracket .leftBracket
        let key ← type fuel
        expect .rightBracket .rightBracket
        TypeExpr.map key <$> type fuel
      | .chan => do
        advance
        let direction := if ← accept .arrow then ChanDirection.send else .both
        TypeExpr.chan direction <$> type fuel
      | .arrow => do
        advance
        expect .chan .chanWord
        TypeExpr.chan .receive <$> type fuel
      | .func => TypeExpr.func <$> textOf (advance *> signature (type fuel))
      | .interface => TypeExpr.interface <$> textOf (advance *> interfaceBody)
      | .struct => do
        advance
        expect .leftBrace .leftBrace
        TypeExpr.struct <$> structFields fuel
      | .leftParen => do
        advance
        let inner ← type fuel
        expect .rightParen .rightParen
        pure inner
      | _ => missing .type

/-- The fields of a struct up to its closing brace; the bound is one more than for a type. -/
def structFields : Nat → Parser (List Field)
  | 0 => missing .structBody
  | fuel + 1 => do
    let doc ← leadingComments
    match ← peek with
    | some .rightBrace => advance *> pure []
    | none => missing .structBody
    | some _ => do
      let first ← field (type fuel) doc
      trailingComment
      endOfItem .endOfField
      let fields ← structFields fuel
      pure (first :: fields)

end

def typeExpr : Parser TypeExpr := do
  let place ← get
  type (2 * place.rest.length)

/-! ### Declarations -/

/-- A bracket behind a declared name opens type parameters when a name and something other than
`]` follow it. -/
def opensTypeParameters (place : Place) : Bool :=
  match place.rest with
  | a :: b :: c :: _ =>
    match a.token, b.token with
    | .leftBracket, .identifier _ => c.token != .rightBracket
    | _, _ => false
  | _ => false

def typeSpec (doc : List Comment) : Parser TypeDecl := do
  let (name, position) ← identifier .typeName
  let place ← get
  let typeParameters ← if opensTypeParameters place then some <$> group else pure none
  let isAlias ← accept .assign
  let t ← typeExpr
  pure ⟨name, typeParameters, isAlias, t, doc, position⟩

/-- A declaration with its end. -/
def typeItem (doc : List Comment) : Parser TypeDecl := do
  let decl ← typeSpec doc
  trailingComment
  endOfItem .endOfTypeDeclaration
  pure decl

/-- The declarations of a group up to its closing parenthesis; `fuel` bounds their number. -/
def typeGroup : Nat → Parser (List TypeDecl)
  | 0 => missing .typeGroup
  | fuel + 1 => do
    let doc ← leadingComments
    match ← peek with
    | some .rightParen => advance *> pure []
    | none => missing .typeGroup
    | some _ => do
      let decl ← typeItem doc
      let decls ← typeGroup fuel
      pure (decl :: decls)

def typeDecls (doc : List Comment) : Parser (List TypeDecl) := do
  if ← accept .leftParen then do
    let place ← get
    typeGroup (place.rest.length + 1)
  else do
    let decl ← typeItem doc
    pure [decl]

/-- The package name, the last one written, and all declarations; `fuel` bounds the number of
items. -/
def items : Nat → Option String → Parser (Option String × List TypeDecl)
  | 0, package => pure (package, [])
  | fuel + 1, package => do
    let doc ← leadingComments
    match ← peek with
    | none => pure (package, [])
    | some .package => do
      advance
      let name ← identifier .packageName
      items fuel (some name.1)
    | some .type => do
      advance
      let decls ← typeDecls doc
      let (last, more) ← items fuel package
      pure (last, decls ++ more)
    | some _ => do
      skipDeclaration
      items fuel package

end Parser

def SourceFile.ofLexemes (lexemes : List Lexeme) : Except SyntaxError SourceFile :=
  match Parser.items lexemes.length none ⟨none, lexemes⟩ with
  | .error e => .error e
  | .ok ((none, _), _) => .error .missingPackage
  | .ok ((some package, decls), _) => .ok ⟨package, decls⟩

def SourceFile.parse (source : List Char) : Except SyntaxError SourceFile :=
  match lex source with
  | .error e => .error e
  | .ok lexemes => SourceFile.ofLexemes lexemes

end Go
end FieldRules
