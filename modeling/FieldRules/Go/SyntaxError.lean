/-
What is wrong with a source text.
-/
import FieldRules.Text.Position

namespace FieldRules
namespace Go

open Text

/-- What a reader of declarations was looking for. -/
inductive Wanted where
  | packageName
  | typeName
  | fieldName
  | embeddedTypeName
  | type
  | endOfTypeDeclaration
  | endOfField
  | chanWord
  | leftBrace
  | leftParen
  | rightParen
  | leftBracket
  | rightBracket
  | typeGroup
  | structBody
  | arrayLength
  | delimitedGroup
  deriving DecidableEq, Repr

def Wanted.describe : Wanted → String
  | packageName => "package name"
  | typeName => "type name"
  | fieldName => "field name"
  | embeddedTypeName => "embedded type name"
  | type => "type"
  | endOfTypeDeclaration => "end of type declaration"
  | endOfField => "newline after struct field"
  | chanWord => "`chan`"
  | leftBrace => "`\x7b`"
  | leftParen => "`(`"
  | rightParen => "`)`"
  | leftBracket => "`[`"
  | rightBracket => "`]`"
  | typeGroup => "type group"
  | structBody => "struct body"
  | arrayLength => "array length"
  | delimitedGroup => "delimited group"

inductive SyntaxError where
  /-- No token starts with this text. -/
  | unexpectedCharacter (text : String) (position : Position)
  /-- Another token stands where something was wanted. -/
  | unexpected (wanted : Wanted) (found : String) (position : Position)
  /-- The text ends where something was wanted. -/
  | unexpectedEnd (wanted : Wanted)
  | missingPackage
  deriving DecidableEq, Repr

def SyntaxError.message : SyntaxError → String
  | unexpectedCharacter text position =>
    position.render ++ ": unexpected character `" ++ text ++ "`"
  | unexpected wanted found position =>
    position.render ++ ": expected " ++ wanted.describe ++ ", found " ++ found
  | unexpectedEnd wanted => "unexpected end of file while parsing " ++ wanted.describe
  | missingPackage => "missing package clause"

end Go
end FieldRules
