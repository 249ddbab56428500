/-
Go code, as far as validators need it, and how it is written.

Names of packages occur in code as parts of qualified names only, so the imports
of a file can be read off its tree.
-/
import FieldRules.Literal
import FieldRules.Text.Quoted

namespace FieldRules
namespace Go

inductive Package where
  | errors
  | fmt
  | netip
  | regexp
  | utf8
  deriving DecidableEq, Repr

namespace Package

/-- All packages, in the order of their import paths. -/
def all : List Package := [errors, fmt, netip, regexp, utf8]

def importPath : Package → String
  | errors => "errors"
  | fmt => "fmt"
  | netip => "net/netip"
  | regexp => "regexp"
  | utf8 => "unicode/utf8"

def baseName : Package → String
  | errors => "errors"
  | fmt => "fmt"
  | netip => "netip"
  | regexp => "regexp"
  | utf8 => "utf8"

end Package

inductive Comparison where
  | equal
  | notEqual
  | less
  | lessEqual
  | greater
  | greaterEqual
  deriving DecidableEq, Repr

def Comparison.symbol : Comparison → String
  | equal => "=="
  | notEqual => "!="
  | less => "<"
  | lessEqual => "<="
  | greater => ">"
  | greaterEqual => ">="

inductive Expr where
  /-- A name of this file or a predeclared one. -/
  | name (name : String)
  | qualified (package : Package) (name : String)
  | select (operand : Expr) (field : String)
  /-- The literal of a value; nothing is written for a value that is not there. -/
  | literal (value : Option Literal)
  | call (function : Expr) (arguments : List Expr)
  /-- An argument that is passed on item by item. -/
  | spread (operand : Expr)
  | address (operand : Expr)
  | not (operand : Expr)
  | compare (comparison : Comparison) (left right : Expr)
  | all (operands : List Expr)
  | any (operands : List Expr)
  /-- The zero value of a type, in parentheses. -/
  | zeroOf (type : String)

inductive Stmt where
  | declare (name type : String)
  | assign (name : String) (value : Expr)
  | return (value : Expr)
  /-- Runs `body` if the condition holds, after `names := value` where that is given. -/
  | when (binding : Option (List String × Expr)) (condition : Expr) (body : List Stmt)

/-- A variable of a group, with the comment above it. -/
structure Variable where
  comment : String
  name : String
  value : Expr

structure Function where
  comment : String
  receiver : Option (String × String)
  name : String
  parameters : List (String × String)
  result : String
  body : List Stmt

structure CodeFile where
  header : List String
  package : String
  imports : List Package
  group : List Variable
  /-- Variables outside of the group, one a line. -/
  single : List (String × Expr)
  functions : List Function

namespace Expr

/-- A value as Go source: text is quoted. -/
def literalText : Literal → String
  | .text s => Text.quoted s
  | other => other.render

mutual

def render : Expr → String
  | .name n => n
  | .qualified package n => package.baseName ++ "." ++ n
  | .select operand field => operand.render ++ "." ++ field
  | .literal value => (value.map literalText).getD ""
  | .call function arguments => function.render ++ "(" ++ renderList ", " arguments ++ ")"
  | .spread operand => operand.render ++ "..."
  | .address operand => "&" ++ operand.render
  | .not operand => "!" ++ operand.render
  | .compare comparison left right =>
    left.render ++ " " ++ comparison.symbol ++ " " ++ right.render
  | .all operands => renderList " && " operands
  | .any operands => renderList " || " operands
  | .zeroOf type => "(" ++ type ++ "\x7b\x7d)"

def renderList (separator : String) : List Expr → String
  | [] => ""
  | [e] => e.render
  | e :: es => e.render ++ separator ++ renderList separator es

end

end Expr

structure Line where
  depth : Nat
  text : String

namespace Line

def blank : Line := ⟨0, ""⟩

def render (line : Line) : String :=
  String.ofList (List.replicate line.depth '\t') ++ line.text ++ "\n"

end Line

namespace Stmt

def whenText (binding : Option (List String × Expr)) (condition : Expr) : String :=
  let first := match binding with
    | some (names, value) => String.intercalate ", " names ++ " := " ++ value.render ++ "; "
    | none => ""
  "if " ++ first ++ condition.render ++ " \x7b"

mutual

def lines (depth : Nat) : Stmt → List Line
  | .declare name type => [⟨depth, "var " ++ name ++ " " ++ type⟩]
  | .assign name value => [⟨depth, name ++ " = " ++ value.render⟩]
  | .return value => [⟨depth, "return " ++ value.render⟩]
  | .when binding condition body =>
    ⟨depth, whenText binding condition⟩ :: (linesOf (depth + 1) body ++ [⟨depth, "\x7d"⟩])

def linesOf (depth : Nat) : List Stmt → List Line
  | [] => []
  | stmt :: stmts => stmt.lines depth ++ linesOf depth stmts

end

end Stmt

/-- Blocks of lines with a blank line between neighbours. -/
def parted : List (List Line) → List Line
  | [] => []
  | [block] => block
  | block :: blocks => block ++ Line.blank :: parted blocks

namespace Variable

def lines (v : Variable) : List Line :=
  [⟨1, "// " ++ v.comment⟩, ⟨1, v.name ++ " = " ++ v.value.render⟩]

end Variable

namespace Function

def parameterList (parameters : List (String × String)) : String :=
  "(" ++ String.intercalate ", " (parameters.map fun (name, type) => name ++ " " ++ type) ++ ")"

def heading (f : Function) : String :=
  let receiver := match f.receiver with
    | some pair => parameterList [pair] ++ " "
    | none => ""
  "func " ++ receiver ++ f.name ++ parameterList f.parameters ++ " " ++ f.result ++ " \x7b"

/-- The statements of a function are parted by blank lines. -/
def lines (f : Function) : List Line :=
  ⟨0, "// " ++ f.comment⟩ :: ⟨0, f.heading⟩ :: (parted (f.body.map (Stmt.lines 1)) ++ [⟨0, "\x7d"⟩])

end Function

namespace CodeFile

def importLines : List Package → List Line
  | [package] => [⟨0, "import \"" ++ package.importPath ++ "\""⟩]
  | packages =>
    ⟨0, "import ("⟩ ::
      (packages.map (fun package => ⟨1, "\"" ++ package.importPath ++ "\""⟩) ++ [⟨0, ")"⟩])

def singleLine (entry : String × Expr) : Line := ⟨0, "var " ++ entry.1 ++ " = " ++ entry.2.render⟩

/-- Variables outside of the group, where there are any. -/
def singleLines (entries : List (String × Expr)) : List (List Line) :=
  if entries.isEmpty then [] else [entries.map singleLine]

def lines (file : CodeFile) : List Line :=
  parted ([file.header.map fun text => ⟨0, "// " ++ text⟩, [⟨0, "package " ++ file.package⟩],
    importLines file.imports,
    ⟨0, "var ("⟩ :: (parted (file.group.map Variable.lines) ++ [⟨0, ")"⟩])] ++
    singleLines file.single ++ file.functions.map Function.lines)

def render (file : CodeFile) : String := String.join (file.lines.map Line.render)

end CodeFile

end Go
end FieldRules
