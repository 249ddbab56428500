/-
Reading a command line.

A line is options of the program, a command, and options of the command.  An
option takes its values when the next option or the end is reached; until then
plain arguments are added to it as long as it takes more.  What is wrong is
found from the left: an unknown option or a plain argument out of place comes
before what is wrong with the option that is still open, anything known comes
after it.
-/
import FieldRules.Emission
import FieldRules.Text.Blank

namespace FieldRules
namespace CommandLine

open Text

inductive Refusal where
  | help
  | version
  /-- There is nothing on it. -/
  | nothingAsked
  | missingCommand
  | unknownCommand
  | unknownArgument
  | invalidValue
  | unwantedValue
  | repeatedOption
  | missingOption
  deriving DecidableEq, Repr

namespace Refusal

def usage : String :=
  "Usage: govalid [-v] <generate|check> -i <INPUT>... [--suffix <SUFFIX>] [--no-method] " ++
    "[--format <human|json>] [--out-dir <DIR>]\n" ++
    "       govalid [-v] plan -i <INPUT>... [-o <OUT>]"

def message : Refusal → String
  | help => usage
  | version => "govalid 0.1.0"
  | nothingAsked => usage
  | missingCommand => "error: a command is required"
  | unknownCommand => "error: unknown command"
  | unknownArgument => "error: unexpected argument"
  | invalidValue => "error: invalid or missing value"
  | unwantedValue => "error: the option takes no value"
  | repeatedOption => "error: the option cannot be repeated"
  | missingOption => "error: an input is required"

/-- Whether it is what was asked for. -/
def isAnswer : Refusal → Bool
  | help => true
  | version => true
  | _ => false

def exitCode (refusal : Refusal) : Nat := if refusal.isAnswer then 0 else 2

end Refusal

inductive Flag where
  | input
  | suffix
  | noMethod
  | format
  | outDir
  | out
  | verbose
  | help
  | version
  deriving DecidableEq, Repr

inductive Arity where
  | none
  | one
  | many
  deriving DecidableEq, Repr

namespace Flag

def arity : Flag → Arity
  | input => .many
  | suffix => .one
  | format => .one
  | outDir => .one
  | out => .one
  | _ => .none

def long : Flag → String
  | input => "input"
  | suffix => "suffix"
  | noMethod => "no-method"
  | format => "format"
  | outDir => "out-dir"
  | out => "out"
  | verbose => "verbose"
  | help => "help"
  | version => "version"

def short? : Flag → Option Char
  | input => some 'i'
  | out => some 'o'
  | verbose => some 'v'
  | help => some 'h'
  | version => some 'V'
  | _ => none

def mayRepeat : Flag → Bool
  | input => true
  | _ => false

/-- Whether a value can stand for an option. -/
def admits : Flag → String → Bool
  | format, value => value == "human" || value == "json"
  | outDir, value => !value.isEmpty
  | out, value => !value.isEmpty
  | _, _ => true

end Flag

structure Given where
  flag : Flag
  values : List String

structure Reading where
  /-- Options that are read, first to last. -/
  given : List Given
  /-- The last option, while its values are not taken yet. -/
  pending : Option Given
  /-- Whether a plain argument is one more value of it. -/
  takesMore : Bool

namespace Reading

def start : Reading := ⟨[], none, false⟩

def has (reading : Reading) (flag : Flag) : Bool := reading.given.any (·.flag == flag)

def take (reading : Reading) (item : Given) : Except Refusal Reading :=
  if item.flag.arity != .none && item.values.isEmpty then .error .invalidValue
  else if item.flag = .help then .error .help
  else if item.flag = .version then .error .version
  else if reading.has item.flag && !item.flag.mayRepeat then .error .repeatedOption
  else if item.values.all item.flag.admits then .ok { reading with given := reading.given ++ [item] }
  else .error .invalidValue

/-- Takes the option that is still open. -/
def close (reading : Reading) : Except Refusal Reading :=
  match reading.pending with
  | none => .ok { reading with takesMore := false }
  | some item => take { reading with pending := none, takesMore := false } item

/-- Takes a further option that is complete. -/
def add (reading : Reading) (item : Given) : Except Refusal Reading :=
  match reading.close with
  | .error refusal => .error refusal
  | .ok closed => closed.take item

/-- Leaves a further option open for values. -/
def openFor (reading : Reading) (flag : Flag) : Except Refusal Reading :=
  match reading.close with
  | .error refusal => .error refusal
  | .ok closed => .ok { closed with pending := some ⟨flag, []⟩, takesMore := true }

def addWord (reading : Reading) (word : String) : Except Refusal Reading :=
  match reading.pending, reading.takesMore with
  | some item, true =>
    .ok { reading with
      pending := some { item with values := item.values ++ [word] }
      takesMore := item.flag.arity == .many }
  | _, _ => .error .unknownArgument

/-- An option by its long name, with a value if one is attached. -/
def addLong (flags : List Flag) (reading : Reading) (name : String) (value : Option String) :
    Except Refusal Reading :=
  match flags.find? (·.long == name) with
  | none => .error .unknownArgument
  | some flag =>
    match flag.arity, value with
    | .none, none => reading.add ⟨flag, []⟩
    | .none, some _ => .error .unwantedValue
    | _, some text => reading.add ⟨flag, [text]⟩
    | _, none => reading.openFor flag

/-- Options by their short names, run together; what follows one that takes values is its value. -/
def addShorts (flags : List Flag) : Reading → List Char → Except Refusal Reading
  | reading, [] => .ok reading
  | reading, c :: cs =>
    match flags.find? (·.short? == some c) with
    | none => .error .unknownArgument
    | some flag =>
      if flag.arity = .none then
        match reading.add ⟨flag, []⟩ with
        | .error refusal => .error refusal
        | .ok after => addShorts flags after cs
      else
        match cs with
        | [] => reading.openFor flag
        | '=' :: value => reading.add ⟨flag, [String.ofList value]⟩
        | value => reading.add ⟨flag, [String.ofList value]⟩

end Reading

inductive Shape where
  /-- Two dashes: no options follow. -/
  | dashes
  | long (name : String) (value : Option String)
  | shorts (names : List Char)
  | word

/-- What is in front of the first equals sign, and what is behind it. -/
def splitEquals (cs : List Char) : List Char × Option (List Char) :=
  match cs.dropWhile (· != '=') with
  | [] => (cs, none)
  | _ :: value => (cs.takeWhile (· != '='), some value)

def Shape.ofArgument (argument : String) : Shape :=
  match argument.toList with
  | ['-', '-'] => dashes
  | '-' :: '-' :: cs =>
    let (name, value) := splitEquals cs
    long (String.ofList name) (value.map String.ofList)
  | '-' :: c :: cs => shorts (c :: cs)
  | _ => word

/-- The options of a command line from one argument on. -/
def readOptions (flags : List Flag) : Reading → List String → Except Refusal Reading
  | reading, [] => reading.close
  | reading, argument :: arguments =>
    let next : Except Refusal Reading := match Shape.ofArgument argument with
      | .dashes => if arguments.isEmpty then .ok reading else .error .unknownArgument
      | .long name value => reading.addLong flags name value
      | .shorts names => reading.addShorts flags names
      | .word => reading.addWord argument
    match next with
    | .error refusal => .error refusal
    | .ok after => readOptions flags after arguments

inductive ReportFormat where
  | human
  | json
  deriving DecidableEq, Repr

/-- What emitted files are like and where they go. -/
structure Target where
  options : Emission.Options
  format : ReportFormat
  /-- The directory for emitted files; without one they stand beside their source. -/
  outDir : Option String

inductive Action where
  | generate (target : Target)
  | check (target : Target)
  | plan (out : Option String)

structure Arguments where
  verbose : Bool
  inputs : List String
  action : Action

inductive Verb where
  | generate
  | check
  | plan
  deriving DecidableEq, Repr

namespace Verb

def ofName? : String → Option Verb
  | "generate" => some generate
  | "check" => some check
  | "plan" => some plan
  | _ => none

def flags : Verb → List Flag
  | plan => [.input, .out, .verbose, .help]
  | _ => [.input, .suffix, .noMethod, .format, .outDir, .verbose, .help]

end Verb

namespace Reading

def valuesOf (reading : Reading) (flag : Flag) : List String :=
  (reading.given.filter (·.flag == flag)).flatMap (·.values)

def target (reading : Reading) : Target where
  options := ⟨(reading.valuesOf .suffix).head?.getD Emission.defaultSuffix, !reading.has .noMethod⟩
  format := if reading.valuesOf .format = ["json"] then .json else .human
  outDir := (reading.valuesOf .outDir).head?

end Reading

/-- The options of a command, given those of the program. -/
def readCommand (program : Reading) (verb : Verb) (arguments : List String) :
    Except Refusal Arguments :=
  match readOptions verb.flags Reading.start arguments with
  | .error refusal => .error refusal
  | .ok reading =>
    if !reading.has .input then .error .missingOption
    else
      .ok
        { verbose := program.has .verbose || reading.has .verbose
          inputs := reading.valuesOf .input
          action := match verb with
            | .generate => .generate reading.target
            | .check => .check reading.target
            | .plan => .plan (reading.valuesOf .out).head? }

def programFlags : List Flag := [.verbose, .help, .version]

/-- What is said of commands that help is asked for. -/
def refuseHelp : List String → Refusal
  | [] => .help
  | [name] => if (Verb.ofName? name).isSome || name == "help" then .help else .unknownCommand
  | _ => .unknownCommand

/-- What is said of a line that ends before a command. -/
def refuseEnd (program : Reading) : Refusal :=
  if program.given.isEmpty then .nothingAsked else .missingCommand

/-- What is said of what follows two dashes where a command is wanted. -/
def refuseBehindDashes (program : Reading) : List String → Refusal
  | [] => refuseEnd program
  | name :: _ =>
    if (Verb.ofName? name).isSome || name == "help" then .unknownArgument else .unknownCommand

/-- A command line from one argument on, behind options of the program. -/
def readProgram : Reading → List String → Except Refusal Arguments
  | program, [] => .error (refuseEnd program)
  | program, argument :: arguments =>
    match Verb.ofName? argument with
    | some verb => readCommand program verb arguments
    | none =>
      if argument == "help" then .error (refuseHelp arguments)
      else
        let next : Except Refusal Reading := match Shape.ofArgument argument with
          | .dashes => .error (refuseBehindDashes program arguments)
          | .long name value => program.addLong programFlags name value
          | .shorts names => program.addShorts programFlags names
          | .word => .error .unknownCommand
        match next with
        | .error refusal => .error refusal
        | .ok after => readProgram after arguments

def Arguments.read (arguments : List String) : Except Refusal Arguments :=
  readProgram Reading.start arguments

end CommandLine
end FieldRules
