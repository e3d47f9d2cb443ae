import Pluck.Request
import Pluck.Escape
import Pluck.Manual

/-!
# The command line

`Command.ofArguments?` reads the arguments of the program, `Command.run` says what the program then writes and how it
ends. Options of a command stand anywhere among its arguments. After `--` there are no options, and before it nothing
but an option begins with a hyphen, the lone hyphen excepted.
-/

namespace Pluck

inductive Command
  | version
  /-- Answers a request, on several lines if `pretty`. Without a text in the request, the document is read from the
  standard input. -/
  | select (request : Request) (pretty : Bool)
  | encode (name : String)
  | overview
  | manual (topic : String)
  deriving Repr, DecidableEq

/-! ### Arguments -/

structure Arguments where
  /-- The arguments that are not options, from last to first. -/
  operands : List String
  input : Option String
  flags : List String
  deriving Repr, DecidableEq

namespace Arguments

def empty : Arguments := ⟨[], none, []⟩

def addOperand (arguments : Arguments) (operand : String) : Arguments :=
  { arguments with operands := operand :: arguments.operands }

def setInput? (arguments : Arguments) (text : String) : Option Arguments :=
  if arguments.input.isNone then some { arguments with input := some text } else none

def setFlag? (arguments : Arguments) (name : String) : Option Arguments :=
  if name ∈ arguments.flags then none else some { arguments with flags := name :: arguments.flags }

/-- The argument has not the form of an option: a hyphen with something after it. -/
def isOperand (argument : String) : Bool :=
  match argument.toList with
  | '-' :: _ :: _ => false
  | _ => true

/-- What an option asks for: nothing more, or a text for the input in the next argument. -/
inductive Pending
  | nothing (arguments : Arguments)
  | input (arguments : Arguments)
  deriving Repr, DecidableEq

/-- A group of short options without its hyphen. The input's text may follow its letter in the group. -/
def shortOptions? (arguments : Arguments) : List Char → Option Pending
  | [] => some (.nothing arguments)
  | 'p' :: rest => (arguments.setFlag? "pretty").bind (shortOptions? · rest)
  | ['i'] => some (.input arguments)
  | 'i' :: '=' :: rest => (arguments.setInput? (.ofList rest)).map .nothing
  | 'i' :: rest => (arguments.setInput? (.ofList rest)).map .nothing
  | _ => none

/-- A long option without its hyphens. -/
def longOption? (arguments : Arguments) (option : List Char) : Option Pending :=
  match String.ofList (option.takeWhile (· != '=')), option.dropWhile (· != '=') with
  | "input", [] => some (.input arguments)
  | "input", _ :: text => (arguments.setInput? (.ofList text)).map .nothing
  | name, [] =>
    if name ∈ ["pretty", "syntax-only", "strict-paths", "reject-duplicates"] then
      (arguments.setFlag? name).map .nothing
    else none
  | _, _ :: _ => none

/-- An option, whole or a group of short ones. -/
def option? (arguments : Arguments) (argument : String) : Option Pending :=
  match argument.toList with
  | '-' :: '-' :: option => arguments.longOption? option
  | '-' :: options => arguments.shortOptions? options
  | _ => none

/-- Reads arguments among which there may be options. -/
def withOptions? (arguments : Arguments) : List String → Option Arguments
  | [] => some arguments
  | "--" :: rest => some (rest.foldl addOperand arguments)
  | argument :: rest =>
    if isOperand argument then withOptions? (arguments.addOperand argument) rest
    else
      match arguments.option? argument, rest with
      | some (.nothing arguments), rest => withOptions? arguments rest
      | some (.input arguments), text :: rest =>
        if isOperand text then (arguments.setInput? text).bind (withOptions? · rest) else none
      | some (.input _), [] => none
      | none, _ => none

def operands? : List String → Option (List String)
  | [] => some []
  | "--" :: rest => some rest
  | argument :: rest => if isOperand argument then (operands? rest).map (argument :: ·) else none

end Arguments

namespace Command

def select? (arguments : List String) : Option Command := do
  let arguments ← Arguments.empty.withOptions? arguments
  let isSet := fun name => decide (name ∈ arguments.flags)
  match arguments.operands with
  | [query] =>
    some (.select ⟨query, arguments.input, isSet "syntax-only", isSet "strict-paths", isSet "reject-duplicates"⟩
      (isSet "pretty"))
  | _ => none

/-- The command that the arguments of the program ask for, if they make sense. -/
def ofArguments? : List String → Option Command
  | "--version" :: _ => some .version
  | "select" :: rest => select? rest
  | "encode" :: rest =>
    match Arguments.operands? rest with
    | some [name] => some (.encode name)
    | _ => none
  | "docs" :: rest =>
    match Arguments.operands? rest with
    | some [] => some .overview
    | _ => none
  | "doc" :: rest =>
    match Arguments.operands? rest with
    | some [topic] => some (.manual topic)
    | _ => none
  | argument :: _ =>
    match argument.toList with
    | '-' :: 'V' :: _ => some .version
    | _ => none
  | [] => none

/-! ### What the program does -/

/-- What the program writes, and the code with which it ends. -/
structure Outcome where
  exitCode : UInt8
  output : String
  errors : String
  deriving Repr, DecidableEq

namespace Outcome

def success (output : String) : Outcome := ⟨0, output, ""⟩

def failure (message : String) : Outcome := ⟨1, "", message ++ "\n"⟩

/-- The outcome for arguments that make no sense. -/
def misuse : Outcome :=
  ⟨2, "", "usage: subset select [-p] [-i JSON] [--syntax-only] [--strict-paths] [--reject-duplicates] QUERY\n" ++
    "       subset encode FIELD\n" ++
    "       subset docs\n" ++
    "       subset doc CATEGORY\n"⟩

end Outcome

def readsInput : Command → Bool
  | select request _ => request.needsInput
  | _ => false

def answerIn (format : Json.Format) (request : Request) (pretty : Bool) : Outcome :=
  match request.answerIn format with
  | .ok .valid => .success "Syntax is valid\n"
  | .ok (.selected json) => .success (format.print pretty json ++ "\n")
  | .error reason => .failure reason.message

/-- What the program does, with the bytes of the standard input if it is one that can be read. -/
def runIn (format : Json.Format) (input : Option ByteArray) : Command → Outcome
  | version => .success "subset 0.1.0\n"
  | select request pretty =>
    match request.needsInput, input with
    | true, some bytes =>
      match String.fromUTF8? bytes with
      | some text => answerIn format { request with input := some text } pretty
      | none => .failure "IO error: stream did not contain valid UTF-8"
    | _, _ => answerIn format request pretty
  | encode name => .success (Escape.encode name ++ "\n")
  | overview => .success Manual.overview
  | manual name =>
    match Topic.ofName? name with
    | some topic => .success topic.text
    | none => .failure (Topic.unknownMessage name)

def run (input : Option ByteArray) (command : Command) : Outcome :=
  command.runIn .standard input

end Command

end Pluck
