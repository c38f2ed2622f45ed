import SysYFront.Compile
import SysYFront.Render.Outline

/-!
# SysYFront.CommandLine

What the program does with one source file: by default it checks the file and
reports how much it declares, and on request it prints the tokens, the tree as it
was read, or the checked tree. Every failure is one line on the error output and
exit code 1.
-/

namespace SysYFront

/-- What is printed in place of the report. -/
inductive Emit
  | tokens
  | ast
  | checked
  deriving DecidableEq, Repr

/-- The word for a form on the command line. -/
def Emit.ofText? : String → Option Emit
  | "tokens" => some tokens
  | "ast" => some ast
  | "checked" => some checked
  | _ => none

/-- Why a file gives no source text. -/
inductive ReadFault
  | missing
  | notText
  deriving DecidableEq, Repr

def ReadFault.message : ReadFault → String
  | missing => "No such file or directory (os error 2)"
  | notText => "stream did not contain valid UTF-8"

/-- What the program leaves behind: the exit code and both outputs. -/
structure Report where
  exitCode : Nat
  stdout : String
  stderr : String
  deriving DecidableEq

namespace Report

/-- Success, with `text` and a line end on the output. -/
def success (text : String) : Report :=
  ⟨0, text ++ "\n", ""⟩

/-- Failure, with `message` on the error output. -/
def failure (message : String) : Report :=
  ⟨1, "", "error: " ++ message ++ "\n"⟩

end Report

/-- The source text in the bytes of a file. -/
def sourceOfBytes (bytes : ByteArray) : Except ReadFault String :=
  match String.fromUTF8? bytes with
  | some s => .ok s
  | none => .error .notText

/-- One line on how much a checked program declares. -/
def CheckedProgram.summary (file : String) (p : CheckedProgram) : String :=
  file ++ ": ok (" ++ toString p.program.globals.length ++ " global declaration(s), " ++
    toString p.program.functions.length ++ " function(s))"

/-- Runs the program on the source text of `file`. -/
def runOnSource (file : String) (emit : Option Emit) (source : String) : Report :=
  match emit with
  | some .tokens => .success (Token.listText (Token.ofSource source))
  | some .ast =>
    match Program.ofSource source with
    | .ok p => .success p.readText
    | .error e => .failure e.message
  | some .checked =>
    match compile source with
    | .ok p => .success p.program.checkedText
    | .error e => .failure e.message
  | none =>
    match compile source with
    | .ok p => .success (p.summary file)
    | .error e => .failure e.message

/-- Runs the program on `file` with what reading it gave. -/
def runOnFile (file : String) (emit : Option Emit) (content : Except ReadFault String) : Report :=
  match content with
  | .ok source => runOnSource file emit source
  | .error fault => .failure ("cannot read '" ++ file ++ "': " ++ fault.message)

/-- The arguments of the program. -/
structure Arguments where
  file : String
  emit : Option Emit
  deriving DecidableEq

namespace Arguments

/-- Whether an argument only asks for more messages, as `-v`, `-vv` and
`--verbose` do. -/
def isVerbose (arg : String) : Bool :=
  arg == "--verbose" ||
    match arg.toList with
    | '-' :: 'v' :: more => more.all (· == 'v')
    | _ => false

/-- Reads arguments in any order: one file and at most one form to print. -/
def ofList? (file : Option String) (emit : Option Emit) : List String → Option Arguments
  | [] => file.map (⟨·, emit⟩)
  | "--emit" :: form :: rest =>
    match emit, Emit.ofText? form with
    | none, some e => ofList? file (some e) rest
    | _, _ => none
  | arg :: rest =>
    if isVerbose arg then ofList? file emit rest
    else if arg.startsWith "--emit=" then
      match emit, Emit.ofText? (String.ofList (arg.toList.drop 7)) with
      | none, some e => ofList? file (some e) rest
      | _, _ => none
    else if arg.startsWith "-" then none
    else
      match file with
      | none => ofList? (some arg) emit rest
      | some _ => none

end Arguments

/-- What the program prints when its arguments make no sense. -/
def usage : String :=
  "usage: [--emit tokens|ast|checked] [-v]... FILE"

end SysYFront
