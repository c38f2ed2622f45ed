import SysYFront.Program.Check
import SysYFront.Program.Read

/-!
# SysYFront.Compile

From a source text to a checked program: the tokens of the text are read as a
program, and the program is checked by a fresh checker.
-/

namespace SysYFront

/-- A checked program with the signatures of its functions, `putint` included. -/
structure CheckedProgram where
  program : Program ValueType
  functions : SignatureTable

/-- Why a source text is not accepted. -/
inductive CompileError
  | unreadable (e : SyntaxError)
  | rejected (d : Diagnostic)
  deriving DecidableEq

namespace CompileError

def message : CompileError → String
  | unreadable e => e.message
  | rejected d => d.message

def location : CompileError → Location
  | unreadable e => e.location
  | rejected d => d.location

end CompileError

/-- Checks a program with a fresh checker. -/
def checkFresh {α : Type} (p : Program α) : Except Diagnostic CheckedProgram :=
  match Checker.fresh.checkProgram p with
  | (.ok p', c) => .ok ⟨p', c.functions⟩
  | (.error d, _) => .error d

/-- Reads and checks a source text. -/
def compile (source : String) : Except CompileError CheckedProgram := do
  let p ← (Program.ofSource source).mapError .unreadable
  (checkFresh p).mapError .rejected

end SysYFront
