import SysYFront.Function.Check
import SysYFront.Program.Basic

/-!
# SysYFront.Program.Check

Checking programs, in three passes: the global declarations in their order, then
the signatures of all functions, then the bodies. Every global variable is thus
visible in every body, wherever it is declared.
-/

namespace SysYFront

variable {α : Type}

/-- Checks a program. -/
def Program.check (p : Program α) : Checking (Program ValueType) := do
  let declared ← TopLevel.mapGlobals Decl.check p
  let registered ← TopLevel.mapFunctions Function.register declared
  TopLevel.mapFunctions Registered.checkBody registered

/-- Checks a program with a checker: the checked program or the first broken rule,
and the checker for the next program. -/
def Checker.checkProgram (c : Checker) (p : Program α) :
    Except Diagnostic (Program ValueType) × Checker :=
  match p.check c with
  | .ok p' c' => (.ok p', c')
  | .error d c' => (.error d, c')

end SysYFront
