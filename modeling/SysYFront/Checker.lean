import SysYFront.Diagnostic
import SysYFront.Scopes
import SysYFront.Signature

/-!
# SysYFront.Checker

The state of a checker, and computations on it. A checker can check several
programs one after the other: global variables and functions stay, also those that
were declared before a program failed. Everything else belongs to the piece of
code that is being checked and is undone behind it, whether checking succeeds or
fails (`Checking.within`).
-/

namespace SysYFront

/-- The function whose body is being checked. -/
structure RunningFunction where
  name : String
  returns : Base
  deriving DecidableEq

/-- The state of a checker. -/
structure Checker where
  scopes : Scopes
  functions : SignatureTable
  /-- The function whose body is being checked, if any. -/
  running : Option RunningFunction
  /-- The number of loops around the statement that is being checked. -/
  loopDepth : Nat
  deriving DecidableEq

namespace Checker

/-- A checker that has seen no program. -/
def fresh : Checker :=
  ⟨.empty, .builtins, none, 0⟩

instance : Inhabited Checker := ⟨fresh⟩

/-- Declares a name in the innermost scope. -/
def declare (name : String) (t : ValueType) (c : Checker) : Checker :=
  { c with scopes := c.scopes.insert name t }

/-- Records the signature of a function. -/
def addFunction (name : String) (s : Signature) (c : Checker) : Checker :=
  { c with functions := c.functions.insert name s }

def enterBlock (c : Checker) : Checker :=
  { c with scopes := c.scopes.enter [] }

def leaveBlock (c : Checker) : Checker :=
  { c with scopes := c.scopes.leave }

def enterLoop (c : Checker) : Checker :=
  { c with loopDepth := c.loopDepth + 1 }

def leaveLoop (c : Checker) : Checker :=
  { c with loopDepth := c.loopDepth - 1 }

/-- Enters the body of a function. Its parameters are names of the body's own
scope, so the body cannot declare them again. -/
def enterFunction (name : String) (s : Signature) (c : Checker) : Checker :=
  { c with
    scopes := c.scopes.enter (s.params.map fun p => (p.name, p.type))
    running := some ⟨name, s.returns⟩
    loopDepth := 0 }

def leaveFunction (c : Checker) : Checker :=
  { c with scopes := c.scopes.leave, running := none }

end Checker

/-- A computation on the state of a checker that may break a rule. The state that
it has come to stays when it does. -/
abbrev Checking (α : Type) := EStateM Diagnostic Checker α

namespace Checking

variable {α : Type}

/-- What depends on the state without changing it. -/
def inspect (f : Checker → Except Diagnostic α) : Checking α := fun c =>
  match f c with
  | .ok a => .ok a c
  | .error d => .error d c

/-- Runs `p` between `enter` and `leave`, also when it fails. -/
def within (enter leave : Checker → Checker) (p : Checking α) : Checking α := fun c =>
  match p (enter c) with
  | .ok a c' => .ok a (leave c')
  | .error d c' => .error d (leave c')

end Checking

end SysYFront
