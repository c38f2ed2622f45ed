import SysYFront.Function.Basic
import SysYFront.Stmt.Check

/-!
# SysYFront.Function.Check

Checking functions, in two steps: the signature is recorded first, for all
functions of a program, and the body is checked when every signature is known. So
functions can call each other in any order.
-/

namespace SysYFront

variable {α : Type}

/-- A function whose signature is recorded and whose body is still to be checked. -/
structure Registered (α : Type) where
  name : String
  signature : Signature
  params : List (Param ValueType)
  body : Block α
  location : Location

namespace Param

/-- Checks the shape of a parameter: the parameter with its type. An extent that
is left open does not count against the size of the object. -/
def resolve (c : Checker) (p : Param α) : Except Diagnostic (Param ValueType × Parameter) := do
  let (dims, extents) ← Expr.checkExtents c p.dims
  if (Shape.count? extents).isNone then
    report (.arrayTooLarge p.name) p.location
  else
    let shape := if p.isOpen then Shape.openExtent :: extents else extents
    pure ({ p with dims }, ⟨p.name, .place p.base shape⟩)

/-- Checks the parameters of `function`. The names in `seen` are those of the
parameters before them. -/
def resolveAll (c : Checker) (function : String) (seen : List String) :
    List (Param α) → Except Diagnostic (List (Param ValueType × Parameter))
  | [] => pure []
  | p :: params =>
    if p.name ∈ seen then
      report (.duplicateParameter function p.name) p.location
    else do
      let p' ← p.resolve c
      let params' ← resolveAll c function (p.name :: seen) params
      pure (p' :: params')

end Param

namespace Function

/-- Checks the head of a function: its name must be free, its parameters distinct. -/
def resolve (f : Function α) (c : Checker) : Except Diagnostic (Registered α) :=
  if c.functions.contains f.name || c.scopes.declaresGlobally f.name then
    report (.duplicateGlobal f.name) f.location
  else do
    let params ← Param.resolveAll c f.name [] f.params
    pure {
      name := f.name
      signature := ⟨f.returns, params.map Prod.snd⟩
      params := params.map Prod.fst
      body := f.body
      location := f.location }

/-- Checks the head of a function and records its signature. -/
def register (f : Function α) : Checking (Registered α) := do
  let r ← Checking.inspect f.resolve
  modify (·.addFunction r.name r.signature)
  pure r

end Function

/-- Checks the body of a function in a scope of its own, with the parameters. -/
def Registered.checkBody (r : Registered α) : Checking (Function ValueType) := do
  let items ← Checking.within (.enterFunction r.name r.signature) .leaveFunction
    (Stmt.checkItems r.body.items)
  pure {
    name := r.name
    returns := r.signature.returns
    params := r.params
    body := ⟨items, r.body.location⟩
    location := r.location }

end SysYFront
