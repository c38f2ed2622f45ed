import SysYFront.Decl.Check
import SysYFront.Stmt.Basic

/-!
# SysYFront.Stmt.Check

Checking statements. A block is a scope of its own. Conditions are scalars, `break`
and `continue` stand in a loop, and what is returned is a scalar if the function
returns one; a `return` without a value is accepted everywhere.
-/

namespace SysYFront

variable {α : Type}

/-- Checks an expression in the current state. -/
def Expr.checkHere (e : Expr α) : Checking (Expr ValueType) :=
  Checking.inspect fun c => e.check c

namespace Stmt

/-- Checks a condition. -/
def checkCondition (e : Expr α) : Checking (Expr ValueType) :=
  Checking.inspect fun c => do
    let e' ← e.check c
    if e'.note.isVoid || e'.note.isArray then report .conditionNotScalar e'.location else pure e'

/-- Accepts the word at `l` only inside a loop. -/
def requireLoop (word : Keyword) (l : Location) : Checking Unit :=
  Checking.inspect fun c => if c.loopDepth = 0 then report (.outsideLoop word) l else pure ()

/-- Checks what the `return` at `l` returns. -/
def checkReturned (e : Expr α) (l : Location) : Checking (Expr ValueType) :=
  Checking.inspect fun c => do
    let e' ← e.check c
    if e'.note.isArray then
      report .returnedArray e'.location
    else
      match c.running with
      | none => pure e'
      | some f =>
        if f.returns = .void then report (.valueFromVoid f.name) l
        else if e'.note.isVoid then report (.returnedVoid f.name) e'.location
        else pure e'

mutual

/-- Checks a statement. -/
def check : Stmt α → Checking (Stmt ValueType)
  | .empty l => pure (.empty l)
  | .expr e l => do
    let e' ← e.checkHere
    pure (.expr e' l)
  | .block items l => do
    let items' ← Checking.within .enterBlock .leaveBlock (checkItems items)
    pure (.block items' l)
  | .ifThen condition body l => do
    let condition' ← checkCondition condition
    let body' ← check body
    pure (.ifThen condition' body' l)
  | .ifElse condition body otherwise l => do
    let condition' ← checkCondition condition
    let body' ← check body
    let otherwise' ← check otherwise
    pure (.ifElse condition' body' otherwise' l)
  | .whileLoop condition body l => do
    let condition' ← checkCondition condition
    let body' ← Checking.within .enterLoop .leaveLoop (check body)
    pure (.whileLoop condition' body' l)
  | .breakLoop l => do
    requireLoop .breakKw l
    pure (.breakLoop l)
  | .continueLoop l => do
    requireLoop .continueKw l
    pure (.continueLoop l)
  | .returnNothing l => pure (.returnNothing l)
  | .returnValue e l => do
    let e' ← checkReturned e l
    pure (.returnValue e' l)

/-- Checks an item of a block. -/
def checkItem : Item α → Checking (Item ValueType)
  | .decl d => do
    let d' ← d.check
    pure (.decl d')
  | .stmt s => do
    let s' ← check s
    pure (.stmt s')

/-- Checks the items of a block in the current scope. -/
def checkItems : List (Item α) → Checking (List (Item ValueType))
  | [] => pure []
  | item :: items => do
    let item' ← checkItem item
    let items' ← checkItems items
    pure (item' :: items')

end

end Stmt

end SysYFront
