import SysYFront.Checker
import SysYFront.Expr.Basic

/-!
# SysYFront.Expr.Check

Checking expressions. A checked expression carries the type of every node, and
every part whose value is known has become the literal of that value, at the same
place: names of constant scalars, operators on literals, and elements of constant
arrays at literal indices. An index that is known is an integer literal, whatever
it was written as.

Checking an expression reads the scopes and the functions and changes nothing.
Notes that a tree carries already are not looked at.
-/

namespace SysYFront

namespace Expr

/-- Refuses values that are void or arrays. -/
def requireScalar (use : Use) (e : Expr ValueType) : Except Diagnostic Unit :=
  if e.note.isVoid then report (.voidValue use) e.location
  else if e.note.isArray then report (.arrayOperand use) e.location
  else pure ()

/-- Refuses what cannot be stored to: whole arrays, constants, and values that are
no place. -/
def requireAssignable (e : Expr ValueType) : Except Diagnostic Unit :=
  if e.note.isArray then report .assignToArray e.location
  else if e.note.isConst then report .assignToConst e.location
  else if !e.note.isPlace then report .assignToValue e.location
  else pure ()

/-- Refuses an argument that does not fit its parameter. Shapes may differ in the
outermost extent only; scalars are converted, arrays must have the same base. -/
def requireArgument (function : String) (position : Nat) (p : Parameter)
    (e : Expr ValueType) : Except Diagnostic Unit :=
  if e.note.isVoid then
    report (.voidValue .functionArgument) e.location
  else if e.note.dims.length ≠ p.type.dims.length ∨ e.note.dims.drop 1 ≠ p.type.dims.drop 1 then
    report (.argumentShape function position p.type e.note) e.location
  else if p.type.isArray ∧ e.note.base ≠ p.type.base then
    report (.argumentBase function position p.type.base e.note.base) e.location
  else pure ()

/-- The meaning of a name: the literal of its value if it is constant and scalar. -/
def checkedVar (c : Checker) (name : String) (l : Location) :
    Except Diagnostic (Expr ValueType) :=
  match c.scopes.lookup? name with
  | none => report (.undefinedVariable name) l
  | some t =>
    match t.isConst, t.value? with
    | true, some v => pure (constant v l)
    | _, _ => pure (var name l t)

/-- A unary operator on a checked scalar. -/
def checkedUnary (op : UnaryOp) (e : Expr ValueType) (l : Location) : Expr ValueType :=
  match e.value? with
  | some v => constant (op.eval v) l
  | none => unary op e l (.scalar e.note.base)

/-- The value of a binary operator on two literals. -/
def foldedBinary? (op : BinaryOp) (a b : Expr ValueType) : Option Scalar := do
  let v ← a.value?
  let w ← b.value?
  op.eval? v w

/-- A binary operator on two checked scalars. Floats have no remainder, and an
integer divisor that is known to be zero is refused even if the dividend is not
known. -/
def checkedBinary (op : BinaryOp) (a b : Expr ValueType) (l : Location) :
    Except Diagnostic (Expr ValueType) :=
  let base := a.note.base.promote b.note.base
  let byZero := base = .int ∧ b.value?.any Scalar.isZero
  if op = .mod ∧ base = .float then report .floatModulo l
  else if op = .div ∧ byZero then report .divisionByZero l
  else if op = .mod ∧ byZero then report .moduloByZero l
  else
    match foldedBinary? op a b with
    | some v => pure (constant v l)
    | none => pure (binary op a b l (.scalar base))

/-- An index of a checked array by a checked scalar. Only a constant array has an
extent to hold a known index against. -/
def checkedIndex (array i : Expr ValueType) (l : Location) :
    Except Diagnostic (Expr ValueType) :=
  match i.value? with
  | none => pure (index array i l array.note.element)
  | some v =>
    let i' := constant (.int v.asInt) i.location
    if array.note.window.isNone then
      pure (index array i' l array.note.element)
    else
      match array.note.at? v.asInt.toInt with
      | none => report (.indexOutOfBounds v.asInt.toInt (array.note.dims.headD 0)) l
      | some t =>
        match t.value? with
        | some w => pure (constant w l)
        | none => pure (index array i' l t)

variable {α : Type}

mutual

/-- Checks an expression, operands from left to right. -/
def check (c : Checker) : Expr α → Except Diagnostic (Expr ValueType)
  | var name l _ => checkedVar c name l
  | literal v l _ => pure (constant v l)
  | unary op e l _ => do
    let e' ← check c e
    requireScalar .unaryOperator e'
    pure (checkedUnary op e' l)
  | binary op a b l _ => do
    let a' ← check c a
    requireScalar .binaryOperator a'
    let b' ← check c b
    requireScalar .binaryOperator b'
    checkedBinary op a' b' l
  | assign a b l _ => do
    let a' ← check c a
    requireAssignable a'
    let b' ← check c b
    requireScalar .assignment b'
    pure (assign a' b' l (.scalar a'.note.base))
  | call callee args l _ =>
    match callee with
    | var name k _ =>
      match c.functions.get? name with
      | none => report (.undefinedFunction name) k
      | some s =>
        if args.length ≠ s.params.length then
          report (.argumentCount name s.params.length args.length) l
        else do
          let args' ← checkArguments c name 1 s.params args
          pure (call (var name k s.result) args' l s.result)
    | _ => report .notCallable l
  | index a i l _ => do
    let a' ← check c a
    if !a'.note.isArray then
      report .indexedScalar l
    else
      let i' ← check c i
      requireScalar .arrayIndex i'
      checkedIndex a' i' l

/-- Checks the arguments of a call of `function`, the first of them at `position`,
against its parameters. -/
def checkArguments (c : Checker) (function : String) (position : Nat) :
    List Parameter → List (Expr α) → Except Diagnostic (List (Expr ValueType))
  | p :: params, e :: args => do
    let e' ← check c e
    requireArgument function position p e'
    let args' ← checkArguments c function (position + 1) params args
    pure (e' :: args')
  | _, _ => pure []

end

end Expr

end SysYFront
