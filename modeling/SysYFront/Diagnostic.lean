import SysYFront.Location
import SysYFront.Token.Basic
import SysYFront.ValueType

/-!
# SysYFront.Diagnostic

The rules that a program can break. A diagnostic is the rule with what the message
has to tell about it, at the place of the token that breaks it. The first broken
rule ends the checking of a program.
-/

namespace SysYFront

/-- Where a scalar value is needed. -/
inductive Use
  | unaryOperator
  | binaryOperator
  | assignment
  | functionArgument
  | arrayIndex
  | initializer
  deriving DecidableEq, Repr

def Use.describe : Use → String
  | unaryOperator => "unary operator"
  | binaryOperator => "binary operator"
  | assignment => "assignment"
  | functionArgument => "function argument"
  | arrayIndex => "array index"
  | initializer => "initializer"

/-- A broken rule. -/
inductive Problem
  | undefinedVariable (name : String)
  | undefinedFunction (name : String)
  /-- A name is declared twice in one scope. -/
  | redefinition (name : String)
  /-- A function has the name of another function or of a global variable. -/
  | duplicateGlobal (name : String)
  | duplicateParameter (function name : String)
  | notCallable
  | argumentCount (function : String) (expected got : Nat)
  | argumentShape (function : String) (position : Nat) (expected got : ValueType)
  | argumentBase (function : String) (position : Nat) (expected got : Base)
  | voidValue (use : Use)
  | arrayOperand (use : Use)
  | nonConstantDimension
  | nonPositiveDimension (extent : Int)
  | arrayTooLarge (name : String)
  | nonConstantInitializer (name : String)
  | divisionByZero
  | moduloByZero
  | floatModulo
  | indexedScalar
  | indexOutOfBounds (index extent : Int)
  | assignToConst
  | assignToArray
  | assignToValue
  | tooManyInitializers (name : String)
  /-- The braces of an initializer are nested deeper than its array. -/
  | excessiveBraces (name : String)
  | bracedScalar (name : String)
  | unbracedArray (name : String)
  | returnedArray
  | valueFromVoid (function : String)
  | returnedVoid (function : String)
  /-- A `break` or `continue` stands in no loop. -/
  | outsideLoop (word : Keyword)
  | conditionNotScalar
  deriving DecidableEq

/-- The words for a broken rule. -/
def Problem.message : Problem → String
  | undefinedVariable name => "Undefined variable '" ++ name ++ "'"
  | undefinedFunction name => "Undefined function '" ++ name ++ "'"
  | redefinition name => "Redefinition of '" ++ name ++ "'"
  | duplicateGlobal name => "Duplicate global name '" ++ name ++ "'"
  | duplicateParameter function name =>
    "Duplicate parameter '" ++ name ++ "' in function '" ++ function ++ "'"
  | notCallable => "Called object is not a function name"
  | argumentCount function expected got =>
    "Function '" ++ function ++ "' expects " ++ toString expected ++ " argument" ++
      (if expected = 1 then "" else "s") ++ ", got " ++ toString got
  | argumentShape function position expected got =>
    "Argument " ++ toString position ++ " of '" ++ function ++ "': expected " ++ expected.text ++
      ", got " ++ got.text
  | argumentBase function position expected got =>
    "Argument " ++ toString position ++ " of '" ++ function ++ "': expected " ++ expected.text ++
      " array, got " ++ got.text ++ " array"
  | voidValue use => "Void value used in " ++ use.describe
  | arrayOperand use => "Array used as operand of " ++ use.describe
  | nonConstantDimension => "Array dimension is not a compile-time constant"
  | nonPositiveDimension extent => "Array dimension must be positive, got " ++ toString extent
  | arrayTooLarge name => "Array '" ++ name ++ "' is too large"
  | nonConstantInitializer name =>
    "Initializer of '" ++ name ++ "' is not a compile-time constant"
  | divisionByZero => "Division by zero"
  | moduloByZero => "Modulo by zero"
  | floatModulo => "Operands of '%' must be integers"
  | indexedScalar => "Subscripted value is not an array"
  | indexOutOfBounds index extent =>
    "Array index " ++ toString index ++ " out of bounds for extent " ++ toString extent
  | assignToConst => "Cannot assign to const-qualified value"
  | assignToArray => "Cannot assign to an array"
  | assignToValue => "Left side of assignment is not assignable"
  | tooManyInitializers name => "Too many initializers for '" ++ name ++ "'"
  | excessiveBraces name =>
    "Initializer of '" ++ name ++ "' has braces nested deeper than its dimensions"
  | bracedScalar name => "Scalar '" ++ name ++ "' cannot take a brace-enclosed initializer"
  | unbracedArray name => "Array '" ++ name ++ "' must be initialized with a brace-enclosed list"
  | returnedArray => "Cannot return an array"
  | valueFromVoid function => "Void function '" ++ function ++ "' cannot return a value"
  | returnedVoid function => "Function '" ++ function ++ "' returns a void expression"
  | outsideLoop word => "'" ++ word.text ++ "' outside of a loop"
  | conditionNotScalar => "Condition must be a scalar value"

/-- A broken rule and the place of the token that breaks it. -/
structure Diagnostic where
  problem : Problem
  location : Location
  deriving DecidableEq

/-- The message, which does not name the place. -/
def Diagnostic.message (d : Diagnostic) : String :=
  d.problem.message

/-- Ends checking with a broken rule. -/
def report {α : Type} (p : Problem) (l : Location) : Except Diagnostic α :=
  .error ⟨p, l⟩

end SysYFront
