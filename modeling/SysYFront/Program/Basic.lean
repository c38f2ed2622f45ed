import SysYFront.Function.Basic

/-!
# SysYFront.Program.Basic

Programs: global declarations and function definitions in the order in which they
are written. Checking treats all declarations before any function, so a unit is
either of two types that need not be at the same stage.
-/

namespace SysYFront

/-- One unit of a program: a global declaration `δ` or a function `φ`. -/
inductive TopLevel (δ φ : Type)
  | global (d : δ)
  | function (f : φ)

/-- A program, in the order of its text. -/
abbrev Program (α : Type) := List (TopLevel (Decl α) (Function α))

namespace TopLevel

variable {δ δ' φ φ' : Type} {m : Type → Type} [Monad m]

/-- Applies `f` to the declarations of a program, in order. -/
def mapGlobals (f : δ → m δ') : List (TopLevel δ φ) → m (List (TopLevel δ' φ))
  | [] => pure []
  | global d :: units => do
    let d' ← f d
    let units' ← mapGlobals f units
    pure (global d' :: units')
  | function g :: units => do
    let units' ← mapGlobals f units
    pure (function g :: units')

/-- Applies `f` to the functions of a program, in order. -/
def mapFunctions (f : φ → m φ') : List (TopLevel δ φ) → m (List (TopLevel δ φ'))
  | [] => pure []
  | global d :: units => do
    let units' ← mapFunctions f units
    pure (global d :: units')
  | function g :: units => do
    let g' ← f g
    let units' ← mapFunctions f units
    pure (function g' :: units')

/-- The declaration, if the unit is one. -/
def global? : TopLevel δ φ → Option δ
  | global d => some d
  | function _ => none

/-- The function, if the unit is one. -/
def function? : TopLevel δ φ → Option φ
  | global _ => none
  | function f => some f

end TopLevel

namespace Program

variable {α : Type}

/-- The global declarations. -/
def globals (p : Program α) : List (Decl α) :=
  p.filterMap TopLevel.global?

/-- The function definitions. -/
def functions (p : Program α) : List (Function α) :=
  p.filterMap TopLevel.function?

/-- Equality of programs, with expressions compared by `Expr.equals`. -/
def equals (same : α → α → Bool) (p q : Program α) : Bool :=
  p.length == q.length &&
    (p.zip q).all fun
      | (.global d, .global e) => d.equals same e
      | (.function f, .function g) => f.equals same g
      | _ => false

end Program

end SysYFront
