import SysYFront.Proofs.Meaning.Typing

/-!
# SysYFront.Proofs.Meaning.Rules

The rules of the language, as conditions on the tree that was read. Types and constant
values are those of the original tree (`Expr.base`, `Expr.dims`, `Expr.constant?`); no
rule speaks of a checked tree or of the state of a checker.

* A name is declared once in a scope. All globals are one scope, the parameters and the
  top level of the body of a function are one, every block is its own.
* Functions have names different from each other, from `putint` and from every global.
* What is used as an operand, a subscript, an argument or a condition has a value of
  the right shape, and what is known about values breaks no rule of arithmetic.
-/

namespace SysYFront

variable {α : Type}

namespace Expr

/-- Whether an expression has a single value. -/
def IsScalar (Γ : Context) (Φ : Headings) (e : Expr α) : Prop :=
  e.base Γ Φ ≠ .void ∧ e.dims Γ = []

/-- Whether an operator has a value on two scalars, as far as they are known: floats have
no remainder, and no integer is divided by a known zero. -/
def Computes (Γ : Context) (Φ : Headings) (op : BinaryOp) (a b : Expr α) : Prop :=
  (op = .mod → (a.base Γ Φ).promote (b.base Γ Φ) ≠ .float) ∧
    (op = .div ∨ op = .mod → (a.base Γ Φ).promote (b.base Γ Φ) = .int →
      ∀ v, b.scalar? Γ = some v → v.isZero = false)

/-- Whether an expression fits a parameter: it has a value, the shapes differ at most in
the outermost extent, and an array has the base type of the parameter. -/
def Fits (Γ : Context) (Φ : Headings) (p : Meaning) (e : Expr α) : Prop :=
  e.base Γ Φ ≠ .void ∧
    (e.dims Γ).length = p.dims.length ∧ (e.dims Γ).drop 1 = p.dims.drop 1 ∧
    (p.dims ≠ [] → e.base Γ Φ = p.base)

/-- Whether a known index of a constant array is in range. -/
def InRange (Γ : Context) (a i : Expr α) : Prop :=
  ∀ t v, a.constant? Γ = some t → i.scalar? Γ = some v → (t.row? v.asInt.toInt).isSome

mutual

/-- Whether an expression keeps the rules. -/
def Valid (Γ : Context) (Φ : Headings) : Expr α → Prop
  | var name _ _ => (Γ.lookup name).isSome
  | literal _ _ _ => True
  | unary _ e _ _ => Valid Γ Φ e ∧ e.IsScalar Γ Φ
  | binary op a b _ _ =>
    (Valid Γ Φ a ∧ a.IsScalar Γ Φ) ∧ (Valid Γ Φ b ∧ b.IsScalar Γ Φ) ∧ Computes Γ Φ op a b
  | assign a b _ _ =>
    (Valid Γ Φ a ∧ a.isStorable Γ ∧ a.dims Γ = []) ∧ Valid Γ Φ b ∧ b.IsScalar Γ Φ
  | call callee args _ _ =>
    match callee with
    | var name _ _ => ∃ h, Φ.lookup name = some h ∧ ArgumentsValid Γ Φ h.params args
    | _ => False
  | index a i _ _ =>
    (Valid Γ Φ a ∧ a.dims Γ ≠ []) ∧ (Valid Γ Φ i ∧ i.IsScalar Γ Φ) ∧ InRange Γ a i

/-- Whether there is one argument for each parameter, and it keeps the rules and fits. -/
def ArgumentsValid (Γ : Context) (Φ : Headings) : Context → List (Expr α) → Prop
  | [], [] => True
  | (_, p) :: params, e :: es => (Valid Γ Φ e ∧ e.Fits Γ Φ p) ∧ ArgumentsValid Γ Φ params es
  | _, _ => False

end

/-- Whether an expression is an extent: constant and positive without its fraction. -/
def ExtentValid (Γ : Context) (Φ : Headings) (e : Expr α) : Prop :=
  e.Valid Γ Φ ∧ ∃ n, e.extent? Γ = some n ∧ 0 < n

/-- Whether extents are valid and their object can be addressed. -/
def ExtentsValid (Γ : Context) (Φ : Headings) (dims : List (Expr α)) : Prop :=
  (∀ e ∈ dims, e.ExtentValid Γ Φ) ∧
    Shape.size (extents Γ dims) * Shape.elementSize ≤ Shape.maxObjectSize

/-- Whether an expression can initialize an element; in a constant or a global variable
(`known`) its value has to be constant. -/
def LeafValid (Γ : Context) (Φ : Headings) (known : Bool) (e : Expr α) : Prop :=
  (e.Valid Γ Φ ∧ e.IsScalar Γ Φ) ∧ (known = true → (e.scalar? Γ).isSome)

end Expr

mutual

/-- Whether an item of a list in braces fits an array of shape `dims` of which `used`
elements are taken up before, and its leaves can initialize elements. -/
def Init.ItemValid (Γ : Context) (Φ : Headings) (known : Bool) (dims : List Int) (used : Nat) :
    Init α → Prop
  | .expr e => used < Shape.size dims ∧ e.LeafValid Γ Φ known
  | .list items _ =>
    dims.length ≠ 1 ∧ roundUp used (Shape.size (dims.drop 1)) < Shape.size dims ∧
      Init.ItemsValid Γ Φ known (dims.drop 1) 0 items

def Init.ItemsValid (Γ : Context) (Φ : Headings) (known : Bool) (dims : List Int) (used : Nat) :
    List (Init α) → Prop
  | [] => True
  | item :: items =>
    Init.ItemValid Γ Φ known dims used item ∧
      Init.ItemsValid Γ Φ known dims (used + (Init.spread dims used item).length) items

end

/-- Whether a variable of shape `dims` can be initialized so: a scalar by an expression,
an array by a list in braces. -/
def Init.Valid (Γ : Context) (Φ : Headings) (known : Bool) (dims : List Int) :
    Option (Init α) → Prop
  | none => True
  | some (.expr e) => dims = [] ∧ e.LeafValid Γ Φ known
  | some (.list items _) => dims ≠ [] ∧ Init.ItemsValid Γ Φ known dims 0 items

/-- Whether a declaration keeps the rules, apart from those about its name. -/
def Decl.Valid (Γ : Context) (Φ : Headings) (isGlobal : Bool) (d : Decl α) : Prop :=
  Expr.ExtentsValid Γ Φ d.dims ∧
    Init.Valid Γ Φ (d.isConst || isGlobal) (Expr.extents Γ d.dims) d.init

/-- The name that an item of a block declares. -/
def Item.name? : Item α → Option String
  | .decl d => some d.name
  | .stmt _ => none

/-- The names that the items of a block declare in its scope. -/
def Item.names (items : List (Item α)) : List String :=
  items.filterMap Item.name?

mutual

/-- Whether a statement keeps the rules in a function that returns `returns`, `inLoop`
telling whether a loop is around it. -/
def Stmt.Valid (Γ : Context) (Φ : Headings) (returns : Base) (inLoop : Bool) : Stmt α → Prop
  | .empty _ => True
  | .expr e _ => e.Valid Γ Φ
  | .block items _ => (Item.names items).Nodup ∧ Item.AllValid Γ Φ returns inLoop items
  | .ifThen e body _ =>
    (e.Valid Γ Φ ∧ e.IsScalar Γ Φ) ∧ Stmt.Valid Γ Φ returns inLoop body
  | .ifElse e body otherwise _ =>
    (e.Valid Γ Φ ∧ e.IsScalar Γ Φ) ∧ Stmt.Valid Γ Φ returns inLoop body ∧
      Stmt.Valid Γ Φ returns inLoop otherwise
  | .whileLoop e body _ => (e.Valid Γ Φ ∧ e.IsScalar Γ Φ) ∧ Stmt.Valid Γ Φ returns true body
  | .breakLoop _ => inLoop = true
  | .continueLoop _ => inLoop = true
  | .returnNothing _ => True
  | .returnValue e _ => e.Valid Γ Φ ∧ e.IsScalar Γ Φ ∧ returns ≠ .void

def Item.Valid (Γ : Context) (Φ : Headings) (returns : Base) (inLoop : Bool) : Item α → Prop
  | .decl d => d.Valid Γ Φ false
  | .stmt s => Stmt.Valid Γ Φ returns inLoop s

/-- Whether the items of a block keep the rules, each in the context behind the
declarations before it. -/
def Item.AllValid (Γ : Context) (Φ : Headings) (returns : Base) (inLoop : Bool) :
    List (Item α) → Prop
  | [] => True
  | item :: items =>
    Item.Valid Γ Φ returns inLoop item ∧ Item.AllValid (item.extend Γ) Φ returns inLoop items

end

/-- Whether a function keeps the rules in the context `Γ` of all bodies. The names of its
parameters belong to the scope of its body. -/
structure Function.Valid (Γ : Context) (Φ : Headings) (f : Function α) : Prop where
  names_nodup : (f.params.map Param.name ++ Item.names f.body.items).Nodup
  params : ∀ p ∈ f.params, Expr.ExtentsValid Γ Φ p.dims
  body : Item.AllValid (f.context Γ ++ Γ) Φ f.returns false f.body.items

/-- Whether global declarations keep the rules, each in the context behind the ones
before it. -/
def Decl.AllValid (Φ : Headings) : Context → List (Decl α) → Prop
  | _, [] => True
  | Γ, d :: ds => d.Valid Γ Φ true ∧ Decl.AllValid Φ (d.extend Γ) ds

/-- Whether a program keeps the rules of the language. -/
structure Program.Valid (p : Program α) : Prop where
  globals_nodup : (p.globals.map Decl.name).Nodup
  globals : Decl.AllValid p.headings [] p.globals
  functions_nodup : (p.functions.map Function.name).Nodup
  functions_fresh : ∀ f ∈ p.functions, f.name ≠ "putint" ∧ f.name ∉ p.globals.map Decl.name
  functions : ∀ f ∈ p.functions, f.Valid p.context p.headings

/-! ### Variables that can be declared

No rule forbids a `void` variable, because none can be written: the reader takes only a
scalar type in front of a name. -/

mutual

/-- Whether no variable that a statement declares is `void`. -/
def Stmt.VoidFree : Stmt α → Prop
  | .block items _ => Item.AllVoidFree items
  | .ifThen _ body _ | .whileLoop _ body _ => Stmt.VoidFree body
  | .ifElse _ body otherwise _ => Stmt.VoidFree body ∧ Stmt.VoidFree otherwise
  | .empty _ | .expr _ _ | .breakLoop _ | .continueLoop _ | .returnNothing _
  | .returnValue _ _ => True

def Item.VoidFree : Item α → Prop
  | .decl d => d.base ≠ .void
  | .stmt s => Stmt.VoidFree s

def Item.AllVoidFree : List (Item α) → Prop
  | [] => True
  | item :: items => Item.VoidFree item ∧ Item.AllVoidFree items

end

/-- Whether no variable of a program is `void`. -/
structure Program.VoidFree (p : Program α) : Prop where
  globals : ∀ d ∈ p.globals, d.base ≠ .void
  functions : ∀ f ∈ p.functions, Item.AllVoidFree f.body.items

end SysYFront
