import SysYFront.Decl.Layout
import SysYFront.Proofs.Meaning.Notes
import SysYFront.Proofs.Meaning.Table

/-!
# SysYFront.Proofs.Meaning.Constant

What names and expressions stand for, told from the text of a program alone. A
context lists the declarations that are visible at one place, the innermost and
latest first; it grows from one declaration to the next and is dropped at the end of
its block. In a context an expression is constant if it is a literal, the name of a
constant, an operator on constant scalars, or a constant array at a constant index,
and then it has a table of values. Nothing here rewrites a tree or keeps a state.
-/

namespace SysYFront

/-- What a declaration or a parameter makes of its name. -/
structure Meaning where
  base : Base
  /-- The extents; `Shape.openExtent` first where a parameter leaves it open. -/
  dims : List Int
  /-- The values of a constant in row-major order, and nothing for a variable. -/
  cells : Option (List Scalar)
  deriving DecidableEq

/-- The visible declarations, the one that a name refers to first. -/
abbrev Context := List (String × Meaning)

/-- The values of the constant that a name refers to. -/
def Context.table? (Γ : Context) (name : String) : Option Table :=
  (Γ.lookup name).bind fun m => m.cells.map fun cells => ⟨m.dims, cells⟩

variable {α β : Type}

/-! ### Expressions -/

namespace Expr

/-- The values of an expression that is constant where it stands. -/
def constant? (Γ : Context) : Expr α → Option Table
  | var name _ _ => Γ.table? name
  | literal v _ _ => some (.scalar v)
  | unary op e _ _ => do
    let v ← (constant? Γ e).bind Table.value?
    pure (.scalar (op.eval v))
  | binary op a b _ _ => do
    let v ← (constant? Γ a).bind Table.value?
    let w ← (constant? Γ b).bind Table.value?
    let u ← op.eval? v w
    pure (.scalar u)
  | assign _ _ _ _ => none
  | call _ _ _ _ => none
  | index a i _ _ => do
    let t ← constant? Γ a
    let v ← (constant? Γ i).bind Table.value?
    t.row? v.asInt.toInt

/-- The value of an expression that is constant and scalar where it stands. -/
def scalar? (Γ : Context) (e : Expr α) : Option Scalar :=
  (e.constant? Γ).bind Table.value?

/-- The extent that a dimension stands for, without its fraction. -/
def extent? (Γ : Context) (e : Expr α) : Option Int :=
  (e.scalar? Γ).map fun v => v.asInt.toInt

section Scalar

variable (Γ : Context) (l : Location) (n : α)

theorem constant?_unary (op : UnaryOp) (e : Expr α) :
    (unary op e l n).constant? Γ = (e.scalar? Γ).map fun v => .scalar (op.eval v) := by
  rw [constant?, scalar?]
  cases (e.constant? Γ).bind Table.value? <;> rfl

theorem scalar?_unary (op : UnaryOp) (e : Expr α) :
    (unary op e l n).scalar? Γ = (e.scalar? Γ).map op.eval := by
  rw [scalar?, constant?_unary]
  cases e.scalar? Γ <;> rfl

theorem constant?_binary (op : BinaryOp) (a b : Expr α) :
    (binary op a b l n).constant? Γ =
      ((a.scalar? Γ).bind fun v => (b.scalar? Γ).bind fun w => op.eval? v w).map .scalar := by
  rw [constant?, scalar?, scalar?]
  cases (a.constant? Γ).bind Table.value? with
  | none => rfl
  | some v =>
    cases (b.constant? Γ).bind Table.value? with
    | none => rfl
    | some w => cases h : op.eval? v w <;> simp [h]

theorem scalar?_binary (op : BinaryOp) (a b : Expr α) :
    (binary op a b l n).scalar? Γ =
      (a.scalar? Γ).bind fun v => (b.scalar? Γ).bind fun w => op.eval? v w := by
  rw [scalar?, constant?_binary]
  cases (a.scalar? Γ).bind fun v => (b.scalar? Γ).bind fun w => op.eval? v w <;> rfl

theorem constant?_index (a i : Expr α) :
    (index a i l n).constant? Γ =
      (a.constant? Γ).bind fun t => (i.scalar? Γ).bind fun v => t.row? v.asInt.toInt := rfl

end Scalar

/-- Whether an expression neither calls nor assigns and names only constants. -/
def isFixed (Γ : Context) : Expr α → Bool
  | var name _ _ => (Γ.table? name).isSome
  | literal _ _ _ => true
  | unary _ e _ _ => isFixed Γ e
  | binary _ a b _ _ => isFixed Γ a && isFixed Γ b
  | assign _ _ _ _ => false
  | call _ _ _ _ => false
  | index a i _ _ => isFixed Γ a && isFixed Γ i

/-- Whether an expression is a variable, or an element or inner array of one. -/
def isStorable (Γ : Context) : Expr α → Bool
  | var name _ _ => (Γ.lookup name).any fun m => m.cells.isNone
  | index a _ _ _ => isStorable Γ a
  | _ => false

end Expr

/-! ### Declarations -/

/-- The extents of a declaration. -/
def Expr.extents (Γ : Context) (dims : List (Expr α)) : List Int :=
  dims.map fun e => (e.extent? Γ).getD 0

mutual

/-- The elements that one item of a list in braces takes up, in an array of shape
`dims` of which `used` elements are taken up before: for each the leaf that goes to
it, if any. A list in the braces starts at the next boundary of the inner arrays and
takes up one of them. -/
def Init.spread (dims : List Int) (used : Nat) : Init α → List (Option (Expr α))
  | .expr e => [some e]
  | .list items _ =>
    List.replicate (roundUp used (Shape.size (dims.drop 1)) - used) none ++
      Init.spreadAll (dims.drop 1) 0 items

/-- The same for all items that follow, up to the end of the array. -/
def Init.spreadAll (dims : List Int) (used : Nat) : List (Init α) → List (Option (Expr α))
  | [] => List.replicate (Shape.size dims - used) none
  | item :: items =>
    Init.spread dims used item ++
      Init.spreadAll dims (used + (Init.spread dims used item).length) items

end

/-- The leaf that initializes each element of a variable of shape `dims`. -/
def Init.leaves (dims : List Int) : Option (Init α) → List (Option (Expr α))
  | none => List.replicate (Shape.size dims) none
  | some (.expr e) => [some e]
  | some (.list items _) => Init.spreadAll dims 0 items

namespace Decl

/-- The value that a leaf gives its element: converted to the base type, and zero
without a leaf. -/
def leafValue (Γ : Context) (base : Base) (leaf : Option (Expr α)) : Scalar :=
  ((leaf.bind (Expr.scalar? Γ)).map fun v => v.convert base).getD (.zero base)

/-- What a declaration makes of its name. -/
def meaning (Γ : Context) (d : Decl α) : Meaning where
  base := d.base
  dims := Expr.extents Γ d.dims
  cells :=
    if d.isConst then
      some ((Init.leaves (Expr.extents Γ d.dims) d.init).map (leafValue Γ d.base))
    else none

/-- The context behind a declaration. -/
def extend (Γ : Context) (d : Decl α) : Context :=
  (d.name, d.meaning Γ) :: Γ

end Decl

/-- The context behind an item of a block. -/
def Item.extend (Γ : Context) : Item α → Context
  | .decl d => d.extend Γ
  | .stmt _ => Γ

/-- What a parameter makes of its name. -/
def Param.meaning (Γ : Context) (p : Param α) : Meaning where
  base := p.base
  dims := (if p.isOpen then [Shape.openExtent] else []) ++ Expr.extents Γ p.dims
  cells := none

/-- The parameters of a function, as names of its body. -/
def Function.context (Γ : Context) (f : Function α) : Context :=
  f.params.map fun p => (p.name, p.meaning Γ)

/-- The context of all function bodies: every global declaration is visible there. -/
def Program.context (p : Program α) : Context :=
  p.globals.foldl Decl.extend []

/-! ### Notes tell nothing -/

section Map

variable (Γ : Context) (f : α → β)

namespace Expr

@[simp] theorem constant?_map : ∀ e : Expr α, (e.map f).constant? Γ = e.constant? Γ
  | var _ _ _ | literal _ _ _ | assign _ _ _ _ | call _ _ _ _ => rfl
  | unary _ e _ _ => by simp only [map, constant?, constant?_map e]
  | binary _ a b _ _ => by simp only [map, constant?, constant?_map a, constant?_map b]
  | index a i _ _ => by simp only [map, constant?, constant?_map a, constant?_map i]

@[simp] theorem scalar?_map (e : Expr α) : (e.map f).scalar? Γ = e.scalar? Γ := by
  simp [scalar?]

@[simp] theorem extents_map (dims : List (Expr α)) :
    extents Γ (dims.map (map f)) = extents Γ dims := by
  simp [extents, extent?, Function.comp_def]

end Expr

mutual

theorem Init.spread_map : ∀ (dims : List Int) (used : Nat) (item : Init α),
    (item.map f).spread dims used = (item.spread dims used).map (Option.map (Expr.map f))
  | _, _, .expr _ => rfl
  | dims, used, .list items _ => by
    simp [Init.map, Init.spread, Init.spreadAll_map _ _ items]

theorem Init.spreadAll_map : ∀ (dims : List Int) (used : Nat) (items : List (Init α)),
    Init.spreadAll dims used (Init.mapAll f items) =
      (Init.spreadAll dims used items).map (Option.map (Expr.map f))
  | _, _, [] => by simp [Init.mapAll, Init.spreadAll]
  | dims, used, item :: items => by
    simp [Init.mapAll, Init.spreadAll, Init.spread_map _ _ item, Init.spreadAll_map _ _ items]

end

theorem Init.leaves_map (dims : List Int) : ∀ init : Option (Init α),
    Init.leaves dims (init.map (Init.map f)) =
      (Init.leaves dims init).map (Option.map (Expr.map f))
  | none => by simp [Init.leaves]
  | some (.expr _) => rfl
  | some (.list items _) => Init.spreadAll_map f dims 0 items

@[simp] theorem Decl.meaning_map (d : Decl α) : (d.map f).meaning Γ = d.meaning Γ := by
  have hleaf (leaf : Option (Expr α)) :
      leafValue Γ d.base (leaf.map (Expr.map f)) = leafValue Γ d.base leaf := by
    cases leaf <;> simp [leafValue]
  simp [Decl.meaning, Decl.map, Init.leaves_map, hleaf, Function.comp_def]

@[simp] theorem Decl.extend_map (d : Decl α) : (d.map f).extend Γ = d.extend Γ := by
  rw [Decl.extend, Decl.meaning_map]
  rfl

@[simp] theorem Item.extend_map (item : Item α) : (item.map f).extend Γ = item.extend Γ := by
  cases item with
  | decl d => exact Decl.extend_map Γ f d
  | stmt s => rfl

@[simp] theorem Param.meaning_map (p : Param α) : (p.map f).meaning Γ = p.meaning Γ := by
  simp only [Param.meaning, Param.map, Expr.extents_map]
  rfl

@[simp] theorem Function.context_map (g : Function α) :
    (g.map f).context Γ = g.context Γ := by
  simp only [Function.context, Function.map, List.map_map, Function.comp_def, Param.meaning_map]
  rfl

@[simp] theorem Program.globals_mapNotes (p : Program α) :
    (p.mapNotes f).globals = p.globals.map (Decl.map f) := by
  simp only [Program.globals, Program.mapNotes, List.filterMap_map, List.map_filterMap]
  congr 1
  funext u
  cases u <;> rfl

@[simp] theorem Program.context_mapNotes (p : Program α) :
    (p.mapNotes f).context = p.context := by
  simp [Program.context, List.foldl_map]

end Map

end SysYFront
