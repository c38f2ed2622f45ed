import SysYFront.Proofs.Meaning.Constant
import SysYFront.Proofs.Meaning.Notes

/-!
# SysYFront.Proofs.Meaning.Typing

The types of expressions, told from the original tree alone: nothing is folded to find
them. A name has the base type and the extents of the declaration that it refers to, a
unary operator keeps the base type of its operand, a binary operator promotes, an
assignment has the base type of its left side, a call the return type of its function,
and an index drops the first extent. A type is constant if and only if the expression
stands for values that are known (`Expr.constant?`).

`annotate` puts its type on every node of a tree. There is one place where a note is
not the type of its own expression: a subscript or an extent that is constant counts
without its fraction, so its note is that of an integer, whatever it was written as.
-/

namespace SysYFront

variable {α : Type}

/-- What callers rely on: the return type, and the parameters with their names. -/
structure Heading where
  returns : Base
  params : Context
  deriving DecidableEq

/-- The functions that can be called. -/
abbrev Headings := List (String × Heading)

/-- What callers rely on of a function in the context of all bodies. -/
def Function.heading (Γ : Context) (f : Function α) : Heading :=
  ⟨f.returns, f.context Γ⟩

/-- The functions of a program, and `putint`, which needs no definition. -/
def Program.headings (p : Program α) : Headings :=
  p.functions.map (fun f => (f.name, f.heading p.context)) ++
    [("putint", ⟨.void, [("value", ⟨.int, [], none⟩)]⟩)]

/-- A type, without the values of constants. -/
structure Typing where
  base : Base
  dims : List Int
  isConst : Bool
  deriving DecidableEq

/-- The type of a known integer. -/
def Typing.knownInt : Typing := ⟨.int, [], true⟩

/-- What a note of the checker says of a type, the values of constants apart. -/
def ValueType.typing (t : ValueType) : Typing := ⟨t.base, t.dims, t.isConst⟩

namespace Expr

/-- The base type of an expression. -/
def base (Γ : Context) (Φ : Headings) : Expr α → Base
  | var name _ _ => ((Γ.lookup name).map Meaning.base).getD .void
  | literal v _ _ => v.base
  | unary _ e _ _ => base Γ Φ e
  | binary _ a b _ _ => (base Γ Φ a).promote (base Γ Φ b)
  | assign a _ _ _ => base Γ Φ a
  | call callee _ _ _ =>
    match callee with
    | var name _ _ => ((Φ.lookup name).map Heading.returns).getD .void
    | _ => .void
  | index a _ _ _ => base Γ Φ a

/-- The extents of the value of an expression. -/
def dims (Γ : Context) : Expr α → List Int
  | var name _ _ => ((Γ.lookup name).map Meaning.dims).getD []
  | index a _ _ _ => (dims Γ a).drop 1
  | _ => []

/-- The type of an expression. -/
def typing (Γ : Context) (Φ : Headings) (e : Expr α) : Typing :=
  ⟨e.base Γ Φ, e.dims Γ, (e.constant? Γ).isSome⟩

/-- The type of a subscript or an extent. -/
def subscriptTyping (Γ : Context) (Φ : Headings) (e : Expr α) : Typing :=
  if (e.scalar? Γ).isSome then .knownInt else e.typing Γ Φ

/-- The same expression with another note on its root. -/
def withNote (n : α) : Expr α → Expr α
  | var name l _ => var name l n
  | literal v l _ => literal v l n
  | unary op e l _ => unary op e l n
  | binary op a b l _ => binary op a b l n
  | assign a b l _ => assign a b l n
  | call callee args l _ => call callee args l n
  | index a i l _ => index a i l n

mutual

/-- Puts its type on every node. The name of a called function has the type of the call. -/
def annotate (Γ : Context) (Φ : Headings) : Expr α → Expr Typing
  | var name l n => var name l (typing Γ Φ (var name l n))
  | literal v l n => literal v l (typing Γ Φ (literal v l n))
  | unary op e l n => unary op (annotate Γ Φ e) l (typing Γ Φ (unary op e l n))
  | binary op a b l n =>
    binary op (annotate Γ Φ a) (annotate Γ Φ b) l (typing Γ Φ (binary op a b l n))
  | assign a b l n => assign (annotate Γ Φ a) (annotate Γ Φ b) l (typing Γ Φ (assign a b l n))
  | call callee args l n =>
    call (callee.map fun _ => typing Γ Φ (call callee args l n)) (annotateAll Γ Φ args) l
      (typing Γ Φ (call callee args l n))
  | index a i l n =>
    index (annotate Γ Φ a) ((annotate Γ Φ i).withNote (subscriptTyping Γ Φ i)) l
      (typing Γ Φ (index a i l n))

def annotateAll (Γ : Context) (Φ : Headings) : List (Expr α) → List (Expr Typing)
  | [] => []
  | e :: es => annotate Γ Φ e :: annotateAll Γ Φ es

end

/-- Puts types on the nodes of an extent. -/
def annotateExtent (Γ : Context) (Φ : Headings) (e : Expr α) : Expr Typing :=
  (e.annotate Γ Φ).withNote (e.subscriptTyping Γ Φ)

end Expr

mutual

def Init.annotate (Γ : Context) (Φ : Headings) : Init α → Init Typing
  | .expr e => .expr (e.annotate Γ Φ)
  | .list items l => .list (Init.annotateAll Γ Φ items) l

def Init.annotateAll (Γ : Context) (Φ : Headings) : List (Init α) → List (Init Typing)
  | [] => []
  | item :: items => Init.annotate Γ Φ item :: Init.annotateAll Γ Φ items

end

/-- Puts the declared type on a declaration, and types on the nodes of its expressions. -/
def Decl.annotate (Γ : Context) (Φ : Headings) (d : Decl α) : Decl Typing where
  name := d.name
  isConst := d.isConst
  base := d.base
  dims := d.dims.map (Expr.annotateExtent Γ Φ)
  init := d.init.map (Init.annotate Γ Φ)
  location := d.location
  note := ⟨d.base, Expr.extents Γ d.dims, d.isConst⟩

mutual

def Stmt.annotate (Γ : Context) (Φ : Headings) : Stmt α → Stmt Typing
  | .empty l => .empty l
  | .expr e l => .expr (e.annotate Γ Φ) l
  | .block items l => .block (Item.annotateAll Γ Φ items) l
  | .ifThen e body l => .ifThen (e.annotate Γ Φ) (Stmt.annotate Γ Φ body) l
  | .ifElse e body otherwise l =>
    .ifElse (e.annotate Γ Φ) (Stmt.annotate Γ Φ body) (Stmt.annotate Γ Φ otherwise) l
  | .whileLoop e body l => .whileLoop (e.annotate Γ Φ) (Stmt.annotate Γ Φ body) l
  | .breakLoop l => .breakLoop l
  | .continueLoop l => .continueLoop l
  | .returnNothing l => .returnNothing l
  | .returnValue e l => .returnValue (e.annotate Γ Φ) l

def Item.annotate (Γ : Context) (Φ : Headings) : Item α → Item Typing
  | .decl d => .decl (d.annotate Γ Φ)
  | .stmt s => .stmt (Stmt.annotate Γ Φ s)

/-- Puts types on the items of a block, each in the context behind the declarations
before it. -/
def Item.annotateAll (Γ : Context) (Φ : Headings) : List (Item α) → List (Item Typing)
  | [] => []
  | item :: items => Item.annotate Γ Φ item :: Item.annotateAll (item.extend Γ) Φ items

end

def Param.annotate (Γ : Context) (Φ : Headings) (p : Param α) : Param Typing where
  name := p.name
  base := p.base
  dims := p.dims.map (Expr.annotateExtent Γ Φ)
  isOpen := p.isOpen
  location := p.location

def Function.annotate (Γ : Context) (Φ : Headings) (f : Function α) : Function Typing where
  name := f.name
  returns := f.returns
  params := f.params.map (Param.annotate Γ Φ)
  body := ⟨Item.annotateAll (f.context Γ ++ Γ) Φ f.body.items, f.body.location⟩
  location := f.location

/-- Puts types on the units of a program: on a global declaration in the context behind
the ones before it, on a function in the context `bodies`. -/
def Program.annotateUnits (bodies : Context) (Φ : Headings) : Context → Program α → Program Typing
  | _, [] => []
  | Γ, .global d :: units => .global (d.annotate Γ Φ) :: annotateUnits bodies Φ (d.extend Γ) units
  | Γ, .function f :: units => .function (f.annotate bodies Φ) :: annotateUnits bodies Φ Γ units

/-- Puts its type on every node of a program. -/
def Program.annotate (p : Program α) : Program Typing :=
  Program.annotateUnits p.context p.headings [] p

/-! ### Annotating only changes notes -/

section Forget

variable (Γ : Context) (Φ : Headings)

/-- What the notes of a tree are replaced by when they do not matter. -/
def forget (_ : α) : Unit := ()

namespace Expr

theorem withNote_map {β : Type} (f : α → β) (n : α) (e : Expr α) :
    (e.withNote n).map f = (e.map f).withNote (f n) := by
  cases e <;> rfl

@[simp] theorem withNote_unit (e : Expr Unit) : e.withNote () = e := by
  cases e <;> rfl

@[simp] theorem withNote_note (e : Expr α) : e.withNote e.note = e := by
  cases e <;> rfl

@[simp] theorem note_withNote (n : α) (e : Expr α) : (e.withNote n).note = n := by
  cases e <;> rfl

@[simp] theorem location_withNote (n : α) (e : Expr α) : (e.withNote n).location = e.location := by
  cases e <;> rfl

@[simp] theorem scalar?_withNote (n : α) (e : Expr α) :
    (e.withNote n).scalar? Γ = e.scalar? Γ := by
  cases e <;> rfl

mutual

theorem annotate_forget : ∀ e : Expr α, (e.annotate Γ Φ).map forget = e.map forget
  | var _ _ _ | literal _ _ _ => rfl
  | unary _ e _ _ => by simp only [annotate, map, annotate_forget e, forget]
  | binary _ a b _ _ | assign a b _ _ => by
    simp only [annotate, map, annotate_forget a, annotate_forget b, forget]
  | call callee args _ _ => by
    simp only [annotate, map, annotateAll_forget args, map_map, forget]
  | index a i _ _ => by
    simp only [annotate, map, withNote_map, annotate_forget a, annotate_forget i, forget,
      withNote_unit]

theorem annotateAll_forget : ∀ es : List (Expr α),
    mapAll forget (annotateAll Γ Φ es) = mapAll forget es
  | [] => rfl
  | e :: es => by simp only [annotateAll, mapAll, annotate_forget e, annotateAll_forget es]

end

@[simp] theorem annotateExtent_forget (e : Expr α) :
    (e.annotateExtent Γ Φ).map forget = e.map forget := by
  rw [annotateExtent, withNote_map, annotate_forget]
  exact withNote_unit _

end Expr

mutual

theorem Init.annotate_forget : ∀ i : Init α, (i.annotate Γ Φ).map forget = i.map forget
  | .expr e => by simp only [Init.annotate, Init.map, Expr.annotate_forget]
  | .list items _ => by simp only [Init.annotate, Init.map, Init.annotateAll_forget items]

theorem Init.annotateAll_forget : ∀ items : List (Init α),
    Init.mapAll forget (Init.annotateAll Γ Φ items) = Init.mapAll forget items
  | [] => rfl
  | item :: items => by
    simp only [Init.annotateAll, Init.mapAll, Init.annotate_forget item,
      Init.annotateAll_forget items]

end

theorem Decl.annotate_forget (d : Decl α) : (d.annotate Γ Φ).map forget = d.map forget := by
  simp [Decl.annotate, Decl.map, Init.annotate_forget, Function.comp_def, forget]

mutual

theorem Stmt.annotate_forget : ∀ (Γ : Context) (s : Stmt α),
    (s.annotate Γ Φ).map forget = s.map forget
  | _, .empty _ | _, .breakLoop _ | _, .continueLoop _ | _, .returnNothing _ => rfl
  | Γ, .expr e _ | Γ, .returnValue e _ => by
    simp only [Stmt.annotate, Stmt.map, Expr.annotate_forget]
  | Γ, .block items _ => by simp only [Stmt.annotate, Stmt.map, Item.annotateAll_forget Γ items]
  | Γ, .ifThen e body _ | Γ, .whileLoop e body _ => by
    simp only [Stmt.annotate, Stmt.map, Expr.annotate_forget, Stmt.annotate_forget Γ body]
  | Γ, .ifElse e body otherwise _ => by
    simp only [Stmt.annotate, Stmt.map, Expr.annotate_forget, Stmt.annotate_forget Γ body,
      Stmt.annotate_forget Γ otherwise]

theorem Item.annotate_forget : ∀ (Γ : Context) (i : Item α),
    (i.annotate Γ Φ).map forget = i.map forget
  | Γ, .decl d => by simp only [Item.annotate, Item.map, Decl.annotate_forget]
  | Γ, .stmt s => by simp only [Item.annotate, Item.map, Stmt.annotate_forget Γ s]

theorem Item.annotateAll_forget : ∀ (Γ : Context) (items : List (Item α)),
    Item.mapAll forget (Item.annotateAll Γ Φ items) = Item.mapAll forget items
  | _, [] => rfl
  | Γ, item :: items => by
    simp only [Item.annotateAll, Item.mapAll, Item.annotate_forget Γ item,
      Item.annotateAll_forget _ items]

end

theorem Param.annotate_forget (p : Param α) : (p.annotate Γ Φ).map forget = p.map forget := by
  simp [Param.annotate, Param.map, Function.comp_def]

theorem Function.annotate_forget (f : Function α) :
    (f.annotate Γ Φ).map forget = f.map forget := by
  simp [Function.annotate, Function.map, Param.annotate_forget, Item.annotateAll_forget,
    Function.comp_def]

theorem Program.annotateUnits_forget (bodies Γ : Context) (p : Program α) :
    (annotateUnits bodies Φ Γ p).mapNotes forget = p.mapNotes forget := by
  induction p generalizing Γ with
  | nil => rfl
  | cons unit units ih =>
    unfold Program.mapNotes at ih ⊢
    cases unit with
    | global d =>
      simp only [annotateUnits, List.map_cons, TopLevel.map, Decl.annotate_forget,
        ih (d.extend Γ)]
    | function f =>
      simp only [annotateUnits, List.map_cons, TopLevel.map, Function.annotate_forget, ih Γ]

/-- Without its notes an annotated program is the program without its notes. -/
theorem Program.annotate_forget (p : Program α) :
    p.annotate.mapNotes forget = p.mapNotes forget :=
  annotateUnits_forget _ _ _ _

end Forget

/-! ### Annotated trees mean the same -/

section Annotated

variable (Γ : Context) (Φ : Headings)

@[simp] theorem Expr.constant?_annotate (e : Expr α) :
    (e.annotate Γ Φ).constant? Γ = e.constant? Γ := by
  rw [← Expr.constant?_map Γ forget (e.annotate Γ Φ), annotate_forget, Expr.constant?_map]

@[simp] theorem Expr.scalar?_annotate (e : Expr α) :
    (e.annotate Γ Φ).scalar? Γ = e.scalar? Γ := by
  rw [scalar?, constant?_annotate, scalar?]

@[simp] theorem Decl.extend_annotate (d : Decl α) :
    (d.annotate Γ Φ).extend Γ = d.extend Γ := by
  rw [← Decl.extend_map Γ forget (d.annotate Γ Φ), annotate_forget, Decl.extend_map]

@[simp] theorem Item.extend_annotate (item : Item α) :
    (item.annotate Γ Φ).extend Γ = item.extend Γ := by
  rw [← Item.extend_map Γ forget (item.annotate Γ Φ), annotate_forget, Item.extend_map]

@[simp] theorem Function.context_annotate (f : Function α) :
    (f.annotate Γ Φ).context Γ = f.context Γ := by
  rw [← Function.context_map Γ forget (f.annotate Γ Φ), annotate_forget, Function.context_map]

@[simp] theorem Program.context_annotate (p : Program α) : p.annotate.context = p.context := by
  rw [← Program.context_mapNotes forget p.annotate, annotate_forget, Program.context_mapNotes]

@[simp] theorem Expr.note_annotate (e : Expr α) : (e.annotate Γ Φ).note = e.typing Γ Φ := by
  cases e <;> rfl

@[simp] theorem Expr.location_annotate (e : Expr α) :
    (e.annotate Γ Φ).location = e.location := by
  cases e <;> rfl

end Annotated

end SysYFront
