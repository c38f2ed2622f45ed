import SysYFront.Proofs.Meaning.Constant

/-!
# SysYFront.Proofs.Meaning.Folding

Constant propagation from the top down. Every expression that is constant and scalar
where it stands becomes the literal of its value, at the same place and with the same
note; a subscript or an extent that is constant becomes an integer literal. All else
stays as it is. What is constant is asked of the original tree (`Expr.constant?`), and
the context follows the declarations in lexical order.
-/

namespace SysYFront

variable {α β : Type}

/-! ### Folding -/

namespace Expr

/-- The literal of the value of `e` if it has one, otherwise what `e` was made into. -/
def collapse (Γ : Context) (e kept : Expr α) : Expr α :=
  match e.scalar? Γ with
  | some v => literal v e.location e.note
  | none => kept

/-- An integer literal in place of a literal: the value without its fraction. -/
def truncated : Expr α → Expr α
  | literal v l n => literal (.int v.asInt) l n
  | e => e

mutual

/-- Folds an expression. The callee of a call is no expression that has a value. -/
def fold (Γ : Context) : Expr α → Expr α
  | var name l n => collapse Γ (var name l n) (var name l n)
  | literal v l n => literal v l n
  | unary op e l n => collapse Γ (unary op e l n) (unary op (fold Γ e) l n)
  | binary op a b l n => collapse Γ (binary op a b l n) (binary op (fold Γ a) (fold Γ b) l n)
  | assign a b l n => assign (fold Γ a) (fold Γ b) l n
  | call callee args l n => call callee (foldAll Γ args) l n
  | index a i l n => collapse Γ (index a i l n) (index (fold Γ a) (fold Γ i).truncated l n)

/-- Folds the arguments of a call. -/
def foldAll (Γ : Context) : List (Expr α) → List (Expr α)
  | [] => []
  | e :: es => fold Γ e :: foldAll Γ es

end

end Expr

mutual

def Init.fold (Γ : Context) : Init α → Init α
  | .expr e => .expr (e.fold Γ)
  | .list items l => .list (Init.foldAll Γ items) l

def Init.foldAll (Γ : Context) : List (Init α) → List (Init α)
  | [] => []
  | item :: items => Init.fold Γ item :: Init.foldAll Γ items

end

/-- Folds the extents and the initializer of a declaration. -/
def Decl.fold (Γ : Context) (d : Decl α) : Decl α :=
  { d with
    dims := d.dims.map fun e => (e.fold Γ).truncated
    init := d.init.map (Init.fold Γ) }

mutual

def Stmt.fold (Γ : Context) : Stmt α → Stmt α
  | .empty l => .empty l
  | .expr e l => .expr (e.fold Γ) l
  | .block items l => .block (Item.foldAll Γ items) l
  | .ifThen e body l => .ifThen (e.fold Γ) (Stmt.fold Γ body) l
  | .ifElse e body otherwise l => .ifElse (e.fold Γ) (Stmt.fold Γ body) (Stmt.fold Γ otherwise) l
  | .whileLoop e body l => .whileLoop (e.fold Γ) (Stmt.fold Γ body) l
  | .breakLoop l => .breakLoop l
  | .continueLoop l => .continueLoop l
  | .returnNothing l => .returnNothing l
  | .returnValue e l => .returnValue (e.fold Γ) l

def Item.fold (Γ : Context) : Item α → Item α
  | .decl d => .decl (d.fold Γ)
  | .stmt s => .stmt (Stmt.fold Γ s)

/-- Folds the items of a block, each in the context behind the declarations before it. -/
def Item.foldAll (Γ : Context) : List (Item α) → List (Item α)
  | [] => []
  | item :: items => Item.fold Γ item :: Item.foldAll (item.extend Γ) items

end

/-- Folds the extents of a parameter. -/
def Param.fold (Γ : Context) (p : Param α) : Param α :=
  { p with dims := p.dims.map fun e => (e.fold Γ).truncated }

/-- Folds a function. The names of its parameters are those of its body. -/
def Function.fold (Γ : Context) (f : Function α) : Function α :=
  { f with
    params := f.params.map (Param.fold Γ)
    body := { f.body with items := Item.foldAll (f.context Γ ++ Γ) f.body.items } }

/-- Folds the units of a program: a global declaration in the context behind the ones
before it, a function in the context `bodies`. -/
def Program.foldUnits (bodies : Context) : Context → Program α → Program α
  | _, [] => []
  | Γ, .global d :: units => .global (d.fold Γ) :: foldUnits bodies (d.extend Γ) units
  | Γ, .function f :: units => .function (f.fold bodies) :: foldUnits bodies Γ units

/-- Folds a program. -/
def Program.fold (p : Program α) : Program α :=
  Program.foldUnits p.context [] p

/-! ### What folding gives -/

namespace Expr

variable (Γ : Context)

/-- A folded expression is a literal if and only if the expression has a value, which is
then the literal's. -/
@[simp] theorem value?_fold (e : Expr α) : (e.fold Γ).value? = e.scalar? Γ := by
  have hcollapse (e kept : Expr α) (h : kept.value? = none) :
      (collapse Γ e kept).value? = e.scalar? Γ := by
    unfold collapse
    cases hv : e.scalar? Γ with
    | none => exact h
    | some v => rfl
  cases e with
  | literal v l n => rfl
  | assign a b l n => rfl
  | call callee args l n => rfl
  | _ => exact hcollapse _ _ rfl

@[simp] theorem note_fold (e : Expr α) : (e.fold Γ).note = e.note := by
  have hcollapse (e kept : Expr α) (h : kept.note = e.note) :
      (collapse Γ e kept).note = e.note := by
    unfold collapse
    cases hv : e.scalar? Γ with
    | none => exact h
    | some v => rfl
  cases e with
  | literal v l n => rfl
  | assign a b l n => rfl
  | call callee args l n => rfl
  | _ => exact hcollapse _ _ rfl

theorem truncated_literal (v : Scalar) (l : Location) (n : α) :
    (literal v l n).truncated = literal (.int v.asInt) l n := rfl

theorem truncated_of_value?_eq_none {e : Expr α} (h : e.value? = none) : e.truncated = e := by
  cases e with
  | literal v l n => cases h
  | _ => rfl

/-- What has a value folds to the literal of that value. -/
theorem fold_eq_literal {e : Expr α} {v : Scalar} (h : e.scalar? Γ = some v) :
    e.fold Γ = literal v e.location e.note := by
  cases e with
  | literal w l n =>
    obtain rfl := Option.some.inj h
    rfl
  | assign a b l n => cases h
  | call callee args l n => cases h
  | _ => simp [fold, collapse, h]

end Expr

/-! ### Folding keeps the notes -/

section Map

variable (Γ : Context) (f : α → β)

namespace Expr

@[simp] theorem location_map (e : Expr α) : (e.map f).location = e.location := by
  cases e <;> rfl

@[simp] theorem note_map (e : Expr α) : (e.map f).note = f e.note := by
  cases e <;> rfl

@[simp] theorem value?_map (e : Expr α) : (e.map f).value? = e.value? := by
  cases e <;> rfl

theorem truncated_map (e : Expr α) : (e.map f).truncated = e.truncated.map f := by
  cases e <;> rfl

theorem collapse_map (e kept : Expr α) :
    collapse Γ (e.map f) (kept.map f) = (collapse Γ e kept).map f := by
  unfold collapse
  rw [scalar?_map]
  cases e.scalar? Γ with
  | none => rfl
  | some v => simp [map]

mutual

theorem fold_map : ∀ e : Expr α, (e.map f).fold Γ = (e.fold Γ).map f
  | var name l n => collapse_map Γ f (var name l n) (var name l n)
  | literal _ _ _ => rfl
  | unary op e l n => by
    have h := collapse_map Γ f (unary op e l n) (unary op (e.fold Γ) l n)
    simpa only [map, fold, fold_map e] using h
  | binary op a b l n => by
    have h := collapse_map Γ f (binary op a b l n) (binary op (a.fold Γ) (b.fold Γ) l n)
    simpa only [map, fold, fold_map a, fold_map b] using h
  | assign a b l n => by simp only [map, fold, fold_map a, fold_map b]
  | call callee args l n => by simp only [map, fold, foldAll_map args]
  | index a i l n => by
    have h := collapse_map Γ f (index a i l n) (index (a.fold Γ) (i.fold Γ).truncated l n)
    simpa only [map, fold, fold_map a, fold_map i, truncated_map] using h

theorem foldAll_map : ∀ es : List (Expr α), foldAll Γ (mapAll f es) = mapAll f (foldAll Γ es)
  | [] => rfl
  | e :: es => by simp only [mapAll, foldAll, fold_map e, foldAll_map es]

end

end Expr

mutual

theorem Init.fold_map : ∀ i : Init α, (i.map f).fold Γ = (i.fold Γ).map f
  | .expr e => by simp only [Init.map, Init.fold, Expr.fold_map]
  | .list items l => by simp only [Init.map, Init.fold, Init.foldAll_map items]

theorem Init.foldAll_map : ∀ items : List (Init α),
    Init.foldAll Γ (Init.mapAll f items) = Init.mapAll f (Init.foldAll Γ items)
  | [] => rfl
  | item :: items => by
    simp only [Init.mapAll, Init.foldAll, Init.fold_map item, Init.foldAll_map items]

end

theorem Decl.fold_map (d : Decl α) : (d.map f).fold Γ = (d.fold Γ).map f := by
  simp [Decl.map, Decl.fold, Expr.fold_map, Expr.truncated_map, Init.fold_map, Function.comp_def]

mutual

theorem Stmt.fold_map : ∀ (Γ : Context) (s : Stmt α), (s.map f).fold Γ = (s.fold Γ).map f
  | _, .empty _ | _, .breakLoop _ | _, .continueLoop _ | _, .returnNothing _ => rfl
  | Γ, .expr e _ | Γ, .returnValue e _ => by simp only [Stmt.map, Stmt.fold, Expr.fold_map]
  | Γ, .block items _ => by simp only [Stmt.map, Stmt.fold, Item.foldAll_map Γ items]
  | Γ, .ifThen e body _ | Γ, .whileLoop e body _ => by
    simp only [Stmt.map, Stmt.fold, Expr.fold_map, Stmt.fold_map Γ body]
  | Γ, .ifElse e body otherwise _ => by
    simp only [Stmt.map, Stmt.fold, Expr.fold_map, Stmt.fold_map Γ body,
      Stmt.fold_map Γ otherwise]

theorem Item.fold_map : ∀ (Γ : Context) (i : Item α), (i.map f).fold Γ = (i.fold Γ).map f
  | Γ, .decl d => by simp only [Item.map, Item.fold, Decl.fold_map]
  | Γ, .stmt s => by simp only [Item.map, Item.fold, Stmt.fold_map Γ s]

theorem Item.foldAll_map : ∀ (Γ : Context) (items : List (Item α)),
    Item.foldAll Γ (Item.mapAll f items) = Item.mapAll f (Item.foldAll Γ items)
  | _, [] => rfl
  | Γ, item :: items => by
    simp only [Item.mapAll, Item.foldAll, Item.fold_map Γ item, Item.extend_map,
      Item.foldAll_map _ items]

end

theorem Param.fold_map (p : Param α) : (p.map f).fold Γ = (p.fold Γ).map f := by
  simp [Param.map, Param.fold, Expr.fold_map, Expr.truncated_map, Function.comp_def]

theorem Function.fold_map (g : Function α) : (g.map f).fold Γ = (g.fold Γ).map f := by
  rw [Function.fold, Function.context_map]
  simp [Function.map, Function.fold, Param.fold_map, Item.foldAll_map, Function.comp_def]

theorem Program.foldUnits_mapNotes (bodies Γ : Context) (p : Program α) :
    foldUnits bodies Γ (p.mapNotes f) = (foldUnits bodies Γ p).mapNotes f := by
  induction p generalizing Γ with
  | nil => rfl
  | cons unit units ih =>
    unfold Program.mapNotes at ih ⊢
    cases unit with
    | global d =>
      simp only [List.map_cons, TopLevel.map, foldUnits, Decl.fold_map, Decl.extend_map,
        ih (d.extend Γ)]
    | function g =>
      simp only [List.map_cons, TopLevel.map, foldUnits, Function.fold_map, ih Γ]

/-- Folding neither reads nor loses a note. -/
theorem Program.fold_mapNotes (p : Program α) : (p.mapNotes f).fold = p.fold.mapNotes f := by
  rw [Program.fold, Program.context_mapNotes, Program.foldUnits_mapNotes]
  rfl

end Map

end SysYFront
