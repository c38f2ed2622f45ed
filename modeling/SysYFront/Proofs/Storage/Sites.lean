import Mathlib.Data.List.Forall2
import SysYFront.Program.Basic
import SysYFront.Proofs.Meaning.Rules

/-!
# SysYFront.Proofs.Storage.Sites

Which declaration a name refers to. A *site* is an expression that stands by itself in a program,
such as a statement, a condition or an extent, with the bindings that are visible there: what
each name was declared as, the innermost and latest first. All of this is read off the text;
neither types nor values play a part.

An expression under subscripts has a *root*, what is left without them. The root of a place is a
name, and its binding tells which storage the place belongs to.

Bindings and contexts (`Context`) list the same declarations, the ones as they were written and
the others as what they mean, so each can be looked up in place of the other
(`Bindings.Matches`).
-/

namespace SysYFront

variable {α : Type}

/-- The number of dimensions; an extent that is left open is one of them. -/
def Param.rank (p : Param α) : Nat :=
  p.dims.length + p.isOpen.toNat

/-- What a name was declared as: a variable, or the parameter of a function at a position. -/
inductive Binder (α : Type)
  | declared (d : Decl α)
  | parameter (function : String) (position : Nat) (p : Param α)

namespace Binder

def isConst : Binder α → Bool
  | declared d => d.isConst
  | parameter _ _ _ => false

/-- The number of dimensions. -/
def rank : Binder α → Nat
  | declared d => d.dims.length
  | parameter _ _ p => p.rank

end Binder

/-- The visible declarations, the one that a name refers to first. -/
abbrev Bindings (α : Type) := List (String × Binder α)

/-- An expression with the bindings that are visible where it stands. -/
abbrev Site (α : Type) := Bindings α × Expr α

/-! ### The sites of a program -/

mutual

/-- The expressions of an initializer. -/
def Init.exprs : Init α → List (Expr α)
  | .expr e => [e]
  | .list items _ => Init.exprsAll items

def Init.exprsAll : List (Init α) → List (Expr α)
  | [] => []
  | item :: items => Init.exprs item ++ Init.exprsAll items

end

namespace Decl

/-- The bindings behind a declaration. -/
def bind (B : Bindings α) (d : Decl α) : Bindings α :=
  (d.name, .declared d) :: B

/-- A name is declared behind its own extents and its own initializer. -/
def sites (B : Bindings α) (d : Decl α) : List (Site α) :=
  (d.dims ++ (d.init.map Init.exprs).getD []).map (Prod.mk B)

/-- The sites of declarations, each behind those before it. -/
def allSites (B : Bindings α) : List (Decl α) → List (Site α)
  | [] => []
  | d :: ds => d.sites B ++ allSites (d.bind B) ds

end Decl

/-- The bindings behind an item of a block. -/
def Item.bind (B : Bindings α) : Item α → Bindings α
  | .decl d => d.bind B
  | .stmt _ => B

mutual

def Stmt.sites (B : Bindings α) : Stmt α → List (Site α)
  | .empty _ | .breakLoop _ | .continueLoop _ | .returnNothing _ => []
  | .expr e _ | .returnValue e _ => [(B, e)]
  | .block items _ => Item.allSites B items
  | .ifThen e body _ | .whileLoop e body _ => (B, e) :: Stmt.sites B body
  | .ifElse e body otherwise _ => (B, e) :: (Stmt.sites B body ++ Stmt.sites B otherwise)

def Item.sites (B : Bindings α) : Item α → List (Site α)
  | .decl d => d.sites B
  | .stmt s => Stmt.sites B s

def Item.allSites (B : Bindings α) : List (Item α) → List (Site α)
  | [] => []
  | item :: items => Item.sites B item ++ Item.allSites (item.bind B) items

end

namespace Function

/-- The parameters of a function, as names of its body. -/
def bindings (f : Function α) : Bindings α :=
  f.params.mapIdx fun position p => (p.name, .parameter f.name position p)

/-- The extents of parameters see the globals only, and the body the parameters as well. -/
def sites (B : Bindings α) (f : Function α) : List (Site α) :=
  f.params.flatMap (fun p => p.dims.map (Prod.mk B)) ++
    Item.allSites (f.bindings ++ B) f.body.items

end Function

namespace Program

/-- What the bodies of all functions see: every global declaration. -/
def bindings (p : Program α) : Bindings α :=
  p.globals.foldl Decl.bind []

def sites (p : Program α) : List (Site α) :=
  Decl.allSites [] p.globals ++ p.functions.flatMap (Function.sites p.bindings)

end Program

/-! ### Parts, roots and subscripts -/

namespace Expr

mutual

/-- An expression and all expressions inside it. -/
def parts : Expr α → List (Expr α)
  | var name l n => [var name l n]
  | literal v l n => [literal v l n]
  | unary op e l n => unary op e l n :: parts e
  | binary op a b l n => binary op a b l n :: (parts a ++ parts b)
  | assign a b l n => assign a b l n :: (parts a ++ parts b)
  | call callee args l n => call callee args l n :: (parts callee ++ partsAll args)
  | index a i l n => index a i l n :: (parts a ++ parts i)

def partsAll : List (Expr α) → List (Expr α)
  | [] => []
  | e :: es => parts e ++ partsAll es

end

/-- What is left of an expression without its subscripts. -/
def root : Expr α → Expr α
  | index a _ _ _ => root a
  | e => e

/-- The number of subscripts that stand behind the root. -/
def subscripts : Expr α → Nat
  | index a _ _ _ => subscripts a + 1
  | _ => 0

/-- Whether an expression is a name under any number of subscripts, and the name refers to
`b`. -/
def RootedAt (B : Bindings α) (b : Binder α) (e : Expr α) : Prop :=
  ∃ name l n, e.root = var name l n ∧ B.lookup name = some b

/-- Whether an expression is an element of a parameter or of a variable that is not constant: a
name under as many subscripts as its declaration has dimensions. -/
def IsMutableScalar (B : Bindings α) (e : Expr α) : Prop :=
  ∃ b, e.RootedAt B b ∧ b.isConst = false ∧ e.subscripts = b.rank

end Expr

/-- Whether `e` stands in the program, alone or inside another expression, where `B` is
visible. -/
def Program.Contains (p : Program α) (B : Bindings α) (e : Expr α) : Prop :=
  ∃ e₀, (B, e₀) ∈ p.sites ∧ e ∈ e₀.parts

/-! ### Bindings and contexts -/

/-- What a parameter means has as many dimensions as it was written with. -/
theorem Param.length_dims_meaning (p : Param α) (Γ : Context) :
    (p.meaning Γ).dims.length = p.rank := by
  cases hopen : p.isOpen <;> simp [Param.meaning, Param.rank, hopen, Expr.extents, Nat.add_comm]

/-- Whether bindings and a context are of the same declarations: the same names in the same order,
constant in both or in neither, and with as many dimensions. -/
def Bindings.Matches (B : Bindings α) (Γ : Context) : Prop :=
  List.Forall₂ (fun entry meant => entry.1 = meant.1 ∧ entry.2.isConst = meant.2.cells.isSome ∧
    entry.2.rank = meant.2.dims.length) B Γ

namespace Bindings.Matches

variable {B B' : Bindings α} {Γ Γ' : Context}

theorem append (h : B.Matches Γ) (h' : B'.Matches Γ') :
    Matches (B ++ B') (Γ ++ Γ') :=
  List.rel_append h h'

theorem bind (h : B.Matches Γ) (d : Decl α) : Matches (d.bind B) (d.extend Γ) := by
  refine .cons ⟨rfl, ?_, ?_⟩ h
  · show d.isConst = (d.meaning Γ).cells.isSome
    unfold Decl.meaning
    cases d.isConst <;> rfl
  · show d.dims.length = (d.meaning Γ).dims.length
    simp [Decl.meaning, Expr.extents]

theorem bindItem (h : B.Matches Γ) (item : Item α) : Matches (item.bind B) (item.extend Γ) := by
  cases item with
  | decl d => exact h.bind d
  | stmt s => exact h

theorem foldl_bind (h : B.Matches Γ) (ds : List (Decl α)) :
    Matches (ds.foldl Decl.bind B) (ds.foldl Decl.extend Γ) := by
  induction ds generalizing B Γ with
  | nil => exact h
  | cons d ds ih => exact ih (h.bind d)

theorem parameters (Γ : Context) (f : Function α) : Matches f.bindings (f.context Γ) := by
  rw [Matches, Function.bindings, Function.context, List.forall₂_iff_get]
  refine ⟨by simp, fun i hi hi' => ?_⟩
  rw [List.length_map] at hi'
  simp only [List.get_eq_getElem, List.getElem_mapIdx, List.getElem_map]
  exact ⟨trivial, rfl, (f.params[i].length_dims_meaning Γ).symm⟩

theorem globals (p : Program α) : Matches p.bindings p.context :=
  foldl_bind .nil p.globals

/-- A name refers to the same declaration in both, or to none in either. -/
theorem lookup_rel (h : B.Matches Γ) (name : String) :
    Option.Rel (fun b m => b.isConst = m.cells.isSome ∧ b.rank = m.dims.length)
      (B.lookup name) (Γ.lookup name) := by
  induction h with
  | nil => exact .none
  | @cons entry meant B Γ hentry _ ih =>
    obtain ⟨hname, hmeaning⟩ := hentry
    rw [List.lookup_cons, List.lookup_cons, hname]
    cases name == meant.1 with
    | true => exact .some hmeaning
    | false => exact ih

theorem lookup_eq_some (h : B.Matches Γ) {name : String} {b : Binder α}
    (hb : B.lookup name = some b) : ∃ m, Γ.lookup name = some m ∧
      b.isConst = m.cells.isSome ∧ b.rank = m.dims.length := by
  have hrel := h.lookup_rel name
  rw [hb] at hrel
  generalize Γ.lookup name = found at hrel
  cases hrel with
  | some hmeaning => exact ⟨_, rfl, hmeaning⟩

theorem exists_lookup (h : B.Matches Γ) {name : String} {m : Meaning}
    (hm : Γ.lookup name = some m) : ∃ b, B.lookup name = some b ∧
      b.isConst = m.cells.isSome ∧ b.rank = m.dims.length := by
  have hrel := h.lookup_rel name
  rw [hm] at hrel
  generalize B.lookup name = found at hrel
  cases hrel with
  | some hmeaning => exact ⟨_, rfl, hmeaning⟩

end Bindings.Matches

end SysYFront
