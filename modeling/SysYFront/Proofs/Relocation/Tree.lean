import SysYFront.Compile
import SysYFront.Proofs.Meaning.Notes

/-!
# SysYFront.Proofs.Relocation.Tree

The same text laid out differently. To relocate a token, a tree or an error by a function on
places is to move every place in it by that function and to keep all else: the kinds of tokens,
the nodes of a tree with their notes, and the words of a message. The function is any function at
all, so different places may be moved to one.

What the checker asks of a checked tree is not moved: its notes and the values of its literals.
-/

namespace SysYFront

variable {α : Type} (f : Location → Location)

/-! ### Tokens and trees -/

def Token.relocate (t : Token) : Token :=
  ⟨t.kind, f t.location⟩

mutual

def Expr.relocate : Expr α → Expr α
  | .var name l n => .var name (f l) n
  | .literal v l n => .literal v (f l) n
  | .unary op e l n => .unary op (Expr.relocate e) (f l) n
  | .binary op a b l n => .binary op (Expr.relocate a) (Expr.relocate b) (f l) n
  | .assign a b l n => .assign (Expr.relocate a) (Expr.relocate b) (f l) n
  | .call callee args l n => .call (Expr.relocate callee) (Expr.relocateAll args) (f l) n
  | .index a i l n => .index (Expr.relocate a) (Expr.relocate i) (f l) n

def Expr.relocateAll : List (Expr α) → List (Expr α)
  | [] => []
  | e :: es => Expr.relocate e :: Expr.relocateAll es

end

mutual

def Init.relocate : Init α → Init α
  | .expr e => .expr (e.relocate f)
  | .list items l => .list (Init.relocateAll items) (f l)

def Init.relocateAll : List (Init α) → List (Init α)
  | [] => []
  | item :: items => Init.relocate item :: Init.relocateAll items

end

def Decl.relocate (d : Decl α) : Decl α :=
  { d with
    dims := d.dims.map (Expr.relocate f)
    init := d.init.map (Init.relocate f)
    location := f d.location }

mutual

def Stmt.relocate : Stmt α → Stmt α
  | .empty l => .empty (f l)
  | .expr e l => .expr (e.relocate f) (f l)
  | .block items l => .block (Item.relocateAll items) (f l)
  | .ifThen e body l => .ifThen (e.relocate f) (Stmt.relocate body) (f l)
  | .ifElse e body otherwise l =>
    .ifElse (e.relocate f) (Stmt.relocate body) (Stmt.relocate otherwise) (f l)
  | .whileLoop e body l => .whileLoop (e.relocate f) (Stmt.relocate body) (f l)
  | .breakLoop l => .breakLoop (f l)
  | .continueLoop l => .continueLoop (f l)
  | .returnNothing l => .returnNothing (f l)
  | .returnValue e l => .returnValue (e.relocate f) (f l)

def Item.relocate : Item α → Item α
  | .decl d => .decl (d.relocate f)
  | .stmt s => .stmt (Stmt.relocate s)

def Item.relocateAll : List (Item α) → List (Item α)
  | [] => []
  | item :: items => Item.relocate item :: Item.relocateAll items

end

def Block.relocate (b : Block α) : Block α :=
  ⟨Item.relocateAll f b.items, f b.location⟩

def Param.relocate (p : Param α) : Param α :=
  { p with
    dims := p.dims.map (Expr.relocate f)
    location := f p.location }

def Function.relocate (g : Function α) : Function α :=
  { g with
    params := g.params.map (Param.relocate f)
    body := g.body.relocate f
    location := f g.location }

def Program.relocate (p : Program α) : Program α :=
  List.map (TopLevel.map (Decl.relocate f) (Function.relocate f)) p

/-! ### Outcomes -/

def CheckedProgram.relocate (r : CheckedProgram) : CheckedProgram :=
  { r with program := r.program.relocate f }

def SyntaxError.relocate (e : SyntaxError) : SyntaxError :=
  { e with location := f e.location }

def Diagnostic.relocate (d : Diagnostic) : Diagnostic :=
  { d with location := f d.location }

/-- An error keeps the stage at which it was found. -/
def CompileError.relocate : CompileError → CompileError
  | unreadable e => unreadable (e.relocate f)
  | rejected d => rejected (d.relocate f)

/-- The outcome of a check or of a whole compilation. -/
def relocateOutcome {ε β γ : Type} (onError : ε → ε) (onValue : β → γ) :
    Except ε β → Except ε γ
  | .ok b => .ok (onValue b)
  | .error e => .error (onError e)

/-! ### What stays -/

namespace Expr

@[simp] theorem location_relocate (e : Expr α) : (e.relocate f).location = f e.location := by
  cases e <;> rfl

@[simp] theorem note_relocate (e : Expr α) : (e.relocate f).note = e.note := by
  cases e <;> rfl

@[simp] theorem value?_relocate (e : Expr α) : (e.relocate f).value? = e.value? := by
  cases e <;> rfl

theorem relocateAll_eq_map (es : List (Expr α)) : relocateAll f es = es.map (relocate f) := by
  induction es with
  | nil => rfl
  | cons e es ih => rw [relocateAll, ih, List.map_cons]

@[simp] theorem length_relocateAll (es : List (Expr α)) :
    (relocateAll f es).length = es.length := by
  rw [relocateAll_eq_map, List.length_map]

end Expr

@[simp] theorem Init.location_relocate (i : Init α) : (i.relocate f).location = f i.location := by
  cases i with
  | expr e => exact Expr.location_relocate f e
  | list items l => rfl

theorem Init.relocateAll_eq_map (items : List (Init α)) :
    relocateAll f items = items.map (relocate f) := by
  induction items with
  | nil => rfl
  | cons item items ih => rw [relocateAll, ih, List.map_cons]

theorem Item.relocateAll_eq_map (items : List (Item α)) :
    relocateAll f items = items.map (relocate f) := by
  induction items with
  | nil => rfl
  | cons item items ih => rw [relocateAll, ih, List.map_cons]

end SysYFront
