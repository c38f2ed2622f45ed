import SysYFront.Program.Basic

/-!
# SysYFront.Proofs.Meaning.Notes

Trees with other notes. `map f` keeps a tree node by node and replaces every note, so
two trees are equal up to their notes if they are equal after forgetting them.
-/

namespace SysYFront

variable {α β : Type}

mutual

def Expr.map (f : α → β) : Expr α → Expr β
  | .var name l n => .var name l (f n)
  | .literal v l n => .literal v l (f n)
  | .unary op e l n => .unary op (Expr.map f e) l (f n)
  | .binary op a b l n => .binary op (Expr.map f a) (Expr.map f b) l (f n)
  | .assign a b l n => .assign (Expr.map f a) (Expr.map f b) l (f n)
  | .call callee args l n => .call (Expr.map f callee) (Expr.mapAll f args) l (f n)
  | .index a i l n => .index (Expr.map f a) (Expr.map f i) l (f n)

def Expr.mapAll (f : α → β) : List (Expr α) → List (Expr β)
  | [] => []
  | e :: es => Expr.map f e :: Expr.mapAll f es

end

mutual

def Init.map (f : α → β) : Init α → Init β
  | .expr e => .expr (e.map f)
  | .list items l => .list (Init.mapAll f items) l

def Init.mapAll (f : α → β) : List (Init α) → List (Init β)
  | [] => []
  | item :: items => Init.map f item :: Init.mapAll f items

end

def Decl.map (f : α → β) (d : Decl α) : Decl β where
  name := d.name
  isConst := d.isConst
  base := d.base
  dims := d.dims.map (Expr.map f)
  init := d.init.map (Init.map f)
  location := d.location
  note := f d.note

mutual

def Stmt.map (f : α → β) : Stmt α → Stmt β
  | .empty l => .empty l
  | .expr e l => .expr (e.map f) l
  | .block items l => .block (Item.mapAll f items) l
  | .ifThen e body l => .ifThen (e.map f) (Stmt.map f body) l
  | .ifElse e body otherwise l => .ifElse (e.map f) (Stmt.map f body) (Stmt.map f otherwise) l
  | .whileLoop e body l => .whileLoop (e.map f) (Stmt.map f body) l
  | .breakLoop l => .breakLoop l
  | .continueLoop l => .continueLoop l
  | .returnNothing l => .returnNothing l
  | .returnValue e l => .returnValue (e.map f) l

def Item.map (f : α → β) : Item α → Item β
  | .decl d => .decl (d.map f)
  | .stmt s => .stmt (Stmt.map f s)

def Item.mapAll (f : α → β) : List (Item α) → List (Item β)
  | [] => []
  | item :: items => Item.map f item :: Item.mapAll f items

end

def Param.map (f : α → β) (p : Param α) : Param β where
  name := p.name
  base := p.base
  dims := p.dims.map (Expr.map f)
  isOpen := p.isOpen
  location := p.location

def Function.map (f : α → β) (g : Function α) : Function β where
  name := g.name
  returns := g.returns
  params := g.params.map (Param.map f)
  body := ⟨Item.mapAll f g.body.items, g.body.location⟩
  location := g.location

/-- Applies one function to the declarations of a program and one to its functions. -/
def TopLevel.map {δ δ' φ φ' : Type} (f : δ → δ') (g : φ → φ') : TopLevel δ φ → TopLevel δ' φ'
  | global d => global (f d)
  | function h => function (g h)

/-- Replaces the notes of a program. The name `map` is taken: a program is a list. -/
def Program.mapNotes (f : α → β) (p : Program α) : Program β :=
  List.map (TopLevel.map (Decl.map f) (Function.map f)) p

/-! ### Replacing notes by themselves -/

section MapId

mutual

theorem Expr.map_id : ∀ e : Expr α, e.map id = e
  | .var _ _ _ | .literal _ _ _ => rfl
  | .unary _ e _ _ => by rw [Expr.map, Expr.map_id e, id]
  | .binary _ a b _ _ => by rw [Expr.map, Expr.map_id a, Expr.map_id b, id]
  | .assign a b _ _ => by rw [Expr.map, Expr.map_id a, Expr.map_id b, id]
  | .call callee args _ _ => by rw [Expr.map, Expr.map_id callee, Expr.mapAll_id args, id]
  | .index a i _ _ => by rw [Expr.map, Expr.map_id a, Expr.map_id i, id]

theorem Expr.mapAll_id : ∀ es : List (Expr α), Expr.mapAll id es = es
  | [] => rfl
  | e :: es => by rw [Expr.mapAll, Expr.map_id e, Expr.mapAll_id es]

end

mutual

theorem Init.map_id : ∀ i : Init α, i.map id = i
  | .expr e => by rw [Init.map, Expr.map_id]
  | .list items _ => by rw [Init.map, Init.mapAll_id items]

theorem Init.mapAll_id : ∀ items : List (Init α), Init.mapAll id items = items
  | [] => rfl
  | item :: items => by rw [Init.mapAll, Init.map_id item, Init.mapAll_id items]

end

theorem Decl.map_id (d : Decl α) : d.map id = d := by
  have hdims : d.dims.map (Expr.map id) = d.dims := List.map_id'' Expr.map_id d.dims
  have hinit : d.init.map (Init.map id) = d.init := by
    rw [funext Init.map_id]
    exact Option.map_id_apply
  rw [Decl.map, hdims, hinit]
  rfl

mutual

theorem Stmt.map_id : ∀ s : Stmt α, s.map id = s
  | .empty _ | .breakLoop _ | .continueLoop _ | .returnNothing _ => rfl
  | .expr _ _ | .returnValue _ _ => by rw [Stmt.map, Expr.map_id]
  | .block items _ => by rw [Stmt.map, Item.mapAll_id items]
  | .ifThen _ body _ | .whileLoop _ body _ => by rw [Stmt.map, Expr.map_id, Stmt.map_id body]
  | .ifElse _ body otherwise _ => by
    rw [Stmt.map, Expr.map_id, Stmt.map_id body, Stmt.map_id otherwise]

theorem Item.map_id : ∀ i : Item α, i.map id = i
  | .decl d => by rw [Item.map, Decl.map_id]
  | .stmt s => by rw [Item.map, Stmt.map_id s]

theorem Item.mapAll_id : ∀ items : List (Item α), Item.mapAll id items = items
  | [] => rfl
  | item :: items => by rw [Item.mapAll, Item.map_id item, Item.mapAll_id items]

end

theorem Param.map_id (p : Param α) : p.map id = p := by
  have hdims : p.dims.map (Expr.map id) = p.dims := List.map_id'' Expr.map_id p.dims
  rw [Param.map, hdims]

theorem Function.map_id (h : Function α) : h.map id = h := by
  have hparams : h.params.map (Param.map id) = h.params := List.map_id'' Param.map_id h.params
  rw [Function.map, hparams, Item.mapAll_id]

theorem Program.mapNotes_id (p : Program α) : p.mapNotes id = p := by
  rw [Program.mapNotes]
  refine List.map_id'' (fun u => ?_) p
  cases u with
  | global d => rw [TopLevel.map, Decl.map_id]
  | function h => rw [TopLevel.map, Function.map_id]

end MapId

/-! ### Replacing notes twice -/

section MapMap

variable {γ : Type} (f : α → β) (g : β → γ)

mutual

theorem Expr.map_map : ∀ e : Expr α, (e.map f).map g = e.map fun n => g (f n)
  | .var _ _ _ => rfl
  | .literal _ _ _ => rfl
  | .unary _ e _ _ => by simp only [Expr.map, Expr.map_map e]
  | .binary _ a b _ _ => by simp only [Expr.map, Expr.map_map a, Expr.map_map b]
  | .assign a b _ _ => by simp only [Expr.map, Expr.map_map a, Expr.map_map b]
  | .call callee args _ _ => by
    simp only [Expr.map, Expr.map_map callee, Expr.mapAll_mapAll args]
  | .index a i _ _ => by simp only [Expr.map, Expr.map_map a, Expr.map_map i]

theorem Expr.mapAll_mapAll : ∀ es : List (Expr α),
    Expr.mapAll g (Expr.mapAll f es) = Expr.mapAll (fun n => g (f n)) es
  | [] => rfl
  | e :: es => by simp only [Expr.mapAll, Expr.map_map e, Expr.mapAll_mapAll es]

end

mutual

theorem Init.map_map : ∀ i : Init α, (i.map f).map g = i.map fun n => g (f n)
  | .expr e => by simp only [Init.map, Expr.map_map]
  | .list items _ => by simp only [Init.map, Init.mapAll_mapAll items]

theorem Init.mapAll_mapAll : ∀ items : List (Init α),
    Init.mapAll g (Init.mapAll f items) = Init.mapAll (fun n => g (f n)) items
  | [] => rfl
  | item :: items => by simp only [Init.mapAll, Init.map_map item, Init.mapAll_mapAll items]

end

theorem Decl.map_map (d : Decl α) : (d.map f).map g = d.map fun n => g (f n) := by
  simp [Decl.map, Expr.map_map, Init.map_map, Function.comp_def]

mutual

theorem Stmt.map_map : ∀ s : Stmt α, (s.map f).map g = s.map fun n => g (f n)
  | .empty _ | .breakLoop _ | .continueLoop _ | .returnNothing _ => rfl
  | .expr _ _ | .returnValue _ _ => by simp only [Stmt.map, Expr.map_map]
  | .block items _ => by simp only [Stmt.map, Item.mapAll_mapAll items]
  | .ifThen _ body _ | .whileLoop _ body _ => by
    simp only [Stmt.map, Expr.map_map, Stmt.map_map body]
  | .ifElse _ body otherwise _ => by
    simp only [Stmt.map, Expr.map_map, Stmt.map_map body, Stmt.map_map otherwise]

theorem Item.map_map : ∀ i : Item α, (i.map f).map g = i.map fun n => g (f n)
  | .decl d => by simp only [Item.map, Decl.map_map]
  | .stmt s => by simp only [Item.map, Stmt.map_map s]

theorem Item.mapAll_mapAll : ∀ items : List (Item α),
    Item.mapAll g (Item.mapAll f items) = Item.mapAll (fun n => g (f n)) items
  | [] => rfl
  | item :: items => by simp only [Item.mapAll, Item.map_map item, Item.mapAll_mapAll items]

end

theorem Param.map_map (p : Param α) : (p.map f).map g = p.map fun n => g (f n) := by
  simp [Param.map, Expr.map_map, Function.comp_def]

theorem Function.map_map (h : Function α) : (h.map f).map g = h.map fun n => g (f n) := by
  simp [Function.map, Param.map_map, Item.mapAll_mapAll, Function.comp_def]

theorem Program.mapNotes_mapNotes (p : Program α) :
    (p.mapNotes f).mapNotes g = p.mapNotes fun n => g (f n) := by
  simp only [mapNotes, List.map_map]
  refine List.map_congr_left fun u _ => ?_
  cases u with
  | global d => simp [TopLevel.map, Decl.map_map]
  | function h => simp [TopLevel.map, Function.map_map]

end MapMap

end SysYFront
