import SysYFront.Proofs.Relocation.Run
import SysYFront.Proofs.Relocation.Tree

/-!
# SysYFront.Proofs.Relocation.Check

Checking does not look at places. The state of a checker holds none, so two trees that differ in
their places only are checked in one and the same state: every rule asks for notes and values,
and what it reports stands at the place of a node. A check of the relocated tree thus gives the
relocated outcome, whether it only reads the state (`Relocates`) or runs on it (`Mirrors`).
-/

namespace SysYFront

variable {α β γ δ : Type} {f : Location → Location}

/-! ### Checks that read the state -/

/-- Whether the outcome of `m'` is the relocated outcome of `m`, with its value changed by `g`. -/
def Relocates (f : Location → Location) (g : α → β) (m : Except Diagnostic α)
    (m' : Except Diagnostic β) : Prop :=
  m' = relocateOutcome (Diagnostic.relocate f) g m

namespace Relocates

variable {g : α → β} {h : γ → δ} {m : Except Diagnostic α} {m' : Except Diagnostic β}

theorem pure {a : α} {b : β} (hab : g a = b) : Relocates f g (Pure.pure a) (Pure.pure b) :=
  congrArg Except.ok hab.symm

theorem report {p : Problem} {l l' : Location} (hl : f l = l') :
    Relocates f g (SysYFront.report p l) (SysYFront.report p l') := by
  subst hl
  rfl

theorem bind {k : α → Except Diagnostic γ} {k' : β → Except Diagnostic δ} (hm : Relocates f g m m')
    (hk : ∀ a, Relocates f h (k a) (k' (g a))) : Relocates f h (m >>= k) (m' >>= k') := by
  unfold Relocates at hm
  subst hm
  cases m with
  | error d => rfl
  | ok a => exact hk a

theorem map {k : α → γ} {k' : β → δ} (hm : Relocates f g m m') (hk : ∀ a, h (k a) = k' (g a)) :
    Relocates f h (m >>= fun a => Pure.pure (k a)) (m' >>= fun b => Pure.pure (k' b)) :=
  hm.bind fun a => pure (hk a)

/-- Two tests that are the same choose the same branch. -/
theorem branch {p p' : Prop} [Decidable p] [Decidable p'] {n : Except Diagnostic α}
    {n' : Except Diagnostic β} (hp : p' ↔ p) (hm : Relocates f g m m') (hn : Relocates f g n n') :
    Relocates f g (if p then m else n) (if p' then m' else n') := by
  by_cases hcase : p
  · rw [if_pos hcase, if_pos (hp.mpr hcase)]
    exact hm
  · rw [if_neg hcase, if_neg (mt hp.mp hcase)]
    exact hn

/-- A test that ends the check ends it on either side, at the place and at the moved place. -/
theorem guard {p p' : Prop} [Decidable p] [Decidable p'] {r : Problem} {l l' : Location}
    (hp : p' ↔ p) (hl : f l = l') (hm : Relocates f g m m') :
    Relocates f g (if p then SysYFront.report r l else m)
      (if p' then SysYFront.report r l' else m') :=
  branch hp (report hl) hm

end Relocates

/-! ### Checks that run on the state -/

namespace Mirrors

variable {g : α → β} {onError : Diagnostic → Diagnostic}

theorem inspect {m : Checker → Except Diagnostic α} {m' : Checker → Except Diagnostic β}
    (h : ∀ c, Relocates f g (m c) (m' c)) :
    Mirrors (Diagnostic.relocate f) id g (Checking.inspect m) (Checking.inspect m') := by
  intro c
  have hc : m' c = _ := h c
  simp only [Checking.inspect, id]
  rw [hc]
  cases m c <;> rfl

theorem within {m : Checking α} {m' : Checking β} (enter leave : Checker → Checker)
    (h : Mirrors onError id g m m') :
    Mirrors onError id g (Checking.within enter leave m) (Checking.within enter leave m') := by
  intro c
  have hc : m' (enter c) = _ := h (enter c)
  simp only [Checking.within, id]
  rw [hc]
  cases m (enter c) <;> rfl

theorem modified {k k' : Checker → Checker} (hk : k = k') :
    Mirrors onError id id (modify k : Checking Unit) (modify k') := by
  subst hk
  exact fun _ => rfl

end Mirrors

/-! ### Expressions -/

namespace Expr

variable {c : Checker}

theorem requireScalar_relocates (use : Use) (e : Expr ValueType) :
    Relocates f id (requireScalar use e) (requireScalar use (e.relocate f)) := by
  unfold requireScalar
  rw [note_relocate]
  exact Relocates.guard Iff.rfl (e.location_relocate f).symm
    (Relocates.guard Iff.rfl (e.location_relocate f).symm (Relocates.pure rfl))

theorem requireAssignable_relocates (e : Expr ValueType) :
    Relocates f id (requireAssignable e) (requireAssignable (e.relocate f)) := by
  unfold requireAssignable
  rw [note_relocate]
  exact Relocates.guard Iff.rfl (e.location_relocate f).symm
    (Relocates.guard Iff.rfl (e.location_relocate f).symm
      (Relocates.guard Iff.rfl (e.location_relocate f).symm (Relocates.pure rfl)))

theorem requireArgument_relocates (function : String) (position : Nat) (p : Parameter)
    (e : Expr ValueType) :
    Relocates f id (requireArgument function position p e)
      (requireArgument function position p (e.relocate f)) := by
  unfold requireArgument
  rw [note_relocate]
  exact Relocates.guard Iff.rfl (e.location_relocate f).symm
    (Relocates.guard Iff.rfl (e.location_relocate f).symm
      (Relocates.guard Iff.rfl (e.location_relocate f).symm (Relocates.pure rfl)))

theorem checkedVar_relocates (name : String) (l : Location) :
    Relocates f (relocate f) (checkedVar c name l) (checkedVar c name (f l)) := by
  unfold checkedVar
  cases c.scopes.lookup? name with
  | none => exact Relocates.report rfl
  | some t =>
    simp only
    cases t.isConst <;> cases t.value? <;> exact Relocates.pure rfl

theorem checkedUnary_relocate (op : UnaryOp) (e : Expr ValueType) (l : Location) :
    checkedUnary op (e.relocate f) (f l) = (checkedUnary op e l).relocate f := by
  unfold checkedUnary
  rw [value?_relocate]
  cases e.value? with
  | none => rw [note_relocate]; rfl
  | some v => rfl

theorem foldedBinary?_relocate (op : BinaryOp) (a b : Expr ValueType) :
    foldedBinary? op (a.relocate f) (b.relocate f) = foldedBinary? op a b := by
  simp only [foldedBinary?, value?_relocate]

theorem checkedBinary_relocates (op : BinaryOp) (a b : Expr ValueType) (l : Location) :
    Relocates f (relocate f) (checkedBinary op a b l)
      (checkedBinary op (a.relocate f) (b.relocate f) (f l)) := by
  unfold checkedBinary
  rw [note_relocate, note_relocate, value?_relocate, foldedBinary?_relocate]
  refine Relocates.guard Iff.rfl rfl (Relocates.guard Iff.rfl rfl (Relocates.guard Iff.rfl rfl ?_))
  cases foldedBinary? op a b <;> exact Relocates.pure rfl

theorem checkedIndex_relocates (array i : Expr ValueType) (l : Location) :
    Relocates f (relocate f) (checkedIndex array i l)
      (checkedIndex (array.relocate f) (i.relocate f) (f l)) := by
  unfold checkedIndex
  rw [note_relocate, value?_relocate, location_relocate]
  cases i.value? with
  | none => exact Relocates.pure rfl
  | some v =>
    refine Relocates.branch Iff.rfl (Relocates.pure rfl) ?_
    cases array.note.at? v.asInt.toInt with
    | none => exact Relocates.report rfl
    | some t =>
      simp only
      cases t.value? <;> exact Relocates.pure rfl

mutual

theorem check_relocates : ∀ e : Expr α,
    Relocates f (relocate f) (check c e) (check c (e.relocate f))
  | var name l _ => checkedVar_relocates name l
  | literal v l _ => Relocates.pure rfl
  | unary op e l _ =>
    Relocates.bind (check_relocates e) fun e' =>
      Relocates.map (requireScalar_relocates _ e') fun _ => (checkedUnary_relocate op e' l).symm
  | binary op a b l _ => by
    refine Relocates.bind (check_relocates a) fun a' => ?_
    refine Relocates.bind (requireScalar_relocates _ a') fun _ => ?_
    refine Relocates.bind (check_relocates b) fun b' => ?_
    exact Relocates.bind (requireScalar_relocates _ b') fun _ => checkedBinary_relocates op a' b' l
  | assign a b l _ => by
    refine Relocates.bind (check_relocates a) fun a' => ?_
    refine Relocates.bind (requireAssignable_relocates a') fun _ => ?_
    refine Relocates.bind (check_relocates b) fun b' => ?_
    rw [note_relocate]
    exact Relocates.map (requireScalar_relocates _ b') fun _ => rfl
  | call callee args l _ => by
    cases callee with
    | var name k _ =>
      unfold relocate
      simp only [check, relocate]
      cases c.functions.get? name with
      | none => exact Relocates.report rfl
      | some s =>
        simp only [length_relocateAll]
        exact Relocates.guard Iff.rfl rfl
          (Relocates.map (checkArguments_relocates name 1 s.params args) fun _ => rfl)
    | _ => exact Relocates.report rfl
  | index a i l _ => by
    refine Relocates.bind (check_relocates a) fun a' => ?_
    rw [note_relocate]
    exact Relocates.guard Iff.rfl rfl (Relocates.bind (check_relocates i) fun i' =>
      Relocates.bind (requireScalar_relocates _ i') fun _ => checkedIndex_relocates a' i' l)

theorem checkArguments_relocates (function : String) : ∀ (position : Nat) (params : List Parameter)
    (args : List (Expr α)),
    Relocates f (relocateAll f) (checkArguments c function position params args)
      (checkArguments c function position params (relocateAll f args))
  | _, [], [] => Relocates.pure rfl
  | _, [], _ :: _ => Relocates.pure rfl
  | _, _ :: _, [] => Relocates.pure rfl
  | position, p :: params, e :: args => by
    refine Relocates.bind (check_relocates e) fun e' => ?_
    refine Relocates.bind (requireArgument_relocates _ _ p e') fun _ => ?_
    exact Relocates.map (checkArguments_relocates function (position + 1) params args) fun _ => rfl

end

theorem checkExtent_relocates (e : Expr α) :
    Relocates f (Prod.map (relocate f) id) (e.checkExtent c) ((e.relocate f).checkExtent c) := by
  refine Relocates.bind (check_relocates e) fun e' => ?_
  rw [value?_relocate, location_relocate]
  cases e'.value? with
  | none => exact Relocates.report rfl
  | some v => exact Relocates.guard Iff.rfl rfl (Relocates.pure rfl)

theorem checkExtents_relocates (es : List (Expr α)) :
    Relocates f (Prod.map (List.map (relocate f)) id) (checkExtents c es)
      (checkExtents c (es.map (relocate f))) := by
  induction es with
  | nil => exact Relocates.pure rfl
  | cons e es ih =>
    exact Relocates.bind (checkExtent_relocates e) fun _ => Relocates.map ih fun _ => rfl

end Expr

/-! ### Initializers -/

/-- A leaf goes to the same element wherever it stands. -/
def Placed.relocate (f : Location → Location) (p : Placed) : Placed :=
  ⟨p.slot, p.leaf.relocate f⟩

@[simp] theorem Placed.cells_relocate (base : Base) (count : Nat) (leaves : List Placed) :
    Placed.cells base count (leaves.map (Placed.relocate f)) = Placed.cells base count leaves := by
  simp [Placed.cells, List.foldl_map, Placed.relocate]

namespace Init

variable {c : Checker} (rule : InitRule)

theorem checkLeaf_relocates (e : Expr α) :
    Relocates f (Expr.relocate f) (checkLeaf c rule e) (checkLeaf c rule (e.relocate f)) := by
  refine Relocates.bind (Expr.check_relocates e) fun e' =>
    Relocates.bind (Expr.requireScalar_relocates _ e') fun _ => ?_
  rw [Expr.value?_relocate, Expr.location_relocate]
  exact Relocates.guard Iff.rfl rfl (Relocates.pure rfl)

mutual

theorem layItem_relocates (dims : List Int) (start used : Nat) : ∀ i : Init α,
    Relocates f (Prod.map (relocate f) (Prod.map (List.map (Placed.relocate f)) id))
      (layItem c rule dims start used i) (layItem c rule dims start used (i.relocate f))
  | .expr e => by
    unfold layItem relocate
    exact Relocates.guard Iff.rfl (e.location_relocate f).symm
      (Relocates.map (checkLeaf_relocates rule e) fun _ => rfl)
  | .list items l => by
    unfold layItem relocate
    exact Relocates.guard Iff.rfl rfl (Relocates.guard Iff.rfl rfl
      (Relocates.map (layItems_relocates (dims.drop 1) _ 0 items) fun _ => rfl))

theorem layItems_relocates (dims : List Int) (start used : Nat) : ∀ items : List (Init α),
    Relocates f (Prod.map (relocateAll f) (List.map (Placed.relocate f)))
      (layItems c rule dims start used items)
      (layItems c rule dims start used (relocateAll f items))
  | [] => by
    unfold layItems
    exact Relocates.pure rfl
  | item :: items => by
    unfold layItems relocateAll
    refine Relocates.bind (layItem_relocates dims start used item) fun r =>
      Relocates.map (layItems_relocates dims start r.2.2 items) fun rs => ?_
    exact congrArg (Prod.mk _) List.map_append

end

theorem layOut_relocates (dims : List Int) (init : Option (Init α)) :
    Relocates f (Prod.map (Option.map (relocate f)) (List.map (Placed.relocate f)))
      (layOut c rule dims init) (layOut c rule dims (init.map (relocate f))) := by
  cases init with
  | none => exact Relocates.pure rfl
  | some init =>
    cases init with
    | expr e =>
      cases dims with
      | nil => exact Relocates.map (checkLeaf_relocates rule e) fun _ => rfl
      | cons d dims => exact Relocates.report (e.location_relocate f).symm
    | list items l =>
      cases dims with
      | nil => exact Relocates.report rfl
      | cons d dims => exact Relocates.map (layItems_relocates rule _ 0 0 items) fun _ => rfl

end Init

/-! ### Declarations and statements -/

theorem Decl.resolve_relocates {c : Checker} (d : Decl α) :
    Relocates f (relocate f) (d.resolve c) ((d.relocate f).resolve c) := by
  refine Relocates.guard Iff.rfl rfl ?_
  refine Relocates.bind (Expr.checkExtents_relocates d.dims) fun r => ?_
  obtain ⟨dims, extents⟩ := r
  simp only [Prod.map_apply, id]
  cases Shape.count? extents with
  | none => exact Relocates.report rfl
  | some count =>
    refine Relocates.map (Init.layOut_relocates _ extents d.init) fun r => ?_
    simp [relocate, resolvedType]

theorem Decl.check_mirrors (d : Decl α) :
    Mirrors (Diagnostic.relocate f) id (relocate f) d.check (d.relocate f).check :=
  Mirrors.bind (Mirrors.inspect fun _ => resolve_relocates d) fun _ =>
    Mirrors.map (Mirrors.modified rfl) fun _ => rfl

theorem Expr.checkHere_mirrors (e : Expr α) :
    Mirrors (Diagnostic.relocate f) id (relocate f) e.checkHere (e.relocate f).checkHere :=
  Mirrors.inspect fun _ => check_relocates e

namespace Stmt

theorem checkCondition_mirrors (e : Expr α) :
    Mirrors (Diagnostic.relocate f) id (Expr.relocate f) (checkCondition e)
      (checkCondition (e.relocate f)) := by
  refine Mirrors.inspect fun c => Relocates.bind (Expr.check_relocates e) fun e' => ?_
  rw [Expr.note_relocate, Expr.location_relocate]
  exact Relocates.guard Iff.rfl rfl (Relocates.pure rfl)

theorem requireLoop_mirrors (word : Keyword) (l : Location) :
    Mirrors (Diagnostic.relocate f) id id (requireLoop word l) (requireLoop word (f l)) :=
  Mirrors.inspect fun _ => Relocates.guard Iff.rfl rfl (Relocates.pure rfl)

theorem checkReturned_mirrors (e : Expr α) (l : Location) :
    Mirrors (Diagnostic.relocate f) id (Expr.relocate f) (checkReturned e l)
      (checkReturned (e.relocate f) (f l)) := by
  refine Mirrors.inspect fun c => Relocates.bind (Expr.check_relocates e) fun e' => ?_
  rw [Expr.note_relocate, Expr.location_relocate]
  refine Relocates.guard Iff.rfl rfl ?_
  cases c.running with
  | none => exact Relocates.pure rfl
  | some g => exact Relocates.guard Iff.rfl rfl (Relocates.guard Iff.rfl rfl (Relocates.pure rfl))

mutual

theorem check_mirrors : ∀ s : Stmt α,
    Mirrors (Diagnostic.relocate f) id (relocate f) (check s) (check (s.relocate f))
  | .empty _ | .returnNothing _ => Mirrors.pure rfl
  | .expr e _ => Mirrors.map e.checkHere_mirrors fun _ => rfl
  | .block items _ => Mirrors.map ((checkItems_mirrors items).within _ _) fun _ => rfl
  | .ifThen e body _ =>
    Mirrors.bind (checkCondition_mirrors e) fun _ => Mirrors.map (check_mirrors body) fun _ => rfl
  | .ifElse e body otherwise _ =>
    Mirrors.bind (checkCondition_mirrors e) fun _ => Mirrors.bind (check_mirrors body) fun _ =>
      Mirrors.map (check_mirrors otherwise) fun _ => rfl
  | .whileLoop e body _ =>
    Mirrors.bind (checkCondition_mirrors e) fun _ =>
      Mirrors.map ((check_mirrors body).within _ _) fun _ => rfl
  | .breakLoop l | .continueLoop l => Mirrors.map (requireLoop_mirrors _ l) fun _ => rfl
  | .returnValue e l => Mirrors.map (checkReturned_mirrors e l) fun _ => rfl

theorem checkItem_mirrors : ∀ i : Item α,
    Mirrors (Diagnostic.relocate f) id (Item.relocate f) (checkItem i) (checkItem (i.relocate f))
  | .decl d => Mirrors.map d.check_mirrors fun _ => rfl
  | .stmt s => Mirrors.map (check_mirrors s) fun _ => rfl

theorem checkItems_mirrors : ∀ items : List (Item α),
    Mirrors (Diagnostic.relocate f) id (Item.relocateAll f) (checkItems items)
      (checkItems (Item.relocateAll f items))
  | [] => Mirrors.pure rfl
  | item :: items =>
    Mirrors.bind (checkItem_mirrors item) fun _ =>
      Mirrors.map (checkItems_mirrors items) fun _ => rfl

end

end Stmt

/-! ### Functions and programs -/

theorem Param.resolve_relocates {c : Checker} (p : Param α) :
    Relocates f (Prod.map (relocate f) id) (p.resolve c) ((p.relocate f).resolve c) :=
  Relocates.bind (Expr.checkExtents_relocates p.dims) fun _ =>
    Relocates.guard Iff.rfl rfl (Relocates.pure rfl)

theorem Param.resolveAll_relocates {c : Checker} (function : String) (seen : List String)
    (params : List (Param α)) :
    Relocates f (List.map (Prod.map (relocate f) id)) (resolveAll c function seen params)
      (resolveAll c function seen (params.map (relocate f))) := by
  induction params generalizing seen with
  | nil => exact Relocates.pure rfl
  | cons p params ih =>
    exact Relocates.guard Iff.rfl rfl (Relocates.bind (resolve_relocates p) fun _ =>
      Relocates.map (ih (p.name :: seen)) fun _ => rfl)

def Registered.relocate (f : Location → Location) (r : Registered α) : Registered α :=
  { r with
    params := r.params.map (Param.relocate f)
    body := r.body.relocate f
    location := f r.location }

theorem Function.resolve_relocates {c : Checker} (g : Function α) :
    Relocates f (Registered.relocate f) (g.resolve c) ((g.relocate f).resolve c) := by
  refine Relocates.guard Iff.rfl rfl
    (Relocates.map (Param.resolveAll_relocates g.name [] g.params) fun params => ?_)
  simp [Registered.relocate, relocate, Function.comp_def]

theorem Function.register_mirrors (g : Function α) :
    Mirrors (Diagnostic.relocate f) id (Registered.relocate f) g.register
      (g.relocate f).register :=
  Mirrors.bind (Mirrors.inspect fun _ => resolve_relocates g) fun _ =>
    Mirrors.map (Mirrors.modified rfl) fun _ => rfl

theorem Registered.checkBody_mirrors (r : Registered α) :
    Mirrors (Diagnostic.relocate f) id (Function.relocate f) r.checkBody
      (r.relocate f).checkBody :=
  Mirrors.map ((Stmt.checkItems_mirrors r.body.items).within _ _) fun _ => rfl

namespace TopLevel

variable {δ δ' φ φ' : Type} {ε σ : Type} {onError : ε → ε} {onState : σ → σ}

theorem mapGlobals_mirrors {k : δ → EStateM ε σ δ'} {k' : δ → EStateM ε σ δ'} {a : δ → δ}
    {a' : δ' → δ'} {b : φ → φ} (h : ∀ d, Mirrors onError onState a' (k d) (k' (a d)))
    (units : List (TopLevel δ φ)) :
    Mirrors onError onState (List.map (map a' b)) (mapGlobals k units)
      (mapGlobals k' (units.map (map a b))) := by
  induction units with
  | nil => exact Mirrors.pure rfl
  | cons unit units ih =>
    cases unit with
    | global d => exact Mirrors.bind (h d) fun _ => Mirrors.map ih fun _ => rfl
    | function g => exact Mirrors.map ih fun _ => rfl

theorem mapFunctions_mirrors {k : φ → EStateM ε σ φ'} {k' : φ → EStateM ε σ φ'} {a : δ → δ}
    {b : φ → φ} {b' : φ' → φ'} (h : ∀ g, Mirrors onError onState b' (k g) (k' (b g)))
    (units : List (TopLevel δ φ)) :
    Mirrors onError onState (List.map (map a b')) (mapFunctions k units)
      (mapFunctions k' (units.map (map a b))) := by
  induction units with
  | nil => exact Mirrors.pure rfl
  | cons unit units ih =>
    cases unit with
    | global d => exact Mirrors.map ih fun _ => rfl
    | function g => exact Mirrors.bind (h g) fun _ => Mirrors.map ih fun _ => rfl

end TopLevel

theorem Program.check_mirrors (p : Program α) :
    Mirrors (Diagnostic.relocate f) id (relocate f) p.check (p.relocate f).check :=
  Mirrors.bind (TopLevel.mapGlobals_mirrors Decl.check_mirrors p) fun declared =>
    Mirrors.bind (TopLevel.mapFunctions_mirrors Function.register_mirrors declared) fun heads =>
      TopLevel.mapFunctions_mirrors Registered.checkBody_mirrors heads

/-- **A relocated program is checked as the program is.** -/
theorem checkFresh_relocate (f : Location → Location) (p : Program α) :
    checkFresh (p.relocate f) =
      relocateOutcome (Diagnostic.relocate f) (CheckedProgram.relocate f) (checkFresh p) := by
  have hcheck : (p.relocate f).check Checker.fresh = _ := p.check_mirrors Checker.fresh
  simp only [checkFresh, Checker.checkProgram]
  rw [hcheck]
  cases p.check Checker.fresh <;> rfl

end SysYFront
