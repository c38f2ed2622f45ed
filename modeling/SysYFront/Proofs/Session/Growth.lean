import SysYFront.Proofs.Recheck
import SysYFront.Proofs.Session.Passes

/-!
# SysYFront.Proofs.Session.Growth

What is accepted stays accepted, with the same result, when the checker knows more: more global
names and more functions, as long as those that it knew mean the same.

Functions matter less than names. A call is never known before the program runs, so whatever has
a value, and whatever shows a table, contains no call (`Expr.check_mono`); extents and the
initializers of global variables must be known, and so are checked alike whatever functions the
checker knows.
-/

namespace SysYFront

variable {α : Type} {c c' : Checker}

/-! ### Expressions -/

namespace Expr

/-- A checked expression with a value is the literal of this value. -/
theorem eq_constant_of_value? {e : Expr α} {e' : Expr ValueType} {v : Scalar}
    (h : e.check c = .ok e') (hv : e'.value? = some v) : e' = constant v e'.location := by
  cases e' with
  | literal w l n =>
    obtain rfl := Option.some.inj hv
    exact (pure_eq_ok.mp (check_recheck h)).symm
  | _ => cases hv

theorem window_of_value? {e : Expr α} {e' : Expr ValueType} (h : e.check c = .ok e')
    (hv : e'.value?.isSome = true) : e'.note.window.isSome = true := by
  obtain ⟨v, hv⟩ := Option.isSome_iff_exists.mp hv
  rw [eq_constant_of_value? h hv]
  rfl

/-- The operand of an operation that shows a table has a value. -/
theorem value?_of_checkedUnary {op : UnaryOp} {e : Expr ValueType} {l : Location}
    (hw : (checkedUnary op e l).note.window.isSome = true) : e.value?.isSome = true := by
  cases hv : e.value? with
  | some v => rfl
  | none => simp [checkedUnary, hv, note, ValueType.scalar] at hw

theorem value?_of_checkedBinary {op : BinaryOp} {a b e : Expr ValueType} {l : Location}
    (h : checkedBinary op a b l = .ok e) (hw : e.note.window.isSome = true) :
    a.value?.isSome = true ∧ b.value?.isSome = true := by
  simp only [checkedBinary, guard_eq_ok] at h
  obtain ⟨-, -, -, h⟩ := h
  cases hv : foldedBinary? op a b with
  | some v =>
    simp only [foldedBinary?, Option.bind_eq_bind, Option.bind_eq_some_iff] at hv
    obtain ⟨v, ha, w, hb, -⟩ := hv
    simp [ha, hb]
  | none =>
    rw [hv, pure_eq_ok] at h
    subst h
    cases hw

/-- An element that shows a table is one of a table at an index that has a value. -/
theorem known_of_checkedIndex {a i e : Expr ValueType} {l : Location}
    (h : checkedIndex a i l = .ok e) (hw : e.note.window.isSome = true) :
    a.note.window.isSome = true ∧ i.value?.isSome = true := by
  unfold checkedIndex at h
  cases hv : i.value? with
  | none =>
    rw [hv, pure_eq_ok] at h
    subst h
    cases hw
  | some v =>
    cases hwindow : a.note.window with
    | some w => simp
    | none =>
      simp only [hv, hwindow, Option.isNone_none, if_true, pure_eq_ok] at h
      subst h
      cases hw

theorem checkedVar_mono (hnames : c.scopes.IncludedIn c'.scopes) {name : String} {l : Location}
    {e : Expr ValueType} (h : checkedVar c name l = .ok e) : checkedVar c' name l = .ok e := by
  unfold checkedVar at h ⊢
  cases ht : c.scopes.lookup? name with
  | none => simp [ht] at h
  | some t =>
    rw [ht] at h
    rw [hnames name t ht]
    exact h

mutual

/-- An accepted expression is accepted by a checker that knows more names, with the same result,
if that checker also knows the functions or if the result shows a table. -/
theorem check_mono (hnames : c.scopes.IncludedIn c'.scopes) : ∀ {e : Expr α} {e' : Expr ValueType},
    e.check c = .ok e' →
      c.functions.IncludedIn c'.functions ∨ e'.note.window.isSome = true → e.check c' = .ok e'
  | .var name l _, e', h, _ => checkedVar_mono hnames h
  | .literal v l _, e', h, _ => h
  | .unary op e l _, e', h, hknown => by
    simp only [check, bind_eq_ok, pure_eq_ok] at h ⊢
    obtain ⟨e₁, he, u, hs, rfl⟩ := h
    have hchild := hknown.imp id fun hw => window_of_value? he (value?_of_checkedUnary hw)
    exact ⟨e₁, check_mono hnames he hchild, u, hs, rfl⟩
  | .binary op a b l _, e', h, hknown => by
    simp only [check, bind_eq_ok] at h ⊢
    obtain ⟨a₁, ha, u, hsa, b₁, hb, w, hsb, h⟩ := h
    have hleft := hknown.imp id fun hw => window_of_value? ha (value?_of_checkedBinary h hw).1
    have hright := hknown.imp id fun hw => window_of_value? hb (value?_of_checkedBinary h hw).2
    exact ⟨a₁, check_mono hnames ha hleft, u, hsa, b₁, check_mono hnames hb hright, w, hsb, h⟩
  | .assign a b l _, e', h, hknown => by
    simp only [check, bind_eq_ok, pure_eq_ok] at h ⊢
    obtain ⟨a₁, ha, u, hsa, b₁, hb, w, hsb, rfl⟩ := h
    have hfunctions := hknown.resolve_right nofun
    exact ⟨a₁, check_mono hnames ha (.inl hfunctions), u, hsa, b₁,
      check_mono hnames hb (.inl hfunctions), w, hsb, rfl⟩
  | .call callee args l _, e', h, hknown => by
    cases callee with
    | var name k _ =>
      unfold check at h ⊢
      cases hs : c.functions.get? name with
      | none => simp [hs] at h
      | some s =>
        simp only [hs, guard_eq_ok, bind_eq_ok, pure_eq_ok] at h
        obtain ⟨hlength, args', hargs, rfl⟩ := h
        have hfunctions := hknown.resolve_right nofun
        simp only [hfunctions name s hs, guard_eq_ok, bind_eq_ok, pure_eq_ok]
        exact ⟨hlength, args', checkArguments_mono hnames hfunctions hargs, rfl⟩
    | _ => simp [check] at h
  | .index a i l _, e', h, hknown => by
    simp only [check, bind_eq_ok, guard_eq_ok] at h ⊢
    obtain ⟨a₁, ha, hd, i₁, hi, u, hs, h⟩ := h
    have harray := hknown.imp id fun hw => (known_of_checkedIndex h hw).1
    have hindex := hknown.imp id fun hw => window_of_value? hi (known_of_checkedIndex h hw).2
    exact ⟨a₁, check_mono hnames ha harray, hd, i₁, check_mono hnames hi hindex, u, hs, h⟩

theorem checkArguments_mono (hnames : c.scopes.IncludedIn c'.scopes)
    (hfunctions : c.functions.IncludedIn c'.functions) {function : String} :
    ∀ {position : Nat} {params : List Parameter} {args : List (Expr α)}
      {args' : List (Expr ValueType)}, checkArguments c function position params args = .ok args' →
        checkArguments c' function position params args = .ok args'
  | position, p :: params, e :: args, args', h => by
    simp only [checkArguments, bind_eq_ok, pure_eq_ok] at h ⊢
    obtain ⟨e', he, u, hp, rest, hrest, rfl⟩ := h
    exact ⟨e', check_mono hnames he (.inl hfunctions), u, hp, rest,
      checkArguments_mono hnames hfunctions hrest, rfl⟩
  | _, [], _, args', h => by simpa only [checkArguments] using h
  | _, _ :: _, [], args', h => h

end

/-- Extents do not depend on functions. -/
theorem checkExtents_mono (hnames : c.scopes.IncludedIn c'.scopes) {dims : List (Expr α)}
    {r : List (Expr ValueType) × List Int} (h : checkExtents c dims = .ok r) :
    checkExtents c' dims = .ok r := by
  induction dims generalizing r with
  | nil => exact h
  | cons e dims ih =>
    simp only [checkExtents, checkExtent, bind_eq_ok, pure_eq_ok] at h ⊢
    obtain ⟨r₁, ⟨e', he, hextent⟩, r₂, hrest, hr⟩ := h
    refine ⟨r₁, ⟨e', check_mono hnames he (.inr ?_), hextent⟩, r₂, ih hrest, hr⟩
    refine window_of_value? he ?_
    cases hv : e'.value? with
    | some v => rfl
    | none => simp [hv] at hextent

end Expr

/-! ### Declarations -/

namespace Init

variable {rule : InitRule}

theorem checkLeaf_mono (hnames : c.scopes.IncludedIn c'.scopes)
    (hknown : c.functions.IncludedIn c'.functions ∨ rule.constant = true) {e : Expr α}
    {e' : Expr ValueType} (h : checkLeaf c rule e = .ok e') : checkLeaf c' rule e = .ok e' := by
  simp only [checkLeaf, bind_eq_ok, guard_eq_ok, pure_eq_ok] at h ⊢
  obtain ⟨e₁, he, u, hs, hleaf, rfl⟩ := h
  refine ⟨e₁, Expr.check_mono hnames he (hknown.imp id fun hconstant => ?_), u, hs, hleaf, rfl⟩
  refine Expr.window_of_value? he ?_
  simpa [hconstant, Option.isSome_iff_ne_none] using hleaf

mutual

theorem layItem_mono (hnames : c.scopes.IncludedIn c'.scopes)
    (hknown : c.functions.IncludedIn c'.functions ∨ rule.constant = true) :
    ∀ {dims : List Int} {start used : Nat} {item : Init α}
      {r : Init ValueType × List Placed × Nat}, layItem c rule dims start used item = .ok r →
        layItem c' rule dims start used item = .ok r
  | dims, start, used, .expr e, r, h => by
    simp only [layItem, guard_eq_ok, bind_eq_ok, pure_eq_ok] at h ⊢
    obtain ⟨hroom, e', he, rfl⟩ := h
    exact ⟨hroom, e', checkLeaf_mono hnames hknown he, rfl⟩
  | dims, start, used, .list items l, r, h => by
    simp only [layItem, guard_eq_ok, bind_eq_ok, pure_eq_ok] at h ⊢
    obtain ⟨hdeep, hroom, r₁, hitems, rfl⟩ := h
    exact ⟨hdeep, hroom, r₁, layItems_mono hnames hknown hitems, rfl⟩

theorem layItems_mono (hnames : c.scopes.IncludedIn c'.scopes)
    (hknown : c.functions.IncludedIn c'.functions ∨ rule.constant = true) :
    ∀ {dims : List Int} {start used : Nat} {items : List (Init α)}
      {r : List (Init ValueType) × List Placed}, layItems c rule dims start used items = .ok r →
        layItems c' rule dims start used items = .ok r
  | dims, start, used, [], r, h => h
  | dims, start, used, item :: items, r, h => by
    simp only [layItems, bind_eq_ok, pure_eq_ok] at h ⊢
    obtain ⟨r₁, hitem, r₂, hitems, rfl⟩ := h
    exact ⟨r₁, layItem_mono hnames hknown hitem, r₂, layItems_mono hnames hknown hitems, rfl⟩

end

theorem layOut_mono (hnames : c.scopes.IncludedIn c'.scopes)
    (hknown : c.functions.IncludedIn c'.functions ∨ rule.constant = true) {dims : List Int}
    {init : Option (Init α)} {r : Option (Init ValueType) × List Placed}
    (h : layOut c rule dims init = .ok r) : layOut c' rule dims init = .ok r := by
  cases init with
  | none => exact h
  | some init =>
    cases init with
    | expr e =>
      cases dims with
      | cons d dims => exact h
      | nil =>
        simp only [layOut, bind_eq_ok, pure_eq_ok] at h ⊢
        obtain ⟨e', he, rfl⟩ := h
        exact ⟨e', checkLeaf_mono hnames hknown he, rfl⟩
    | list items l =>
      cases dims with
      | nil => exact h
      | cons d dims =>
        simp only [layOut, bind_eq_ok, pure_eq_ok] at h ⊢
        obtain ⟨r₁, hitems, rfl⟩ := h
        exact ⟨r₁, layItems_mono hnames hknown hitems, rfl⟩

end Init

/-- A declaration is checked alike by a checker that knows more, if the innermost scope is the
global one for both or for neither and does not declare the name. Global declarations do not
depend on functions. -/
theorem Decl.resolve_mono (hnames : c.scopes.IncludedIn c'.scopes)
    (hglobal : c'.scopes.isGlobal = c.scopes.isGlobal)
    (hknown : c.functions.IncludedIn c'.functions ∨ c.scopes.isGlobal = true) {d : Decl α}
    {d' : Decl ValueType} (hnew : c'.scopes.declaresHere d.name = false)
    (h : d.resolve c = .ok d') : d.resolve c' = .ok d' := by
  simp only [resolve, guard_eq_ok, bind_eq_ok, Prod.exists] at h ⊢
  obtain ⟨-, dims, extents, hdims, h⟩ := h
  refine ⟨by simp [hnew], dims, extents, Expr.checkExtents_mono hnames hdims, ?_⟩
  cases hcount : Shape.count? extents with
  | none => simp [hcount] at h
  | some count =>
    simp only [hcount, hglobal, bind_eq_ok, pure_eq_ok, Prod.exists] at h ⊢
    obtain ⟨init, leaves, hinit, rfl⟩ := h
    refine ⟨init, leaves, Init.layOut_mono hnames (hknown.imp id fun hc => ?_) hinit, rfl⟩
    simp [hc]

/-! ### Statements -/

/-- Whether `c'` is `c`, which has `n` scopes open, with more global names and more functions. -/
structure Checker.Widens (n : Nat) (c c' : Checker) : Prop where
  depth : c.scopes.depth = n
  inner : c'.scopes.inner = c.scopes.inner
  globals : ∀ name t, c.scopes.globals.lookup name = some t →
    c'.scopes.globals.lookup name = some t
  functions : c.functions.IncludedIn c'.functions
  running : c'.running = c.running
  loops : c'.loopDepth = c.loopDepth

namespace Checker.Widens

variable {n : Nat}

/-- Inner scopes hide the same names in both states. -/
theorem names (h : c.Widens n c') : c.scopes.IncludedIn c'.scopes := by
  intro name t ht
  rw [Scopes.lookup?, List.findSome?_append] at ht ⊢
  rw [h.inner]
  rcases Option.or_eq_some_iff.mp ht with hinner | ⟨hinner, hglobal⟩
  · rw [hinner]
    rfl
  · rw [hinner, Option.none_or]
    simpa using h.globals name t (by simpa using hglobal)

theorem enter (h : c.Widens n c') (frame : Frame) : Widens (n + 1)
    { c with scopes := c.scopes.enter frame } { c' with scopes := c'.scopes.enter frame } where
  depth := congrArg (· + 1) h.depth
  inner := congrArg (frame :: ·) h.inner
  globals := h.globals
  functions := h.functions
  running := h.running
  loops := h.loops

theorem leaveBlock (h : c.Widens (n + 1) c') : c.leaveBlock.Widens n c'.leaveBlock where
  depth := by
    rw [Checker.leaveBlock, Scopes.leave, Scopes.depth, List.length_tail]
    exact Nat.sub_eq_of_eq_add h.depth
  inner := congrArg List.tail h.inner
  globals := h.globals
  functions := h.functions
  running := h.running
  loops := h.loops

theorem enterLoop (h : c.Widens n c') : c.enterLoop.Widens n c'.enterLoop :=
  ⟨h.depth, h.inner, h.globals, h.functions, h.running, congrArg (· + 1) h.loops⟩

theorem leaveLoop (h : c.Widens n c') : c.leaveLoop.Widens n c'.leaveLoop :=
  ⟨h.depth, h.inner, h.globals, h.functions, h.running, congrArg (· - 1) h.loops⟩

theorem enterFunction (h : c.Widens n c') (name : String) (s : Signature) :
    (c.enterFunction name s).Widens (n + 1) (c'.enterFunction name s) := by
  have hframe := h.enter (s.params.map fun p => (p.name, p.type))
  exact ⟨hframe.depth, hframe.inner, h.globals, h.functions, rfl, rfl⟩

theorem leaveFunction (h : c.Widens (n + 1) c') : c.leaveFunction.Widens n c'.leaveFunction :=
  ⟨h.leaveBlock.depth, h.leaveBlock.inner, h.globals, h.functions, rfl, h.loops⟩

/-- Inside a block both states have the same innermost scope. -/
theorem innermost (h : c.Widens (n + 1) c') : c'.scopes.innermost = c.scopes.innermost ∧
    c.scopes.isGlobal = false ∧ c'.scopes.isGlobal = false := by
  have hdepth := h.depth
  simp only [Scopes.innermost, Scopes.isGlobal, h.inner]
  cases hinner : c.scopes.inner with
  | nil => simp [Scopes.depth, hinner] at hdepth
  | cons frame outer => exact ⟨rfl, rfl, rfl⟩

/-- Inside a block a declaration changes the innermost scope of both states. -/
theorem declare (h : c.Widens (n + 1) c') (name : String) (t : ValueType) :
    (c.declare name t).Widens (n + 1) (c'.declare name t) := by
  have hdepth := h.depth
  have hinner' := h.inner
  have hglobals := h.globals
  cases hinner : c.scopes.inner with
  | nil => simp [Scopes.depth, hinner] at hdepth
  | cons frame outer =>
    rw [hinner] at hinner'
    constructor
    · simpa [Checker.declare, Scopes.insert, Scopes.depth, hinner] using hdepth
    · simp [Checker.declare, Scopes.insert, hinner, hinner']
    · simpa [Checker.declare, Scopes.insert, hinner, hinner'] using hglobals
    · exact h.functions
    · exact h.running
    · exact h.loops

/-- Between two units, a state that knows more is a wider one. -/
theorem of_idle (hc : c.Idle) (hc' : c'.Idle) (hnames : c.scopes.IncludedIn c'.scopes)
    (hfunctions : c.functions.IncludedIn c'.functions) : c.Widens 0 c' where
  depth := by rw [Scopes.depth, hc.inner, List.length_nil]
  inner := hc'.inner.trans hc.inner.symm
  globals name t ht := by
    rw [← hc'.lookup?_eq]
    exact hnames name t (by rwa [hc.lookup?_eq])
  functions := hfunctions
  running := hc'.running.trans hc.running.symm
  loops := hc'.loops.trans hc.loops.symm

end Checker.Widens

/-- Whether a check that succeeds in one of two related states succeeds in the other, with the
same result, and leaves related states. -/
def Checking.Carries {β : Type} (R : Checker → Checker → Prop) (m : Checking β) : Prop :=
  ∀ c c', R c c' → ∀ b c₁, m c = .ok b c₁ → ∃ c₁', m c' = .ok b c₁' ∧ R c₁ c₁'

namespace Checking.Carries

variable {β γ : Type} {R : Checker → Checker → Prop} {m : Checking β}

theorem pure (b : β) : Carries R (Pure.pure b : Checking β) := by
  intro c c' hR b' c₁ h
  obtain ⟨rfl, rfl⟩ := pure_eq_ok.mp h
  exact ⟨c', rfl, hR⟩

theorem bind {f : β → Checking γ} (hm : Carries R m) (hf : ∀ b, Carries R (f b)) :
    Carries R (m >>= f) := by
  intro c c' hR b c₂ h
  obtain ⟨a, c₁, ha, hb⟩ := bind_eq_ok.mp h
  obtain ⟨c₁', ha', hR₁⟩ := hm c c' hR a c₁ ha
  obtain ⟨c₂', hb', hR₂⟩ := hf a c₁ c₁' hR₁ b c₂ hb
  exact ⟨c₂', bind_eq_ok.mpr ⟨a, c₁', ha', hb'⟩, hR₂⟩

theorem inspect {f : Checker → Except Diagnostic β}
    (hf : ∀ c c', R c c' → ∀ b, f c = .ok b → f c' = .ok b) : Carries R (Checking.inspect f) := by
  intro c c' hR b c₁ h
  obtain ⟨hb, rfl⟩ := inspect_eq_ok.mp h
  exact ⟨c', inspect_eq_ok.mpr ⟨hf c c' hR b hb, rfl⟩, hR⟩

theorem modified {f : Checker → Checker} (hf : ∀ c c', R c c' → R (f c) (f c')) :
    Carries R (modify f : Checking Unit) := by
  intro c c' hR u c₁ h
  obtain rfl := modify_eq_ok.mp h
  exact ⟨f c', modify_eq_ok.mpr rfl, hf c c' hR⟩

/-- Inside a scope the states may be related in another way than outside. -/
theorem bracketed {S : Checker → Checker → Prop} {enter leave : Checker → Checker}
    (henter : ∀ c c', R c c' → S (enter c) (enter c'))
    (hleave : ∀ c c', S c c' → R (leave c) (leave c')) (hm : Carries S m) :
    Carries R (Checking.within enter leave m) := by
  intro c c' hR b c₁ h
  obtain ⟨c₂, hb, rfl⟩ := within_eq_ok.mp h
  obtain ⟨c₂', hb', hS⟩ := hm _ _ (henter c c' hR) b c₂ hb
  exact ⟨leave c₂', within_eq_ok.mpr ⟨c₂', hb', rfl⟩, hleave c₂ c₂' hS⟩

end Checking.Carries

open Checking (Carries)

/-- Inside a block, a declaration is checked alike by a checker that knows more. -/
theorem Decl.check_carries (d : Decl α) (n : Nat) :
    Carries (Checker.Widens (n + 1)) d.check := by
  refine Carries.bind (.inspect fun c c' h d' hd => ?_) fun d' =>
    (Carries.modified fun c c' h => h.declare d'.name d'.note).bind fun _ => .pure d'
  obtain ⟨hinnermost, hglobal, hglobal'⟩ := h.innermost
  have hnew : c'.scopes.declaresHere d.name = false := by
    obtain ⟨hname, hnew⟩ := Decl.resolve_name hd
    rwa [Scopes.declaresHere, hinnermost, ← hname]
  exact Decl.resolve_mono h.names (hglobal'.trans hglobal.symm) (.inl h.functions) hnew hd

namespace Stmt

variable (n : Nat)

theorem checkCondition_carries (e : Expr α) : Carries (Checker.Widens n) (checkCondition e) := by
  refine .inspect fun c c' h e' he => ?_
  simp only [bind_eq_ok] at he ⊢
  obtain ⟨e₁, he, htest⟩ := he
  exact ⟨e₁, Expr.check_mono h.names he (.inl h.functions), htest⟩

theorem checkReturned_carries (e : Expr α) (l : Location) :
    Carries (Checker.Widens n) (checkReturned e l) := by
  refine .inspect fun c c' h e' he => ?_
  simp only [bind_eq_ok, h.running] at he ⊢
  obtain ⟨e₁, he, htest⟩ := he
  exact ⟨e₁, Expr.check_mono h.names he (.inl h.functions), htest⟩

theorem requireLoop_carries (word : Keyword) (l : Location) :
    Carries (Checker.Widens n) (requireLoop word l) :=
  .inspect fun c c' h u hu => by rwa [h.loops]

mutual

/-- Statements are checked alike by a checker that knows more. -/
theorem check_carries : ∀ (s : Stmt α) (n : Nat), Carries (Checker.Widens n) (check s)
  | .empty _, _ | .returnNothing _, _ => .pure _
  | .expr _ _, _ =>
    Carries.bind (.inspect fun _ _ h _ he => Expr.check_mono h.names he (.inl h.functions))
      fun _ => .pure _
  | .block items _, n =>
    (Carries.bracketed (fun _ _ h => h.enter []) (fun _ _ h => h.leaveBlock)
      (checkItems_carries items n)).bind fun _ => .pure _
  | .ifThen e body _, n =>
    (checkCondition_carries n e).bind fun _ => (check_carries body n).bind fun _ => .pure _
  | .ifElse e body otherwise _, n =>
    (checkCondition_carries n e).bind fun _ => (check_carries body n).bind fun _ =>
      (check_carries otherwise n).bind fun _ => .pure _
  | .whileLoop e body _, n =>
    (checkCondition_carries n e).bind fun _ =>
      (Carries.bracketed (fun _ _ h => h.enterLoop) (fun _ _ h => h.leaveLoop)
        (check_carries body n)).bind fun _ => .pure _
  | .breakLoop _, n | .continueLoop _, n => (requireLoop_carries n _ _).bind fun _ => .pure _
  | .returnValue e l, n => (checkReturned_carries n e l).bind fun _ => .pure _

theorem checkItem_carries : ∀ (item : Item α) (n : Nat),
    Carries (Checker.Widens (n + 1)) (checkItem item)
  | .decl d, n => (d.check_carries n).bind fun _ => .pure _
  | .stmt s, n => (check_carries s (n + 1)).bind fun _ => .pure _

theorem checkItems_carries : ∀ (items : List (Item α)) (n : Nat),
    Carries (Checker.Widens (n + 1)) (checkItems items)
  | [], _ => .pure _
  | item :: items, n => (checkItem_carries item n).bind fun _ =>
    (checkItems_carries items n).bind fun _ => .pure _

end

end Stmt

/-! ### Functions -/

/-- Between two units, a body is checked alike by a checker that knows more. -/
theorem Registered.checkBody_mono {r : Registered α} {f : Function ValueType} (hc : c.Idle)
    (hc' : c'.Idle) (hnames : c.scopes.IncludedIn c'.scopes)
    (hfunctions : c.functions.IncludedIn c'.functions) (h : r.checkBody c = .ok f c) :
    r.checkBody c' = .ok f c' := by
  have hbody : Carries (Checker.Widens 0) r.checkBody :=
    (Carries.bracketed (fun _ _ h => h.enterFunction r.name r.signature)
      (fun _ _ h => h.leaveFunction) (Stmt.checkItems_carries r.body.items 0)).bind fun _ => .pure _
  obtain ⟨c₁, hf, -⟩ := hbody c c' (.of_idle hc hc' hnames hfunctions) f c h
  exact ((checkBody_eq_ok hc').mp hf).1

/-- The parameters of a function do not depend on functions. -/
theorem Param.resolveAll_mono (hnames : c.scopes.IncludedIn c'.scopes) {function : String}
    {seen : List String} {ps : List (Param α)} {rs : List (Param ValueType × Parameter)}
    (h : resolveAll c function seen ps = .ok rs) : resolveAll c' function seen ps = .ok rs := by
  induction ps generalizing seen rs with
  | nil => exact h
  | cons p ps ih =>
    simp only [resolveAll, resolve, guard_eq_ok, bind_eq_ok, pure_eq_ok] at h ⊢
    obtain ⟨hnew, r, ⟨dims, hdims, hr⟩, rs, hrs, rfl⟩ := h
    exact ⟨hnew, r, ⟨dims, Expr.checkExtents_mono hnames hdims, hr⟩, rs, ih hrs, rfl⟩

/-- The head of a function is checked alike by a checker that knows more names, whatever functions
it knows, as long as the name of the function is free. -/
theorem Function.resolve_mono (hnames : c.scopes.IncludedIn c'.scopes) {f : Function α}
    {r : Registered α} (hfunction : c'.functions.contains f.name = false)
    (hglobal : c'.scopes.declaresGlobally f.name = false) (h : f.resolve c = .ok r) :
    f.resolve c' = .ok r := by
  simp only [resolve, guard_eq_ok, bind_eq_ok, pure_eq_ok] at h ⊢
  obtain ⟨-, params, hparams, rfl⟩ := h
  exact ⟨by simp [hfunction, hglobal], params, Param.resolveAll_mono hnames hparams, rfl⟩

end SysYFront
