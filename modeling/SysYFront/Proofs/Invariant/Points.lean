import SysYFront.Proofs.Invariant.Run
import SysYFront.Proofs.Readable

/-!
# SysYFront.Proofs.Invariant.Points

The points of a run. `Stmt.Always P s c` says that `P` holds at every point at which the checker
stands while it checks `s` from the state `c`: before and behind every declaration, on entering
and leaving every scope and loop, and where a check fails. The definitions follow the checks
link by link; a later link starts in the state that the earlier one has left, if that one
succeeded.

**At every point of every run the checker holds well-formed types only, and gives no others**
(`check_always_upholds`).
-/

namespace SysYFront

variable {α : Type}

/-- Whether `P` holds of the state in which a check ends, successful or not. -/
def Checking.Ends {β : Type} (P : Checker → Prop) (m : Checking β) (c : Checker) : Prop :=
  match m c with
  | .ok _ c' => P c'
  | .error _ c' => P c'

mutual

/-- Whether `P` holds at every point of the check of a statement. -/
def Stmt.Always (P : Checker → Prop) : Stmt α → Checker → Prop
  | .block items l, c =>
    P c ∧ Item.AllAlways P items c.enterBlock ∧ Checking.Ends P (Stmt.check (.block items l)) c
  | .ifThen e body _, c =>
    P c ∧ ∀ e' c', Stmt.checkCondition e c = .ok e' c' → Stmt.Always P body c'
  | .ifElse e body otherwise _, c =>
    P c ∧ ∀ e' c', Stmt.checkCondition e c = .ok e' c' → Stmt.Always P body c' ∧
      ∀ body' c'', Stmt.check body c' = .ok body' c'' → Stmt.Always P otherwise c''
  | .whileLoop e body l, c =>
    P c ∧ (∀ e' c', Stmt.checkCondition e c = .ok e' c' → Stmt.Always P body c'.enterLoop) ∧
      Checking.Ends P (Stmt.check (.whileLoop e body l)) c
  | .empty _, c | .expr _ _, c | .breakLoop _, c | .continueLoop _, c | .returnNothing _, c
  | .returnValue _ _, c =>
    -- these look at the state and leave it as it is
    P c

/-- Whether `P` holds at every point of the check of a block item. -/
def Item.Always (P : Checker → Prop) : Item α → Checker → Prop
  | .decl d, c => P c ∧ Checking.Ends P d.check c
  | .stmt s, c => Stmt.Always P s c

/-- Whether `P` holds at every point of the check of the items of a block. -/
def Item.AllAlways (P : Checker → Prop) : List (Item α) → Checker → Prop
  | [], c => P c
  | item :: items, c => Item.Always P item c ∧
    ∀ item' c', Stmt.checkItem item c = .ok item' c' → Item.AllAlways P items c'

end

/-- Whether `P` holds at every point of the check of a body. -/
def Registered.Always (P : Checker → Prop) (r : Registered α) (c : Checker) : Prop :=
  P c ∧ Item.AllAlways P r.body.items (c.enterFunction r.name r.signature) ∧
    Checking.Ends P r.checkBody c

namespace TopLevel

variable {δ δ' φ φ' : Type}

/-- Whether `A` holds of every declaration and the state in which a pass comes to it. -/
def GlobalsAlways (A : δ → Checker → Prop) (f : δ → Checking δ') :
    List (TopLevel δ φ) → Checker → Prop
  | [], _ => True
  | .global d :: units, c => A d c ∧ ∀ d' c', f d c = .ok d' c' → GlobalsAlways A f units c'
  | .function _ :: units, c => GlobalsAlways A f units c

/-- Whether `A` holds of every function and the state in which a pass comes to it. -/
def FunctionsAlways (A : φ → Checker → Prop) (f : φ → Checking φ') :
    List (TopLevel δ φ) → Checker → Prop
  | [], _ => True
  | .global _ :: units, c => FunctionsAlways A f units c
  | .function g :: units, c => A g c ∧ ∀ g' c', f g c = .ok g' c' → FunctionsAlways A f units c'

end TopLevel

/-- Whether `P` holds at every point of the three passes over a program. -/
def Program.Always (P : Checker → Prop) (p : Program α) (c : Checker) : Prop :=
  P c ∧ TopLevel.GlobalsAlways (fun d c => P c ∧ Checking.Ends P d.check c) Decl.check p c ∧
    (∀ declared c', TopLevel.mapGlobals Decl.check p c = .ok declared c' →
      TopLevel.FunctionsAlways (fun f c => P c ∧ Checking.Ends P f.register c) Function.register
        declared c' ∧
      ∀ registered c'', TopLevel.mapFunctions Function.register declared c' = .ok registered c'' →
        TopLevel.FunctionsAlways (Registered.Always P) Registered.checkBody registered c'') ∧
    Checking.Ends P p.check c

/-! ### Points of well-typed runs -/

open ValueType (WellFormed)
open Checking (Keeps Ends)

section Points

variable {P : Checker → Prop} {c : Checker}

/-- Where a check that keeps the types well-formed ends, everything holds that follows from
their being so. -/
theorem Checking.Keeps.ends {β : Type} {Q : β → Prop} {m : Checking β}
    (h : Keeps Checker.WellTyped Q m) (hP : ∀ c : Checker, c.WellTyped → P c)
    (hc : c.WellTyped) : Ends P m c := by
  have hkept := h c hc
  unfold Ends
  cases hm : m c with
  | error d c' =>
    rw [hm] at hkept
    exact hP c' hkept
  | ok b c' =>
    rw [hm] at hkept
    exact hP c' hkept.2

mutual

theorem Stmt.always (hP : ∀ c : Checker, c.WellTyped → P c) : ∀ {s : Stmt α} {c : Checker},
    s.VoidFree → c.WellTyped → s.Always P c
  | .block items l, c, hs, hc => by
    have hblock : Keeps _ _ (Stmt.check (.block items l)) := Stmt.check_keeps hs
    exact ⟨hP c hc, Item.allAlways hP hs hc.enterBlock, hblock.ends hP hc⟩
  | .ifThen e body l, c, hs, hc => by
    refine ⟨hP c hc, fun e' c' he => ?_⟩
    obtain ⟨-, hc'⟩ := (Stmt.checkCondition_keeps e).of_ok hc he
    exact Stmt.always hP (s := body) hs hc'
  | .ifElse e body otherwise l, c, hs, hc => by
    refine ⟨hP c hc, fun e' c' he => ?_⟩
    obtain ⟨-, hc'⟩ := (Stmt.checkCondition_keeps e).of_ok hc he
    refine ⟨Stmt.always hP hs.1 hc', fun body' c'' hbody => ?_⟩
    obtain ⟨-, hc''⟩ := (Stmt.check_keeps hs.1).of_ok hc' hbody
    exact Stmt.always hP hs.2 hc''
  | .whileLoop e body l, c, hs, hc => by
    have hloop : Keeps _ _ (Stmt.check (.whileLoop e body l)) := Stmt.check_keeps hs
    refine ⟨hP c hc, fun e' c' he => ?_, hloop.ends hP hc⟩
    obtain ⟨-, hc'⟩ := (Stmt.checkCondition_keeps e).of_ok hc he
    exact Stmt.always hP (s := body) hs (hc'.congr rfl rfl)
  | .empty _, c, _, hc | .expr _ _, c, _, hc | .breakLoop _, c, _, hc
  | .continueLoop _, c, _, hc | .returnNothing _, c, _, hc | .returnValue _ _, c, _, hc => hP c hc

theorem Item.always (hP : ∀ c : Checker, c.WellTyped → P c) : ∀ {item : Item α} {c : Checker},
    item.VoidFree → c.WellTyped → item.Always P c
  | .decl _, c, hd, hc => ⟨hP c hc, (Decl.check_keeps hd).ends hP hc⟩
  | .stmt s, _, hs, hc => Stmt.always hP (s := s) hs hc

theorem Item.allAlways (hP : ∀ c : Checker, c.WellTyped → P c) : ∀ {items : List (Item α)}
    {c : Checker}, Item.AllVoidFree items → c.WellTyped → Item.AllAlways P items c
  | [], c, _, hc => hP c hc
  | item :: items, c, hs, hc => by
    refine ⟨Item.always hP hs.1 hc, fun item' c' hitem => ?_⟩
    obtain ⟨-, hc'⟩ := (Stmt.checkItem_keeps hs.1).of_ok hc hitem
    exact Item.allAlways hP hs.2 hc'

end

theorem Registered.always (hP : ∀ c : Checker, c.WellTyped → P c) {r : Registered α}
    (hr : r.WellTyped) (hc : c.WellTyped) : r.Always P c :=
  ⟨hP c hc, Item.allAlways hP hr.body (hc.enterFunction r.name hr.types),
    (Registered.checkBody_keeps hr).ends hP hc⟩

namespace TopLevel

variable {δ δ' φ φ' : Type} {Q : δ → Prop} {Q' : δ' → Prop} {R : φ → Prop} {R' : φ' → Prop}

theorem globalsAlways {A : δ → Checker → Prop} {f : δ → Checking δ'}
    (hA : ∀ d c, Q d → c.WellTyped → A d c) (hf : ∀ d, Q d → Keeps Checker.WellTyped Q' (f d)) :
    ∀ {units : List (TopLevel δ φ)} {c : Checker}, (∀ unit ∈ units, unit.Satisfies Q R) →
      c.WellTyped → GlobalsAlways A f units c
  | [], _, _, _ => trivial
  | .global d :: units, c, hunits, hc => by
    obtain ⟨hd, hothers⟩ := List.forall_mem_cons.mp hunits
    refine ⟨hA d c hd hc, fun d' c' hcheck => ?_⟩
    exact globalsAlways hA hf hothers ((hf d hd).of_ok hc hcheck).2
  | .function g :: units, c, hunits, hc => by
    obtain ⟨-, hothers⟩ := List.forall_mem_cons.mp hunits
    have hrest : GlobalsAlways A f units c := globalsAlways hA hf hothers hc
    exact hrest

theorem functionsAlways {A : φ → Checker → Prop} {f : φ → Checking φ'}
    (hA : ∀ g c, R g → c.WellTyped → A g c) (hf : ∀ g, R g → Keeps Checker.WellTyped R' (f g)) :
    ∀ {units : List (TopLevel δ φ)} {c : Checker}, (∀ unit ∈ units, unit.Satisfies Q R) →
      c.WellTyped → FunctionsAlways A f units c
  | [], _, _, _ => trivial
  | .global d :: units, c, hunits, hc => by
    obtain ⟨-, hothers⟩ := List.forall_mem_cons.mp hunits
    have hrest : FunctionsAlways A f units c := functionsAlways hA hf hothers hc
    exact hrest
  | .function g :: units, c, hunits, hc => by
    obtain ⟨hg, hothers⟩ := List.forall_mem_cons.mp hunits
    refine ⟨hA g c hg hc, fun g' c' hcheck => ?_⟩
    exact functionsAlways hA hf hothers ((hf g hg).of_ok hc hcheck).2

end TopLevel

theorem Program.always (hP : ∀ c : Checker, c.WellTyped → P c) {p : Program α}
    (hp : p.VoidFree) (hc : c.WellTyped) : p.Always P c := by
  refine ⟨hP c hc, ?_, fun declared c' hdeclared => ⟨?_, fun registered c'' hregistered => ?_⟩,
    (Program.check_keeps hp).ends hP hc⟩
  · exact TopLevel.globalsAlways (fun d c hd hc => ⟨hP c hc, (Decl.check_keeps hd).ends hP hc⟩)
      (fun d hd => Decl.check_keeps hd) hp.units hc
  · obtain ⟨hunits, hc'⟩ := (TopLevel.mapGlobals_keeps (fun d hd => Decl.check_keeps hd)
      hp.units).of_ok hc hdeclared
    exact TopLevel.functionsAlways
      (fun f c hf hc => ⟨hP c hc, (Function.register_keeps hf).ends hP hc⟩)
      (fun f hf => Function.register_keeps hf) hunits hc'
  · obtain ⟨hunits, hc'⟩ := (TopLevel.mapGlobals_keeps (fun d hd => Decl.check_keeps hd)
      hp.units).of_ok hc hdeclared
    obtain ⟨hunits', hc''⟩ := (TopLevel.mapFunctions_keeps
      (fun f hf => Function.register_keeps hf) hunits).of_ok hc' hregistered
    exact TopLevel.functionsAlways
      (fun r c (hr : Registered.WellTyped r) hc => Registered.always hP hr hc)
      (fun r hr => Registered.checkBody_keeps hr) hunits' hc''

end Points

/-! ### Runs over several programs -/

/-- What is true at a point: the types that the state holds are well-formed, and so are those
with which an expression, a declaration or a parameter is annotated that is checked there. -/
structure Checker.Upholds (c : Checker) : Prop extends c.WellTyped where
  expr : ∀ (e : Expr Unit) (e' : Expr ValueType), e.check c = .ok e' → e'.Every WellFormed
  decl : ∀ (d : Decl Unit) (d' : Decl ValueType), d.base ≠ .void → d.resolve c = .ok d' →
    d'.Every WellFormed
  param : ∀ (p : Param Unit) (r : Param ValueType × Parameter), p.resolve c = .ok r →
    Expr.All WellFormed r.1.dims ∧ r.2.type.WellFormed

theorem Checker.WellTyped.upholds {c : Checker} (hc : c.WellTyped) : c.Upholds where
  toWellTyped := hc
  expr _ _ h := Expr.check_every hc h
  decl _ _ hbase h := Decl.resolve_every hc hbase h
  param _ _ h := Param.resolve_every h

/-- The checker behind some programs, accepted or not. -/
def Checker.after (c : Checker) (ps : List (Program α)) : Checker :=
  ps.foldl (fun c p => (c.checkProgram p).2) c

theorem Checker.WellTyped.checkProgram {c : Checker} (hc : c.WellTyped) {p : Program α}
    (hp : p.VoidFree) : (c.checkProgram p).2.WellTyped ∧
      ∀ p', (c.checkProgram p).1 = .ok p' → p'.Every WellFormed := by
  have hkept := Program.check_keeps hp c hc
  unfold Checker.checkProgram
  cases hcheck : p.check c with
  | error d c' =>
    rw [hcheck] at hkept
    exact ⟨hkept, nofun⟩
  | ok p' c' =>
    rw [hcheck] at hkept
    refine ⟨hkept.2, fun q hq => ?_⟩
    obtain rfl := Except.ok.inj hq
    exact hkept.1

theorem Checker.WellTyped.after {c : Checker} (hc : c.WellTyped) {ps : List (Program α)}
    (hps : ∀ p ∈ ps, p.VoidFree) : (c.after ps).WellTyped := by
  induction ps generalizing c with
  | nil => exact hc
  | cons p ps ih =>
    obtain ⟨hp, hothers⟩ := List.forall_mem_cons.mp hps
    exact ih (hc.checkProgram hp).1 hothers

/-- **The representation invariant of types.** Whatever programs one checker has checked, at
every point of the check of the next one the types in its frames and in its table of functions
are well-formed, and so is every type that it gives to an expression, a declaration or a
parameter; of a well-formed constant all elements are known, and of a constant scalar its value.
-/
theorem check_always_upholds {ps : List (Program Unit)} {p : Program Unit}
    (hps : ∀ q ∈ ps, q.Readable) (hp : p.Readable) :
    p.Always Checker.Upholds (Checker.fresh.after ps) ∧
      (∀ p', ((Checker.fresh.after ps).checkProgram p).1 = .ok p' → p'.Every WellFormed) ∧
      ∀ t : ValueType, t.WellFormed → t.isConst = true →
        t.elements?.isSome = true ∧ (t.dims = [] → t.value?.isSome = true) := by
  have hc := Checker.WellTyped.fresh.after fun q hq => (hps q hq).voidFree
  refine ⟨Program.always (fun _ hc => hc.upholds) hp.voidFree hc, ?_, fun t ht hconst => ?_⟩
  · exact (hc.checkProgram hp.voidFree).2
  · exact ⟨ht.elements?_isSome hconst, ht.value?_isSome hconst⟩

/-- The sample is checked twice by one checker. The second time it is refused, for its names are
declared already, and what the checker holds is well-formed still. -/
theorem sample_upholds : sample.Readable ∧
    ((Checker.fresh.after [sample]).checkProgram sample).1.isOk = false ∧
    sample.Always Checker.Upholds (Checker.fresh.after [sample]) := by
  refine ⟨sample_readable, rfl, ?_⟩
  have hreadable : ∀ q ∈ [sample], q.Readable := by simpa using sample_readable
  exact (check_always_upholds hreadable sample_readable).1

end SysYFront
