import SysYFront.Proofs.Agreement.Program
import SysYFront.Proofs.Invariant.Run

/-!
# SysYFront.Proofs.Session.Restore

What checking a piece of code leaves behind, whether it succeeds or breaks off somewhere inside.
A statement leaves the state as it was (`Stmt.check_restores`): the declarations of its blocks
stand in frames that are left behind it, and loops are counted down again. The items of a block
change nothing but the frame of that block, so the body of a function leaves the state between
two units as it was (`Registered.checkBody_restores`).

Between two units only declarations and registrations change the state, and each by one entry.
-/

namespace SysYFront

variable {α β : Type}

open Checking (Keeps)

/-- A check restores the state if it always ends in the state in which it started. -/
def Checking.Restores (m : Checking β) : Prop :=
  ∀ c, Keeps (· = c) (fun _ => True) m

/-- What a check inside a block of `outside` may have changed: the frame of that block. -/
def Checker.InBlock (outside c : Checker) : Prop :=
  ∃ frame, c = { outside with scopes := outside.scopes.enter frame }

namespace Checking.Restores

variable {m : Checking β}

theorem of_ok (h : Restores m) {c c' : Checker} {b : β} (hm : m c = .ok b c') : c' = c :=
  ((h c).of_ok rfl hm).2

/-- A check that restores the state keeps every property of states. -/
theorem keeps (h : Restores m) (P : Checker → Prop) : Keeps P (fun _ => True) m := by
  intro c hc
  have hrestored := h c c rfl
  cases hm : m c with
  | error d c' =>
    rw [hm] at hrestored
    subst hrestored
    exact hc
  | ok b c' =>
    rw [hm] at hrestored
    obtain rfl := hrestored.2
    exact ⟨trivial, hc⟩

theorem pure (b : β) : Restores (Pure.pure b : Checking β) :=
  fun _ => .pure trivial

theorem inspect (f : Checker → Except Diagnostic β) : Restores (Checking.inspect f) :=
  fun _ => .inspect fun _ _ _ _ => trivial

theorem bind {γ : Type} {f : β → Checking γ} (h : Restores m) (hf : ∀ b, Restores (f b)) :
    Restores (m >>= f) :=
  fun c => (h c).bind fun b _ => hf b c

/-- A block restores the state if its inside changes nothing but its frame. -/
theorem block (h : ∀ c : Checker, Keeps c.InBlock (fun _ => True) m) :
    Restores (Checking.within .enterBlock .leaveBlock m) := by
  intro c
  refine Keeps.bracketed (I := c.InBlock) ?_ ?_ (h c)
  · intro c' hc'
    subst hc'
    exact ⟨[], rfl⟩
  · intro c' hc'
    obtain ⟨frame, rfl⟩ := hc'
    rfl

/-- A loop restores the state if its body does. -/
theorem loop (h : Restores m) : Restores (Checking.within .enterLoop .leaveLoop m) := by
  intro c
  refine Keeps.bracketed (I := (· = c.enterLoop)) ?_ ?_ (h c.enterLoop)
  · intro c' hc'
    rw [hc']
  · intro c' hc'
    rw [hc']
    rfl

end Checking.Restores

open Checking (Restores)

/-! ### Statements -/

/-- A declaration inside a block changes the frame of the block only. -/
theorem Decl.check_inBlock (d : Decl α) (c : Checker) :
    Keeps c.InBlock (fun _ => True) d.check := by
  refine ((Restores.inspect d.resolve).keeps c.InBlock).bind fun d' _ => ?_
  refine (Keeps.modified fun c' hc' => ?_).bind fun _ _ => .pure trivial
  obtain ⟨frame, rfl⟩ := hc'
  exact ⟨(d'.name, d'.note) :: frame, rfl⟩

namespace Stmt

mutual

/-- Checking a statement leaves the state as it was, on every outcome. -/
theorem check_restores : ∀ s : Stmt α, Restores (check s)
  | .empty _ | .returnNothing _ => .pure _
  | .expr e _ => (Restores.inspect e.check).bind fun _ => .pure _
  | .block items _ => (Restores.block (checkItems_inBlock items)).bind fun _ => .pure _
  | .ifThen _ body _ =>
    (Restores.inspect _).bind fun _ => (check_restores body).bind fun _ => .pure _
  | .ifElse _ body otherwise _ =>
    (Restores.inspect _).bind fun _ => (check_restores body).bind fun _ =>
      (check_restores otherwise).bind fun _ => .pure _
  | .whileLoop _ body _ =>
    (Restores.inspect _).bind fun _ => (check_restores body).loop.bind fun _ => .pure _
  | .breakLoop _ | .continueLoop _ | .returnValue _ _ =>
    (Restores.inspect _).bind fun _ => .pure _

/-- Checking an item of a block changes nothing but the frame of the block. -/
theorem checkItem_inBlock : ∀ (item : Item α) (c : Checker),
    Keeps c.InBlock (fun _ => True) (checkItem item)
  | .decl d, c => (d.check_inBlock c).bind fun _ _ => .pure trivial
  | .stmt s, c => ((check_restores s).keeps c.InBlock).bind fun _ _ => .pure trivial

theorem checkItems_inBlock : ∀ (items : List (Item α)) (c : Checker),
    Keeps c.InBlock (fun _ => True) (checkItems items)
  | [], _ => .pure trivial
  | item :: items, c => (checkItem_inBlock item c).bind fun _ _ =>
    (checkItems_inBlock items c).bind fun _ _ => .pure trivial

end

end Stmt

/-! ### Between two units -/

variable {c c' : Checker}

/-- Checking the body of a function between two units leaves the state as it was. -/
theorem Registered.checkBody_restores (r : Registered α) (hc : c.Idle) :
    Keeps (· = c) (fun _ => True) r.checkBody := by
  -- Inside the body the function is running, and no loop is open yet.
  let inside : Checker := { c with running := some ⟨r.name, r.signature.returns⟩ }
  refine Keeps.bind (Keeps.bracketed (I := inside.InBlock) ?_ ?_
    (Stmt.checkItems_inBlock r.body.items inside)) fun _ _ => .pure trivial
  · intro c' hc'
    subst hc'
    refine ⟨r.signature.params.map fun p => (p.name, p.type), ?_⟩
    simp only [inside, Checker.enterFunction, hc.loops]
  · intro c' hc'
    obtain ⟨frame, rfl⟩ := hc'
    simp only [inside, Checker.leaveFunction, Scopes.leave_enter, ← hc.running]

/-- A check of the state that records its result there, if it succeeds. -/
theorem Checking.record_eq_ok {f : Checker → Except Diagnostic β} {g : β → Checker → Checker}
    {b : β} :
    (do let a ← Checking.inspect f; modify (g a); pure a : Checking β) c = .ok b c' ↔
      f c = .ok b ∧ c' = g b c := by
  rw [Checking.bind_eq_ok]
  constructor
  · intro h
    obtain ⟨a, c₁, hinspect, h⟩ := h
    obtain ⟨ha, rfl⟩ := Checking.inspect_eq_ok.mp hinspect
    obtain ⟨u, hm, rfl⟩ := Checking.map_eq_ok.mp h
    exact ⟨ha, (Checking.modify_eq_ok.mp hm).symm⟩
  · intro h
    obtain ⟨ha, rfl⟩ := h
    refine ⟨b, c, Checking.inspect_eq_ok.mpr ⟨ha, rfl⟩, ?_⟩
    exact Checking.map_eq_ok.mpr ⟨(), Checking.modify_eq_ok.mpr rfl, rfl⟩

/-- Nothing is recorded if the check fails. -/
theorem Checking.record_eq_error {f : Checker → Except Diagnostic β}
    {g : β → Checker → Checker} {e : Diagnostic} :
    (do let a ← Checking.inspect f; modify (g a); pure a : Checking β) c = .error e c' ↔
      f c = .error e ∧ c' = c := by
  change EStateM.bind (Checking.inspect f) _ c = .error e c' ↔ _
  unfold EStateM.bind Checking.inspect
  cases hf : f c with
  | error d =>
    constructor
    · intro h
      cases h
      exact ⟨rfl, rfl⟩
    · intro h
      obtain ⟨hd, rfl⟩ := h
      cases hd
      rfl
  | ok a => exact iff_of_false nofun fun h => nomatch h.1

variable {e : Diagnostic}

theorem Decl.check_eq_ok {d : Decl α} {d' : Decl ValueType} :
    d.check c = .ok d' c' ↔ d.resolve c = .ok d' ∧ c' = c.declare d'.name d'.note :=
  Checking.record_eq_ok

theorem Decl.check_eq_error {d : Decl α} :
    d.check c = .error e c' ↔ d.resolve c = .error e ∧ c' = c :=
  Checking.record_eq_error

theorem Function.register_eq_ok {f : Function α} {r : Registered α} :
    f.register c = .ok r c' ↔ f.resolve c = .ok r ∧ c' = c.addFunction r.name r.signature :=
  Checking.record_eq_ok

theorem Function.register_eq_error {f : Function α} :
    f.register c = .error e c' ↔ f.resolve c = .error e ∧ c' = c :=
  Checking.record_eq_error

theorem Registered.checkBody_eq_ok {r : Registered α} (hc : c.Idle) {f : Function ValueType} :
    r.checkBody c = .ok f c' ↔ r.checkBody c = .ok f c ∧ c' = c := by
  constructor
  · intro h
    obtain rfl := ((r.checkBody_restores hc).of_ok rfl h).2
    exact ⟨h, rfl⟩
  · intro h
    obtain ⟨h, rfl⟩ := h
    exact h

theorem Registered.checkBody_eq_error {r : Registered α} (hc : c.Idle)
    (h : r.checkBody c = .error e c') : c' = c := by
  have hrestored := r.checkBody_restores hc c rfl
  rw [h] at hrestored
  exact hrestored

end SysYFront
