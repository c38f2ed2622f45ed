import SysYFront.Proofs.Session.Passes

/-!
# SysYFront.Proofs.Session.Footprint

What the check of a piece of code changes in the checker, in whatever state it starts and whether
it succeeds or breaks off. Expressions and statements change nothing. A declaration binds its own
name in the innermost frame, the head of a function adds its own signature to the table, and
neither changes anything else or, if it is refused, anything at all
(`checks_touch_own_scope`).

The state is any state: inside any blocks, loops and bodies, not only where the check of a program
can come to.
-/

namespace SysYFront

variable {α β : Type}

/-! ### The state behind a check -/

/-- The state in which a check ends, whether it succeeds or not. -/
def Checking.stateBehind (m : Checking β) (c : Checker) : Checker :=
  match m c with
  | .ok _ c' => c'
  | .error _ c' => c'

theorem Checking.Restores.stateBehind_eq {m : Checking β} (h : Checking.Restores m) (c : Checker) :
    m.stateBehind c = c := by
  have hrestored := h c c rfl
  unfold Checking.stateBehind
  cases hm : m c with
  | ok b c' =>
    rw [hm] at hrestored
    exact hrestored.2
  | error e c' =>
    rw [hm] at hrestored
    exact hrestored

/-! ### One entry more -/

/-- The frames behind the innermost one, up to the global frame. -/
def Scopes.outer (s : Scopes) : List Frame :=
  (s.inner ++ [s.globals]).tail

/-- A new name goes on the innermost frame, and the frames behind it stay. -/
theorem Scopes.insert_eq (s : Scopes) (name : String) (t : ValueType) :
    (s.insert name t).innermost = (name, t) :: s.innermost ∧ (s.insert name t).outer = s.outer := by
  obtain ⟨inner, globals⟩ := s
  cases inner with
  | nil => exact ⟨rfl, rfl⟩
  | cons frame frames => exact ⟨rfl, rfl⟩

namespace Checker

/-- Whether `c'` is `c` with one binding more: the innermost frame, which did not have the name,
has it with the type `t`. -/
structure Binds (c : Checker) (name : String) (t : ValueType) (c' : Checker) : Prop where
  new : c.scopes.innermost.lookup name = none
  innermost : c'.scopes.innermost = (name, t) :: c.scopes.innermost
  outer : c'.scopes.outer = c.scopes.outer
  functions : c'.functions = c.functions
  running : c'.running = c.running
  loops : c'.loopDepth = c.loopDepth

/-- Whether `c'` is `c` with one function more, of a name that no function had. -/
structure Registers (c : Checker) (name : String) (s : Signature) (c' : Checker) : Prop where
  new : c.functions.get? name = none
  functions : c'.functions.entries = (name, s) :: c.functions.entries
  scopes : c'.scopes = c.scopes
  running : c'.running = c.running
  loops : c'.loopDepth = c.loopDepth

variable {c : Checker} {name : String}

theorem binds_declare (hnew : c.scopes.declaresHere name = false) (t : ValueType) :
    c.Binds name t (c.declare name t) := by
  obtain ⟨hinnermost, houter⟩ := c.scopes.insert_eq name t
  refine ⟨?_, hinnermost, houter, rfl, rfl, rfl⟩
  simpa [Scopes.declaresHere] using hnew

theorem registers_addFunction (hnew : c.functions.contains name = false) (s : Signature) :
    c.Registers name s (c.addFunction name s) := by
  refine ⟨?_, SignatureTable.entries_insert hnew s, rfl, rfl, rfl⟩
  simpa [SignatureTable.contains] using hnew

end Checker

/-! ### Declarations and heads of functions -/

variable {c c' : Checker}

/-- A declaration that is accepted binds its own name to the type that it is annotated with. -/
theorem Decl.check_binds {d : Decl α} {d' : Decl ValueType} (h : d.check c = .ok d' c') :
    d'.name = d.name ∧ c.Binds d.name d'.note c' := by
  obtain ⟨hresolve, rfl⟩ := Decl.check_eq_ok.mp h
  obtain ⟨hname, hnew⟩ := Decl.resolve_name hresolve
  rw [hname] at hnew ⊢
  exact ⟨rfl, Checker.binds_declare hnew d'.note⟩

/-- The head of a function that is accepted adds its own name to the table. -/
theorem Function.register_registers {f : Function α} {r : Registered α}
    (h : f.register c = .ok r c') : r.name = f.name ∧ c.Registers f.name r.signature c' := by
  obtain ⟨hresolve, rfl⟩ := Function.register_eq_ok.mp h
  obtain ⟨hname, hnew, -⟩ := Function.resolve_name hresolve
  rw [hname] at hnew ⊢
  exact ⟨rfl, Checker.registers_addFunction hnew r.signature⟩

/-- **Checking a piece of code touches only its own scope.** -/
theorem checks_touch_own_scope (c : Checker) :
    (∀ e : Expr α, e.checkHere.stateBehind c = c) ∧
    (∀ s : Stmt α, s.check.stateBehind c = c) ∧
    (∀ d : Decl α, match d.check c with
      | .ok d' c' => d'.name = d.name ∧ c.Binds d.name d'.note c'
      | .error _ c' => c' = c) ∧
    ∀ f : Function α, match f.register c with
      | .ok r c' => r.name = f.name ∧ c.Registers f.name r.signature c'
      | .error _ c' => c' = c := by
  refine ⟨?_, ?_, ?_, ?_⟩
  · intro e
    exact (Checking.Restores.inspect e.check).stateBehind_eq c
  · intro s
    exact s.check_restores.stateBehind_eq c
  · intro d
    cases hd : d.check c with
    | ok d' c' => exact Decl.check_binds hd
    | error e c' => exact (Decl.check_eq_error.mp hd).2
  · intro f
    cases hf : f.register c with
    | ok r c' => exact Function.register_registers hf
    | error e c' => exact (Function.register_eq_error.mp hf).2

end SysYFront
