import SysYFront.Checker

/-!
# SysYFront.Proofs.Outcome

How checks are opened in proofs. A check is a chain of smaller checks, and the first
link that fails ends it. Two things are said about such a chain:

* that it succeeded with a certain result, which is turned into the same statement
  about every link (`bind_eq_ok` and its companions);
* that it *decides* a condition `V` (`Decides`): it succeeds if and only if `V`
  holds, and whatever it then gives satisfies `Q`. The condition of a chain is the
  conjunction of the conditions of its links, so a whole checker is compared with
  its rules link by link, and both directions are proved at once.

Both come in two forms: for checks that only read the state (`Except`) and for those
that also change it (`Checking`).
-/

namespace SysYFront

variable {α β ε : Type}

/-! ### Chains that succeed -/

/-- A chain succeeds if its first link does and the rest succeeds on its result. -/
theorem bind_eq_ok {m : Except ε α} {f : α → Except ε β} {b : β} :
    (m >>= f) = .ok b ↔ ∃ a, m = .ok a ∧ f a = .ok b := by
  constructor
  · intro h
    cases m with
    | error d => cases h
    | ok a => exact ⟨a, rfl, h⟩
  · intro h
    rcases h with ⟨a, rfl, h⟩
    exact h

@[simp] theorem pure_eq_ok {a b : α} : (pure a : Except ε α) = .ok b ↔ a = b :=
  ⟨fun h => Except.ok.inj h, congrArg _⟩

@[simp] theorem report_ne_ok {p : Problem} {l : Location} {a : α} : report p l ≠ .ok a := nofun

/-- Behind a test that ends the check, the test did not hold. -/
@[simp] theorem guard_eq_ok {p : Prop} [Decidable p] {r : Problem} {l : Location} {a : α}
    {m : Except Diagnostic α} : (if p then report r l else m) = .ok a ↔ ¬ p ∧ m = .ok a := by
  by_cases hp : p
  · simp [hp]
  · simp [hp]

namespace Checking

/-- The same for checks that change the state: the rest starts where the first link ended. -/
theorem bind_eq_ok {m : Checking α} {f : α → Checking β} {b : β} {c c'' : Checker} :
    (m >>= f) c = .ok b c'' ↔ ∃ a c', m c = .ok a c' ∧ f a c' = .ok b c'' := by
  change EStateM.bind m f c = _ ↔ _
  unfold EStateM.bind
  constructor
  · intro h
    cases hm : m c with
    | error d c' => rw [hm] at h; cases h
    | ok a c' => rw [hm] at h; exact ⟨a, c', rfl, h⟩
  · intro h
    rcases h with ⟨a, c', hm, h⟩
    rw [hm]
    exact h

@[simp] theorem pure_eq_ok {a b : α} {c c' : Checker} :
    (pure a : Checking α) c = .ok b c' ↔ a = b ∧ c = c' := by
  simp [pure, EStateM.pure]

/-- A chain whose last link only puts a result together ends where the first link ends. -/
theorem map_eq_ok {m : Checking α} {f : α → β} {b : β} {c c' : Checker} :
    (m >>= fun a => pure (f a)) c = .ok b c' ↔ ∃ a, m c = .ok a c' ∧ f a = b := by
  rw [bind_eq_ok]
  simp only [pure_eq_ok]
  constructor
  · intro h
    obtain ⟨a, c₁, hm, hb, rfl⟩ := h
    exact ⟨a, hm, hb⟩
  · intro h
    obtain ⟨a, hm, hb⟩ := h
    exact ⟨a, c', hm, hb, rfl⟩

@[simp] theorem inspect_eq_ok {f : Checker → Except Diagnostic α} {a : α} {c c' : Checker} :
    inspect f c = .ok a c' ↔ f c = .ok a ∧ c = c' := by
  unfold inspect
  cases f c with
  | error d => simp
  | ok b => simp

@[simp] theorem modify_eq_ok {f : Checker → Checker} {u : Unit} {c c' : Checker} :
    (modify f : Checking Unit) c = .ok u c' ↔ f c = c' := by
  have happly : (modify f : Checking Unit) c = .ok () (f c) := rfl
  simp [happly]

@[simp] theorem within_eq_ok {enter leave : Checker → Checker} {p : Checking α} {a : α}
    {c c' : Checker} :
    within enter leave p c = .ok a c' ↔ ∃ c'', p (enter c) = .ok a c'' ∧ leave c'' = c' := by
  unfold within
  cases p (enter c) with
  | error d c'' => simp
  | ok b c'' => simp [and_assoc]

end Checking

/-! ### Chains that decide a condition -/

/-- The check `m` succeeds if and only if `V` holds, and then its result satisfies `Q`. -/
def Decides (V : Prop) (Q : α → Prop) (m : Except ε α) : Prop :=
  match m with
  | .ok a => V ∧ Q a
  | .error _ => ¬ V

namespace Decides

variable {V W : Prop} {Q R : α → Prop} {m : Except ε α}

theorem of_ok {a : α} (h : Decides V Q m) (hm : m = .ok a) : V ∧ Q a := by
  subst hm
  exact h

/-- What a check decides is when it succeeds. -/
theorem succeeds_iff (h : Decides V Q m) : (∃ a, m = .ok a) ↔ V := by
  cases m with
  | error d => exact iff_of_false (fun ⟨_, ha⟩ => nomatch ha) h
  | ok a => exact iff_of_true ⟨a, rfl⟩ h.1

theorem pure {a : α} (h : Q a) : Decides True Q (Pure.pure a : Except ε α) :=
  ⟨trivial, h⟩

theorem report {p : Problem} {l : Location} : Decides False Q (SysYFront.report p l) :=
  id

/-- The condition may be put in other words. -/
theorem congr (h : Decides V Q m) (hVW : V ↔ W) : Decides W Q m := by
  rwa [propext hVW] at h

/-- Less may be said of the result, with the condition at hand. -/
theorem imp (h : Decides V Q m) (hQR : V → ∀ a, Q a → R a) : Decides V R m := by
  cases m with
  | error d => exact h
  | ok a => exact ⟨h.1, hQR h.1 a h.2⟩

/-- A chain decides the conjunction of what its links decide. -/
theorem bind {S : β → Prop} {f : α → Except ε β} (h : Decides V Q m)
    (hf : V → ∀ a, Q a → Decides W S (f a)) : Decides (V ∧ W) S (m >>= f) := by
  cases m with
  | error d => exact fun hVW => h hVW.1
  | ok a =>
    have hW : Decides W S (f a) := hf h.1 a h.2
    change Decides (V ∧ W) S (f a)
    exact hW.congr (by simp [h.1])

/-- A chain whose last link only puts a result together decides what the first link does. -/
theorem map {S : β → Prop} {f : α → β} (h : Decides V Q m) (hf : V → ∀ a, Q a → S (f a)) :
    Decides V S (m >>= fun a => Pure.pure (f a)) := by
  have hchain := h.bind fun hV a ha => pure (hf hV a ha)
  exact hchain.congr (and_iff_left trivial)

/-- A test that ends the check decides that it does not hold, then the rest. -/
theorem guard {p : Prop} [Decidable p] {r : Problem} {l : Location}
    {m : Except Diagnostic α} (h : ¬ p → Decides V Q m) :
    Decides (¬ p ∧ V) Q (if p then SysYFront.report r l else m) := by
  by_cases hp : p
  · rw [if_pos hp]
    exact Decides.report.congr (by simp [hp])
  · rw [if_neg hp]
    exact (h hp).congr (by simp [hp])

end Decides

/-- The check `m`, started at `c`, succeeds if and only if `V` holds, and then its result
and the state that it leaves satisfy `Q`. -/
def Checking.Decides (c : Checker) (V : Prop) (Q : α → Checker → Prop) (m : Checking α) : Prop :=
  match m c with
  | .ok a c' => V ∧ Q a c'
  | .error _ _ => ¬ V

namespace Checking.Decides

variable {V W : Prop} {c : Checker} {Q R : α → Checker → Prop} {m : Checking α}

theorem pure {a : α} (h : Q a c) : Decides c True Q (Pure.pure a : Checking α) :=
  ⟨trivial, h⟩

theorem congr (h : Decides c V Q m) (hVW : V ↔ W) : Decides c W Q m := by
  rwa [propext hVW] at h

theorem imp (h : Decides c V Q m) (hQR : V → ∀ a c', Q a c' → R a c') : Decides c V R m := by
  unfold Decides at h ⊢
  cases hm : m c with
  | error d c' => simpa only [hm] using h
  | ok a c' =>
    simp only [hm] at h ⊢
    exact ⟨h.1, hQR h.1 a c' h.2⟩

theorem bind {S : β → Checker → Prop} {f : α → Checking β} (h : Decides c V Q m)
    (hf : V → ∀ a c', Q a c' → Decides c' W S (f a)) : Decides c (V ∧ W) S (m >>= f) := by
  unfold Decides at h ⊢
  change match EStateM.bind m f c with | .ok a c' => _ | .error _ _ => _
  unfold EStateM.bind
  cases hm : m c with
  | error d c' =>
    simp only [hm] at h ⊢
    exact fun hVW => h hVW.1
  | ok a c' =>
    simp only [hm] at h ⊢
    have hW : Decides c' W S (f a) := hf h.1 a c' h.2
    exact hW.congr (by simp [h.1])

theorem map {S : β → Checker → Prop} {f : α → β} (h : Decides c V Q m)
    (hf : V → ∀ a c', Q a c' → S (f a) c') : Decides c V S (m >>= fun a => Pure.pure (f a)) := by
  have hchain := h.bind fun hV a c' ha => pure (hf hV a c' ha)
  exact hchain.congr (and_iff_left trivial)

theorem modified {f : Checker → Checker} {Q : Unit → Checker → Prop} (h : Q () (f c)) :
    Decides c True Q (modify f : Checking Unit) :=
  ⟨trivial, h⟩

/-- A check that only reads the state leaves it as it was. -/
theorem inspect {P : α → Prop} {f : Checker → Except Diagnostic α}
    (h : SysYFront.Decides V P (f c)) :
    Decides c V (fun a c' => P a ∧ c' = c) (Checking.inspect f) := by
  unfold Decides Checking.inspect
  cases hf : f c with
  | error d =>
    rw [hf] at h
    exact h
  | ok a =>
    rw [hf] at h
    exact ⟨h.1, h.2, rfl⟩

/-- What a bracketed check decides is what its inside decides from the entered state. -/
theorem within {enter leave : Checker → Checker}
    (h : Decides (enter c) V (fun a c' => Q a (leave c')) m) :
    Decides c V Q (Checking.within enter leave m) := by
  unfold Decides at h
  unfold Decides Checking.within
  cases hm : m (enter c) with
  | error d c' => simpa only [hm] using h
  | ok a c' => simpa only [hm] using h

end Checking.Decides

end SysYFront
