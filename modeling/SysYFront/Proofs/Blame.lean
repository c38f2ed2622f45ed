import SysYFront.Compile
import SysYFront.Proofs.Outcome

/-!
# SysYFront.Proofs.Blame

What a failing check says. A check *blames* with `E` and gives with `Q` (`Blames`) if the
diagnostic that it fails with satisfies `E` and the result that it succeeds with satisfies `Q`.
The results matter for the diagnostics too: a later link of a chain is blamed on what an earlier
one has given, for example on the type that it has found.

As for `Decides`, which tells when a check fails but not with what, there are two forms, for
checks that read the state and for those that change it.
-/

namespace SysYFront

variable {α β γ : Type}

/-- Whether the check fails only with `E` and succeeds only with `Q`. -/
def Blames (E : Diagnostic → Prop) (Q : α → Prop) : Except Diagnostic α → Prop
  | .ok a => Q a
  | .error d => E d

namespace Blames

variable {E E' : Diagnostic → Prop} {Q : α → Prop} {R : β → Prop} {m : Except Diagnostic α}

theorem pure {a : α} (h : Q a) : Blames E Q (Pure.pure a : Except Diagnostic α) :=
  h

theorem report {p : Problem} {l : Location} (h : E ⟨p, l⟩) :
    Blames E Q (SysYFront.report p l) :=
  h

theorem of_error (h : Blames E Q m) {d : Diagnostic} (hm : m = .error d) : E d := by
  subst hm
  exact h

theorem of_ok (h : Blames E Q m) {a : α} (hm : m = .ok a) : Q a := by
  subst hm
  exact h

theorem imp {S : α → Prop} (h : Blames E Q m) (hE : ∀ d, E d → E' d) (hQ : ∀ a, Q a → S a) :
    Blames E' S m := by
  cases m with
  | ok a => exact hQ a h
  | error d => exact hE d h

theorem mono (h : Blames E Q m) (hE : ∀ d, E d → E' d) : Blames E' Q m :=
  h.imp hE fun _ ha => ha

/-- What is known of a result may be used behind the check. -/
theorem known {R : α → Prop} (h : Blames E Q m) (hR : ∀ a, m = .ok a → R a) :
    Blames E (fun a => Q a ∧ R a) m := by
  cases m with
  | ok a => exact ⟨h, hR a rfl⟩
  | error d => exact h

/-- So may what is decided by it. -/
theorem decided {V : Prop} {S : α → Prop} (h : Blames E Q m) (hm : Decides V S m) :
    Blames E (fun a => Q a ∧ V ∧ S a) m :=
  h.known fun _ ha => hm.of_ok ha

theorem bind {f : α → Except Diagnostic β} (h : Blames E Q m)
    (hf : ∀ a, Q a → Blames E R (f a)) : Blames E R (m >>= f) := by
  cases m with
  | ok a => exact hf a h
  | error d => exact h

/-- A chain whose last link only puts a result together. -/
theorem map {f : α → β} (h : Blames E Q m) (hf : ∀ a, Q a → R (f a)) :
    Blames E R (m >>= fun a => Pure.pure (f a)) :=
  h.bind fun a ha => pure (hf a ha)

/-- A test that ends the check is to blame where it holds, and the rest where it does not. -/
theorem guard {p : Prop} [Decidable p] {r : Problem} {l : Location} (hE : p → E ⟨r, l⟩)
    (h : ¬ p → Blames E Q m) : Blames E Q (if p then SysYFront.report r l else m) := by
  by_cases hp : p
  · rw [if_pos hp]
    exact hE hp
  · rw [if_neg hp]
    exact h hp

end Blames

/-- The same for a check that is started in the state `c`. -/
def Checking.Blames (c : Checker) (E : Diagnostic → Prop) (Q : α → Checker → Prop)
    (m : Checking α) : Prop :=
  match m c with
  | .ok a c' => Q a c'
  | .error d _ => E d

namespace Checking.Blames

variable {c : Checker} {E E' : Diagnostic → Prop} {Q : α → Checker → Prop}
  {R : β → Checker → Prop} {m : Checking α}

theorem pure {a : α} (h : Q a c) : Blames c E Q (Pure.pure a : Checking α) :=
  h

theorem of_error (h : Blames c E Q m) {d : Diagnostic} {c' : Checker}
    (hm : m c = .error d c') : E d := by
  unfold Blames at h
  rwa [hm] at h

theorem imp {S : α → Checker → Prop} (h : Blames c E Q m) (hE : ∀ d, E d → E' d)
    (hQ : ∀ a c', Q a c' → S a c') : Blames c E' S m := by
  unfold Blames at h ⊢
  cases hm : m c with
  | ok a c' =>
    rw [hm] at h
    exact hQ a c' h
  | error d c' =>
    rw [hm] at h
    exact hE d h

theorem mono (h : Blames c E Q m) (hE : ∀ d, E d → E' d) : Blames c E' Q m :=
  h.imp hE fun _ _ ha => ha

theorem decided {V : Prop} {S : α → Checker → Prop} (h : Blames c E Q m)
    (hm : Decides c V S m) : Blames c E (fun a c' => Q a c' ∧ V ∧ S a c') m := by
  unfold Blames at h ⊢
  unfold Decides at hm
  cases hr : m c with
  | ok a c' =>
    rw [hr] at h hm
    exact ⟨h, hm⟩
  | error d c' =>
    rw [hr] at h
    exact h

theorem bind {f : α → Checking β} (h : Blames c E Q m)
    (hf : ∀ a c', Q a c' → Blames c' E R (f a)) : Blames c E R (m >>= f) := by
  unfold Blames at h
  change match EStateM.bind m f c with | .ok b c' => R b c' | .error d _ => E d
  unfold EStateM.bind
  cases hm : m c with
  | ok a c' =>
    rw [hm] at h
    exact hf a c' h
  | error d c' =>
    rw [hm] at h
    exact h

theorem map {f : α → β} (h : Blames c E Q m) (hf : ∀ a c', Q a c' → R (f a) c') :
    Blames c E R (m >>= fun a => Pure.pure (f a)) :=
  h.bind fun a c' ha => pure (hf a c' ha)

/-- A check that only reads the state leaves it as it was. -/
theorem inspect {P : α → Prop} {f : Checker → Except Diagnostic α}
    (h : SysYFront.Blames E P (f c)) (hP : ∀ a, P a → Q a c) :
    Blames c E Q (Checking.inspect f) := by
  unfold Blames Checking.inspect
  cases hf : f c with
  | ok a =>
    rw [hf] at h
    exact hP a h
  | error d =>
    rw [hf] at h
    exact h

/-- A check that reads the state first and then records what it has found. -/
theorem recorded {P : α → Prop} {f : Checker → Except Diagnostic α}
    {record : α → Checker → Checker} (h : SysYFront.Blames E P (f c))
    (hP : ∀ a, P a → Q a (record a c)) :
    Blames c E Q (do
      let a ← Checking.inspect f
      modify (record a)
      Pure.pure a) := by
  have hread : Blames c E (fun a c' => P a ∧ c' = c) (Checking.inspect f) :=
    inspect h fun a ha => ⟨ha, rfl⟩
  refine hread.bind fun a c' ha => ?_
  obtain ⟨ha, rfl⟩ := ha
  exact hP a ha

theorem within {enter leave : Checker → Checker}
    (h : Blames (enter c) E (fun a c' => Q a (leave c')) m) :
    Blames c E Q (Checking.within enter leave m) := by
  unfold Blames at h
  unfold Blames Checking.within
  cases hm : m (enter c) with
  | ok a c' =>
    rw [hm] at h
    exact h
  | error d c' =>
    rw [hm] at h
    exact h

end Checking.Blames

/-- What is known of checking a program with a fresh checker is known of its diagnostic. -/
theorem Checking.Blames.of_checkFresh {p : Program α} {E : Diagnostic → Prop}
    {Q : Program ValueType → Checker → Prop} (h : Blames .fresh E Q p.check) {d : Diagnostic}
    (hd : checkFresh p = .error d) : E d := by
  unfold checkFresh Checker.checkProgram at hd
  cases hcheck : p.check Checker.fresh with
  | ok p' c' =>
    rw [hcheck] at hd
    cases hd
  | error d' c' =>
    rw [hcheck] at hd
    obtain rfl := Except.error.inj hd
    exact h.of_error hcheck

end SysYFront
