import SysYFront.Checker
import SysYFront.Reading

/-!
# SysYFront.Proofs.Relocation.Run

Two runs side by side. Readers and checks both run on a state and may fail. One of them *mirrors*
another (`Mirrors`) if from every changed state it comes to the changed outcome of the other:
what is done to a state, to a value and to an error are three functions, and the two runs always
take the same way. A chain mirrors a chain if each link mirrors its link, so the links are
compared one by one; they need not be the same, since a link may hold a place that an earlier one
has read.
-/

namespace SysYFront

variable {ε σ α α' β β' : Type}

/-- Whether `m'` comes from every changed state to the changed outcome of `m`. -/
def Mirrors (onError : ε → ε) (onState : σ → σ) (onValue : α → α') (m : EStateM ε σ α)
    (m' : EStateM ε σ α') : Prop :=
  ∀ s, m' (onState s) = match m s with
    | .ok a s' => .ok (onValue a) (onState s')
    | .error e s' => .error (onError e) (onState s')

namespace Mirrors

variable {onError : ε → ε} {onState : σ → σ} {onValue : α → α'} {onResult : β → β'}
  {m : EStateM ε σ α} {m' : EStateM ε σ α'}

theorem pure {a : α} {a' : α'} (h : onValue a = a') :
    Mirrors onError onState onValue (Pure.pure a) (Pure.pure a') := by
  subst h
  exact fun _ => rfl

theorem throw {e e' : ε} (h : onError e = e') :
    Mirrors onError onState onValue (MonadExcept.throw e : EStateM ε σ α)
      (MonadExcept.throw e') := by
  subst h
  exact fun _ => rfl

/-- A chain mirrors a chain if its links do, the later ones on what the first one gives. -/
theorem bind {f : α → EStateM ε σ β} {f' : α' → EStateM ε σ β'}
    (h : Mirrors onError onState onValue m m')
    (hf : ∀ a, Mirrors onError onState onResult (f a) (f' (onValue a))) :
    Mirrors onError onState onResult (m >>= f) (m' >>= f') := by
  intro s
  have hm := h s
  change EStateM.bind m' f' (onState s) = match EStateM.bind m f s with
    | .ok b s' => .ok (onResult b) (onState s')
    | .error e s' => .error (onError e) (onState s')
  unfold EStateM.bind
  cases hs : m s with
  | error e s' =>
    rw [hs] at hm
    rw [hm]
  | ok a s' =>
    rw [hs] at hm
    rw [hm]
    exact hf a s'

/-- A chain whose last links only put a result together. -/
theorem map {f : α → β} {f' : α' → β'} (h : Mirrors onError onState onValue m m')
    (hf : ∀ a, onResult (f a) = f' (onValue a)) :
    Mirrors onError onState onResult (m >>= fun a => Pure.pure (f a))
      (m' >>= fun a => Pure.pure (f' a)) :=
  h.bind fun a => pure (hf a)

/-- Two tests that are the same choose the same branch. -/
theorem branch {p p' : Prop} [Decidable p] [Decidable p'] {n : EStateM ε σ α}
    {n' : EStateM ε σ α'} (hp : p' ↔ p) (h : Mirrors onError onState onValue m m')
    (hn : Mirrors onError onState onValue n n') :
    Mirrors onError onState onValue (if p then m else n) (if p' then m' else n') := by
  by_cases hcase : p
  · rw [if_pos hcase, if_pos (hp.mpr hcase)]
    exact h
  · rw [if_neg hcase, if_neg (mt hp.mp hcase)]
    exact hn

end Mirrors

end SysYFront
