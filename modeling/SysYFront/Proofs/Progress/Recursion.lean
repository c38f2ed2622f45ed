import SysYFront.Proofs.Grammar.Phrase

/-!
# SysYFront.Proofs.Progress.Recursion

Readers come to an end. Readers of nested phrases and loops are given a bound on how often they may
call themselves, and the bound is never what ends them. What ends them is that they move on: a call
of a reader in itself always stands behind a token that was taken.

Two facts carry this, and they are proved together. A reader *moves* by `k` (`Reading.Moves`) if it
never leaves tokens that it was not given, nor fewer than `k` tokens less where it succeeds. Two
readers are *alike* on a list (`Reading.Alike`) if they do the same there and move. The rules below
follow the ways to put readers together. A reader whose step keeps readers alike that are alike on
shorter lists *descends* (`Reading.Descends`): it does what its step does, and in the step it is
only called on fewer tokens.
-/

namespace SysYFront

variable {α β ι : Type}

namespace Reading

/-- Whether a reader that is given `tokens` leaves some end of them and, if it succeeds, at least
`k` tokens less. -/
def Moves (k : Nat) (m : Reading α) (tokens : List Token) : Prop :=
  match m tokens with
  | .ok _ rest => rest <:+ tokens ∧ rest.length + k ≤ tokens.length
  | .error _ rest => rest <:+ tokens

/-- Whether two readers do the same with `tokens` and move by at least `k` tokens. -/
def Alike (k : Nat) (m m' : Reading α) (tokens : List Token) : Prop :=
  m tokens = m' tokens ∧ m.Moves k tokens

theorem Moves.of_ok {k : Nat} {m : Reading α} {tokens rest : List Token} {a : α}
    (h : m.Moves k tokens) (hm : m tokens = .ok a rest) :
    rest <:+ tokens ∧ rest.length + k ≤ tokens.length := by
  unfold Moves at h
  rwa [hm] at h

theorem Moves.of_error {k : Nat} {m : Reading α} {tokens rest : List Token}
    {wanted : Expectation} (h : m.Moves k tokens) (hm : m tokens = .error wanted rest) :
    rest <:+ tokens := by
  unfold Moves at h
  rwa [hm] at h

theorem Moves.congr {k : Nat} {m m' : Reading α} {tokens : List Token} (h : m.Moves k tokens)
    (hm : m tokens = m' tokens) : m'.Moves k tokens := by
  unfold Moves at h ⊢
  rwa [← hm]

/-- A reader that moves is alike itself. -/
theorem Moves.alike {k : Nat} {m : Reading α} {tokens : List Token} (h : m.Moves k tokens) :
    Alike k m m tokens :=
  ⟨rfl, h⟩

namespace Alike

variable {j k : Nat} {m m' : Reading α} {f f' : α → Reading β} {tokens : List Token}

theorem moves (h : Alike k m m' tokens) : m.Moves k tokens :=
  h.2

theorem mono (h : Alike j m m' tokens) (hk : k ≤ j) : Alike k m m' tokens := by
  refine ⟨h.1, ?_⟩
  have hmoves := h.2
  unfold Moves at hmoves ⊢
  cases hm : m tokens with
  | error wanted rest =>
    rw [hm] at hmoves
    exact hmoves
  | ok a rest =>
    rw [hm] at hmoves
    exact ⟨hmoves.1, by omega⟩

/-! ### Links -/

theorem pure (a : α) : Alike 0 (Pure.pure a) (Pure.pure a) tokens :=
  ⟨rfl, List.suffix_rfl, Nat.le_refl _⟩

theorem throw (wanted : Expectation) :
    Alike k (MonadExcept.throw wanted : Reading α) (MonadExcept.throw wanted) tokens :=
  ⟨rfl, List.suffix_rfl⟩

/-- Behind a reader that moves, the next one starts with fewer tokens. -/
theorem bindMoves (h : Alike j m m' tokens)
    (hf : ∀ a rest, rest.length + j ≤ tokens.length → Alike k (f a) (f' a) rest) :
    Alike (j + k) (m >>= f) (m' >>= f') tokens := by
  obtain ⟨hsame, hmoves⟩ := h
  unfold Alike Moves
  simp only [Bind.bind, EStateM.bind, ← hsame]
  cases hm : m tokens with
  | error wanted rest => exact ⟨rfl, hmoves.of_error hm⟩
  | ok a rest =>
    obtain ⟨hsuffix, hlength⟩ := hmoves.of_ok hm
    obtain ⟨hnext, hmoves'⟩ := hf a rest hlength
    refine ⟨hnext, ?_⟩
    dsimp only
    cases hfa : f a rest with
    | error wanted last => exact (hmoves'.of_error hfa).trans hsuffix
    | ok b last =>
      obtain ⟨hsuffix', hlength'⟩ := hmoves'.of_ok hfa
      exact ⟨hsuffix'.trans hsuffix, by omega⟩

/-- A chain moves as its last link does. -/
theorem bind (h : Alike j m m' tokens)
    (hf : ∀ a rest, rest.length + j ≤ tokens.length → Alike k (f a) (f' a) rest) :
    Alike k (m >>= f) (m' >>= f') tokens :=
  (h.bindMoves hf).mono (Nat.le_add_left _ _)

/-- A chain moves as its first link does. -/
theorem bindFirst (h : Alike k m m' tokens)
    (hf : ∀ a rest, rest.length + k ≤ tokens.length → Alike 0 (f a) (f' a) rest) :
    Alike k (m >>= f) (m' >>= f') tokens :=
  h.bindMoves hf

theorem map (h : Alike k m m' tokens) (g : α → β) :
    Alike k (m >>= fun a => Pure.pure (g a)) (m' >>= fun a => Pure.pure (g a)) tokens :=
  h.bindFirst fun _ _ _ => pure _

/-! ### Single tokens -/

theorem accept (kind : Token.Kind) : Alike 0 (Reading.accept kind) (Reading.accept kind) tokens := by
  refine ⟨rfl, ?_⟩
  unfold Moves
  cases tokens with
  | nil => exact ⟨List.suffix_rfl, Nat.le_refl _⟩
  | cons t ts =>
    by_cases hkind : t.kind = kind
    · simp only [Reading.accept, if_pos hkind]
      exact ⟨List.suffix_cons t ts, Nat.le_succ _⟩
    · simp only [Reading.accept, if_neg hkind]
      exact ⟨List.suffix_rfl, Nat.le_refl _⟩

theorem expect (kind : Token.Kind) (wanted : Expectation) :
    Alike 1 (Reading.expect kind wanted) (Reading.expect kind wanted) tokens := by
  refine ⟨rfl, ?_⟩
  unfold Moves
  cases tokens with
  | nil => exact List.suffix_rfl
  | cons t ts =>
    by_cases hkind : t.kind = kind
    · simp only [Reading.expect, if_pos hkind]
      exact ⟨List.suffix_cons t ts, Nat.le_refl _⟩
    · simp only [Reading.expect, if_neg hkind]
      exact List.suffix_rfl

theorem expectName : Alike 1 Reading.expectName Reading.expectName tokens := by
  refine ⟨rfl, ?_⟩
  unfold Moves
  cases hread : Reading.expectName tokens with
  | error wanted rest =>
    unfold Reading.expectName at hread
    split at hread
    · cases hread
    · cases hread
      exact List.suffix_rfl
  | ok r rest =>
    rw [expectName_eq_ok] at hread
    subst hread
    exact ⟨List.suffix_cons _ rest, Nat.le_refl _⟩

/-- A value that a token is expected behind. -/
theorem close (kind : Token.Kind) (wanted : Expectation) (g : Location → β) :
    Alike 0 (Reading.expect kind wanted >>= fun l => Pure.pure (g l))
      (Reading.expect kind wanted >>= fun l => Pure.pure (g l)) tokens :=
  ((expect kind wanted).map g).mono (Nat.zero_le 1)

/-- A reader that looks at the tokens does what it does with them. -/
theorem get {f f' : List Token → Reading β} (h : Alike k (f tokens) (f' tokens) tokens) :
    Alike k (MonadState.get >>= f) (MonadState.get >>= f') tokens :=
  h

/-- A reader that looks at the next token does what it does with it. -/
theorem next? {f f' : Option Token → Reading β}
    (h : Alike k (f tokens.head?) (f' tokens.head?) tokens) :
    Alike k (Reading.next? >>= f) (Reading.next? >>= f') tokens :=
  h

/-- There need not be a token to take. -/
theorem skip : Alike 0 Reading.advance Reading.advance tokens :=
  ⟨rfl, List.tail_suffix tokens, (List.tail_suffix tokens).length_le⟩

/-- A token that is there is taken. -/
theorem advance {t : Token} {f f' : Unit → Reading β} (h : Alike k (f ()) (f' ()) tokens) :
    Alike (k + 1) (Reading.advance >>= f) (Reading.advance >>= f') (t :: tokens) := by
  obtain ⟨hsame, hmoves⟩ := h
  refine ⟨hsame, ?_⟩
  show match f () tokens with
    | .ok _ rest => rest <:+ t :: tokens ∧ rest.length + (k + 1) ≤ (t :: tokens).length
    | .error _ rest => rest <:+ t :: tokens
  cases hf : f () tokens with
  | error wanted rest => exact (hmoves.of_error hf).trans (List.suffix_cons t tokens)
  | ok b rest =>
    obtain ⟨hsuffix, hlength⟩ := hmoves.of_ok hf
    exact ⟨hsuffix.trans (List.suffix_cons t tokens), Nat.succ_le_succ hlength⟩

/-- Behind a token that is taken, a reader moves as it does by itself. -/
theorem past {t : Token} {f f' : Unit → Reading β} (h : Alike k (f ()) (f' ()) tokens) :
    Alike k (Reading.advance >>= f) (Reading.advance >>= f') (t :: tokens) :=
  h.advance.mono (Nat.le_succ k)

end Alike

/-! ### Recursion -/

/-- Whether a family of readers is the recursion of a step. Given some tokens, a reader does what its
step does with any readers in place of itself that agree with it on shorter lists. So the step
calls it on shorter lists only, and no call goes on for ever. -/
def Descends (step : (ι → Reading α) → ι → Reading α) (read : ι → Reading α) : Prop :=
  ∀ self i tokens, (∀ j ts, ts.length < tokens.length → self j ts = read j ts) →
    step self i tokens = read i tokens

/-- One reader by itself. -/
def DescendsAlone (step : Reading α → Reading α) (read : Reading α) : Prop :=
  Descends (fun self (_ : Unit) => step (self ())) fun _ => read

/-- Whether a step keeps readers alike: on every list, if they are on all shorter ones. -/
def Step (k : Nat) (step : (ι → Reading α) → ι → Reading α) : Prop :=
  ∀ self self' i tokens,
    (∀ j ts, ts.length < tokens.length → Alike k (self j) (self' j) ts) →
    Alike k (step self i) (step self' i) tokens

variable {k : Nat} {step : (ι → Reading α) → ι → Reading α}

/-- Readers that may call themselves as often as there are tokens are alike, however much more
often they may. -/
theorem Step.within_alike (h : Step k step) {within : Nat → ι → Reading α}
    (hsucc : ∀ n, within (n + 1) = step (within n))
    (hzero : ∀ self i, within 0 i [] = step self i []) {n n' : Nat} {tokens : List Token}
    (hn : tokens.length ≤ n) (hn' : tokens.length ≤ n') (i : ι) :
    Alike k (within n i) (within n' i) tokens := by
  induction n generalizing n' i tokens with
  | zero =>
    obtain rfl := List.eq_nil_of_length_eq_zero (Nat.le_zero.mp hn)
    have hstep : Alike k (step (within 0) i) (step (within 0) i) [] := h _ _ i [] nofun
    have hwithin : within 0 i [] = within n' i [] := by
      cases n' with
      | zero => rfl
      | succ n' => rw [hsucc, hzero (within n')]
    exact ⟨hwithin, hstep.moves.congr (hzero (within 0) i).symm⟩
  | succ n ih =>
    cases n' with
    | zero =>
      obtain rfl := List.eq_nil_of_length_eq_zero (Nat.le_zero.mp hn')
      rw [hsucc]
      have hstep : Alike k (step (within n) i) (step (within n) i) [] := h _ _ i [] nofun
      exact ⟨(hzero (within n) i).symm, hstep.moves⟩
    | succ n' =>
      rw [hsucc, hsucc]
      refine h _ _ i tokens ?_
      intro j ts hts
      exact ih (by omega) (by omega) j

/-- Readers that may call themselves as often as there are tokens are the recursion of their
step. -/
theorem Step.descends (h : Step k step) (within : Nat → ι → Reading α)
    (hsucc : ∀ n, within (n + 1) = step (within n))
    (hzero : ∀ self i, within 0 i [] = step self i []) :
    Descends step (fun i tokens => within tokens.length i tokens) ∧
      ∀ i tokens, Moves k (fun tokens => within tokens.length i tokens) tokens := by
  have halike {n n' : Nat} {tokens : List Token} (hn : tokens.length ≤ n)
      (hn' : tokens.length ≤ n') (i : ι) : Alike k (within n i) (within n' i) tokens :=
    h.within_alike hsucc hzero hn hn' i
  constructor
  · intro self i tokens hself
    have hstep : Alike k (step (within tokens.length) i) (step self i) tokens := by
      refine h _ _ i tokens ?_
      intro j ts hts
      have hshort := halike (Nat.le_of_lt hts) (Nat.le_refl ts.length) j
      exact ⟨hshort.1.trans (hself j ts hts).symm, hshort.moves⟩
    show step self i tokens = within tokens.length i tokens
    rw [← hstep.1, ← hsucc]
    exact (halike (Nat.le_succ _) (Nat.le_refl _) i).1
  · intro i tokens
    exact (halike (Nat.le_refl tokens.length) (Nat.le_refl _) i).moves.congr rfl

/-- The same for readers that may call themselves once more. -/
theorem Step.descends_succ (h : Step k step) (within : Nat → ι → Reading α)
    (hsucc : ∀ n, within (n + 1) = step (within n)) :
    Descends step (fun i tokens => within (tokens.length + 1) i tokens) ∧
      ∀ i tokens, Moves k (fun tokens => within (tokens.length + 1) i tokens) tokens := by
  refine h.descends (fun n => within (n + 1)) (fun n => hsucc (n + 1)) ?_
  intro self i
  rw [hsucc]
  exact (h _ _ i [] nofun).1

/-! ### Loops -/

/-- One round of a loop that goes on as long as a value starts. -/
def manyStep (goOn : Token.Kind → Bool) (p : Reading α) (loop : Reading (List α)) :
    Reading (List α) := do
  match ← next? with
  | none => pure []
  | some t =>
    if goOn t.kind then
      let a ← p
      let as ← loop
      pure (a :: as)
    else pure []

/-- One round of a loop that goes on behind a separator. -/
def separatedStep (separator : Token.Kind) (p : Reading α) (loop : Reading (List α)) :
    Reading (List α) := do
  let a ← p
  if ← accept separator then
    let as ← loop
    pure (a :: as)
  else pure [a]

variable {p p' : Reading α} {goOn : Token.Kind → Bool} {separator : Token.Kind}
  {tokens : List Token}

theorem manyStep_alike {loop loop' : Reading (List α)} (hp : Alike 1 p p' tokens)
    (hloop : ∀ ts, ts.length < tokens.length → Alike 0 loop loop' ts) :
    Alike 0 (manyStep goOn p loop) (manyStep goOn p' loop') tokens := by
  refine Alike.next? ?_
  cases tokens with
  | nil => exact .pure []
  | cons t ts =>
    dsimp only [List.head?_cons]
    split
    · apply hp.bind
      intro a rest hrest
      exact (hloop rest hrest).map _
    · exact .pure []

theorem separatedStep_alike {loop loop' : Reading (List α)} (hp : Alike 1 p p' tokens)
    (hloop : ∀ ts, ts.length < tokens.length → Alike 0 loop loop' ts) :
    Alike 1 (separatedStep separator p loop) (separatedStep separator p' loop') tokens := by
  apply hp.bindFirst
  intro a rest hrest
  apply (Alike.accept separator).bind
  intro more rest' hrest'
  split
  · exact (hloop rest' (by omega)).map _
  · exact .pure [a]

/-- Loops over readers that are alike are alike. -/
theorem many_alike (h : ∀ ts, ts.length ≤ tokens.length → Alike 1 p p' ts) :
    Alike 0 (many goOn p) (many goOn p') tokens := by
  have hwithin (n : Nat) : Alike 0 (manyWithin goOn p n) (manyWithin goOn p' n) tokens := by
    induction n generalizing tokens with
    | zero => exact .pure []
    | succ n ih =>
      apply manyStep_alike (h tokens (Nat.le_refl _))
      intro ts hts
      exact ih fun us hus => h us (by omega)
  exact hwithin tokens.length

theorem separated_alike (h : ∀ ts, ts.length ≤ tokens.length → Alike 1 p p' ts) :
    Alike 1 (separated separator p) (separated separator p') tokens := by
  have hwithin (n : Nat) :
      Alike 1 (separatedWithin separator p n) (separatedWithin separator p' n) tokens := by
    induction n generalizing tokens with
    | zero => exact (h tokens (Nat.le_refl _)).map _
    | succ n ih =>
      apply separatedStep_alike (h tokens (Nat.le_refl _))
      intro ts hts
      exact (ih fun us hus => h us (by omega)).mono (Nat.zero_le 1)
  exact hwithin tokens.length

/-- A loop over a reader that moves ends. -/
theorem many_descends (hp : ∀ ts, p.Moves 1 ts) :
    DescendsAlone (manyStep goOn p) (many goOn p) := by
  have hstep : Step 0 fun self (_ : Unit) => manyStep goOn p (self ()) := by
    intro self self' _ ts hself
    exact manyStep_alike (hp ts).alike (hself ())
  exact (hstep.descends (fun n _ => manyWithin goOn p n) (fun _ => rfl) fun _ _ => rfl).1

theorem separated_descends (hp : ∀ ts, p.Moves 1 ts) :
    DescendsAlone (separatedStep separator p) (separated separator p) := by
  have hnil {f g : α → Reading (List α)} : (p >>= f) [] = (p >>= g) [] := by
    have hmoves := hp []
    unfold Moves at hmoves
    simp only [Bind.bind, EStateM.bind]
    cases hread : p [] with
    | error wanted rest => rfl
    | ok a rest =>
      rw [hread] at hmoves
      exact absurd hmoves.2 (Nat.not_succ_le_zero _)
  have hstep : Step 0 fun self (_ : Unit) => separatedStep separator p (self ()) := by
    intro self self' _ ts hself
    exact (separatedStep_alike (hp ts).alike (hself ())).mono (Nat.zero_le 1)
  exact (hstep.descends (fun n _ => separatedWithin separator p n) (fun _ => rfl)
    fun _ _ => hnil).1

end Reading

end SysYFront
