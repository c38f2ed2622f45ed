import SysYFront.Proofs.Progress.Recursion

/-!
# SysYFront.Proofs.Ending.Reading

Reading with the whole file in view. The readers are given the tokens before the end of the file,
so for them the end is the end of the list. Here the end of the file and all that stands behind it
is left on the list: a reader may look at it, and what it leaves ends with it.

Two readers are *alike before an ending* (`Reading.AlikeBefore`) if the second one does with the
whole file what the first does with the tokens before the end: it comes to the same value or wants
the same, and leaves the same tokens with the ending behind them. The rules below follow the ways to
put readers together, as those of `Reading.Alike` do. Readers that look at one token cannot go wrong
at the end, since no phrase starts or goes on with it; a loop must look for it.
-/

namespace SysYFront

/-- The end of a file, and what stands behind it. -/
structure Ending where
  finish : Location
  behind : List Token

/-- The tokens of an ending. The end of the file comes first. -/
def Ending.tokens (e : Ending) : List Token :=
  ⟨.endOfFile, e.finish⟩ :: e.behind

variable {α β ι : Type} {e : Ending}

namespace Reading

/-- What a reader comes to, if it leaves an ending behind the tokens that it leaves. -/
def followedBy (e : Ending) :
    EStateM.Result Expectation (List Token) α → EStateM.Result Expectation (List Token) α
  | .ok a rest => .ok a (rest ++ e.tokens)
  | .error wanted rest => .error wanted (rest ++ e.tokens)

/-- Whether `m'` does with tokens and an ending behind them what `m` does with the tokens alone, and
`m` moves by at least `k` tokens. None of the tokens is the end of the file. -/
def AlikeBefore (e : Ending) (k : Nat) (m m' : Reading α) (tokens : List Token) : Prop :=
  (∀ t ∈ tokens, t.kind ≠ .endOfFile) →
    m' (tokens ++ e.tokens) = followedBy e (m tokens) ∧ m.Moves k tokens

theorem Descends.step_eq {step : (ι → Reading α) → ι → Reading α} {read : ι → Reading α}
    (h : Descends step read) (i : ι) : step read i = read i :=
  funext fun tokens => h read i tokens fun _ _ _ => rfl

namespace AlikeBefore

variable {j k : Nat} {m m' : Reading α} {f f' : α → Reading β} {tokens : List Token}

theorem mono (h : AlikeBefore e j m m' tokens) (hk : k ≤ j) : AlikeBefore e k m m' tokens := by
  intro hwords
  obtain ⟨hsame, hmoves⟩ := h hwords
  exact ⟨hsame, (hmoves.alike.mono hk).moves⟩

/-- Readers that do the same on either side. -/
theorem congr {n n' : Reading α} (h : AlikeBefore e k m m' tokens) (hn : n tokens = m tokens)
    (hn' : n' (tokens ++ e.tokens) = m' (tokens ++ e.tokens)) :
    AlikeBefore e k n n' tokens := by
  intro hwords
  obtain ⟨hsame, hmoves⟩ := h hwords
  exact ⟨by rw [hn, hn', hsame], hmoves.congr hn.symm⟩

/-! ### Links -/

theorem pure (a : α) : AlikeBefore e 0 (Pure.pure a) (Pure.pure a) tokens :=
  fun _ => ⟨rfl, List.suffix_rfl, Nat.le_refl _⟩

theorem throw (wanted : Expectation) :
    AlikeBefore e k (MonadExcept.throw wanted : Reading α) (MonadExcept.throw wanted) tokens :=
  fun _ => ⟨rfl, List.suffix_rfl⟩

/-- Behind a reader that moves, the next one starts with fewer tokens. -/
theorem bindMoves (h : AlikeBefore e j m m' tokens)
    (hf : ∀ a rest, rest.length + j ≤ tokens.length → AlikeBefore e k (f a) (f' a) rest) :
    AlikeBefore e (j + k) (m >>= f) (m' >>= f') tokens := by
  intro hwords
  obtain ⟨hsame, hmoves⟩ := h hwords
  unfold Moves
  simp only [Bind.bind, EStateM.bind, hsame]
  cases hm : m tokens with
  | error wanted rest => exact ⟨rfl, hmoves.of_error hm⟩
  | ok a rest =>
    obtain ⟨hsuffix, hlength⟩ := hmoves.of_ok hm
    obtain ⟨hnext, hmoves'⟩ := hf a rest hlength fun t ht => hwords t (hsuffix.subset ht)
    refine ⟨hnext, ?_⟩
    dsimp only
    cases hfa : f a rest with
    | error wanted last => exact (hmoves'.of_error hfa).trans hsuffix
    | ok b last =>
      obtain ⟨hsuffix', hlength'⟩ := hmoves'.of_ok hfa
      exact ⟨hsuffix'.trans hsuffix, by omega⟩

/-- A chain moves as its last link does. -/
theorem bind (h : AlikeBefore e j m m' tokens)
    (hf : ∀ a rest, rest.length + j ≤ tokens.length → AlikeBefore e k (f a) (f' a) rest) :
    AlikeBefore e k (m >>= f) (m' >>= f') tokens :=
  (h.bindMoves hf).mono (Nat.le_add_left _ _)

/-- A chain moves as its first link does. -/
theorem bindFirst (h : AlikeBefore e k m m' tokens)
    (hf : ∀ a rest, rest.length + k ≤ tokens.length → AlikeBefore e 0 (f a) (f' a) rest) :
    AlikeBefore e k (m >>= f) (m' >>= f') tokens :=
  h.bindMoves hf

theorem map (h : AlikeBefore e k m m' tokens) (g : α → β) :
    AlikeBefore e k (m >>= fun a => Pure.pure (g a)) (m' >>= fun a => Pure.pure (g a)) tokens :=
  h.bindFirst fun _ _ _ => pure _

/-! ### Single tokens -/

/-- The token that is wanted is not the end of the file, so it is not found there. -/
theorem acceptWord {kind : Token.Kind} (hkind : kind ≠ .endOfFile) :
    AlikeBefore e 0 (Reading.accept kind) (Reading.accept kind) tokens := by
  refine fun _ => ⟨?_, (Alike.accept kind).moves⟩
  cases tokens with
  | nil =>
    show Reading.accept kind e.tokens = .ok false e.tokens
    rw [Ending.tokens, Reading.accept, if_neg hkind.symm]
  | cons t ts =>
    rw [List.cons_append]
    by_cases ht : t.kind = kind
    · simp only [Reading.accept, if_pos ht, followedBy]
    · simp only [Reading.accept, if_neg ht, followedBy, List.cons_append]

theorem accept (s : Symbol) :
    AlikeBefore e 0 (Reading.accept (.symbol s)) (Reading.accept (.symbol s)) tokens :=
  acceptWord nofun

theorem acceptKeyword (k : Keyword) :
    AlikeBefore e 0 (Reading.accept (.keyword k)) (Reading.accept (.keyword k)) tokens :=
  acceptWord nofun

theorem expect (s : Symbol) (wanted : Expectation) :
    AlikeBefore e 1 (Reading.expect (.symbol s) wanted) (Reading.expect (.symbol s) wanted)
      tokens := by
  refine fun _ => ⟨?_, (Alike.expect (.symbol s) wanted).moves⟩
  cases tokens with
  | nil => rfl
  | cons t ts =>
    rw [List.cons_append]
    by_cases ht : t.kind = .symbol s
    · simp only [Reading.expect, if_pos ht, followedBy]
    · simp only [Reading.expect, if_neg ht, followedBy, List.cons_append]

theorem expectName : AlikeBefore e 1 Reading.expectName Reading.expectName tokens := by
  refine fun _ => ⟨?_, Alike.expectName.moves⟩
  cases tokens with
  | nil => rfl
  | cons t ts =>
    obtain ⟨kind, l⟩ := t
    cases kind <;> rfl

/-- A value that a symbol is expected behind. -/
theorem close (s : Symbol) (wanted : Expectation) (g : Location → β) :
    AlikeBefore e 0 (Reading.expect (.symbol s) wanted >>= fun l => Pure.pure (g l))
      (Reading.expect (.symbol s) wanted >>= fun l => Pure.pure (g l)) tokens :=
  ((expect s wanted).map g).mono (Nat.zero_le 1)

/-- Where no token is left, the end of the file is next. -/
theorem next? {f f' : Option Token → Reading β}
    (hnil : tokens = [] → AlikeBefore e k (f none) (f' (some ⟨.endOfFile, e.finish⟩)) [])
    (hcons : ∀ t ts, tokens = t :: ts → AlikeBefore e k (f (some t)) (f' (some t)) (t :: ts)) :
    AlikeBefore e k (Reading.next? >>= f) (Reading.next? >>= f') tokens := by
  cases tokens with
  | nil => exact hnil rfl
  | cons t ts => exact hcons t ts rfl

/-- A token that is there is taken. -/
theorem advance {t : Token} {f f' : Unit → Reading β} (h : AlikeBefore e k (f ()) (f' ()) tokens) :
    AlikeBefore e (k + 1) (Reading.advance >>= f) (Reading.advance >>= f') (t :: tokens) := by
  intro hwords
  obtain ⟨hsame, hmoves⟩ := h (List.forall_mem_cons.mp hwords).2
  exact ⟨hsame, hmoves.alike.advance.moves⟩

/-- Behind a token that is taken, a reader moves as it does by itself. -/
theorem past {t : Token} {f f' : Unit → Reading β} (h : AlikeBefore e k (f ()) (f' ()) tokens) :
    AlikeBefore e k (Reading.advance >>= f) (Reading.advance >>= f') (t :: tokens) :=
  h.advance.mono (Nat.le_succ k)

/-! ### Recursion -/

/-- A reader that descends is alike before an ending if its step is, where it is on shorter
lists. -/
theorem descend {step : (ι → Reading α) → ι → Reading α} {read : ι → Reading α}
    (hread : Descends step read)
    (hstep : ∀ i ts, ts.length ≤ tokens.length →
      (∀ j us, us.length < ts.length → AlikeBefore e k (read j) (read j) us) →
      AlikeBefore e k (step read i) (step read i) ts) (i : ι) :
    AlikeBefore e k (read i) (read i) tokens := by
  have hbelow (n : Nat) : ∀ i ts, ts.length = n → ts.length ≤ tokens.length →
      AlikeBefore e k (read i) (read i) ts := by
    induction n using Nat.strongRecOn with
    | ind n ih =>
      rintro i ts rfl hts
      rw [← hread.step_eq]
      exact hstep i ts hts fun j us hus => ih us.length hus j us rfl (by omega)
  exact hbelow tokens.length i tokens rfl (Nat.le_refl _)

theorem separated {p : Reading α} (s : Symbol) (hp : ∀ ts, p.Moves 1 ts)
    (h : ∀ ts, ts.length ≤ tokens.length → AlikeBefore e 1 p p ts) :
    AlikeBefore e 1 (separated (.symbol s) p) (separated (.symbol s) p) tokens := by
  refine descend (separated_descends hp) (fun _ ts hts hloop => ?_) ()
  apply (h ts hts).bindFirst
  intro a rest hrest
  apply (accept s).bind
  intro more rest' hrest'
  split
  · exact ((hloop () rest' (by omega)).map _).mono (Nat.zero_le 1)
  · exact .pure [a]

/-! ### Loops

Only a loop needs to look for the end of the file. -/

section Many

variable {p p' : Reading α} {goOn goOn' : Token.Kind → Bool}

/-- Where no token is left, a loop that does not go on at the end of the file stops. -/
theorem manyWithin_nil (hend : goOn' .endOfFile = false) (n n' : Nat) :
    AlikeBefore e 0 (manyWithin goOn p n) (manyWithin goOn' p' n') [] := by
  have hstop : Reading.manyWithin goOn p n [] = .ok [] [] := manyWithin_stop nofun
  have hstop' : Reading.manyWithin goOn' p' n' e.tokens = .ok [] e.tokens :=
    manyWithin_stop (by simpa [Ending.tokens] using hend)
  exact (pure []).congr hstop hstop'

/-- As many rounds as there are tokens are enough, and it makes no difference that there are more
tokens with the whole file in view. -/
theorem manyWithin (hgoOn : ∀ kind, kind ≠ .endOfFile → goOn' kind = goOn kind)
    (hend : goOn' .endOfFile = false)
    (h : ∀ t ts, goOn t.kind = true → ts.length < tokens.length → AlikeBefore e 1 p p' (t :: ts))
    {n n' : Nat} (hn : tokens.length ≤ n) (hn' : tokens.length ≤ n') :
    AlikeBefore e 0 (manyWithin goOn p n) (manyWithin goOn' p' n') tokens := by
  induction n generalizing n' tokens with
  | zero =>
    obtain rfl := List.eq_nil_of_length_eq_zero (Nat.le_zero.mp hn)
    exact manyWithin_nil hend _ _
  | succ n ih =>
    cases tokens with
    | nil => exact manyWithin_nil hend _ _
    | cons t ts =>
      obtain ⟨n', rfl⟩ := Nat.exists_eq_succ_of_ne_zero (Nat.ne_zero_of_lt hn')
      intro hwords
      have hsame : goOn' t.kind = goOn t.kind := hgoOn _ (hwords t List.mem_cons_self)
      refine next? nofun (fun t' us htokens => ?_) hwords
      obtain ⟨rfl, rfl⟩ := List.cons.inj htokens
      dsimp only
      rw [hsame]
      split
      · rename_i ht
        apply (h t ts ht (Nat.lt_succ_self _)).bind
        intro a rest hrest
        rw [List.length_cons] at hrest hn hn'
        have hrounds : AlikeBefore e 0 (Reading.manyWithin goOn p n)
            (Reading.manyWithin goOn' p' n') rest :=
          ih (fun t us ht hus => h t us ht (Nat.lt_succ_of_le (by omega))) (by omega) (by omega)
        exact hrounds.map _
      · exact pure []

theorem many (hgoOn : ∀ kind, kind ≠ .endOfFile → goOn' kind = goOn kind)
    (hend : goOn' .endOfFile = false)
    (h : ∀ t ts, goOn t.kind = true → ts.length < tokens.length → AlikeBefore e 1 p p' (t :: ts)) :
    AlikeBefore e 0 (many goOn p) (many goOn' p') tokens := by
  have hlength : tokens.length ≤ (tokens ++ e.tokens).length := by simp
  have hwithin := manyWithin (e := e) hgoOn hend h (Nat.le_refl _) hlength
  exact fun hwords => hwithin hwords

end Many

end AlikeBefore

end Reading

end SysYFront
