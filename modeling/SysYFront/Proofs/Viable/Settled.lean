import SysYFront.Proofs.Grammar.Phrase

/-!
# SysYFront.Proofs.Viable.Settled

Readers that stop at the first token that cannot be right.

A reader is *settled* on a list of tokens (`Reading.Settled`) if

* the tokens that it takes derive its value or, where it stops with an error, can be completed
  by words of the language to tokens that derive some value, and
* nothing but the next token decides what it does: on every list that starts with the taken
  tokens and goes on with the same next token it takes the same tokens and comes to the same.

So an error is at the first token with which no phrase goes on. The rules below follow the
readers, one for each way to put them together. What is left of a phrase behind the tokens that
were taken is again a set of phrases, `fun vs => E (us ++ vs)`, and the rule for a link of a
reader only asks for the links behind it: that there is a phrase to complete follows from them
(`Settled.completes`).

Nested readers are bounded, and the bound depends on the number of tokens. Hence a reader is
a family `m i`, and each of its members is only meant for lists of fewer than `bound i` tokens.
-/

namespace SysYFront

variable {ι κ α β : Type}

namespace Reading

/-- What a reader comes to, with the tokens that it leaves. -/
def leave (r : Except Expectation α) (rest : List Token) :
    EStateM.Result Expectation (List Token) α :=
  match r with
  | .ok a => .ok a rest
  | .error wanted => .error wanted rest

/-- Whether a token of a kind can stand in a program: it is a word of the language, and not the
end of the file. -/
def isWord : Token.Kind → Bool
  | .invalid _ | .endOfFile => false
  | _ => true

/-- Whether words can be put behind tokens to make a phrase of them. -/
def Completes (D : List Token → α → Prop) (tokens : List Token) : Prop :=
  ∃ more a, (∀ t ∈ more, isWord t.kind = true) ∧ D (tokens ++ more) a

theorem Completes.of_whole {D : List Token → α → Prop} {tokens : List Token} {a : α}
    (h : D tokens a) : Completes D tokens :=
  ⟨[], a, nofun, by rwa [List.append_nil]⟩

theorem Completes.append {D : List Token → α → Prop} {us vs : List Token}
    (h : Completes (fun vs => D (us ++ vs)) vs) : Completes D (us ++ vs) := by
  obtain ⟨more, a, hmore, hD⟩ := h
  exact ⟨more, a, hmore, by rwa [List.append_assoc]⟩

/-- Whether the tokens that were taken are those of the value or, if there is none, begin the
tokens of some value. -/
def Begins (D : List Token → α → Prop) (taken : List Token) : Except Expectation α → Prop
  | .ok a => D taken a
  | .error _ => Completes D taken

theorem Begins.append {D : List Token → α → Prop} {us vs : List Token} {r : Except Expectation α}
    (h : Begins (fun vs => D (us ++ vs)) vs r) : Begins D (us ++ vs) r := by
  cases r with
  | ok a => exact h
  | error wanted => exact Completes.append h

/-- Whether a reader takes the beginning of a phrase and is decided by the token behind it. -/
def Settled (bound : ι → Nat) (D : List Token → α → Prop) (m : ι → Reading α)
    (tokens : List Token) : Prop :=
  ∃ taken rest r, tokens = taken ++ rest ∧ Begins D taken r ∧
    ∀ i rest', rest'.head? = rest.head? → (taken ++ rest').length < bound i →
      m i (taken ++ rest') = leave r rest'

namespace Settled

variable {bound : ι → Nat} {bound' : κ → Nat} {D : List Token → α → Prop}
  {E : List Token → β → Prop} {m : ι → Reading α} {f : ι → α → Reading β} {tokens : List Token}
  {k : Token.Kind}

/-- Where a reader is settled on no tokens there is a phrase. -/
theorem completes (h : Settled bound D m []) : Completes D [] := by
  obtain ⟨taken, rest, r, hnil, hbegins, -⟩ := h
  obtain ⟨rfl, -⟩ := List.append_eq_nil_iff.mp hnil.symm
  cases r with
  | ok a => exact .of_whole hbegins
  | error wanted => exact hbegins

/-! ### One reader for another -/

/-- Readers that do the same where the same token comes first are settled on the same tokens. -/
theorem peek {m' : κ → Reading α} (h : Settled bound D m tokens)
    (hm : ∀ j us, us.head? = tokens.head? → us.length < bound' j →
      ∃ i, us.length < bound i ∧ m' j us = m i us) : Settled bound' D m' tokens := by
  obtain ⟨taken, rest, r, rfl, hbegins, hrun⟩ := h
  refine ⟨taken, rest, r, rfl, hbegins, fun j rest' hrest hlength => ?_⟩
  have hhead : (taken ++ rest').head? = (taken ++ rest).head? := by
    rw [List.head?_append, List.head?_append, hrest]
  obtain ⟨i, hi, heq⟩ := hm j _ hhead hlength
  rw [heq]
  exact hrun i rest' hrest hi

/-- Readers that do the same, each with its own bound. -/
theorem congr {m' : ι → Reading α} (h : Settled bound D m tokens)
    (hm : ∀ i us, us.head? = tokens.head? → m' i us = m i us) : Settled bound D m' tokens :=
  h.peek fun i us hhead hlength => ⟨i, hlength, hm i us hhead⟩

theorem congr_nil {m' : ι → Reading α} (h : Settled bound D m []) (hm : ∀ i, m' i [] = m i []) :
    Settled bound D m' [] := by
  refine h.congr fun i us hhead => ?_
  obtain rfl := List.head?_eq_none_iff.mp hhead
  exact hm i

theorem congr_cons {m' : ι → Reading α} {t : Token} {ts : List Token}
    (h : Settled bound D m (t :: ts)) (hm : ∀ i us, m' i (t :: us) = m i (t :: us)) :
    Settled bound D m' (t :: ts) := by
  refine h.congr fun i us hhead => ?_
  obtain ⟨us, rfl⟩ := List.head?_eq_some_iff.mp hhead
  exact hm i us

/-- Tokens that start with the same `n` go on with the same token where fewer are taken. -/
theorem exists_next {taken rest full : List Token} {n : Nat}
    (hsame : full.take n = (taken ++ rest).take n) (hn : n ≤ full.length)
    (hfew : taken.length < n) : ∃ t us vs, full = taken ++ t :: us ∧ rest = t :: vs := by
  rw [List.take_append, List.take_of_length_le (Nat.le_of_lt hfew)] at hsame
  cases rest with
  | nil =>
    have hlength := congrArg List.length hsame
    rw [List.length_take, Nat.min_eq_left hn, List.take_nil, List.append_nil] at hlength
    omega
  | cons t vs =>
    obtain ⟨d, hd⟩ : ∃ d, n - taken.length = d + 1 := ⟨n - taken.length - 1, by omega⟩
    refine ⟨t, vs.take d ++ full.drop n, vs, ?_, rfl⟩
    calc full = full.take n ++ full.drop n := (List.take_append_drop n full).symm
      _ = taken ++ t :: (vs.take d ++ full.drop n) := by
        rw [hsame, hd, List.take_succ_cons, List.append_assoc, List.cons_append]

/-- Readers that do the same where the same `n + 1` tokens come first are settled on the same
tokens, if at least `n` of them are taken. They are where the reader goes to the end of other
tokens that start with the same `n`. -/
theorem ahead {m' : κ → Reading α} {full : List Token} {a : α} {i : ι} (n : Nat)
    (h : Settled bound D m tokens) (hsame : full.take n = tokens.take n) (hn : n ≤ full.length)
    (hlength : full.length < bound i) (hfull : m i full = .ok a [])
    (hm : ∀ j us, us.take (n + 1) = tokens.take (n + 1) → us.length < bound' j →
      ∃ i, us.length < bound i ∧ m' j us = m i us) : Settled bound' D m' tokens := by
  obtain ⟨taken, rest, r, rfl, hbegins, hrun⟩ := h
  have htaken : n ≤ taken.length := by
    refine Nat.le_of_not_lt fun hfew => ?_
    -- the other tokens go on with the same token, so the reader leaves it there as well
    obtain ⟨t, us, vs, rfl, rfl⟩ := exists_next hsame hn hfew
    have hleft := hfull.symm.trans (hrun i (t :: us) rfl hlength)
    cases r with
    | ok a' => cases hleft
    | error wanted => cases hleft
  refine ⟨taken, rest, r, rfl, hbegins, fun j rest' hrest hlength' => ?_⟩
  have hone : rest'.take (n + 1 - taken.length) = rest.take (n + 1 - taken.length) := by
    obtain hlast | hnone : n + 1 - taken.length = 1 ∨ n + 1 - taken.length = 0 := by omega
    · rw [hlast, List.take_one, List.take_one, hrest]
    · rw [hnone, List.take_zero, List.take_zero]
  obtain ⟨i, hi, heq⟩ := hm j (taken ++ rest')
    (by rw [List.take_append, List.take_append, hone]) hlength'
  rw [heq]
  exact hrun i rest' hrest hi

/-- A reader that takes a token is settled if what it goes on with is. -/
theorem cons {m' : κ → Reading α} {t : Token} {ts : List Token}
    (h : Settled bound (fun us => D (t :: us)) m ts)
    (hm : ∀ j us, (t :: us).length < bound' j →
      ∃ i, us.length < bound i ∧ m' j (t :: us) = m i us) : Settled bound' D m' (t :: ts) := by
  obtain ⟨taken, rest, r, rfl, hbegins, hrun⟩ := h
  have hall : Begins D ([t] ++ taken) r := Begins.append hbegins
  refine ⟨t :: taken, rest, r, rfl, hall, ?_⟩
  intro j rest' hrest hlength
  rw [List.cons_append] at hlength ⊢
  obtain ⟨i, hi, heq⟩ := hm j (taken ++ rest') hlength
  rw [heq]
  exact hrun i rest' hrest hi

theorem take {m' : ι → Reading α} {t : Token} {ts : List Token}
    (h : Settled bound (fun us => D (t :: us)) m ts) (hm : ∀ i us, m' i (t :: us) = m i us) :
    Settled bound D m' (t :: ts) :=
  h.cons fun i us hlength => ⟨i, Nat.lt_of_succ_lt hlength, hm i us⟩

/-- The token that is taken makes up for a level of nesting. -/
theorem deeper {m m' : Nat → Reading α} {t : Token} {ts : List Token}
    (h : Settled id (fun us => D (t :: us)) m ts) (hm : ∀ i us, m' i (t :: us) = m i us) :
    Settled (· + 1) D m' (t :: ts) :=
  h.cons fun i us hlength => ⟨i, Nat.lt_of_succ_lt_succ hlength, hm i us⟩

/-- Where there are tokens, a reader has a level of nesting. -/
theorem nested {m : Nat → Reading α} (h : Settled (· + 1) D (fun i => m (i + 1)) tokens) :
    Settled id D m tokens := by
  refine h.peek fun i us _ hlength => ?_
  obtain ⟨i, rfl⟩ := Nat.exists_eq_succ_of_ne_zero (Nat.ne_zero_of_lt hlength)
  exact ⟨i, hlength, rfl⟩

/-- The phrases may be more. -/
theorem imp {D' : List Token → α → Prop} (h : Settled bound D m tokens)
    (hD : ∀ us a, D us a → D' us a) : Settled bound D' m tokens := by
  obtain ⟨taken, rest, r, htokens, hbegins, hrun⟩ := h
  refine ⟨taken, rest, r, htokens, ?_, hrun⟩
  cases r with
  | ok a => exact hD _ _ hbegins
  | error wanted =>
    obtain ⟨more, a, hmore, ha⟩ := hbegins
    exact ⟨more, a, hmore, hD _ _ ha⟩

/-! ### Links -/

theorem pure {a : α} (h : D [] a) : Settled bound D (fun _ => pure a) tokens :=
  ⟨[], tokens, .ok a, rfl, h, fun _ _ _ _ => rfl⟩

theorem throw {wanted : Expectation} (h : Completes D []) :
    Settled bound D (fun _ => throw wanted) tokens :=
  ⟨[], tokens, .error wanted, rfl, h, fun _ _ _ _ => rfl⟩

/-- A reader that gives a value and takes nothing. -/
theorem give {a : α} (hD : D [] a)
    (hm : ∀ i us, us.head? = tokens.head? → m i us = .ok a us) : Settled bound D m tokens :=
  (pure hD : Settled bound D _ tokens).congr hm

/-- A reader that stops and takes nothing. -/
theorem stop (wanted : Expectation) (hD : Completes D [])
    (hm : ∀ i us, us.head? = tokens.head? → m i us = .error wanted us) :
    Settled bound D m tokens :=
  (throw hD : Settled bound D (fun _ => MonadExcept.throw wanted) tokens).congr hm

theorem stop_nil (wanted : Expectation) (hD : Completes D [])
    (hm : ∀ i, m i [] = .error wanted []) : Settled bound D m [] :=
  (throw hD : Settled bound D (fun _ => MonadExcept.throw wanted) []).congr_nil hm

theorem stop_cons (wanted : Expectation) {t : Token} {ts : List Token} (hD : Completes D [])
    (hm : ∀ i us, m i (t :: us) = .error wanted (t :: us)) : Settled bound D m (t :: ts) :=
  (throw hD : Settled bound D (fun _ => MonadExcept.throw wanted) (t :: ts)).congr_cons hm

/-- Behind a reader that is settled, the next one starts with what was left. If the second
depends on how the first ended, a phrase to complete has to be given as well. -/
theorem bindRun (bound' : ι → Nat) (hm : Settled bound D m tokens)
    (hfill : ∀ us a, D us a → Completes E us)
    (hbound : ∀ us a i, D us a → bound i ≤ bound' i + us.length)
    (hf : ∀ us a rest, tokens = us ++ rest → D us a →
      (∀ i, tokens.length < bound i → m i tokens = .ok a rest) →
      Settled bound' (fun vs => E (us ++ vs)) (fun i => f i a) rest) :
    Settled bound E (fun i => m i >>= f i) tokens := by
  obtain ⟨us, rest, r, rfl, hbegins, hrun⟩ := hm
  cases r with
  | error wanted =>
    -- the words that complete the first phrase are followed by those of `hfill`
    refine ⟨us, rest, .error wanted, rfl, ?_, fun i rest' hrest hlength => ?_⟩
    · obtain ⟨more, a, hmore, hD⟩ := hbegins
      obtain ⟨vs, b, hvs, hE⟩ := hfill _ a hD
      refine ⟨more ++ vs, b, List.forall_mem_append.mpr ⟨hmore, hvs⟩, ?_⟩
      rwa [← List.append_assoc]
    · have herror := hrun i rest' hrest hlength
      simp only [bind, EStateM.bind, herror, leave]
  | ok a =>
    have hok : ∀ i, (us ++ rest).length < bound i → m i (us ++ rest) = .ok a rest :=
      fun i hi => hrun i rest rfl hi
    obtain ⟨vs, left, r, rfl, hbegins', hrun'⟩ := hf us a rest rfl hbegins hok
    refine ⟨us ++ vs, left, r, by rw [List.append_assoc], hbegins'.append, ?_⟩
    intro i rest' hrest hlength
    rw [List.append_assoc] at hlength ⊢
    -- the first reader sees the first of `vs`, or what stands behind if `vs` is empty
    have hhead : (vs ++ rest').head? = (vs ++ left).head? := by
      rw [List.head?_append, List.head?_append, hrest]
    have hshort : (vs ++ rest').length < bound' i := by
      have hi := hbound us a i hbegins
      rw [List.length_append] at hlength
      omega
    have hfirst := hrun i _ hhead hlength
    simp only [bind, EStateM.bind, hfirst, leave]
    exact hrun' i rest' hrest hshort

/-- Behind a reader that is settled, the next one starts with what was left. -/
theorem bind (hm : Settled bound D m tokens)
    (hf : ∀ us a rest, D us a → rest.length ≤ tokens.length →
      Settled bound (fun vs => E (us ++ vs)) (fun i => f i a) rest) :
    Settled bound E (fun i => m i >>= f i) tokens := by
  refine hm.bindRun bound (fun us a hD => ?_) (fun _ _ _ _ => Nat.le_add_right _ _)
    fun us a rest htokens hD _ => hf us a rest hD ?_
  · have hnothing := (hf us a [] hD (Nat.zero_le _)).completes.append
    rwa [List.append_nil] at hnothing
  · rw [htokens, List.length_append]
    exact Nat.le_add_left _ _

theorem map {g : α → β} (hm : Settled bound D m tokens) (hD : ∀ us a, D us a → E us (g a)) :
    Settled bound E (fun i => m i >>= fun a => Pure.pure (g a)) tokens :=
  hm.bind fun us a _ ha _ => .pure (by rw [List.append_nil]; exact hD us a ha)

/-- An optional token is taken or is not next. -/
theorem accept {f : ι → Bool → Reading β}
    (htrue : ∀ l ts, tokens = ⟨k, l⟩ :: ts →
      Settled bound (fun us => E (⟨k, l⟩ :: us)) (fun i => f i true) ts)
    (hfalse : NotNext k tokens → Settled bound E (fun i => f i false) tokens) :
    Settled bound E (fun i => accept k >>= f i) tokens := by
  rcases notNext_or k tokens with hnext | ⟨l, ts, rfl⟩
  · refine (hfalse hnext).congr fun i us hhead => ?_
    have haccept : Reading.accept k us = .ok false us :=
      accept_eq_false.mpr ⟨by rw [hhead]; exact hnext, rfl⟩
    simp only [Bind.bind, EStateM.bind, haccept]
  · refine (htrue l ts rfl).take fun i us => ?_
    simp only [Bind.bind, EStateM.bind, Reading.accept, if_true]

/-- A branch on whether an optional token is next. -/
theorem acceptIf {f g : ι → Reading β}
    (htrue : ∀ l ts, tokens = ⟨k, l⟩ :: ts → Settled bound (fun us => E (⟨k, l⟩ :: us)) f ts)
    (hfalse : NotNext k tokens → Settled bound E g tokens) :
    Settled bound E (fun i => Reading.accept k >>= fun b => if b = true then f i else g i)
      tokens :=
  accept htrue hfalse

/-- A token that must stand there is taken, or the reader stops at another one. If what comes
next depends on what stands behind the token, a phrase to complete has to be given as well. -/
theorem expectRun {wanted : Expectation} {f : ι → Location → Reading β} (hfill : Completes E [])
    (hf : ∀ l ts, tokens = ⟨k, l⟩ :: ts →
      Settled bound (fun us => E (⟨k, l⟩ :: us)) (fun i => f i l) ts) :
    Settled bound E (fun i => expect k wanted >>= f i) tokens := by
  rcases notNext_or k tokens with hnext | ⟨l, ts, rfl⟩
  · refine stop wanted hfill fun i us hhead => ?_
    rw [NotNext, ← hhead] at hnext
    cases us with
    | nil => rfl
    | cons t us => simp only [Bind.bind, EStateM.bind, expect, if_neg (hnext t rfl)]
  · refine (hf l ts rfl).take fun i us => ?_
    simp only [Bind.bind, EStateM.bind, expect, if_true]

/-- A token that must stand there is taken, or the reader stops at another one. -/
theorem expect {wanted : Expectation} {f : ι → Location → Reading β}
    (hf : ∀ l ts, ts.length ≤ tokens.length →
      Settled bound (fun us => E (⟨k, l⟩ :: us)) (fun i => f i l) ts)
    (hk : isWord k = true := by rfl) :
    Settled bound E (fun i => Reading.expect k wanted >>= f i) tokens := by
  refine expectRun ?_ fun l ts htokens => hf l ts ?_
  · obtain ⟨us, b, hus, hE⟩ := (hf .start [] (Nat.zero_le _)).completes
    exact ⟨⟨k, .start⟩ :: us, b, List.forall_mem_cons.mpr ⟨hk, hus⟩, hE⟩
  · rw [htokens]
    exact Nat.le_succ _

/-- A name must stand there, with what comes behind it as for other tokens. -/
theorem expectNameRun {f : ι → String × Location → Reading β} (hfill : Completes E [])
    (hf : ∀ s l ts, tokens = ⟨.name s, l⟩ :: ts →
      Settled bound (fun us => E (⟨.name s, l⟩ :: us)) (fun i => f i (s, l)) ts) :
    Settled bound E (fun i => expectName >>= f i) tokens := by
  cases tokens with
  | nil => exact stop_nil .name hfill fun _ => rfl
  | cons t ts =>
    obtain ⟨kind, l⟩ := t
    cases kind with
    | name s => exact (hf s l ts rfl).take fun _ _ => rfl
    | _ => exact stop_cons .name hfill fun _ _ => rfl

theorem expectName {f : ι → String × Location → Reading β}
    (hf : ∀ s l ts, ts.length ≤ tokens.length →
      Settled bound (fun us => E (⟨.name s, l⟩ :: us)) (fun i => f i (s, l)) ts) :
    Settled bound E (fun i => Reading.expectName >>= f i) tokens := by
  refine expectNameRun ?_ fun s l ts htokens => hf s l ts ?_
  · obtain ⟨us, b, hus, hE⟩ := (hf "" .start [] (Nat.zero_le _)).completes
    exact ⟨⟨.name "", .start⟩ :: us, b, List.forall_mem_cons.mpr ⟨rfl, hus⟩, hE⟩
  · rw [htokens]
    exact Nat.le_succ _

/-! ### Loops -/

section Loops

open Grammar

/-- The bound of a loop over readers with bounds, with some fuel: there must be fuel for every
token. -/
def loopBound (bound : ι → Nat) (j : ι × Nat) : Nat :=
  min (bound j.1) (j.2 + 1)

theorem lt_loopBound {n : Nat} {i : ι} (h : n < bound i) : n < loopBound bound (i, n) :=
  Nat.lt_min.mpr ⟨h, Nat.lt_succ_self n⟩

/-- A round of a loop takes a token, so it has fuel. -/
theorem exists_fuel {n fuel : Nat} {i : ι} (h : n + 1 < loopBound bound (i, fuel)) :
    ∃ fuel', fuel = fuel' + 1 ∧ n < loopBound bound (i, fuel') := by
  simp only [loopBound] at h ⊢
  exact ⟨fuel - 1, by omega, by omega⟩

/-- In a loop, a reader has the bound of the loop. -/
theorem inLoop (h : Settled bound D m tokens) :
    Settled (loopBound bound) D (fun j => m j.1) tokens :=
  h.peek fun j _ _ hlength => ⟨j.1, Nat.lt_of_lt_of_le hlength (Nat.min_le_left _ _), rfl⟩

variable {p : ι → Reading α} {separator : Token.Kind} {goOn : Token.Kind → Bool}

/-- What a loop over separated values does behind one of them. -/
def separatedMore (separator : Token.Kind) (p : Reading α) : Nat → α → Reading (List α)
  | 0, a => Pure.pure [a]
  | n + 1, a => do
    if ← Reading.accept separator then
      let as ← separatedWithin separator p n
      Pure.pure (a :: as)
    else Pure.pure [a]

theorem separatedWithin_eq (q : Reading α) (fuel : Nat) :
    separatedWithin separator q fuel = q >>= separatedMore separator q fuel := by
  cases fuel <;> rfl

theorem separatedMore_notNext {q : Reading α} {fuel : Nat} {a : α} (h : NotNext separator tokens) :
    separatedMore separator q fuel a tokens = .ok [a] tokens := by
  cases fuel with
  | zero => rfl
  | succ fuel =>
    have haccept : Reading.accept separator tokens = .ok false tokens :=
      accept_eq_false.mpr ⟨h, rfl⟩
    simp only [separatedMore, Bind.bind, EStateM.bind, haccept]
    rfl

theorem separatedRounds (tokens : List Token)
    (hp : ∀ ts, ts.length ≤ tokens.length → Settled bound D p ts) :
    Settled (loopBound bound) (Separated separator D)
      (fun j => Reading.separatedWithin separator (p j.1) j.2) tokens := by
  simp only [separatedWithin_eq]
  refine (hp tokens (Nat.le_refl _)).inLoop.bind fun us a rest ha hrest => ?_
  rcases notNext_or separator rest with hnext | ⟨l, ts, rfl⟩
  · have hone : Separated separator D (us ++ []) [a] := by
      rw [List.append_nil]
      exact .one ha
    exact give hone fun j vs hhead => separatedMore_notNext (by rw [NotNext, hhead]; exact hnext)
  · have hshort : ts.length < tokens.length := hrest
    have hmore : Settled (loopBound bound) (Separated separator D)
        (fun j => Reading.separatedWithin separator (p j.1) j.2) ts :=
      separatedRounds ts fun ts' h => hp ts' (Nat.le_of_lt (Nat.lt_of_le_of_lt h hshort))
    refine (hmore.map (g := fun as => a :: as) fun vs as has => Separated.more l ha has).cons ?_
    rintro ⟨i, fuel⟩ vs hlength
    obtain ⟨fuel, rfl, hfuel⟩ := exists_fuel hlength
    refine ⟨(i, fuel), hfuel, ?_⟩
    simp only [separatedMore, Bind.bind, EStateM.bind, Reading.accept, if_true]
termination_by tokens.length

/-- One or more values with separators between them. -/
theorem separated (hp : ∀ ts, ts.length ≤ tokens.length → Settled bound D p ts) :
    Settled bound (Separated separator D) (fun i => Reading.separated separator (p i)) tokens :=
  (separatedRounds tokens hp).peek fun i us _ hlength =>
    ⟨(i, us.length), lt_loopBound hlength, rfl⟩

theorem manyRounds (tokens : List Token)
    (hp : ∀ us as mid, tokens = us ++ mid → Repeated D us as → Settled bound D p mid)
    (hne : ∀ us a, D us a → us ≠ []) :
    Settled (loopBound bound) (Repeated D)
      (fun j => Reading.manyWithin goOn (p j.1) j.2) tokens := by
  by_cases hstop : ∀ t ∈ tokens.head?, goOn t.kind = false
  · exact give .nil fun j us hhead => manyWithin_stop (by rwa [hhead])
  · obtain ⟨t, ts, rfl, ht⟩ : ∃ t ts, tokens = t :: ts ∧ goOn t.kind = true := by
      cases tokens with
      | nil => exact absurd (by simp) hstop
      | cons t ts => exact ⟨t, ts, rfl, by simpa using hstop⟩
    -- the first value has one unit of fuel more than the loop behind it
    have hfirst : Settled (fun j : ι × Nat => min (bound j.1) (j.2 + 2)) D (fun j => p j.1)
        (t :: ts) :=
      (hp [] [] _ rfl .nil).peek fun j us _ hlength =>
        ⟨j.1, Nat.lt_of_lt_of_le hlength (Nat.min_le_left _ _), rfl⟩
    have hround : Settled (fun j : ι × Nat => min (bound j.1) (j.2 + 2)) (Repeated D)
        (fun j => do
          let a ← p j.1
          let as ← Reading.manyWithin goOn (p j.1) j.2
          Pure.pure (a :: as)) (t :: ts) := by
      refine hfirst.bindRun (loopBound bound) (fun us a ha => ?_)
        (fun us a j ha => ?_) fun us a rest htokens ha _ => ?_
      · have hone := Repeated.cons ha .nil
        rw [List.append_nil] at hone
        exact .of_whole hone
      · have hpos := List.length_pos_iff.mpr (hne us a ha)
        simp only [loopBound]
        omega
      · have hshort : rest.length < (t :: ts).length := by
          have hpos := List.length_pos_iff.mpr (hne us a ha)
          rw [htokens, List.length_append]
          omega
        refine (manyRounds rest (fun us' as mid hrest has => ?_) hne).map fun vs as has =>
          .cons ha has
        exact hp (us ++ us') (a :: as) mid (by rw [htokens, hrest, List.append_assoc])
          (.cons ha has)
    refine hround.peek ?_
    rintro ⟨i, fuel⟩ us hhead hlength
    obtain ⟨us, rfl⟩ := List.head?_eq_some_iff.mp hhead
    simp only [loopBound, List.length_cons] at hlength
    obtain ⟨fuel, rfl⟩ : ∃ n, fuel = n + 1 := ⟨fuel - 1, by omega⟩
    exact ⟨(i, fuel), by simp only [List.length_cons]; omega, manyWithin_cons ht⟩
termination_by tokens.length

/-- Any number of values, where the reader is settled behind all that were read. -/
theorem manyBehind (hne : ∀ us a, D us a → us ≠ [])
    (hp : ∀ us as mid, tokens = us ++ mid → Repeated D us as → Settled bound D p mid) :
    Settled bound (Repeated D) (fun i => Reading.many goOn (p i)) tokens :=
  (manyRounds tokens hp hne).peek fun i us _ hlength =>
    ⟨(i, us.length), lt_loopBound hlength, rfl⟩

/-- Any number of values. -/
theorem many (hne : ∀ us a, D us a → us ≠ [])
    (hp : ∀ ts, ts.length ≤ tokens.length → Settled bound D p ts) :
    Settled bound (Repeated D) (fun i => Reading.many goOn (p i)) tokens := by
  refine manyBehind hne fun us as mid htokens _ => hp mid ?_
  rw [htokens, List.length_append]
  exact Nat.le_add_left _ _

end Loops

end Settled

end Reading

end SysYFront
