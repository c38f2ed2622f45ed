import SysYFront.Reading

/-!
# SysYFront.Proofs.Grammar.Phrase

Grammars and the readers that follow them. A grammar is a relation `D ts a`: the tokens
`ts`, all of them, derive the value `a`. A reader takes its tokens from the front of a
longer list, so it *recognizes* a grammar (`Reading.Recognizes`) if

* what it takes always derives the value that it gives, and
* of a list that starts with tokens that derive a value it takes exactly these, provided
  that the rest does not go on with the value. What may follow is said by `F`.

Readers of nested phrases are bounded by a depth, so they recognize a grammar on lists of
fewer than `n` tokens; an outer reader takes a token before it hands over to an inner one,
which is why the bound of the inner one may be less by one.

The first part opens readers the way checks are opened: a reader that succeeds is turned
into the same statement about its links.
-/

namespace SysYFront

variable {α β : Type}

/-! ### Readers that succeed -/

namespace Reading

variable {a b : α} {tokens rest : List Token} {k : Token.Kind} {wanted : Expectation}

theorem bind_eq_ok {m : Reading α} {f : α → Reading β} {b : β} :
    (m >>= f) tokens = .ok b rest ↔ ∃ a mid, m tokens = .ok a mid ∧ f a mid = .ok b rest := by
  change EStateM.bind m f tokens = _ ↔ _
  unfold EStateM.bind
  constructor
  · intro h
    cases hm : m tokens with
    | error e mid => rw [hm] at h; cases h
    | ok a mid => rw [hm] at h; exact ⟨a, mid, rfl, h⟩
  · intro h
    rcases h with ⟨a, mid, hm, h⟩
    rw [hm]
    exact h

@[simp] theorem pure_eq_ok : (pure a : Reading α) tokens = .ok b rest ↔ a = b ∧ tokens = rest := by
  simp [pure, EStateM.pure]

@[simp] theorem next?_eq_ok {t : Option Token} :
    next? tokens = .ok t rest ↔ t = tokens.head? ∧ tokens = rest := by
  simp [next?, eq_comm]

@[simp] theorem get_eq_ok {ts : List Token} :
    (get : Reading (List Token)) tokens = .ok ts rest ↔ ts = tokens ∧ tokens = rest := by
  have happly : (get : Reading (List Token)) tokens = .ok tokens tokens := rfl
  simp [happly, eq_comm]

@[simp] theorem advance_eq_ok {u : Unit} : advance tokens = .ok u rest ↔ tokens.tail = rest := by
  simp [advance]

@[simp] theorem accept_eq_true :
    accept k tokens = .ok true rest ↔ ∃ l, tokens = ⟨k, l⟩ :: rest := by
  cases tokens with
  | nil => simp [accept]
  | cons t ts =>
    obtain ⟨kind, l⟩ := t
    by_cases hk : kind = k
    · simp [accept, hk]
    · simp [accept, hk]

@[simp] theorem accept_eq_false :
    accept k tokens = .ok false rest ↔ (∀ t ∈ tokens.head?, t.kind ≠ k) ∧ tokens = rest := by
  cases tokens with
  | nil => simp [accept]
  | cons t ts =>
    obtain ⟨kind, l⟩ := t
    by_cases hk : kind = k
    · simp [accept, hk]
    · simp [accept, hk]

@[simp] theorem expect_eq_ok {l : Location} :
    expect k wanted tokens = .ok l rest ↔ tokens = ⟨k, l⟩ :: rest := by
  cases tokens with
  | nil => simp [expect]
  | cons t ts =>
    obtain ⟨kind, l'⟩ := t
    by_cases hk : kind = k
    · simp [expect, hk]
    · simp [expect, hk]

@[simp] theorem expectName_eq_ok {r : String × Location} :
    expectName tokens = .ok r rest ↔ tokens = ⟨.name r.1, r.2⟩ :: rest := by
  unfold expectName
  split
  · rename_i s l ts
    simp [Prod.ext_iff, and_assoc]
  · rename_i hname
    simp only [reduceCtorEq, false_iff]
    exact hname r.1 r.2 rest

end Reading

/-! ### Recognizing a grammar -/

/-- Whether a reader, on lists of fewer than `n` tokens, takes the tokens that derive the
value it gives, and takes them whenever the rest satisfies `F`. -/
structure Reading.Recognizes (n : Nat) (D : List Token → α → Prop) (F : α → List Token → Prop)
    (m : Reading α) : Prop where
  sound {tokens rest : List Token} {a : α} : tokens.length < n → m tokens = .ok a rest →
    ∃ taken, tokens = taken ++ rest ∧ D taken a
  complete {taken rest : List Token} {a : α} : (taken ++ rest).length < n → D taken a → F a rest →
    m (taken ++ rest) = .ok a rest

/-- Whether a list of tokens does not start with one of kind `k`. -/
def NotNext (k : Token.Kind) (tokens : List Token) : Prop :=
  ∀ t ∈ tokens.head?, t.kind ≠ k

@[simp] theorem notNext_nil (k : Token.Kind) : NotNext k [] := by
  simp [NotNext]

@[simp] theorem notNext_cons {k : Token.Kind} {t : Token} {tokens : List Token} :
    NotNext k (t :: tokens) ↔ t.kind ≠ k := by
  simp [NotNext]

theorem notNext_or (k : Token.Kind) (tokens : List Token) :
    NotNext k tokens ∨ ∃ l ts, tokens = ⟨k, l⟩ :: ts := by
  cases tokens with
  | nil => exact .inl (notNext_nil k)
  | cons t ts =>
    obtain ⟨kind, l⟩ := t
    by_cases hk : kind = k
    · exact .inr ⟨l, ts, by rw [hk]⟩
    · exact .inl (notNext_cons.mpr hk)

namespace Grammar

/-- One or more phrases with a separator between them. -/
inductive Separated (separator : Token.Kind) (D : List Token → α → Prop) :
    List Token → List α → Prop
  | one {ts : List Token} {a : α} : D ts a → Separated separator D ts [a]
  | more {ts us : List Token} {a : α} {as : List α} (l : Location) :
    D ts a → Separated separator D us as →
      Separated separator D (ts ++ ⟨separator, l⟩ :: us) (a :: as)

/-- Any number of phrases, one behind the other. -/
inductive Repeated (D : List Token → α → Prop) : List Token → List α → Prop
  | nil : Repeated D [] []
  | cons {ts us : List Token} {a : α} {as : List α} :
    D ts a → Repeated D us as → Repeated D (ts ++ us) (a :: as)

theorem Repeated.snoc {α : Type} {D : List Token → α → Prop} {us vs : List Token} {as : List α}
    {a : α} (h : Repeated D us as) (ha : D vs a) : Repeated D (us ++ vs) (as ++ [a]) := by
  induction h with
  | nil =>
    have hone := Repeated.cons ha .nil
    rwa [List.append_nil] at hone
  | cons hts _ ih =>
    rw [List.append_assoc]
    exact .cons hts ih

/-- Phrases with a separator between them, and behind the last one if there is any. -/
inductive Listed (separator : Token.Kind) (D : List Token → α → Prop) : List Token → List α → Prop
  | nothing : Listed separator D [] []
  | plain {ts : List Token} {as : List α} : Separated separator D ts as → Listed separator D ts as
  | trailing {ts : List Token} {as : List α} (l : Location) : Separated separator D ts as →
      Listed separator D (ts ++ [⟨separator, l⟩]) as

theorem Listed.more {separator : Token.Kind} {D : List Token → α → Prop} {ts us : List Token}
    {a : α} {as : List α} (l : Location) (ha : D ts a) (h : Listed separator D us as) :
    Listed separator D (ts ++ ⟨separator, l⟩ :: us) (a :: as) := by
  cases h with
  | nothing => exact .trailing l (.one ha)
  | plain h => exact .plain (.more l ha h)
  | trailing k h =>
    have hmore := Listed.trailing k (Separated.more l ha h)
    rwa [List.append_assoc, List.cons_append] at hmore

end Grammar

/-! ### Loops -/

namespace Reading

variable {goOn : Token.Kind → Bool} {m : Reading α} {tokens : List Token} {fuel : Nat}

/-- A loop ends where no value starts. -/
theorem manyWithin_stop (h : ∀ t ∈ tokens.head?, goOn t.kind = false) :
    manyWithin goOn m fuel tokens = .ok [] tokens := by
  cases fuel with
  | zero => rfl
  | succ fuel =>
    cases tokens with
    | nil => rfl
    | cons t ts =>
      have ht : goOn t.kind = false := h t rfl
      simp only [manyWithin, bind, EStateM.bind, next?, List.head?_cons, ht]
      rfl

/-- A round of a loop reads a value and goes on with less fuel. -/
theorem manyWithin_cons {t : Token} (ht : goOn t.kind = true) :
    manyWithin goOn m (fuel + 1) (t :: tokens) = (do
      let a ← m
      let as ← manyWithin goOn m fuel
      pure (a :: as) : Reading (List α)) (t :: tokens) := by
  simp only [manyWithin, bind, EStateM.bind, next?, List.head?_cons, ht, if_true]

/-- A loop that was read ended where it stood or had a round. -/
theorem manyWithin_eq_ok {rest : List Token} {as : List α}
    (hm : manyWithin goOn m fuel tokens = .ok as rest) :
    (as = [] ∧ rest = tokens ∧ (fuel = 0 ∨ ∀ t ∈ tokens.head?, goOn t.kind = false)) ∨
      ∃ left a mid as', fuel = left + 1 ∧ as = a :: as' ∧ m tokens = .ok a mid ∧
        manyWithin goOn m left mid = .ok as' rest := by
  by_cases hstop : ∀ t ∈ tokens.head?, goOn t.kind = false
  · cases (manyWithin_stop hstop).symm.trans hm
    exact .inl ⟨rfl, rfl, .inr hstop⟩
  · cases fuel with
    | zero =>
      obtain ⟨rfl, rfl⟩ := pure_eq_ok.mp hm
      exact .inl ⟨rfl, rfl, .inl rfl⟩
    | succ fuel =>
      cases tokens with
      | nil => exact absurd (by simp) hstop
      | cons t ts =>
        rw [manyWithin_cons (by simpa using hstop)] at hm
        simp only [bind_eq_ok, pure_eq_ok] at hm
        obtain ⟨a, mid, ha, as', _, has, rfl, rfl⟩ := hm
        exact .inr ⟨fuel, a, mid, as', rfl, rfl, ha, has⟩

end Reading

namespace Reading.Recognizes

open Grammar

variable {n : Nat} {D : List Token → α → Prop} {F : α → List Token → Prop} {m : Reading α}

/-- Fewer tokens are recognized as well. -/
theorem mono {n' : Nat} (h : Recognizes n D F m) (hn : n' ≤ n) : Recognizes n' D F m where
  sound hlength := h.sound (Nat.lt_of_lt_of_le hlength hn)
  complete hlength := h.complete (Nat.lt_of_lt_of_le hlength hn)

/-- It may be asked for more behind a phrase. -/
theorem before {F' : α → List Token → Prop} (h : Recognizes n D F m)
    (hF : ∀ a rest, F' a rest → F a rest) : Recognizes n D F' m where
  sound := h.sound
  complete hlength hD hrest := h.complete hlength hD (hF _ _ hrest)

section Separated

variable {separator : Token.Kind}

theorem separatedWithin_sound (h : Recognizes n D F m) (fuel : Nat) {tokens rest : List Token}
    {as : List α} (hlength : tokens.length < n)
    (hm : separatedWithin separator m fuel tokens = .ok as rest) :
    ∃ taken, tokens = taken ++ rest ∧ Separated separator D taken as := by
  induction fuel generalizing tokens as with
  | zero =>
    simp only [separatedWithin, bind_eq_ok, pure_eq_ok] at hm
    obtain ⟨a, mid, ha, rfl, rfl⟩ := hm
    obtain ⟨taken, htokens, hD⟩ := h.sound hlength ha
    exact ⟨taken, htokens, .one hD⟩
  | succ fuel ih =>
    simp only [separatedWithin, bind_eq_ok] at hm
    obtain ⟨a, mid, ha, more, mid', hmore, hm⟩ := hm
    obtain ⟨taken, rfl, hD⟩ := h.sound hlength ha
    cases more with
    | false =>
      obtain ⟨rfl, rfl⟩ := pure_eq_ok.mp hm
      obtain ⟨-, rfl⟩ := accept_eq_false.mp hmore
      exact ⟨taken, rfl, .one hD⟩
    | true =>
      obtain ⟨l, rfl⟩ := accept_eq_true.mp hmore
      simp only [if_true, bind_eq_ok, pure_eq_ok] at hm
      obtain ⟨as', mid'', has, rfl, rfl⟩ := hm
      have hshort : mid'.length < n := by
        rw [List.length_append, List.length_cons] at hlength
        omega
      obtain ⟨taken', rfl, hD'⟩ := ih hshort has
      exact ⟨taken ++ ⟨separator, l⟩ :: taken', by simp, .more l hD hD'⟩

/-- Phrases are separated, so before each separator and at the end none goes on. -/
theorem separatedWithin_complete (h : Recognizes n D F m)
    (hF : ∀ a l tokens, F a (⟨separator, l⟩ :: tokens)) {taken rest : List Token} {as : List α}
    (hD : Separated separator D taken as) (hrest : NotNext separator rest)
    (hlast : ∀ a, F a rest) {fuel : Nat} (hfuel : (taken ++ rest).length ≤ fuel)
    (hlength : (taken ++ rest).length < n) :
    separatedWithin separator m fuel (taken ++ rest) = .ok as rest := by
  induction hD generalizing fuel with
  | @one ts a hts =>
    have ha := h.complete hlength hts (hlast a)
    cases fuel with
    | zero =>
      simp only [separatedWithin, bind_eq_ok, pure_eq_ok]
      exact ⟨a, rest, ha, rfl, rfl⟩
    | succ fuel =>
      simp only [separatedWithin, bind_eq_ok]
      exact ⟨a, rest, ha, false, rest, accept_eq_false.mpr ⟨hrest, rfl⟩, pure_eq_ok.mpr ⟨rfl, rfl⟩⟩
  | @more ts us a as l hts _ ih =>
    rw [List.append_assoc, List.cons_append] at hfuel hlength ⊢
    rw [List.length_append, List.length_cons] at hfuel
    obtain ⟨fuel, rfl⟩ : ∃ k, fuel = k + 1 := ⟨fuel - 1, by omega⟩
    have hshort : (us ++ rest).length < n := by
      rw [List.length_append, List.length_cons] at hlength
      omega
    simp only [separatedWithin, bind_eq_ok]
    refine ⟨a, _, h.complete hlength hts (hF ..), true, _, accept_eq_true.mpr ⟨l, rfl⟩, ?_⟩
    simp only [if_true, bind_eq_ok, pure_eq_ok]
    exact ⟨as, rest, ih (by omega) hshort, rfl, rfl⟩

/-- Reading phrases between separators recognizes them. -/
theorem separated (h : Recognizes n D F m) (hF : ∀ a l tokens, F a (⟨separator, l⟩ :: tokens)) :
    Recognizes n (Separated separator D)
      (fun _ rest => NotNext separator rest ∧ ∀ a, F a rest)
      (Reading.separated separator m) where
  sound hlength hm := separatedWithin_sound h _ hlength hm
  complete hlength hD hrest :=
    separatedWithin_complete h hF hD hrest.1 hrest.2 (Nat.le_refl _) hlength

end Separated

section Many

variable {goOn : Token.Kind → Bool}

/-- A loop enters its reader only where it goes on. -/
theorem manyWithin_congr {m' : Reading α}
    (h : ∀ t ts, goOn t.kind = true → m (t :: ts) = m' (t :: ts)) (fuel : Nat) :
    manyWithin goOn m fuel = manyWithin goOn m' fuel := by
  induction fuel with
  | zero => rfl
  | succ fuel ih =>
    funext tokens
    cases tokens with
    | nil => rfl
    | cons t ts =>
      by_cases ht : goOn t.kind = true
      · rw [manyWithin_cons ht, manyWithin_cons ht]
        simp only [ih, bind, EStateM.bind, h t ts ht]
      · have hstop : ∀ t' ∈ (t :: ts).head?, goOn t'.kind = false := by simpa using ht
        rw [manyWithin_stop hstop, manyWithin_stop hstop]

theorem manyWithin_sound (h : Recognizes n D F m) (fuel : Nat) {tokens rest : List Token}
    {as : List α} (hlength : tokens.length < n)
    (hm : manyWithin goOn m fuel tokens = .ok as rest) :
    ∃ taken, tokens = taken ++ rest ∧ Repeated D taken as := by
  induction fuel generalizing tokens as with
  | zero =>
    obtain ⟨rfl, rfl⟩ := pure_eq_ok.mp hm
    exact ⟨[], rfl, .nil⟩
  | succ fuel ih =>
    obtain ⟨rfl, rfl, -⟩ | ⟨_, a, mid, as, hfuel, rfl, ha, has⟩ := manyWithin_eq_ok hm
    · exact ⟨[], rfl, .nil⟩
    · obtain rfl := Nat.succ.inj hfuel
      obtain ⟨taken, rfl, hD⟩ := h.sound hlength ha
      have hshort : mid.length < n := by
        rw [List.length_append] at hlength
        omega
      obtain ⟨taken', rfl, hD'⟩ := ih hshort has
      exact ⟨taken ++ taken', by simp, .cons hD hD'⟩

theorem many_congr {m' : Reading α}
    (h : ∀ t ts, goOn t.kind = true → m (t :: ts) = m' (t :: ts)) :
    Reading.many goOn m = Reading.many goOn m' :=
  funext fun tokens => congrFun (manyWithin_congr h tokens.length) tokens

/-- A loop over phrases that are not empty ends where none starts. -/
theorem manyWithin_stops (h : Recognizes n D F m) (hne : ∀ {ts a}, D ts a → ts ≠ [])
    {fuel : Nat} {tokens rest : List Token} {as : List α} (hfuel : tokens.length ≤ fuel)
    (hlength : tokens.length < n) (hm : manyWithin goOn m fuel tokens = .ok as rest) :
    ∀ t ∈ rest.head?, goOn t.kind = false := by
  induction fuel generalizing tokens as with
  | zero =>
    obtain rfl := List.eq_nil_of_length_eq_zero (Nat.le_zero.mp hfuel)
    obtain ⟨-, rfl⟩ := pure_eq_ok.mp hm
    exact nofun
  | succ fuel ih =>
    obtain ⟨rfl, rfl, hstop⟩ | ⟨_, a, mid, as, hleft, rfl, ha, has⟩ := manyWithin_eq_ok hm
    · exact hstop.resolve_left (Nat.succ_ne_zero fuel)
    · obtain rfl := Nat.succ.inj hleft
      obtain ⟨taken, rfl, hD⟩ := h.sound hlength ha
      have hpos := List.length_pos_iff.mpr (hne hD)
      rw [List.length_append] at hfuel hlength
      exact ih (by omega) (by omega) has

/-- Where phrases follow one another, each must start as the loop wants it (`hstart`), and
none may go on with the one before it. What keeps the phrase before from going on is `Q`. -/
theorem manyWithin_complete (h : Recognizes n D F m) {Q : List Token → Prop}
    (hstart : ∀ {ts a}, D ts a → ∀ tokens, Q tokens →
      Q (ts ++ tokens) ∧ ∃ t us, ts = t :: us ∧ goOn t.kind = true)
    (hF : ∀ a tokens, Q tokens → F a tokens) {taken rest : List Token} {as : List α}
    (hD : Repeated D taken as) (hQ : Q rest) (hrest : ∀ t ∈ rest.head?, goOn t.kind = false)
    {fuel : Nat} (hfuel : (taken ++ rest).length ≤ fuel) (hlength : (taken ++ rest).length < n) :
    Q (taken ++ rest) ∧ manyWithin goOn m fuel (taken ++ rest) = .ok as rest := by
  induction hD generalizing fuel with
  | nil => exact ⟨hQ, manyWithin_stop hrest⟩
  | @cons ts us a as hts _ ih =>
    rw [List.append_assoc] at hfuel hlength ⊢
    have hparts : (us ++ rest).length < n := by
      rw [List.length_append] at hlength
      omega
    obtain ⟨hQ', -⟩ := ih (Nat.le_refl _) hparts
    obtain ⟨hQ'', t, ts, rfl, ht⟩ := hstart hts _ hQ'
    refine ⟨hQ'', ?_⟩
    rw [List.cons_append, List.length_cons, List.length_append] at hfuel
    obtain ⟨fuel, rfl⟩ : ∃ k, fuel = k + 1 := ⟨fuel - 1, by omega⟩
    rw [List.cons_append, manyWithin_cons ht]
    simp only [bind_eq_ok, pure_eq_ok]
    exact ⟨a, us ++ rest, h.complete hlength hts (hF a _ hQ'), as, rest,
      (ih (by omega) hparts).2, rfl, rfl⟩

/-- Reading phrases as long as one starts recognizes their repetition. -/
theorem many (h : Recognizes n D F m) {Q : List Token → Prop}
    (hstart : ∀ {ts a}, D ts a → ∀ tokens, Q tokens →
      Q (ts ++ tokens) ∧ ∃ t us, ts = t :: us ∧ goOn t.kind = true)
    (hF : ∀ a tokens, Q tokens → F a tokens) :
    Recognizes n (Repeated D) (fun _ rest => Q rest ∧ ∀ t ∈ rest.head?, goOn t.kind = false)
      (Reading.many goOn m) where
  sound hlength hm := manyWithin_sound h _ hlength hm
  complete hlength hD hrest :=
    (manyWithin_complete h hstart hF hD hrest.1 hrest.2 (Nat.le_refl _) hlength).2

end Many

end Reading.Recognizes

end SysYFront
