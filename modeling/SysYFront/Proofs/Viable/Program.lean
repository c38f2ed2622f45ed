import SysYFront.Proofs.Viable.Unit

/-!
# SysYFront.Proofs.Viable.Program

**A syntax error is at the first token that cannot be right** (`program_read_error_first`): the
tokens before it begin some program, and with it they begin none. There is one exception, which
the theorem names: of a `void` that opens the parameters of a function the reader asks whether
the closing bracket follows, and if it does not it reports the `void` and not the token behind.

So there are two ways for reading to fail. Either no unit of the program starts with such a
function, then the reader of programs is settled (`program_read_settled`), or one does, then
all units before it are read and the error is at its `void` (`program_read_behind`).
-/

namespace SysYFront

namespace TokenStream

variable {tokens : List Token} {s left : TokenStream} {t : Token}

/-- An error is at the first token that is left. -/
theorem run_eq_error {α : Type} {p : Reading α} {e : SyntaxError}
    (h : s.run p = (.error e, left)) :
    ∃ wanted, p s.tokens = .error wanted left.tokens ∧ left.finish = s.finish ∧
      e = ⟨.unexpected wanted left.current.kind, left.current.location⟩ := by
  unfold run at h
  split at h
  · cases h
  · rename_i wanted rest hp
    obtain ⟨he, rfl⟩ := Prod.mk.inj h
    exact ⟨wanted, hp, rfl, (Except.error.inj he).symm⟩

/-- Tokens that are not the end of the file can be read, and then what can be read behind them. -/
theorem visible_append {us ts : List Token} (h : ∀ t ∈ us, t.kind ≠ .endOfFile) :
    visible (us ++ ts) 0 = us ++ visible ts 0 :=
  List.takeWhile_append_of_pos (by simpa using h)

theorem visible_eq_self {us : List Token} (h : ∀ t ∈ us, t.kind ≠ .endOfFile) :
    visible us 0 = us :=
  List.takeWhile_eq_self_iff.mpr (by simpa using h)

theorem head?_visible (t : Token) (ts us : List Token) :
    (visible (t :: ts) 0).head? = (visible (t :: us) 0).head? := by
  simp only [visible, List.drop_zero, List.takeWhile_cons]
  split <;> rfl

theorem ofTokens_finish (h : ofTokens tokens = .ok s)
    (ht : tokens.find? (fun t => t.kind == .endOfFile) = some t) : s.finish = t.location := by
  unfold ofTokens at h
  split at h
  · cases h
  · obtain rfl := Except.ok.inj h
    simp only [ht]

/-- Where tokens end with `endOfFile`, the first such token stands behind what can be read. -/
theorem exists_end (hend : tokens.getLast?.map Token.kind = some .endOfFile) :
    ∃ t ts, tokens = visible tokens 0 ++ t :: ts ∧
      tokens.find? (fun t => t.kind == .endOfFile) = some t := by
  have hsplit : visible tokens 0 ++ tokens.dropWhile (fun t => !(t.kind == .endOfFile)) = tokens :=
    List.takeWhile_append_dropWhile
  cases hdrop : tokens.dropWhile (fun t => !(t.kind == .endOfFile)) with
  | nil =>
    have hpos : 0 < tokens.length := by
      cases tokens with
      | nil => cases hend
      | cons t ts => exact Nat.zero_lt_succ _
    have hlength := length_visible_lt hend hpos
    rw [hdrop, List.append_nil] at hsplit
    rw [hsplit] at hlength
    omega
  | cons t ts =>
    refine ⟨t, ts, by rw [← hdrop, hsplit], ?_⟩
    rw [List.find?_eq_head?_dropWhile_not, hdrop, List.head?_cons]

/-- The first token that is left is one of the tokens: it stands behind those that were taken. -/
theorem exists_current (hend : tokens.getLast?.map Token.kind = some .endOfFile)
    (h : ofTokens tokens = .ok s) {taken : List Token} (htaken : s.tokens = taken ++ left.tokens)
    (hfinish : left.finish = s.finish) :
    ∃ ts, tokens = taken ++ left.current :: ts ∧ (∀ t ∈ taken, t.kind ≠ .endOfFile) ∧
      left.tokens = visible (left.current :: ts) 0 := by
  rw [ofTokens_visible h] at htaken
  have hwords : ∀ t ∈ taken, t.kind ≠ .endOfFile := by
    intro t ht
    have hmem : t ∈ visible tokens 0 := htaken ▸ List.mem_append_left _ ht
    simpa using List.mem_takeWhile_imp hmem
  have hbehind : ∃ ts, tokens = taken ++ left.current :: ts := by
    obtain ⟨t, ts, htokens, hfind⟩ := exists_end hend
    rw [htaken, List.append_assoc] at htokens
    cases hleft : left.tokens with
    | nil =>
      -- everything was taken, so the current token is made up from the place of the end
      have hkind : t.kind = .endOfFile := by simpa using List.find?_some hfind
      have hcurrent : left.current = t := by
        rw [current, hleft, hfinish, ofTokens_finish h hfind, ← hkind]
        rfl
      exact ⟨ts, by rw [htokens, hleft, hcurrent, List.nil_append]⟩
    | cons t' ts' =>
      have hcurrent : left.current = t' := by
        rw [current, hleft]
        rfl
      exact ⟨ts' ++ t :: ts, by rw [htokens, hleft, hcurrent, List.cons_append]⟩
  obtain ⟨ts, hts⟩ := hbehind
  refine ⟨ts, hts, hwords, ?_⟩
  conv at htaken => lhs; rw [hts, visible_append hwords]
  exact (List.append_cancel_left htaken).symm

end TokenStream

namespace Grammar

open Reading
open TokenStream (visible)

variable {tokens rest : List Token} {wanted : Expectation}

/-! ### Programs that are not read to the end -/

theorem program_read_settled (hvoid : ∀ us parts mid, tokens = us ++ mid →
    Repeated ProgramUnit us parts → ¬ VoidParameter mid) :
    Settled id DerivesProgram (fun _ : Nat => Program.read) tokens := by
  refine Settled.map (.manyBehind ?_ fun us parts mid htokens hus =>
    unit_readSome_settled (hvoid us parts mid htokens hus)) fun us parts hus => .mk hus
  intro us p hus
  obtain ⟨t, ts, rfl⟩ := hus.starts
  exact List.cons_ne_nil _ _

/-- A loop that has read all units stops where the reader of units does. -/
theorem readUnits_behind {us mid : List Token} {parts : List (Program Unit)}
    (hus : Repeated ProgramUnit us parts) (hne : mid ≠ [])
    (hmid : TopLevel.readSome mid = .error wanted rest) {fuel : Nat}
    (hfuel : (us ++ mid).length ≤ fuel) :
    manyWithin (fun _ => true) TopLevel.readSome fuel (us ++ mid) = .error wanted rest := by
  induction hus generalizing fuel with
  | nil =>
    obtain ⟨t, ts, rfl⟩ := List.exists_cons_of_ne_nil hne
    obtain ⟨fuel, rfl⟩ := Nat.exists_eq_add_of_le' hfuel
    rw [List.nil_append, List.length_cons, ← Nat.add_assoc, manyWithin_cons rfl]
    simp only [bind, EStateM.bind, hmid]
  | @cons ts us p parts hts _ ih =>
    rw [List.append_assoc] at hfuel ⊢
    have hread : TopLevel.readSome (ts ++ (us ++ mid)) = .ok p (us ++ mid) :=
      unit_readSome_recognizes.complete (Nat.lt_succ_self _) hts trivial
    -- a unit takes a token, so there is fuel for those behind it
    obtain ⟨t, ts, rfl⟩ := hts.starts
    rw [List.length_append, List.length_cons] at hfuel
    obtain ⟨fuel, rfl⟩ : ∃ n, fuel = n + 1 := ⟨fuel - 1, by omega⟩
    have hrest : manyWithin (fun _ => true) TopLevel.readSome fuel (us ++ mid) = _ :=
      ih (by omega)
    rw [List.cons_append] at hread ⊢
    rw [manyWithin_cons rfl]
    simp only [bind, EStateM.bind, hread, hrest]

/-- Behind units, the reader of programs stops where the reader of units does. -/
theorem program_read_behind {us mid : List Token} {parts : List (Program Unit)}
    (hus : Repeated ProgramUnit us parts) (hne : mid ≠ [])
    (hmid : TopLevel.readSome mid = .error wanted rest) :
    Program.read (us ++ mid) = .error wanted rest := by
  simp only [Program.read, many, bind, EStateM.bind, readUnits_behind hus hne hmid (Nat.le_refl _)]

/-- Where `void` does not stand for no parameters, it is the type of one. -/
theorem readAll_void {v : Location} (h : NotNext (.symbol .rightParen) rest) :
    Param.readAll (⟨.keyword .voidKw, v⟩ :: rest) =
      .error .parameterBase (⟨.keyword .voidKw, v⟩ :: rest) := by
  have hseparated : Param.readAll (⟨.keyword .voidKw, v⟩ :: rest) =
      separated (.symbol .comma) Param.read (⟨.keyword .voidKw, v⟩ :: rest) := by
    cases rest with
    | nil => rfl
    | cons t ts =>
      unfold Param.readAll
      split
      · rename_i hkinds
        cases hkinds
      · rename_i hkinds
        exact absurd (List.cons.inj (List.cons.inj hkinds).2).1 (notNext_cons.mp h)
      · rfl
  rw [hseparated, separated, Settled.separatedWithin_eq]
  rfl

theorem readSome_void {kind : Token.Kind} {base : Base} (hkind : ReturnWord kind base) (s : String)
    (l k m v : Location) (h : NotNext (.symbol .rightParen) rest) :
    TopLevel.readSome (⟨kind, l⟩ :: ⟨.name s, k⟩ :: ⟨.symbol .leftParen, m⟩ ::
        ⟨.keyword .voidKw, v⟩ :: rest) =
      .error .parameterBase (⟨.keyword .voidKw, v⟩ :: rest) := by
  have hname (us : List Token) : expectName (⟨.name s, k⟩ :: us) = .ok (s, k) us := rfl
  rw [readSome_eq (shape_function hkind)]
  simp only [readShape, bind, EStateM.bind, function_read_word hkind, readSignature, hname, expect,
    if_true, readAll_void h]

/-! ### Viable tokens -/

/-- Whether the parameters of a function come next, behind a program. -/
def OpensParameters (tokens : List Token) : Prop :=
  ∃ us p kind base s l k m, tokens = us ++ [⟨kind, l⟩, ⟨.name s, k⟩, ⟨.symbol .leftParen, m⟩] ∧
    DerivesProgram us p ∧ ReturnWord kind base

/-- Behind any parameters the function can end. -/
theorem OpensParameters.completes {ps : List Token} {qs : List (Param Unit)}
    (h : OpensParameters tokens) (hps : Formals ps qs) :
    Completes DerivesProgram (tokens ++ ps) := by
  obtain ⟨us, _, kind, base, s, l, k, m, rfl, ⟨hus⟩, hkind⟩ := h
  have hprogram : ∃ p, DerivesProgram (us ++ ([⟨kind, l⟩, ⟨.name s, k⟩, ⟨.symbol .leftParen, m⟩] ++
      (ps ++ [⟨.symbol .rightParen, .start⟩, ⟨.symbol .leftBrace, .start⟩,
        ⟨.symbol .rightBrace, .start⟩]))) p :=
    ⟨_, .mk (hus.snoc (.function (definition_nothing hkind s l k m hps)))⟩
  obtain ⟨p, hp⟩ := hprogram
  refine ⟨_, p, ?_, by rwa [List.append_assoc, List.append_assoc]⟩
  simp [isWord]

/-- **The tokens that are taken before an error begin a program, and with the next token they
begin none**, except for a `void` that could stand for no parameters. -/
theorem program_read_eq_error (h : Program.read tokens = .error wanted rest) :
    ∃ taken, tokens = taken ++ rest ∧ Completes DerivesProgram taken ∧
      ((OpensParameters taken ∧ ∃ v ts, rest = ⟨.keyword .voidKw, v⟩ :: ts) ∨
        ∀ rest' p, rest'.head? = rest.head? → ¬ DerivesProgram (taken ++ rest') p) := by
  by_cases hvoid : ∃ us parts mid, tokens = us ++ mid ∧ Repeated ProgramUnit us parts ∧
      VoidParameter mid
  · -- the units before such a function are read, and then its `void` is reported
    obtain ⟨us, parts, mid, rfl, hus, kind, base, s, l, k, m, v, ts, hkind, rfl, hnext⟩ := hvoid
    have hread := program_read_behind hus (List.cons_ne_nil _ _)
      (readSome_void hkind s l k m v hnext)
    obtain ⟨rfl, rfl⟩ := EStateM.Result.error.inj (hread.symm.trans h)
    have hopens : OpensParameters (us ++ [⟨kind, l⟩, ⟨.name s, k⟩, ⟨.symbol .leftParen, m⟩]) :=
      ⟨us, _, kind, base, s, l, k, m, rfl, .mk hus, hkind⟩
    have hcompletes := hopens.completes .none
    rw [List.append_nil] at hcompletes
    exact ⟨_, by simp, hcompletes, .inl ⟨hopens, v, ts, rfl⟩⟩
  · obtain ⟨taken, left, r, rfl, hbegins, hrun⟩ := program_read_settled fun us parts mid htokens
      hus hmid => hvoid ⟨us, parts, mid, htokens, hus, hmid⟩
    have hleave := h.symm.trans (hrun _ left rfl (Nat.lt_succ_self _))
    cases r with
    | ok p => cases hleave
    | error wanted =>
      obtain ⟨rfl, rfl⟩ := EStateM.Result.error.inj hleave
      -- with the same next token the reader stops again, so it reads no program
      refine ⟨taken, rfl, hbegins, .inr fun rest' p hrest hp => ?_⟩
      have hread := program_read_eq_ok.mpr ⟨rfl, hp⟩
      cases hread.symm.trans (hrun _ rest' hrest (Nat.lt_succ_self _))

/-! ### Syntax errors -/

/-- Whether a program is read from a list of tokens. -/
def Accepts (tokens : List Token) : Prop :=
  ∃ stream p, TokenStream.ofTokens tokens = .ok stream ∧ (stream.run Program.read).1 = .ok p

/-- Whether some list that starts with the tokens is accepted. -/
def Viable (tokens : List Token) : Prop :=
  ∃ more, Accepts (tokens ++ more)

theorem run_program_eq_ok {stream : TokenStream} {p : Program Unit} :
    (stream.run Program.read).1 = .ok p ↔ DerivesProgram stream.tokens p := by
  unfold TokenStream.run
  constructor
  · intro hrun
    split at hrun
    · rename_i p' left hread
      obtain rfl := Except.ok.inj hrun
      exact (program_read_eq_ok.mp hread).2
    · cases hrun
  · intro hp
    rw [program_read_eq_ok.mpr ⟨rfl, hp⟩]

theorem Accepts.derives (h : Accepts tokens) : ∃ p, DerivesProgram (visible tokens 0) p := by
  obtain ⟨stream, p, hstream, hrun⟩ := h
  rw [← TokenStream.ofTokens_visible hstream]
  exact ⟨p, run_program_eq_ok.mp hrun⟩

theorem isWord_iff {kind : Token.Kind} :
    isWord kind = true ↔ (∀ reason, kind ≠ .invalid reason) ∧ kind ≠ .endOfFile := by
  cases kind <;> simp [isWord]

theorem exists_stream (h : ∀ t ∈ tokens, ∀ reason, t.kind ≠ .invalid reason) :
    ∃ stream, TokenStream.ofTokens tokens = .ok stream := by
  rw [TokenStream.ofTokens, firstInvalid?_eq_none h]
  exact ⟨_, rfl⟩

/-- Words that can be completed are viable. -/
theorem Viable.of_completes (hwords : ∀ t ∈ tokens, isWord t.kind = true)
    (h : Completes DerivesProgram tokens) : Viable tokens := by
  obtain ⟨more, p, hmore, hp⟩ := h
  have hall : ∀ t ∈ tokens ++ more, isWord t.kind = true :=
    List.forall_mem_append.mpr ⟨hwords, hmore⟩
  obtain ⟨stream, hstream⟩ := exists_stream fun t ht => (isWord_iff.mp (hall t ht)).1
  refine ⟨more, stream, p, hstream, run_program_eq_ok.mpr ?_⟩
  rwa [TokenStream.ofTokens_visible hstream,
    TokenStream.visible_eq_self fun t ht => (isWord_iff.mp (hall t ht)).2]

theorem Formals.of_void {t : Token} (h : t.kind = .keyword .voidKw) : Formals [t] [] := by
  obtain ⟨kind, l⟩ := t
  subst h
  exact .void l

/-- Words are not viable with a token with which no program goes on; a `void` can always stand for
no parameters. -/
theorem viable_snoc_iff {taken : List Token} {t : Token}
    (hwords : ∀ t ∈ taken, isWord t.kind = true)
    (h : (OpensParameters taken ∧ t.kind = .keyword .voidKw) ∨
      ∀ ts p, ¬ DerivesProgram (taken ++ visible (t :: ts) 0) p) :
    Viable (taken ++ [t]) ↔ OpensParameters taken ∧ t.kind = .keyword .voidKw := by
  constructor
  · rintro ⟨more, haccepts⟩
    obtain hvoid | hnone := h
    · exact hvoid
    · obtain ⟨p, hp⟩ := haccepts.derives
      rw [List.append_assoc,
        TokenStream.visible_append fun t ht => (isWord_iff.mp (hwords t ht)).2] at hp
      exact absurd hp (hnone more p)
  · rintro ⟨hopens, hvoid⟩
    have hword : isWord t.kind = true := by
      rw [hvoid]
      rfl
    have hall := List.forall_mem_append.mpr ⟨hwords, List.forall_mem_singleton.mpr hword⟩
    exact .of_completes hall (hopens.completes (.of_void hvoid))

/-- **A syntax error is at the first token that cannot be right.** Take tokens that end with
`endOfFile`, all of them words of the language. Where reading a program from them fails, the error
is at the first token `t` that is left, at position `k`: it has the place of `t`, and the message
ends with the text of `t`. The tokens before `k` are viable, and with `t` they are viable in one
case only, where `t` is a `void` that opens the parameters of a function. -/
theorem program_read_error_first (hend : tokens.getLast?.map Token.kind = some .endOfFile)
    (hwords : ∀ t ∈ tokens, ∀ reason, t.kind ≠ .invalid reason) :
    ∃ stream, TokenStream.ofTokens tokens = .ok stream ∧
      ∀ e left, stream.run Program.read = (.error e, left) →
        ∃ k t, k ≤ stream.tokens.length ∧ left.tokens = stream.tokens.drop k ∧
          tokens[k]? = some t ∧ e.location = t.location ∧
          (∃ head, e.detail = head ++ t.kind.describe) ∧ Viable (tokens.take k) ∧
          (Viable (tokens.take (k + 1)) ↔
            OpensParameters (tokens.take k) ∧ t.kind = .keyword .voidKw) := by
  obtain ⟨stream, hstream⟩ := exists_stream hwords
  refine ⟨stream, hstream, fun e left hrun => ?_⟩
  obtain ⟨wanted, hread, hfinish, rfl⟩ := TokenStream.run_eq_error hrun
  obtain ⟨taken, htaken, hcompletes, hwhy⟩ := program_read_eq_error hread
  obtain ⟨ts, htokens, hnoend, hleft⟩ := TokenStream.exists_current hend hstream htaken hfinish
  have htakenWords : ∀ t ∈ taken, isWord t.kind = true := fun t ht =>
    isWord_iff.mpr ⟨hwords t (htokens ▸ List.mem_append_left _ ht), hnoend t ht⟩
  have htake : tokens.take taken.length = taken := by rw [htokens, List.take_left]
  have htakeNext : tokens.take (taken.length + 1) = taken ++ [left.current] := by
    rw [htokens, List.take_length_add_append, List.take_succ_cons, List.take_zero]
  refine ⟨taken.length, left.current, ?_, ?_, ?_, rfl, ⟨_, rfl⟩, ?_, ?_⟩
  · rw [htaken, List.length_append]
    exact Nat.le_add_right _ _
  · rw [htaken, List.drop_left]
  · rw [htokens, List.getElem?_append_right (Nat.le_refl _), Nat.sub_self, List.getElem?_cons_zero]
  · rw [htake]
    exact .of_completes htakenWords hcompletes
  · rw [htake, htakeNext]
    refine viable_snoc_iff htakenWords (hwhy.imp ?_ ?_)
    · rintro ⟨hopens, v, rest, hrest⟩
      exact ⟨hopens, by rw [TokenStream.current, hrest]; rfl⟩
    · intro hnone us p
      exact hnone _ p (by rw [hleft]; exact TokenStream.head?_visible ..)

/-- In `int a = ;` a value is missing: the tokens before the semicolon are viable, and with it they
are not. -/
theorem missing_value_error :
    let tokens : List Token := [⟨.keyword .intKw, ⟨1, 1⟩⟩, ⟨.name "a", ⟨1, 5⟩⟩,
      ⟨.symbol .equal, ⟨1, 7⟩⟩, ⟨.symbol .semicolon, ⟨1, 9⟩⟩, ⟨.endOfFile, ⟨1, 10⟩⟩]
    tokens.getLast?.map Token.kind = some .endOfFile ∧
      (∀ t ∈ tokens, ∀ reason, t.kind ≠ .invalid reason) ∧
      ∃ stream left, TokenStream.ofTokens tokens = .ok stream ∧
        stream.run Program.read =
          (.error ⟨.unexpected .expression (.symbol .semicolon), ⟨1, 9⟩⟩, left) ∧
        Viable (tokens.take 3) ∧ ¬ Viable (tokens.take 4) := by
  intro tokens
  have hend : tokens.getLast?.map Token.kind = some .endOfFile := rfl
  have hwords : ∀ t ∈ tokens, ∀ reason, t.kind ≠ .invalid reason := by
    simp [tokens]
  obtain ⟨stream, hstream, herror⟩ := program_read_error_first hend hwords
  obtain rfl : TokenStream.mk (tokens.take 4) ⟨1, 10⟩ = stream := Except.ok.inj hstream
  let left : TokenStream := ⟨[⟨.symbol .semicolon, ⟨1, 9⟩⟩], ⟨1, 10⟩⟩
  obtain ⟨k, t, hk, hleft, ht, -, -, hviable, hnext⟩ := herror _ left rfl
  obtain rfl : k = 3 := by
    have hlength := congrArg List.length hleft
    simp only [left, tokens, List.length_drop, List.length_take, List.length_cons,
      List.length_nil] at hk hlength
    omega
  refine ⟨hend, hwords, _, left, hstream, rfl, hviable, fun hfour => ?_⟩
  obtain rfl : ⟨.symbol .semicolon, ⟨1, 9⟩⟩ = t := Option.some.inj ht
  cases (hnext.mp hfour).2

end Grammar

end SysYFront
