import SysYFront.Proofs.Origin.Check
import SysYFront.Proofs.Viable.Program

/-!
# SysYFront.Proofs.Origin.Compile

**Every message points at a token of the text** (`compile_error_at_token`). A malformed word is its
own token, a syntax error is at the first token that is left, and a broken rule is at a mark of
the program, which is a token that was read. Where the rule is about a name, an operator or a
bracket, the token is that name, that operator or that bracket.
-/

namespace SysYFront

variable {tokens : List Token}

theorem TokenStream.ofTokens_eq_error {e : SyntaxError} (h : ofTokens tokens = .error e) :
    ∃ t ∈ tokens, t.location = e.location := by
  unfold ofTokens at h
  split at h
  · rename_i e' hinvalid
    obtain rfl := Except.error.inj h
    obtain ⟨t, ht, hreason⟩ := List.exists_of_findSome?_eq_some hinvalid
    split at hreason
    · obtain rfl := Option.some.inj hreason
      exact ⟨t, ht, rfl⟩
    · cases hreason
  · cases h

/-- Reading a program from tokens fails at one of them. -/
theorem TokenStream.run_program_eq_error
    (hend : tokens.getLast?.map Token.kind = some .endOfFile) {s : TokenStream}
    (hs : ofTokens tokens = .ok s) {e : SyntaxError} (h : (s.run Program.read).1 = .error e) :
    ∃ t ∈ tokens, t.location = e.location := by
  obtain ⟨wanted, hread, hfinish, rfl⟩ := run_eq_error (Prod.ext h rfl)
  obtain ⟨taken, htaken, -⟩ := Grammar.program_read_eq_error hread
  obtain ⟨ts, htokens, -⟩ := exists_current hend hs htaken hfinish
  refine ⟨_, ?_, rfl⟩
  rw [htokens]
  exact List.mem_append_right _ List.mem_cons_self

theorem TokenStream.tokens_subset {s : TokenStream} (hs : ofTokens tokens = .ok s) :
    s.tokens ⊆ tokens := by
  rw [ofTokens_visible hs]
  exact (List.takeWhile_sublist _).subset

/-- The marks of the program that a text holds are among the tokens of the text. -/
theorem Program.ofSource_marked {source : String} {p : Program Unit}
    (h : ofSource source = .ok p) : Marks.Among p.marks (Token.ofSource source) := by
  obtain ⟨s, hs, hrun⟩ := bind_eq_ok.mp h
  exact (Grammar.run_program_eq_ok.mp hrun).marked.mono (TokenStream.tokens_subset hs)

theorem Program.ofSource_eq_error {source : String} {e : SyntaxError}
    (h : ofSource source = .error e) : ∃ t ∈ Token.ofSource source, t.location = e.location := by
  have hend : (Token.ofSource source).getLast?.map Token.kind = some .endOfFile := by
    rw [Token.ofSource, Token.getLast?_ofPieces]
    rfl
  cases hs : TokenStream.ofSource source with
  | error e' =>
    rw [ofSource, hs] at h
    obtain rfl := Except.error.inj h
    exact TokenStream.ofTokens_eq_error hs
  | ok s =>
    rw [ofSource, hs] at h
    exact TokenStream.run_program_eq_error hend hs h

/-- **Every message points at its own token.** Where a text is not accepted, the error has the
place of a token of the text. For a broken rule that is about a name, it is that name; for one
about a division, a remainder, a subscript or a call, it is the operator or the opening bracket;
for a `break` or `continue` outside of a loop, it is that word. -/
theorem compile_error_at_token {source : String} {e : CompileError}
    (h : compile source = .error e) :
    ∃ t ∈ Token.ofSource source, t.location = e.location ∧
      ∀ d, e = .rejected d → ∀ sign ∈ d.problem.sign?, sign.Fits t.kind := by
  unfold compile at h
  cases hp : Program.ofSource source with
  | error e' =>
    rw [hp] at h
    obtain rfl := Except.error.inj h
    obtain ⟨t, ht, hlocation⟩ := Program.ofSource_eq_error hp
    exact ⟨t, ht, hlocation, nofun⟩
  | ok p =>
    rw [hp] at h
    cases hcheck : checkFresh p with
    | ok r =>
      change (checkFresh p).mapError CompileError.rejected = .error e at h
      rw [hcheck] at h
      cases h
    | error d =>
      change (checkFresh p).mapError CompileError.rejected = .error e at h
      rw [hcheck] at h
      obtain rfl := Except.error.inj h
      obtain ⟨sign, hmark, hsign⟩ := (p.check_blames _).of_checkFresh hcheck
      obtain ⟨kind, hmem, hfits⟩ := Program.ofSource_marked hp sign d.location hmark
      refine ⟨_, hmem, rfl, fun d' hd' sign' hsign' => ?_⟩
      obtain rfl := CompileError.rejected.inj hd'
      rwa [hsign sign' hsign']

/-- Behind values that are known, a division by zero is still reported at its slash. -/
theorem known_division_error :
    let source := "const int z = 3; int f() \x7b return 1 / (z - 3); \x7d"
    compile source = .error (.rejected ⟨.divisionByZero, ⟨1, 37⟩⟩) ∧
      ∃ t ∈ Token.ofSource source, t.location = ⟨1, 37⟩ ∧ t.kind = .symbol .slash := by
  intro source
  have hfails : (match compile source with
      | .error e => e == .rejected ⟨.divisionByZero, ⟨1, 37⟩⟩
      | .ok _ => false) = true := by decide +kernel
  have herror : compile source = .error (.rejected ⟨.divisionByZero, ⟨1, 37⟩⟩) := by
    cases hcompile : compile source with
    | ok r =>
      rw [hcompile] at hfails
      cases hfails
    | error e =>
      rw [hcompile] at hfails
      exact congrArg Except.error (beq_iff_eq.mp hfails)
  obtain ⟨t, ht, hlocation, hsign⟩ := compile_error_at_token herror
  obtain ⟨s, hs, htext⟩ := hsign _ rfl _ rfl
  refine ⟨herror, t, ht, hlocation, ?_⟩
  cases s <;> first | exact hs | exact absurd htext (by decide)

end SysYFront
