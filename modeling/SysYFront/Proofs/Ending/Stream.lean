import SysYFront.Proofs.Ending.Whole
import SysYFront.Proofs.Progress.Stream

/-!
# SysYFront.Proofs.Ending.Stream

What stands behind the end of a file makes no difference (`reading_ignores_behind_end`). A stream
holds the tokens before the first `endOfFile` only, so it is the same for lists that agree up to it.
A stream that shows the whole file holds all of its tokens, and a call on it does what a call on the
tokens before the end does. By induction on the calls this holds of any number of them, also of those
behind an error.
-/

namespace SysYFront

namespace TokenStream

variable {tokens tokens' : List Token} {s whole : TokenStream} {e : Ending}

/-! ### Tokens up to the end -/

/-- The tokens up to the first `endOfFile`, and that one. -/
def upToEnd : List Token → List Token
  | [] => []
  | t :: ts => if t.kind = .endOfFile then [t] else t :: upToEnd ts

theorem upToEnd_of_end {t : Token} (h : t.kind = .endOfFile) (ts : List Token) :
    upToEnd (t :: ts) = [t] :=
  if_pos h

theorem upToEnd_of_word {t : Token} (h : t.kind ≠ .endOfFile) (ts : List Token) :
    upToEnd (t :: ts) = t :: upToEnd ts :=
  if_neg h

theorem upToEnd_starts (tokens : List Token) : upToEnd tokens <+: tokens := by
  induction tokens with
  | nil => exact List.prefix_rfl
  | cons t ts ih =>
    by_cases ht : t.kind = .endOfFile
    · rw [upToEnd_of_end ht]
      exact (List.prefix_cons_inj t).mpr List.nil_prefix
    · rw [upToEnd_of_word ht]
      exact (List.prefix_cons_inj t).mpr ih

theorem visible_upToEnd (tokens : List Token) : visible (upToEnd tokens) 0 = visible tokens 0 := by
  simp only [visible, List.drop_zero]
  induction tokens with
  | nil => rfl
  | cons t ts ih =>
    by_cases ht : t.kind = .endOfFile
    · simp [upToEnd_of_end ht, ht]
    · simp [upToEnd_of_word ht, ht, ih]

theorem find?_upToEnd (tokens : List Token) :
    (upToEnd tokens).find? (fun t => t.kind == .endOfFile) =
      tokens.find? fun t => t.kind == .endOfFile := by
  induction tokens with
  | nil => rfl
  | cons t ts ih =>
    by_cases ht : t.kind = .endOfFile
    · simp [upToEnd_of_end ht, ht]
    · simp [upToEnd_of_word ht, ht, ih]

/-- Without an `endOfFile` a list goes up to its last token. -/
theorem upToEnd_eq_self (h : tokens.find? (fun t => t.kind == .endOfFile) = none) :
    upToEnd tokens = tokens := by
  induction tokens with
  | nil => rfl
  | cons t ts ih =>
    rw [List.find?_eq_none, List.forall_mem_cons] at h
    rw [upToEnd_of_word (by simpa using h.1), ih (List.find?_eq_none.mpr h.2)]

/-- A stream is the same for tokens and for those up to the end. -/
theorem ofTokens_upToEnd (h : ∀ t ∈ tokens, ∀ reason, t.kind ≠ .invalid reason) :
    ofTokens (upToEnd tokens) = ofTokens tokens := by
  have hupTo : ∀ t ∈ upToEnd tokens, ∀ reason, t.kind ≠ .invalid reason :=
    fun t ht => h t ((upToEnd_starts tokens).subset ht)
  have hvisible := visible_upToEnd tokens
  simp only [visible, List.drop_zero] at hvisible
  unfold ofTokens
  simp only [Grammar.firstInvalid?_eq_none h, Grammar.firstInvalid?_eq_none hupTo, hvisible,
    find?_upToEnd]
  cases hfind : tokens.find? fun t => t.kind == .endOfFile with
  | some t => rfl
  | none => rw [upToEnd_eq_self hfind]

/-! ### Streams that show the whole file -/

/-- A stream of all tokens, those behind the first `endOfFile` too. The end of the file is supplied
where the tokens do not end with it. -/
def showing (tokens : List Token) : Except SyntaxError TokenStream :=
  (ofTokens tokens).map fun s => { s with tokens := supplied tokens }

/-- What is left of a stream that shows the whole file after some calls of the reader of programs,
whatever they give. -/
def afterWholeCalls (whole : TokenStream) : Nat → TokenStream
  | 0 => whole
  | n + 1 => ((whole.afterWholeCalls n).run Whole.readProgram).2

/-- Whether a stream shows the whole file, where another one has the tokens before its end. -/
structure ShowsBehind (e : Ending) (s whole : TokenStream) : Prop where
  tokens : whole.tokens = s.tokens ++ e.tokens
  finish : s.finish = e.finish
  words : ∀ t ∈ s.tokens, t.kind ≠ .endOfFile

theorem ShowsBehind.current_eq (h : ShowsBehind e s whole) : whole.current = s.current := by
  rw [current, current, h.tokens, h.finish]
  cases s.tokens with
  | nil => rfl
  | cons t ts => rfl

/-- What a reader leaves shows what is behind the end as before. -/
theorem ShowsBehind.leave {rest rest' : List Token} (h : ShowsBehind e s whole)
    (hrest : rest' = rest ++ e.tokens) (hsuffix : rest <:+ s.tokens) :
    ShowsBehind e { s with tokens := rest } { whole with tokens := rest' } where
  tokens := hrest
  finish := h.finish
  words := fun t ht => h.words t (hsuffix.subset ht)

/-- A call on the whole file gives what a call on the tokens before the end gives, and leaves the
same. -/
theorem ShowsBehind.run {α : Type} {k : Nat} {m m' : Reading α} (h : ShowsBehind e s whole)
    (hm : Reading.AlikeBefore e k m m' s.tokens) :
    (whole.run m').1 = (s.run m).1 ∧ ShowsBehind e (s.run m).2 (whole.run m').2 := by
  obtain ⟨hsame, hmoves⟩ := hm h.words
  rw [← h.tokens] at hsame
  unfold TokenStream.run
  cases hread : m s.tokens with
  | ok a rest =>
    rw [hread] at hsame
    rw [hsame]
    exact ⟨rfl, h.leave rfl (hmoves.of_ok hread).1⟩
  | error wanted rest =>
    rw [hread] at hsame
    rw [hsame]
    have hleft := h.leave rfl (hmoves.of_error hread)
    exact ⟨by simp only [Reading.followedBy, hleft.current_eq], hleft⟩

/-- Calls of the reader of programs keep step with one another. -/
theorem ShowsBehind.afterCalls (h : ShowsBehind e s whole) (n : Nat) :
    ShowsBehind e (s.afterCalls n) (whole.afterWholeCalls n) := by
  induction n with
  | zero => exact h
  | succ n ih => exact (ih.run (Whole.readProgram_alikeBefore _)).2

/-- A stream of all tokens shows behind the end of the file what stands there. -/
theorem exists_showing (h : ∀ t ∈ tokens, ∀ reason, t.kind ≠ .invalid reason)
    (hs : ofTokens tokens = .ok s) :
    ∃ whole e, showing tokens = .ok whole ∧ ShowsBehind e s whole := by
  have hwhole : showing tokens = .ok { s with tokens := supplied tokens } := by
    rw [showing, hs]
    rfl
  obtain ⟨t, behind, hsupplied, hfind⟩ := exists_end (supplied_getLast? tokens)
  have hkind : t.kind = .endOfFile := by simpa using List.find?_some hfind
  rw [← ofTokens_supplied h] at hs
  rw [← ofTokens_visible hs] at hsupplied
  refine ⟨_, ⟨s.finish, behind⟩, hwhole, ?_, rfl, ?_⟩
  · rw [Ending.tokens, ofTokens_finish hs hfind, ← hkind]
    exact hsupplied
  · intro t ht
    rw [ofTokens_visible hs] at ht
    simpa using List.mem_takeWhile_imp ht

end TokenStream

open TokenStream

variable {tokens tokens' : List Token}

/-- **What stands behind the end of a file makes no difference.** Take two lists of tokens that are
words of the language, with ends of the file anywhere, which agree up to the first `endOfFile`. The
streams of both are the same. And if all tokens are shown to the readers, who may look at those
behind the end, then every call of the reader of programs, also behind errors, still gives on either
list what it gives on that stream: the same program, or the same error at the same place. -/
theorem reading_ignores_behind_end (h : ∀ t ∈ tokens, ∀ reason, t.kind ≠ .invalid reason)
    (h' : ∀ t ∈ tokens', ∀ reason, t.kind ≠ .invalid reason)
    (hsame : upToEnd tokens = upToEnd tokens') :
    ∃ s whole whole', ofTokens tokens = .ok s ∧ ofTokens tokens' = .ok s ∧
      showing tokens = .ok whole ∧ showing tokens' = .ok whole' ∧ ∀ n,
        ((whole.afterWholeCalls n).run Whole.readProgram).1 =
          ((s.afterCalls n).run Program.read).1 ∧
        ((whole'.afterWholeCalls n).run Whole.readProgram).1 =
          ((s.afterCalls n).run Program.read).1 := by
  obtain ⟨s, hs⟩ := Grammar.exists_stream h
  have hs' : ofTokens tokens' = .ok s := by
    rw [← ofTokens_upToEnd h', ← hsame, ofTokens_upToEnd h, hs]
  obtain ⟨whole, e, hwhole, hshows⟩ := exists_showing h hs
  obtain ⟨whole', e', hwhole', hshows'⟩ := exists_showing h' hs'
  refine ⟨s, whole, whole', hs, hs', hwhole, hwhole', fun n => ⟨?_, ?_⟩⟩
  · exact ((hshows.afterCalls n).run (Whole.readProgram_alikeBefore _)).1
  · exact ((hshows'.afterCalls n).run (Whole.readProgram_alikeBefore _)).1

/-- Of `int` alone a declaration is read, and a function if an opening bracket stands behind the end
of the file. Either way the first call wants a name at the end, and later calls give the same. -/
theorem bracket_behind_end_ignored :
    let tokens : List Token := [⟨.keyword .intKw, ⟨1, 1⟩⟩, ⟨.endOfFile, ⟨1, 4⟩⟩]
    let tokens' : List Token := tokens ++ [⟨.symbol .leftParen, ⟨2, 1⟩⟩]
    (∀ t ∈ tokens, ∀ reason, t.kind ≠ .invalid reason) ∧
      (∀ t ∈ tokens', ∀ reason, t.kind ≠ .invalid reason) ∧ upToEnd tokens = upToEnd tokens' ∧
      Grammar.shape (supplied tokens) = .declaration ∧
      Grammar.shape (supplied tokens') = .function ∧
      ∃ whole whole', showing tokens = .ok whole ∧ showing tokens' = .ok whole' ∧
        (whole.run Whole.readProgram).1 = .error ⟨.unexpected .name .endOfFile, ⟨1, 4⟩⟩ ∧
        (whole'.run Whole.readProgram).1 = .error ⟨.unexpected .name .endOfFile, ⟨1, 4⟩⟩ ∧
        ∀ n, ((whole.afterWholeCalls n).run Whole.readProgram).1 =
          ((whole'.afterWholeCalls n).run Whole.readProgram).1 := by
  intro tokens tokens'
  have hwords : ∀ t ∈ tokens, ∀ reason, t.kind ≠ .invalid reason := by simp [tokens]
  have hwords' : ∀ t ∈ tokens', ∀ reason, t.kind ≠ .invalid reason := by simp [tokens', tokens]
  have hsame : upToEnd tokens = upToEnd tokens' := rfl
  obtain ⟨s, whole, whole', hs, -, hwhole, hwhole', hcalls⟩ :=
    reading_ignores_behind_end hwords hwords' hsame
  have hstream : ofTokens tokens = .ok ⟨tokens.take 1, ⟨1, 4⟩⟩ := rfl
  obtain rfl := Except.ok.inj (hs.symm.trans hstream)
  refine ⟨hwords, hwords', hsame, rfl, rfl, whole, whole', hwhole, hwhole', ?_, ?_, fun n => ?_⟩
  · exact (hcalls 0).1.trans rfl
  · exact (hcalls 0).2.trans rfl
  · rw [(hcalls n).1, (hcalls n).2]

end SysYFront
