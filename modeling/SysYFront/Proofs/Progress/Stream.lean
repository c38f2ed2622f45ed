import SysYFront.Proofs.Progress.Program
import SysYFront.Proofs.Viable.Program

/-!
# SysYFront.Proofs.Progress.Stream

Reading a stream again and again, also behind an error. What is left of the tokens has a position
among them, and the end of the file is supplied where the tokens do not have it.

**Reading programs always ends, and inside the tokens** (`reading_ends_within_tokens`): no call goes
back, none goes past the first `endOfFile`, and a call that gives a program has come to it.
-/

namespace SysYFront

namespace TokenStream

variable {tokens : List Token} {s left : TokenStream}

/-- The end of the file at the place of the last token. -/
def endBehind (tokens : List Token) : Token :=
  ⟨.endOfFile, (tokens.getLast?.map Token.location).getD .nowhere⟩

/-- The tokens, with the end of the file supplied where it is missing. -/
def supplied (tokens : List Token) : List Token :=
  if tokens.getLast?.map Token.kind = some .endOfFile then tokens else tokens ++ [endBehind tokens]

/-- The position of the first `endOfFile`. -/
def firstEnd (tokens : List Token) : Nat :=
  (supplied tokens).findIdx fun t => t.kind == .endOfFile

/-- The position where a stream stands, of which the first tokens are taken. -/
def position (tokens : List Token) (left : TokenStream) : Nat :=
  firstEnd tokens - left.tokens.length

/-- Whether a stream stands inside the tokens: its current token is the one at its position, no
`endOfFile` stands before that, and what it can read and where it ends is what the tokens say. -/
structure StandsIn (tokens : List Token) (left : TokenStream) : Prop where
  current : (supplied tokens)[position tokens left]? = some left.current
  before : ∀ t ∈ (supplied tokens).take (position tokens left), t.kind ≠ .endOfFile
  rest : left.tokens = visible (supplied tokens) (position tokens left)
  finish : (supplied tokens).find? (fun t => t.kind == .endOfFile) = some ⟨.endOfFile, left.finish⟩

/-- What is left of a stream after some calls of the reader of programs, whatever they give. -/
def afterCalls (s : TokenStream) : Nat → TokenStream
  | 0 => s
  | n + 1 => ((s.afterCalls n).run Program.read).2

theorem supplied_getLast? (tokens : List Token) :
    (supplied tokens).getLast?.map Token.kind = some .endOfFile := by
  unfold supplied
  split
  · assumption
  · rw [List.getLast?_concat]
    rfl

theorem visible_endBehind (tokens : List Token) :
    visible (tokens ++ [endBehind tokens]) 0 = visible tokens 0 := by
  simp only [visible, List.drop_zero, List.takeWhile_append]
  split
  · rename_i hall
    rw [(List.takeWhile_prefix _).eq_of_length hall]
    exact List.append_nil tokens
  · rfl

/-- It makes no difference to a stream whether the end of the file is supplied. -/
theorem ofTokens_supplied (h : ∀ t ∈ tokens, ∀ reason, t.kind ≠ .invalid reason) :
    ofTokens (supplied tokens) = ofTokens tokens := by
  unfold supplied
  split
  · rfl
  · have hsupplied : ∀ t ∈ tokens ++ [endBehind tokens], ∀ reason, t.kind ≠ .invalid reason :=
      List.forall_mem_append.mpr ⟨h, List.forall_mem_singleton.mpr nofun⟩
    have hvisible := visible_endBehind tokens
    simp only [visible, List.drop_zero] at hvisible
    unfold ofTokens
    simp only [Grammar.firstInvalid?_eq_none h, Grammar.firstInvalid?_eq_none hsupplied, hvisible,
      List.find?_append]
    cases tokens.find? fun t => t.kind == .endOfFile with
    | some t => rfl
    | none =>
      unfold endBehind
      cases tokens.getLast? with
      | none => rfl
      | some t => rfl

theorem length_visible (tokens : List Token) :
    (visible tokens 0).length = tokens.findIdx fun t => t.kind == .endOfFile := by
  unfold visible
  rw [List.drop_zero, List.takeWhile_eq_take_findIdx_not, List.length_take]
  simp [List.findIdx_le_length]

/-- A stream can be read up to the first `endOfFile`. -/
theorem length_tokens (h : ∀ t ∈ tokens, ∀ reason, t.kind ≠ .invalid reason)
    (hs : ofTokens tokens = .ok s) : s.tokens.length = firstEnd tokens := by
  rw [← ofTokens_supplied h] at hs
  rw [ofTokens_visible hs, length_visible, firstEnd]

/-- The streams that stand inside the tokens are those that are left of them. -/
theorem standsIn_iff (h : ∀ t ∈ tokens, ∀ reason, t.kind ≠ .invalid reason)
    (hs : ofTokens tokens = .ok s) :
    StandsIn tokens left ↔ left.tokens <:+ s.tokens ∧ left.finish = s.finish := by
  have hend := supplied_getLast? tokens
  have hlength := length_tokens h hs
  rw [← ofTokens_supplied h] at hs
  have htokens : s.tokens = visible (supplied tokens) 0 := ofTokens_visible hs
  -- what is left at a position that the tokens reach
  have hdrop {p : Nat} (hp : p ≤ firstEnd tokens) :
      visible (supplied tokens) p = s.tokens.drop p := by
    rw [htokens, ← visible_add (by rwa [← htokens, hlength]), Nat.zero_add]
  constructor
  · intro hstands
    refine ⟨?_, (ofTokens_finish hs hstands.finish).symm⟩
    have hposition : position tokens left ≤ firstEnd tokens := Nat.sub_le _ _
    rw [hstands.rest, hdrop hposition]
    exact List.drop_suffix _ _
  · rintro ⟨⟨taken, htaken⟩, hfinish⟩
    obtain ⟨ts, hsupplied, hwords, -⟩ := exists_current hend hs htaken.symm hfinish
    have hposition : position tokens left = taken.length := by
      rw [position, ← hlength, ← htaken, List.length_append, Nat.add_sub_cancel_right]
    obtain ⟨t, -, -, hfind⟩ := exists_end hend
    have hkind : t.kind = .endOfFile := by simpa using List.find?_some hfind
    exact {
      current := by
        rw [hposition, hsupplied, List.getElem?_append_right (Nat.le_refl _), Nat.sub_self,
          List.getElem?_cons_zero]
      before := by
        rw [hposition, hsupplied, List.take_left]
        exact hwords
      rest := by
        rw [hposition, hdrop (by rw [← hposition]; exact Nat.sub_le _ _), ← htaken, List.drop_left]
      finish := by
        rw [hfind, hfinish, ofTokens_finish hs hfind, ← hkind] }

end TokenStream

open TokenStream

/-- Whether a reader that is called on any stream inside the tokens goes on inside them, and never
back, and at least by `k` tokens where it succeeds. -/
def Reading.Advances {α : Type} (k : Nat) (m : Reading α) (tokens : List Token) : Prop :=
  ∀ s : TokenStream, StandsIn tokens s → StandsIn tokens (s.run m).2 ∧
    position tokens s ≤ position tokens (s.run m).2 ∧
    ∀ a, (s.run m).1 = .ok a → position tokens s + k ≤ position tokens (s.run m).2

/-- The readers of all phrases advance, and each of them has taken a token when it succeeds. -/
structure ReadersAdvance (tokens : List Token) : Prop where
  advance : Reading.advance.Advances 0 tokens
  accept (kind : Token.Kind) : (Reading.accept kind).Advances 0 tokens
  operand : (Expr.readOperand Expr.readAt).Advances 1 tokens
  expr (least : Nat) : (Expr.readAt least).Advances 1 tokens
  init : Init.read.Advances 1 tokens
  declarations : Decl.readList.Advances 1 tokens
  param : Param.read.Advances 1 tokens
  stmt : Stmt.read.Advances 1 tokens
  block : Block.read.Advances 1 tokens
  function : Function.read.Advances 1 tokens
  unit : TopLevel.readSome.Advances 1 tokens
  program : Program.read.Advances 0 tokens

variable {tokens : List Token}

/-- What is left of a stream is what the reader leaves. -/
theorem TokenStream.run_left {α : Type} {k : Nat} {m : Reading α} {s : TokenStream}
    (hm : m.Moves k s.tokens) :
    (s.run m).2.tokens <:+ s.tokens ∧ (s.run m).2.finish = s.finish ∧
      ∀ a, (s.run m).1 = .ok a → (s.run m).2.tokens.length + k ≤ s.tokens.length := by
  unfold run
  cases hread : m s.tokens with
  | ok a rest =>
    obtain ⟨hsuffix, hlength⟩ := hm.of_ok hread
    exact ⟨hsuffix, rfl, fun _ _ => hlength⟩
  | error wanted rest => exact ⟨hm.of_error hread, rfl, nofun⟩

/-- A reader that moves advances. -/
theorem Reading.Moves.advances {α : Type} {k : Nat} {m : Reading α}
    (h : ∀ t ∈ tokens, ∀ reason, t.kind ≠ .invalid reason) (hm : ∀ ts, m.Moves k ts) :
    m.Advances k tokens := by
  intro s hs
  obtain ⟨stream, hstream⟩ := Grammar.exists_stream h
  obtain ⟨hsuffix, hfinish⟩ := (standsIn_iff h hstream).mp hs
  obtain ⟨hleft, hleftFinish, hmoved⟩ := run_left (hm s.tokens)
  have hinside : s.tokens.length ≤ firstEnd tokens :=
    length_tokens h hstream ▸ hsuffix.length_le
  have hshorter := hleft.length_le
  refine ⟨(standsIn_iff h hstream).mpr ⟨hleft.trans hsuffix, hleftFinish.trans hfinish⟩, ?_, ?_⟩
  · unfold position
    omega
  · intro a ha
    have hmovedBy := hmoved a ha
    unfold position
    omega

/-- The readers of all phrases advance. -/
theorem readersAdvance (h : ∀ t ∈ tokens, ∀ reason, t.kind ≠ .invalid reason) :
    ReadersAdvance tokens where
  advance := Reading.Moves.advances h fun _ => Reading.Alike.skip.moves
  accept kind := Reading.Moves.advances h fun _ => (Reading.Alike.accept kind).moves
  operand := Reading.Moves.advances h fun _ =>
    (Expr.readOperand_alike fun least us _ => (Expr.readAt_moves least us).alike).moves
  expr least := Reading.Moves.advances h (Expr.readAt_moves least)
  init := Reading.Moves.advances h fun ts => (Init.read_alike ts).moves
  declarations := Reading.Moves.advances h fun ts => (Decl.readList_alike ts).moves
  param := Reading.Moves.advances h fun ts => (Param.read_alike ts).moves
  stmt := Reading.Moves.advances h fun ts => (Stmt.read_alike ts).moves
  block := Reading.Moves.advances h fun ts => (Block.read_alike ts).moves
  function := Reading.Moves.advances h fun ts => (Function.read_alike ts).moves
  unit := Reading.Moves.advances h fun ts => (TopLevel.readSome_alike ts).moves
  program := Reading.Moves.advances h fun ts => (Program.read_alike ts).moves

/-- A call that gives a program leaves no tokens, and neither do the calls after it. -/
theorem TokenStream.afterCalls_of_ok {s : TokenStream} {n : Nat} {p : Program Unit}
    (h : ((s.afterCalls n).run Program.read).1 = .ok p) {m : Nat} (hm : n < m) :
    (s.afterCalls m).tokens = [] := by
  induction m, hm using Nat.le_induction with
  | base =>
    show ((s.afterCalls n).run Program.read).2.tokens = []
    unfold run at h ⊢
    cases hread : Program.read (s.afterCalls n).tokens with
    | ok p' rest => exact (Grammar.program_read_eq_ok.mp hread).1
    | error wanted rest =>
      rw [hread] at h
      cases h
  | succ m _ ih =>
    show ((s.afterCalls m).run Program.read).2.tokens = []
    rw [run, ih]
    rfl

/-- **Reading programs always ends, and inside the tokens.** Take any tokens that are words of the
language, with ends of the file anywhere. No recursion and no loop of the readers goes on with as
many tokens as it has. Every reader that is called inside the tokens stays inside them, before or at
the first `endOfFile`, and never goes back, and the readers of phrases take at least one token where
they succeed. However often the reader of programs is called, also behind its errors, the current
token is the one at its position; and once it has given a program it stands at the first
`endOfFile`, where every further call gives the empty program. -/
theorem reading_ends_within_tokens (h : ∀ t ∈ tokens, ∀ reason, t.kind ≠ .invalid reason) :
    RecursionsEnd ∧ ReadersAdvance tokens ∧
      ∃ s, ofTokens tokens = .ok s ∧ position tokens s = 0 ∧ ∀ n,
        StandsIn tokens (s.afterCalls n) ∧
        position tokens (s.afterCalls n) ≤ position tokens (s.afterCalls (n + 1)) ∧
        ∀ p, ((s.afterCalls n).run Program.read).1 = .ok p → ∀ m, n < m →
          position tokens (s.afterCalls m) = firstEnd tokens ∧
          (s.afterCalls m).run Program.read = (.ok [], s.afterCalls m) := by
  have hadvance := readersAdvance h
  obtain ⟨s, hs⟩ := Grammar.exists_stream h
  have hstands (n : Nat) : StandsIn tokens (s.afterCalls n) := by
    induction n with
    | zero => exact (standsIn_iff h hs).mpr ⟨List.suffix_rfl, rfl⟩
    | succ n ih => exact (hadvance.program _ ih).1
  refine ⟨recursionsEnd, hadvance, s, hs, ?_, fun n => ⟨hstands n, ?_, ?_⟩⟩
  · show firstEnd tokens - s.tokens.length = 0
    rw [length_tokens h hs, Nat.sub_self]
  · exact (hadvance.program _ (hstands n)).2.1
  · intro p hp m hm
    have hend := afterCalls_of_ok hp hm
    constructor
    · rw [position, hend]
      rfl
    · generalize s.afterCalls m = left at hend ⊢
      obtain ⟨tokens, finish⟩ := left
      subst hend
      rfl

/-- Of `void f(;` the first call reads up to the semicolon and fails. The second call takes the
semicolon and comes to the end; what stands behind the end is never read. -/
theorem unclosed_parameters_end_within_tokens :
    let tokens : List Token := [⟨.keyword .voidKw, ⟨1, 1⟩⟩, ⟨.name "f", ⟨1, 6⟩⟩,
      ⟨.symbol .leftParen, ⟨1, 7⟩⟩, ⟨.symbol .semicolon, ⟨1, 8⟩⟩, ⟨.endOfFile, ⟨1, 9⟩⟩,
      ⟨.keyword .intKw, ⟨2, 1⟩⟩]
    (∀ t ∈ tokens, ∀ reason, t.kind ≠ .invalid reason) ∧
      ∃ s, ofTokens tokens = .ok s ∧
        (s.run Program.read).1 =
          .error ⟨.unexpected .parameterBase (.symbol .semicolon), ⟨1, 8⟩⟩ ∧
        position tokens (s.afterCalls 1) = 3 ∧ StandsIn tokens (s.afterCalls 1) ∧
        ∀ m, 1 < m → position tokens (s.afterCalls m) = 4 ∧
          (s.afterCalls m).run Program.read = (.ok [], s.afterCalls m) := by
  intro tokens
  have hwords : ∀ t ∈ tokens, ∀ reason, t.kind ≠ .invalid reason := by
    simp [tokens]
  obtain ⟨-, -, s, hs, -, hcalls⟩ := reading_ends_within_tokens hwords
  refine ⟨hwords, s, hs, ?_⟩
  have hstream : ofTokens tokens = .ok ⟨tokens.take 4, ⟨1, 9⟩⟩ := rfl
  obtain rfl := Except.ok.inj (hs.symm.trans hstream)
  exact ⟨rfl, rfl, (hcalls 1).1, (hcalls 1).2.2 [] rfl⟩

end SysYFront
