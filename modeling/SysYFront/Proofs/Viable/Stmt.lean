import SysYFront.Proofs.Grammar.Stmt
import SysYFront.Proofs.Viable.Decl

/-!
# SysYFront.Proofs.Viable.Stmt

Readers of statements and blocks are settled (`Stmt.read_settled`, `Block.read_settled`).

A statement is decided by its first token. Only behind the body of an `if` does what may come
depend on how the body was read: an `else` that stands there was not taken by the body, so the
body is closed.
-/

namespace SysYFront.Grammar

open Reading

variable {ι : Type} {bound : ι → Nat} {tokens : List Token}

/-! ### Blocks -/

theorem readSome_settled {stmt : ι → Reading (Stmt Unit)}
    (h : Settled bound Statement stmt tokens) :
    Settled bound BlockItem (fun i => Item.readSome (stmt i)) tokens := by
  have hstatement : Settled bound BlockItem (fun i => do
      let s ← stmt i
      pure [.stmt s]) tokens :=
    h.map fun us s hs => .statement hs
  cases tokens with
  | nil => exact hstatement.congr_nil fun _ => rfl
  | cons t ts =>
    cases ht : Decl.startsWith t.kind with
    | true =>
      exact ((readList_settled (t :: ts)).map (g := fun ds => ds.map .decl) fun us ds hds =>
        BlockItem.declarations hds).congr_cons fun i us => readSome_declaration ht
    | false => exact hstatement.congr_cons fun i us => readSome_statement ht

/-- What is read of a block behind its opening brace. -/
def readInside (stmt : Reading (Stmt Unit)) (l : Location) : Reading (Block Unit) := do
  let items ← many (· != .symbol .rightBrace) (Item.readSome stmt)
  let _ ← expect (.symbol .rightBrace) .closingBlock
  pure { items := items.flatten, location := l }

theorem readInside_settled {stmt : ι → Reading (Stmt Unit)} {l : Location}
    (h : ∀ ts, ts.length ≤ tokens.length → Settled bound Statement stmt ts) :
    Settled bound (fun us => Braced (⟨.symbol .leftBrace, l⟩ :: us))
      (fun i => readInside (stmt i) l) tokens := by
  have hitems : Settled bound (Repeated BlockItem)
      (fun i => many (· != .symbol .rightBrace) (Item.readSome (stmt i))) tokens := by
    refine .many (fun us items hD => ?_) fun ts hts => readSome_settled (h ts hts)
    obtain ⟨t, us, rfl, -⟩ := hD.starts
    exact List.cons_ne_nil _ _
  exact hitems.bind fun us parts rest hus _ => .expect fun k _ _ => .pure (.mk l k hus)

/-! ### Statements -/

theorem Braced.statement {ts : List Token} {b : Block Unit} (h : Braced ts b) :
    Statement ts (.block b.items b.location) := by
  obtain ⟨l, k, hts⟩ := h
  exact .block l k hts

theorem readCondition_settled {opening closing : Expectation} (tokens : List Token) :
    Settled bound Condition (fun _ => Stmt.readCondition opening closing) tokens :=
  .expect fun l ts _ => (read_settled ts).bind fun _ _ _ he _ =>
    .expect fun k _ _ => .pure (.mk l k he)

/-- The statement of an expression stands at the first token of the expression. -/
theorem readExpression_settled (t : Token) (ts : List Token) :
    Settled bound Statement (fun _ => Stmt.readExpression t.location) (t :: ts) := by
  refine (read_settled (t :: ts)).bindRun bound (fun us e he => ?_)
    (fun _ _ _ _ => Nat.le_add_right _ _) fun _ _ _ htokens he _ => .expect fun k _ _ => .pure ?_
  · obtain ⟨t', us, rfl, -⟩ := he.starts
    exact ⟨[⟨.symbol .semicolon, .start⟩], _, by simp [isWord], .expr .start he⟩
  · obtain ⟨t', us, rfl, -⟩ := he.starts
    obtain rfl : t = t' := (List.cons.inj htokens).1
    exact .expr k he

section Depth

variable {n : Nat}

theorem readKeyword_settled {k : Keyword} {l : Location}
    (ih : ∀ ts : List Token, ts.length < n → Settled id Statement Stmt.readWithin ts)
    (hk : Stmt.startsWith k = true) (hlength : tokens.length < n) :
    Settled id (fun us => Statement (⟨.keyword k, l⟩ :: us))
      (fun depth => Stmt.readKeyword (Stmt.readWithin depth) l k) tokens := by
  cases k with
  | ifKw =>
    refine (readCondition_settled tokens).bind fun ts c rest hts hrest => ?_
    refine (ih rest (by omega)).bindRun id
      (fun us s hus => .of_whole (.ifThen l hts hus))
      (fun _ _ _ _ => Nat.le_add_right _ _) fun us s left hleft hus hrun => ?_
    refine .acceptIf (fun k vs helse => ?_) fun _ => .pure ?_
    · subst helse
      -- an open statement would have taken the `else` itself
      have hclosed : ¬ EndsOpen s := fun hopen =>
        (stmt_readWithin_reads _).ends (hrun _ (Nat.lt_succ_self _)) hopen _ rfl rfl
      have hshort : vs.length < n := by
        rw [hleft, List.length_append, List.length_cons] at hrest
        omega
      refine (ih vs hshort).map fun ws s' hs' => ?_
      have hwhole := Statement.ifElse l k hts hus hclosed hs'
      rwa [List.append_assoc, List.cons_append] at hwhole
    · rw [List.append_nil]
      exact .ifThen l hts hus
  | whileKw =>
    refine (readCondition_settled tokens).bind fun ts c rest hts hrest => ?_
    exact (ih rest (by omega)).map fun us s hus => .whileLoop l hts hus
  | breakKw => exact .expect fun k _ _ => .pure (.breakLoop l k)
  | continueKw => exact .expect fun k _ _ => .pure (.continueLoop l k)
  | returnKw =>
    refine .acceptIf (fun k _ _ => .pure (.returnNothing l k)) fun _ => ?_
    exact (read_settled tokens).bind fun us e rest he _ => .expect fun k _ _ =>
      .pure (.returnValue l k he)
  | _ => cases hk

theorem stmt_readWithin_settled (n : Nat) :
    ∀ tokens : List Token, tokens.length < n → Settled id Statement Stmt.readWithin tokens := by
  induction n with
  | zero => exact fun tokens hlength => absurd hlength (Nat.not_lt_zero _)
  | succ n ih =>
    intro tokens hlength
    refine .nested ?_
    have hsome : Completes Statement [] :=
      ⟨[⟨.symbol .semicolon, .start⟩], _, by simp [isWord], .empty .start⟩
    cases tokens with
    | nil => exact .stop_nil .expression hsome fun _ => rfl
    | cons t ts =>
      obtain ⟨kind, l⟩ := t
      have hshort : ts.length < n := Nat.lt_of_succ_lt_succ hlength
      have hexpr : Settled (· + 1) Statement (fun _ : Nat => Stmt.readExpression l)
          (⟨kind, l⟩ :: ts) := readExpression_settled ⟨kind, l⟩ ts
      cases kind with
      | symbol s =>
        cases s with
        | leftBrace =>
          have hblock : Settled id (fun us => Braced (⟨.symbol .leftBrace, l⟩ :: us))
              (fun depth => readInside (Stmt.readWithin depth) l) ts :=
            readInside_settled fun ts' hts' => ih ts' (Nat.lt_of_le_of_lt hts' hshort)
          exact (hblock.map (g := fun b => Stmt.block b.items b.location) fun us b hb =>
            hb.statement).deeper fun _ _ => rfl
        | semicolon =>
          have htake : Settled id (fun us s => Statement (⟨.symbol .semicolon, l⟩ :: us) s)
              (fun _ => pure (.empty l)) ts := .pure (.empty l)
          exact htake.deeper fun _ _ => rfl
        | _ => exact hexpr.congr_cons fun _ _ => rfl
      | keyword k =>
        cases hk : Stmt.startsWith k with
        | true =>
          exact (readKeyword_settled ih hk hshort).deeper fun depth us => readWithin_keyword hk
        | false =>
          cases k with
          | constKw | intKw | floatKw => exact .stop_cons .statementBody hsome fun _ _ => rfl
          | voidKw | elseKw => exact .stop_cons .expression hsome fun _ _ => rfl
          | _ => cases hk
      | _ => exact hexpr.congr_cons fun _ _ => rfl

end Depth

/-- The reader of statements is settled on every list of tokens. -/
theorem stmt_read_settled (tokens : List Token) :
    Settled bound Statement (fun _ => Stmt.read) tokens :=
  (stmt_readWithin_settled _ tokens (Nat.lt_succ_self _)).peek fun _ us _ _ =>
    ⟨us.length + 1, Nat.lt_succ_self _, rfl⟩

theorem block_read_settled (tokens : List Token) :
    Settled bound Braced (fun _ => Block.read) tokens :=
  .expect fun _ _ _ => readInside_settled fun ts _ => stmt_read_settled ts

end SysYFront.Grammar
