import SysYFront.Proofs.Grammar.Climbing
import SysYFront.Proofs.Viable.Settled

/-!
# SysYFront.Proofs.Viable.Expr

Readers of expressions are settled (`Expr.read_settled`). An expression that was read up to
some token is a whole one, so only an operand, an argument or a closing bracket can be wanted.

The loop behind an operand attaches what stands next to it, and the expression is `Ready` for
it, as in the proof that the loop reads the grammar.
-/

namespace SysYFront.Grammar

open Reading
open Reading.Settled (loopBound exists_fuel lt_loopBound)
open SysYFront.Expr (readWithin readOperand readArguments extend unaryPower)

/-- The tokens of an expression that a call with a least power may give. -/
def DerivesFrom (least : Nat) (ts : List Token) (e : Expr Unit) : Prop :=
  ∃ c, least ≤ c.power ∧ Derives c ts e

theorem DerivesFrom.whole {least : Nat} {ts : List Token} {e : Expr Unit}
    (h : DerivesFrom least ts e) : Derives .assignment ts e := by
  obtain ⟨c, -, he⟩ := h
  exact he.whole

/-- Whether calls are settled on fewer than `n` tokens. -/
def SettledBelow (n : Nat) : Prop :=
  ∀ least ≤ unaryPower, ∀ tokens : List Token, tokens.length < n →
    Settled id (DerivesFrom least) (fun depth => readWithin depth least) tokens

variable {n least : Nat}

theorem SettledBelow.whole (ih : SettledBelow n) {tokens : List Token}
    (hlength : tokens.length < n) :
    Settled id (Derives .assignment) (fun depth => readWithin depth 0) tokens :=
  (ih 0 (Nat.zero_le _) tokens hlength).imp fun _ _ => DerivesFrom.whole

theorem readArguments_settled (ih : SettledBelow n) {tokens : List Token}
    (hlength : tokens.length < n) :
    Settled id Arguments (fun depth => readArguments (readWithin depth)) tokens := by
  refine .acceptIf (fun k ts _ => .pure (.none k)) fun _ => ?_
  have hargs : Settled id (Separated (.symbol .comma) (Derives .assignment))
      (fun depth => Reading.separated (.symbol .comma) (readWithin depth 0)) tokens :=
    .separated fun ts hts => ih.whole (Nat.lt_of_le_of_lt hts hlength)
  exact hargs.bind fun us args rest hus _ => .expect fun k ts _ => .pure (.some k hus)

/-- What stands behind a symbol is read by a round of the loop. -/
theorem extend_round {taken ts : List Token} {e : Expr Unit} {s : Symbol} {l : Location}
    {f : Nat → Nat → Reading (Expr Unit)}
    (h : Settled (loopBound id) (fun vs => DerivesFrom least (taken ++ ⟨.symbol s, l⟩ :: vs))
      (fun j => f j.1 j.2) ts)
    (hf : ∀ depth fuel us, extend (readWithin depth) least (fuel + 1) e (⟨.symbol s, l⟩ :: us) =
      f depth fuel us) :
    Settled (loopBound id) (fun vs => DerivesFrom least (taken ++ vs))
      (fun j => extend (readWithin j.1) least j.2 e) (⟨.symbol s, l⟩ :: ts) := by
  refine h.cons ?_
  rintro ⟨depth, fuel⟩ us hlength
  obtain ⟨fuel, rfl, hfuel⟩ := exists_fuel hlength
  exact ⟨(depth, fuel), hfuel, hf depth fuel us⟩

/-- The loop is settled where the expression is ready for what stands next. -/
theorem extend_settled (ih : SettledBelow n) (hleast : least ≤ unaryPower)
    {taken tokens : List Token} {e : Expr Unit} (hlength : tokens.length < n)
    (hready : Ready least taken e tokens) :
    Settled (loopBound id) (fun vs => DerivesFrom least (taken ++ vs))
      (fun j => extend (readWithin j.1) least j.2 e) tokens := by
  induction hsize : tokens.length using Nat.strongRecOn generalizing taken tokens e with
  | ind size ihsize =>
    subst hsize
    by_cases hgo : Follows least tokens
    · -- nothing is attached, and the expression is whole
      obtain ⟨c, hc, he, -⟩ := hready
      have hwhole : DerivesFrom least (taken ++ []) e := by
        rw [List.append_nil]
        exact ⟨c, hc, he⟩
      exact .give hwhole fun j us hhead => extend_of_follows (by rw [Follows, hhead]; exact hgo)
    · obtain ⟨c, -, he, hnext⟩ := hready
      obtain ⟨s, l, ts, rfl, hs⟩ := exists_of_not_follows hgo
      obtain ⟨hopens, hconnective⟩ := hnext _ rfl
      have hshort : ts.length < n := Nat.lt_of_succ_lt hlength
      rcases hs with rfl | rfl | ⟨k, hk, hle⟩
      · refine extend_round ?_ fun depth fuel us => extend_bracket
        refine (ih.whole hshort).inLoop.bind fun us i rest hi hrest => .expect fun k ts' hts' => ?_
        have hwhole := Derives.index l k (he.loosen (hopens (.inl rfl))) hi
        refine (ihsize _ (by rw [List.length_cons]; omega) (by omega)
          (.of_suffixed hwhole (Nat.le_refl _) hleast) rfl).imp fun vs e' h => ?_
        simpa using h
      · refine extend_round ?_ fun depth fuel us => extend_paren
        refine (readArguments_settled ih hshort).inLoop.bind fun us args rest hargs hrest => ?_
        have hwhole := (he.loosen (hopens (.inr rfl))).call_arguments l hargs
        refine (ihsize _ (by rw [List.length_cons]; omega) (by omega)
          (.of_suffixed hwhole (Nat.le_refl _) hleast) rfl).imp fun vs e' h => ?_
        simpa using h
      · refine extend_round ?_ fun depth fuel us => extend_connective hk hle
        have hleft := he.loosen (hconnective k hk)
        refine (ih _ (rightPower_le k) ts hshort).inLoop.bindRun (loopBound id) ?_ ?_ ?_
        · rintro us b ⟨c', hc', hb⟩
          obtain ⟨d, hd, -, hwhole⟩ := hleft.connect hk hc' hb
          exact .of_whole ⟨d, by omega, hwhole⟩
        · exact fun us b j _ => Nat.le_add_right _ _
        · rintro us b rest rfl ⟨c', hc', hb⟩ hrun
          -- what stands behind the right operand is known only from the call that read it
          have hread := hrun (_, _) (lt_loopBound (Nat.lt_succ_self _))
          obtain ⟨-, -, -, -, -, hfollows⟩ :=
            (climbs _).sound (rightPower_le k) (Nat.lt_succ_self _) hread
          obtain ⟨d, hpower, hreach, hwhole⟩ := hleft.connect hk hc' hb
          rw [List.length_append] at hshort
          refine (ihsize _ (by rw [List.length_cons, List.length_append]; omega) (by omega)
            (.of_follows hwhole (hpower ▸ hle) (hreach ▸ hfollows)) rfl).imp fun vs e' h => ?_
          simpa using h

/-- Reading an operand is settled, and takes a token. -/
theorem readOperand_settled (ih : SettledBelow n) (hleast : least ≤ unaryPower)
    {tokens : List Token} (hlength : tokens.length ≤ n) :
    Settled (· + 1) (fun us e => us ≠ [] ∧ DerivesFrom least us e)
      (fun depth => readOperand (readWithin depth)) tokens := by
  have hprimary {c : Category} (hc : c = .primary) : least ≤ c.power :=
    hc ▸ Nat.le_trans hleast (by decide)
  have hsome : Completes (fun us e => us ≠ [] ∧ DerivesFrom least us e) [] :=
    ⟨[⟨.intLiteral 0, .start⟩], _, by simp [isWord], List.cons_ne_nil _ _, _, hprimary rfl,
      .int 0 .start⟩
  cases tokens with
  | nil => exact .stop_nil .expression hsome fun _ => rfl
  | cons t ts =>
    obtain ⟨kind, l⟩ := t
    have hshort : ts.length < n := hlength
    have primary {e : Expr Unit} (he : Derives .primary [⟨kind, l⟩] e)
        (hread : ∀ depth us, readOperand (readWithin depth) (⟨kind, l⟩ :: us) = .ok e us) :
        Settled (· + 1) (fun us e => us ≠ [] ∧ DerivesFrom least us e)
          (fun depth => readOperand (readWithin depth)) (⟨kind, l⟩ :: ts) := by
      have hpure : Settled id
          (fun us e => ⟨kind, l⟩ :: us ≠ [] ∧ DerivesFrom least (⟨kind, l⟩ :: us) e)
          (fun _ => pure e) ts :=
        .pure ⟨List.cons_ne_nil _ _, _, hprimary rfl, he⟩
      exact hpure.deeper hread
    cases kind with
    | intLiteral n => exact primary (.int n l) fun _ _ => rfl
    | floatLiteral x => exact primary (.float x l) fun _ _ => rfl
    | name s => exact primary (.name s l) fun _ _ => rfl
    | symbol s =>
      cases hs : UnaryOp.ofSymbol? s with
      | some op =>
        have hop := unary_ofSymbol?_eq_some_iff.mp hs
        refine ((ih unaryPower (Nat.le_refl _) ts hshort).map ?_).deeper fun depth us =>
          readOperand_unary hop
        rintro us e ⟨c, hc, he⟩
        exact ⟨List.cons_ne_nil _ _, .unary, hleast, .unary l hop (he.loosen hc)⟩
      | none =>
        cases s with
        | leftParen =>
          refine ((ih.whole hshort).bind fun us e rest he _ => .expect fun k ts' _ =>
            .pure ?_).deeper fun depth us => readOperand_paren
          exact ⟨List.cons_ne_nil _ _, _, hprimary rfl, .group l k he⟩
        | plus | minus | bang => cases hs
        | _ => exact .stop_cons .expression hsome fun _ _ => rfl
    | _ => exact .stop_cons .expression hsome fun _ _ => rfl

theorem settledBelow (n : Nat) : SettledBelow n := by
  induction n with
  | zero => exact fun _ _ tokens hlength => absurd hlength (Nat.not_lt_zero _)
  | succ n ih =>
    intro least hleast tokens hlength
    have hoperand := readOperand_settled ih hleast (Nat.le_of_lt_succ hlength)
    have hbody : Settled (· + 1) (DerivesFrom least) (fun depth => do
        let e ← readOperand (readWithin depth)
        let tokens ← get
        extend (readWithin depth) least tokens.length e) tokens := by
      refine hoperand.bindRun id ?_ ?_ ?_
      · exact fun us e h => .of_whole h.2
      · exact fun us e depth h => Nat.add_le_add_left (List.length_pos_iff.mpr h.1) depth
      · intro us e rest htokens h hrun
        obtain ⟨taken, htaken, -, hready⟩ :=
          readOperand_sound (climbs _) hleast (Nat.lt_succ_self _) (hrun _ (Nat.lt_succ_self _))
        obtain rfl := List.append_cancel_right (htokens.symm.trans htaken)
        have hshort : rest.length < n := by
          have hpos := List.length_pos_iff.mpr h.1
          rw [htokens, List.length_append] at hlength
          omega
        exact (extend_settled ih hleast hshort hready).peek fun depth ts _ hlength =>
          ⟨(depth, ts.length), lt_loopBound hlength, rfl⟩
    exact hbody.nested

/-- The reader of expressions is settled on every list of tokens. -/
theorem read_settled {ι : Type} {bound : ι → Nat} (tokens : List Token) :
    Settled bound (Derives .assignment) (fun _ => Expr.read) tokens :=
  ((settledBelow _).whole (Nat.lt_succ_self _)).peek fun _ us _ _ =>
    ⟨us.length + 1, Nat.lt_succ_self _, rfl⟩

end SysYFront.Grammar
