import SysYFront.Proofs.Grammar.Decl
import SysYFront.Proofs.Viable.Expr

/-!
# SysYFront.Proofs.Viable.Decl

Readers of declarations are settled (`readList_settled`): behind an item of an initializer there
is a comma or the closing brace, behind a declarator a comma or the semicolon, and whatever
else stands there is reported.
-/

namespace SysYFront.Grammar

open Reading
open Reading.Settled (loopBound exists_fuel lt_loopBound)

variable {ι : Type} {bound : ι → Nat} {tokens : List Token}

/-! ### Names and types -/

theorem readScalar_settled {wanted : Expectation} :
    Settled bound (fun us r => ∃ kind, ScalarWord kind r.1 ∧ us = [⟨kind, r.2⟩])
      (fun _ => Base.readScalar wanted) tokens := by
  have hsome : Completes (fun us (r : Base × Location) =>
      ∃ kind, ScalarWord kind r.1 ∧ us = [⟨kind, r.2⟩]) [] :=
    ⟨[⟨.keyword .intKw, .start⟩], (.int, .start), by simp [isWord], _, .int, rfl⟩
  cases tokens with
  | nil => exact .stop_nil wanted hsome fun _ => rfl
  | cons t ts =>
    obtain ⟨kind, l⟩ := t
    cases hbase : Base.ofScalarKind? kind with
    | none =>
      refine .stop_cons wanted hsome fun i us => ?_
      simp only [Base.readScalar, bind, EStateM.bind, next?, List.head?_cons, hbase]
      rfl
    | some base =>
      have hkind := ofScalarKind?_eq_some.mp hbase
      have htake : Settled bound (fun us r => ∃ kind', ScalarWord kind' r.1 ∧
          (⟨kind, l⟩ :: us : List Token) = [⟨kind', r.2⟩]) (fun _ => pure (base, l)) ts :=
        .pure ⟨kind, hkind, rfl⟩
      refine htake.take fun i us => ?_
      simp only [Base.readScalar, bind, EStateM.bind, next?, List.head?_cons, hbase]
      rfl

/-! ### Initializers -/

/-- The items of a list, where initializers are settled. -/
theorem readItems_settled {n : Nat}
    (ih : ∀ ts : List Token, ts.length < n → Settled id Initializer Init.readWithin ts)
    (hlength : tokens.length < n) :
    Settled (fun j : Nat × Nat => min j.1 j.2) (Listed (.symbol .comma) Initializer)
      (fun j => Init.readItems (Init.readWithin j.1) j.2) tokens := by
  induction hsize : tokens.length using Nat.strongRecOn generalizing tokens with
  | ind size ihsize =>
    subst hsize
    have hmore : Settled (loopBound id) (Listed (.symbol .comma) Initializer)
        (fun j => readMore (Init.readWithin j.1) j.2) tokens := by
      refine (ih tokens hlength).inLoop.bindRun (fun j : Nat × Nat => min j.1 j.2) ?_ ?_ ?_
      · exact fun us item hitem => .of_whole (.plain (.one hitem))
      · -- an item takes a token, so there is fuel for what stands behind it
        intro us item j hitem
        obtain ⟨t, us, rfl, -⟩ := hitem.starts
        simp only [loopBound, id, List.length_cons]
        omega
      · rintro us item rest rfl hitem -
        refine .acceptIf (fun l ts hrest => ?_) fun _ => .pure ?_
        · subst hrest
          have hshort : ts.length < (us ++ ⟨.symbol .comma, l⟩ :: ts).length := by
            rw [List.length_append, List.length_cons]
            omega
          exact (ihsize _ hshort (Nat.lt_trans hshort hlength) rfl).map fun vs items hitems =>
            .more l hitem hitems
        · rw [List.append_nil]
          exact .plain (.one hitem)
    rcases notNext_or (.symbol .rightBrace) tokens with hnext | ⟨k, ts, rfl⟩
    · refine hmore.peek ?_
      rintro ⟨depth, fuel⟩ us hhead hfuel
      obtain ⟨fuel, rfl⟩ : ∃ n, fuel = n + 1 := ⟨fuel - 1, by omega⟩
      refine ⟨(depth, fuel), hfuel, ?_⟩
      cases us with
      | nil => rfl
      | cons t us => exact readItems_item (hnext t hhead.symm)
    · refine .give .nothing fun j us hhead => ?_
      obtain ⟨us, rfl⟩ := List.head?_eq_some_iff.mp hhead
      exact readItems_close

theorem init_readWithin_settled (n : Nat) :
    ∀ tokens : List Token, tokens.length < n → Settled id Initializer Init.readWithin tokens := by
  induction n with
  | zero => exact fun tokens hlength => absurd hlength (Nat.not_lt_zero _)
  | succ n ih =>
    intro tokens hlength
    refine .nested ?_
    have hexpr : Settled (· + 1) Initializer (fun _ : Nat => do
        let e ← Expr.read
        pure (.expr e)) tokens :=
      (read_settled tokens).map fun us e he => .expr he
    cases tokens with
    | nil => exact hexpr.congr_nil fun _ => rfl
    | cons t ts =>
      obtain ⟨kind, l⟩ := t
      have hshort : ts.length < n := Nat.lt_of_succ_lt_succ hlength
      cases kind with
      | stringLiteral s =>
        have htake : Settled id (fun us i => Initializer (⟨.stringLiteral s, l⟩ :: us) i)
            (fun _ => pure (Init.ofString s l)) ts := .pure (.string s l)
        exact htake.deeper fun _ _ => rfl
      | symbol s =>
        cases s with
        | leftBrace =>
          have hitems : Settled id (Listed (.symbol .comma) Initializer)
              (fun depth us => Init.readItems (Init.readWithin depth) (us.length + 1) us) ts :=
            (readItems_settled ih hshort).peek fun depth us _ hdepth =>
              ⟨(depth, us.length + 1), lt_loopBound hdepth, rfl⟩
          exact (hitems.bind fun us items rest hus _ => .expect fun k _ _ =>
            .pure (.list l k hus)).deeper fun _ _ => rfl
        | _ => exact hexpr.congr_cons fun _ _ => rfl
      | _ => exact hexpr.congr_cons fun _ _ => rfl

theorem init_read_settled (tokens : List Token) :
    Settled bound Initializer (fun _ => Init.read) tokens :=
  (init_readWithin_settled _ tokens (Nat.lt_succ_self _)).peek fun _ us _ _ =>
    ⟨us.length + 1, Nat.lt_succ_self _, rfl⟩

/-! ### Declarators -/

theorem readDimensions_settled (tokens : List Token) :
    Settled bound (Repeated Dimension) (fun _ => Decl.readDimensions) tokens := by
  rw [readDimensions_eq]
  refine .many ?_ fun ts _ => .expect fun l ts' _ => (read_settled ts').bind fun us e rest he _ =>
    .expect fun k _ _ => .pure (.mk l k he)
  rintro _ _ ⟨l, k, _⟩
  exact List.cons_ne_nil _ _

theorem readDeclarator_settled {isConst : Bool} {base : Base} (tokens : List Token) :
    Settled bound (Declarator isConst base) (fun _ => Decl.readDeclarator isConst base) tokens := by
  refine .expectName fun s l ts _ => (readDimensions_settled ts).bind fun us dims rest hus _ =>
    .acceptIf (fun k ts' _ => ?_) fun _ => .pure ?_
  · exact (init_read_settled ts').map fun vs i hvs => .initialized s l k hus hvs
  · rw [List.append_nil]
    exact .plain s l hus

/-- The reader of declaration lists is settled on every list of tokens. -/
theorem readList_settled (tokens : List Token) :
    Settled bound DeclarationList (fun _ => Decl.readList) tokens := by
  have hdeclarators {isConst : Bool} {base : Base} (ts : List Token) :
      Settled bound (Separated (.symbol .comma) (Declarator isConst base))
        (fun _ => separated (.symbol .comma) (Decl.readDeclarator isConst base)) ts :=
    .separated fun ts' _ => readDeclarator_settled ts'
  refine .accept (fun c ts _ => ?_) fun _ => ?_
  · refine readScalar_settled.bind ?_
    rintro _ ⟨base, l⟩ rest ⟨kind, hkind, rfl⟩ -
    exact (hdeclarators rest).bind fun us ds rest' hus _ => .expect fun k _ _ =>
      .pure (.const c l k hkind hus)
  · refine readScalar_settled.bind ?_
    rintro _ ⟨base, l⟩ rest ⟨kind, hkind, rfl⟩ -
    exact (hdeclarators rest).bind fun us ds rest' hus _ => .expect fun k _ _ =>
      .pure (.plain l k hkind hus)

end SysYFront.Grammar
