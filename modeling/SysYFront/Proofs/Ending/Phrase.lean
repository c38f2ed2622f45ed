import SysYFront.Proofs.Ending.Reading
import SysYFront.Proofs.Progress.Decl

/-!
# SysYFront.Proofs.Ending.Phrase

The readers of expressions, initializers and declarations do not look for the end of the file, and
look at one token at a time. So each of them is alike itself before an ending: with the whole file in
view it does what it does with the tokens before the end.
-/

namespace SysYFront

open Reading

variable {e : Ending} {tokens : List Token}

/-! ### Expressions -/

namespace Expr

theorem readOperand_alikeBefore
    (h : ∀ least ts, ts.length < tokens.length →
      AlikeBefore e 1 (readAt least) (readAt least) ts) :
    AlikeBefore e 1 (readOperand readAt) (readOperand readAt) tokens := by
  refine .next? (fun _ => .throw _) fun t ts htokens => ?_
  subst htokens
  obtain ⟨kind, l⟩ := t
  have hself (least : Nat) : AlikeBefore e 1 (readAt least) (readAt least) ts :=
    h least ts (Nat.lt_succ_self _)
  cases kind with
  | intLiteral n => exact .advance (.pure _)
  | floatLiteral x => exact .advance (.pure _)
  | name s => exact .advance (.pure _)
  | stringLiteral s | keyword k | invalid reason | endOfFile => exact .throw _
  | symbol s =>
    dsimp only
    split
    · exact ((hself unaryPower).map _).past
    · split
      · apply AlikeBefore.advance
        apply (hself 0).bind
        intro x rest _
        exact .close _ _ _
      · exact .throw _

theorem readArguments_alikeBefore
    (h : ∀ ts, ts.length ≤ tokens.length → AlikeBefore e 1 (readAt 0) (readAt 0) ts) :
    AlikeBefore e 0 (readArguments readAt) (readArguments readAt) tokens := by
  apply (AlikeBefore.accept _).bind
  intro closed rest hrest
  split
  · exact .pure []
  · apply (AlikeBefore.separated _ (readAt_moves 0) fun ts hts => h ts (by omega)).bind
    intro args rest' _
    exact .close _ _ _

theorem extendStep_alikeBefore {least : Nat}
    (h : ∀ least ts, ts.length < tokens.length →
      AlikeBefore e 1 (readAt least) (readAt least) ts)
    (hloop : ∀ x ts, ts.length < tokens.length →
      AlikeBefore e 0 (extendAll readAt least x) (extendAll readAt least x) ts) (x : Expr Unit) :
    AlikeBefore e 0 (extendStep readAt least (extendAll readAt least) x)
      (extendStep readAt least (extendAll readAt least) x) tokens := by
  refine .next? (fun _ => .pure x) fun t ts htokens => ?_
  subst htokens
  obtain ⟨kind, l⟩ := t
  have hself (least : Nat) : AlikeBefore e 1 (readAt least) (readAt least) ts :=
    h least ts (Nat.lt_succ_self _)
  split
  · apply AlikeBefore.past
    apply (hself 0).bind
    intro i rest hrest
    apply (AlikeBefore.expect _ _).bind
    intro _ rest' hrest'
    exact hloop _ rest' (Nat.lt_succ_of_le (by omega))
  · apply AlikeBefore.past
    apply (readArguments_alikeBefore fun us hus => h 0 us (Nat.lt_succ_of_le hus)).bind
    intro args rest hrest
    exact hloop _ rest (Nat.lt_succ_of_le hrest)
  · split
    · split
      · exact .pure x
      · apply AlikeBefore.past
        apply (hself _).bind
        intro right rest hrest
        exact hloop _ rest (Nat.lt_succ_of_le (by omega))
    · exact .pure x
  · exact .pure x

/-- Expressions, whatever power they are read with. -/
theorem readAt_alikeBefore (least : Nat) (tokens : List Token) :
    AlikeBefore e 1 (readAt least) (readAt least) tokens := by
  refine .descend readAt_descends (fun least ts _ hself => ?_) least
  apply (readOperand_alikeBefore hself).bindFirst
  intro x rest hrest
  refine .descend (extendAll_descends least) (fun x us hus hloop => ?_) x
  exact extendStep_alikeBefore (fun least vs hvs => hself least vs (by omega)) hloop x

theorem read_alikeBefore (tokens : List Token) : AlikeBefore e 1 read read tokens :=
  readAt_alikeBefore 0 tokens

end Expr

/-! ### Initializers -/

namespace Init

/-- Reads one item, and behind a comma the items that `loop` reads. -/
def readOneOrMore (self : Reading (Init Unit)) (loop : Reading (List (Init Unit))) :
    Reading (List (Init Unit)) := do
  let item ← self
  if ← Reading.accept (.symbol .comma) then
    let items ← loop
    pure (item :: items)
  else pure [item]

theorem readOneOrMore_alikeBefore (h : AlikeBefore e 1 read read tokens)
    (hloop : ∀ ts, ts.length < tokens.length →
      AlikeBefore e 0 (readAll read) (readAll read) ts) :
    AlikeBefore e 0 (readOneOrMore read (readAll read)) (readOneOrMore read (readAll read))
      tokens := by
  apply h.bind
  intro item rest hrest
  apply (AlikeBefore.accept _).bind
  intro more rest' hrest'
  split
  · exact (hloop rest' (by omega)).map _
  · exact .pure [item]

theorem itemsStep_alikeBefore (h : AlikeBefore e 1 read read tokens)
    (hloop : ∀ ts, ts.length < tokens.length →
      AlikeBefore e 0 (readAll read) (readAll read) ts) :
    AlikeBefore e 0 (itemsStep read (readAll read)) (itemsStep read (readAll read)) tokens := by
  refine .next? (fun htokens => ?_) fun t ts htokens => ?_
  · subst htokens
    exact readOneOrMore_alikeBefore h hloop
  · subst htokens
    split
    · exact .pure []
    · exact readOneOrMore_alikeBefore h hloop

theorem step_alikeBefore
    (h : ∀ ts, ts.length < tokens.length → AlikeBefore e 1 read read ts) :
    AlikeBefore e 1 (step read) (step read) tokens := by
  refine .next? (fun _ => (Expr.read_alikeBefore []).map _) fun t ts htokens => ?_
  subst htokens
  split
  · exact .advance (.pure _)
  · apply AlikeBefore.advance
    have hitems : AlikeBefore e 0 (readAll read) (readAll read) ts := by
      refine .descend readAll_descends (fun _ us hus hloop => ?_) ()
      exact itemsStep_alikeBefore (h us (Nat.lt_succ_of_le hus)) (hloop ())
    apply hitems.bind
    intro items rest _
    exact .close _ _ _
  · exact (Expr.read_alikeBefore _).map _

theorem read_alikeBefore (tokens : List Token) : AlikeBefore e 1 read read tokens :=
  .descend read_descends (fun _ _ _ hself => step_alikeBefore (hself ())) ()

end Init

/-! ### Declarations -/

theorem Base.readScalar_alikeBefore (wanted : Expectation) :
    AlikeBefore e 1 (readScalar wanted) (readScalar wanted) tokens := by
  refine .next? (fun _ => .throw _) fun t ts htokens => ?_
  dsimp only
  split
  · exact .advance (.pure _)
  · exact .throw _

namespace Decl

theorem readDimensions_alikeBefore : AlikeBefore e 0 readDimensions readDimensions tokens := by
  refine .many (fun _ _ => rfl) rfl fun t ts _ _ => ?_
  apply AlikeBefore.advance
  apply (Expr.read_alikeBefore ts).bind
  intro x rest _
  exact .close _ _ _

theorem readDeclarator_alikeBefore (isConst : Bool) (base : Base) (tokens : List Token) :
    AlikeBefore e 1 (readDeclarator isConst base) (readDeclarator isConst base) tokens := by
  apply AlikeBefore.expectName.bindFirst
  intro _ rest _
  apply readDimensions_alikeBefore.bind
  intro dims rest' _
  apply (AlikeBefore.accept _).bind
  intro initialized last _
  split
  · exact ((Init.read_alikeBefore last).map _).mono (Nat.zero_le 1)
  · exact .pure _

theorem readList_alikeBefore (tokens : List Token) : AlikeBefore e 1 readList readList tokens := by
  apply (AlikeBefore.acceptKeyword _).bind
  intro isConst rest _
  apply (Base.readScalar_alikeBefore _).bindFirst
  intro base rest' _
  have hdeclarators : AlikeBefore e 1
      (separated (.symbol .comma) (readDeclarator isConst base.1))
      (separated (.symbol .comma) (readDeclarator isConst base.1)) rest' :=
    .separated _ (fun ts => (readDeclarator_alike isConst base.1 ts).moves) fun ts _ =>
      readDeclarator_alikeBefore isConst base.1 ts
  apply hdeclarators.bind
  intro decls last _
  exact .close _ _ _

end Decl

end SysYFront
