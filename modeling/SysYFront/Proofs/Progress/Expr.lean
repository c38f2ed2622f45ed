import SysYFront.Expr.Read
import SysYFront.Proofs.Progress.Recursion

/-!
# SysYFront.Proofs.Progress.Expr

The readers of expressions move on and come to an end.
-/

namespace SysYFront

namespace Expr

open Reading

/-- Reads an expression of which all operators bind at least with power `least`. -/
def readAt (least : Nat) : Reading (Expr Unit) := fun tokens =>
  readWithin (tokens.length + 1) least tokens

/-- What comes next behind the expression `e`: an operator or brackets that become part of it, and
then `loop` behind that, or nothing. -/
def extendStep (self : Nat → Reading (Expr Unit)) (least : Nat)
    (loop : Expr Unit → Reading (Expr Unit)) (e : Expr Unit) : Reading (Expr Unit) := do
  match ← Reading.next? with
  | some ⟨.symbol .leftBracket, l⟩ =>
    Reading.advance
    let i ← self 0
    let _ ← Reading.expect (.symbol .rightBracket) .closingIndex
    loop (.index e i l ())
  | some ⟨.symbol .leftParen, l⟩ =>
    Reading.advance
    let args ← readArguments self
    loop (.call e args l ())
  | some ⟨.symbol s, l⟩ =>
    match Connective.ofSymbol? s with
    | some c =>
      if c.leftPower < least then
        pure e
      else
        Reading.advance
        let right ← self c.rightPower
        loop (c.node e right l)
    | none => pure e
  | _ => pure e

/-- Reads on behind an expression as far as it goes. -/
def extendAll (self : Nat → Reading (Expr Unit)) (least : Nat) (e : Expr Unit) :
    Reading (Expr Unit) := fun tokens =>
  extend self least tokens.length e tokens

/-- Reads an expression whose inner expressions are read with `self`. -/
def step (self : Nat → Reading (Expr Unit)) (least : Nat) : Reading (Expr Unit) := do
  let e ← readOperand self
  extendAll self least e

variable {self self' : Nat → Reading (Expr Unit)} {tokens : List Token} {least : Nat}

theorem readOperand_alike
    (h : ∀ least ts, ts.length < tokens.length → Alike 1 (self least) (self' least) ts) :
    Alike 1 (readOperand self) (readOperand self') tokens := by
  refine Alike.next? ?_
  cases tokens with
  | nil => exact .throw _
  | cons t ts =>
    obtain ⟨kind, l⟩ := t
    have hself (least : Nat) : Alike 1 (self least) (self' least) ts :=
      h least ts (Nat.lt_succ_self _)
    cases kind with
    | intLiteral n => exact .advance (.pure _)
    | floatLiteral x => exact .advance (.pure _)
    | name s => exact .advance (.pure _)
    | stringLiteral s | keyword k | invalid reason | endOfFile => exact .throw _
    | symbol s =>
      dsimp only [List.head?_cons]
      split
      · exact ((hself unaryPower).map _).past
      · split
        · apply Alike.advance
          apply (hself 0).bind
          intro e rest _
          exact .close _ _ _
        · exact .throw _

theorem readArguments_alike
    (h : ∀ least ts, ts.length ≤ tokens.length → Alike 1 (self least) (self' least) ts) :
    Alike 0 (readArguments self) (readArguments self') tokens := by
  apply (Alike.accept _).bind
  intro closed rest hrest
  split
  · exact .pure []
  · have hargs : Alike 1 (separated (.symbol .comma) (self 0))
        (separated (.symbol .comma) (self' 0)) rest :=
      separated_alike fun ts hts => h 0 ts (by omega)
    apply hargs.bind
    intro args rest' _
    exact .close _ _ _

theorem extendStep_alike {loop loop' : Expr Unit → Reading (Expr Unit)}
    (h : ∀ least ts, ts.length < tokens.length → Alike 1 (self least) (self' least) ts)
    (hloop : ∀ e ts, ts.length < tokens.length → Alike 0 (loop e) (loop' e) ts) (e : Expr Unit) :
    Alike 0 (extendStep self least loop e) (extendStep self' least loop' e) tokens := by
  refine Alike.next? ?_
  cases tokens with
  | nil => exact .pure e
  | cons t ts =>
    obtain ⟨kind, l⟩ := t
    have hself (least : Nat) : Alike 1 (self least) (self' least) ts :=
      h least ts (Nat.lt_succ_self _)
    dsimp only [List.head?_cons]
    split
    · apply Alike.past
      apply (hself 0).bind
      intro i rest hrest
      apply (Alike.expect _ _).bind
      intro _ rest' hrest'
      exact hloop _ rest' (Nat.lt_succ_of_le (by omega))
    · apply Alike.past
      apply (readArguments_alike fun least us hus => h least us (Nat.lt_succ_of_le hus)).bind
      intro args rest hrest
      exact hloop _ rest (Nat.lt_succ_of_le hrest)
    · split
      · split
        · exact .pure e
        · apply Alike.past
          apply (hself _).bind
          intro right rest hrest
          exact hloop _ rest (Nat.lt_succ_of_le (by omega))
      · exact .pure e
    · exact .pure e

theorem extendAll_alike
    (h : ∀ least ts, ts.length < tokens.length → Alike 1 (self least) (self' least) ts)
    (e : Expr Unit) : Alike 0 (extendAll self least e) (extendAll self' least e) tokens := by
  have hwithin (n : Nat) :
      Alike 0 (extend self least n e) (extend self' least n e) tokens := by
    induction n generalizing e tokens with
    | zero => exact .pure e
    | succ n ih =>
      have hloop (e : Expr Unit) (ts : List Token) (hts : ts.length < tokens.length) :
          Alike 0 (extend self least n e) (extend self' least n e) ts :=
        ih (fun least us hus => h least us (by omega)) e
      exact extendStep_alike h hloop e
  exact hwithin tokens.length

theorem step_alike : Step 1 step := by
  intro self self' least tokens h
  apply (readOperand_alike h).bindFirst
  intro e rest hrest
  exact extendAll_alike (fun least ts hts => h least ts (by omega)) e

/-- Expressions are read by recursion, whatever power they are read with. -/
theorem readAt_descends : Descends step readAt :=
  (step_alike.descends_succ readWithin fun _ => rfl).1

/-- An expression that is read has taken a token. -/
theorem readAt_moves (least : Nat) (tokens : List Token) : (readAt least).Moves 1 tokens :=
  (step_alike.descends_succ readWithin fun _ => rfl).2 least tokens

theorem read_moves (tokens : List Token) : read.Moves 1 tokens :=
  readAt_moves 0 tokens

theorem read_alike (tokens : List Token) : Alike 1 read read tokens :=
  (read_moves tokens).alike

/-- What stands behind an expression is read in a loop. -/
theorem extendAll_descends (least : Nat) :
    Descends (extendStep readAt least) (extendAll readAt least) := by
  have hstep : Step 0 (extendStep readAt least) := by
    intro loop loop' e tokens hloop
    exact extendStep_alike (fun least ts _ => (readAt_moves least ts).alike) hloop e
  exact (hstep.descends (extend readAt least) (fun _ => rfl) fun _ _ => rfl).1

end Expr

end SysYFront
