import SysYFront.Stmt.Read
import SysYFront.Proofs.Progress.Decl

/-!
# SysYFront.Proofs.Progress.Stmt

The readers of statements and of blocks move on and come to an end.
-/

namespace SysYFront

open Reading

variable {tokens : List Token} {stmt stmt' : Reading (Stmt Unit)}

/-! ### Blocks -/

theorem Item.readSome_alike (h : Alike 1 stmt stmt' tokens) :
    Alike 1 (readSome stmt) (readSome stmt') tokens := by
  refine Alike.next? ?_
  split
  · split
    · exact (Decl.readList_alike _).map _
    · exact h.map _
  · exact h.map _

/-- The statements of a block stand behind its brace. -/
theorem Block.readWith_alike (h : ∀ ts, ts.length < tokens.length → Alike 1 stmt stmt' ts) :
    Alike 1 (readWith stmt) (readWith stmt') tokens := by
  apply (Alike.expect _ _).bindFirst
  intro location rest hrest
  have hitems : Alike 0 (many (· != .symbol .rightBrace) (Item.readSome stmt))
      (many (· != .symbol .rightBrace) (Item.readSome stmt')) rest :=
    many_alike fun ts hts => Item.readSome_alike (h ts (by omega))
  apply hitems.bind
  intro items last _
  exact .close _ _ _

namespace Stmt

/-! ### Statements -/

/-- Reads a statement whose inner statements are read with `self`. -/
def step (self : Reading (Stmt Unit)) : Reading (Stmt Unit) := do
  match ← Reading.next? with
  | some ⟨.symbol .leftBrace, _⟩ =>
    let b ← Block.readWith self
    pure (.block b.items b.location)
  | some ⟨.symbol .semicolon, l⟩ =>
    Reading.advance
    pure (.empty l)
  | some ⟨.keyword k, l⟩ =>
    if startsWith k then
      Reading.advance
      readKeyword self l k
    else if Decl.startsWith (.keyword k) then
      throw .statementBody
    else throw .expression
  | some ⟨_, l⟩ => readExpression l
  | none => throw .expression

theorem readCondition_alike (opening closing : Expectation) :
    Alike 1 (readCondition opening closing) (readCondition opening closing) tokens := by
  apply (Alike.expect _ _).bindFirst
  intro _ rest _
  apply (Expr.read_alike rest).bind
  intro e last _
  exact .close _ _ _

theorem readExpression_alike (l : Location) :
    Alike 1 (readExpression l) (readExpression l) tokens := by
  apply (Expr.read_alike tokens).bindFirst
  intro e rest _
  exact .close _ _ _

/-- The keyword is taken already, so the inner statements may stand directly behind. -/
theorem readKeyword_alike (h : ∀ ts, ts.length ≤ tokens.length → Alike 1 stmt stmt' ts)
    (l : Location) (k : Keyword) :
    Alike 0 (readKeyword stmt l k) (readKeyword stmt' l k) tokens := by
  unfold readKeyword
  split
  · apply (readCondition_alike _ _).bind
    intro condition rest hrest
    apply (h rest (by omega)).bind
    intro body rest' hrest'
    apply (Alike.accept _).bind
    intro more last hlast
    split
    · exact ((h last (by omega)).map _).mono (Nat.zero_le 1)
    · exact .pure _
  · apply (readCondition_alike _ _).bind
    intro condition rest hrest
    exact ((h rest (by omega)).map _).mono (Nat.zero_le 1)
  · exact .close _ _ _
  · exact .close _ _ _
  · apply (Alike.accept _).bind
    intro nothing rest _
    split
    · exact .pure _
    · apply (Expr.read_alike rest).bind
      intro e last _
      exact .close _ _ _

theorem step_alike : Step 1 fun self (_ : Unit) => step (self ()) := by
  intro self self' _ tokens h
  refine Alike.next? ?_
  cases tokens with
  | nil => exact .throw _
  | cons t ts =>
    dsimp only [List.head?_cons]
    split
    · exact (Block.readWith_alike (h ())).map _
    · exact .advance (.pure _)
    · split
      · exact .advance (readKeyword_alike (fun us hus => h () us (Nat.lt_succ_of_le hus)) _ _)
      · split
        · exact .throw _
        · exact .throw _
    · exact readExpression_alike _
    · exact .throw _

/-- Statements are read by recursion. -/
theorem read_descends : DescendsAlone step read :=
  (step_alike.descends_succ (fun n _ => readWithin n) fun _ => rfl).1

theorem read_alike (tokens : List Token) : Alike 1 read read tokens :=
  ((step_alike.descends_succ (fun n _ => readWithin n) fun _ => rfl).2 () tokens).alike

end Stmt

/-- What stands in a block is read in a loop. -/
theorem Block.readItems_descends :
    DescendsAlone (manyStep (· != .symbol .rightBrace) (Item.readSome Stmt.read))
      (many (· != .symbol .rightBrace) (Item.readSome Stmt.read)) :=
  many_descends fun ts => (Item.readSome_alike (Stmt.read_alike ts)).moves

theorem Block.read_alike (tokens : List Token) : Alike 1 Block.read Block.read tokens :=
  readWith_alike fun ts _ => Stmt.read_alike ts

end SysYFront
