import SysYFront.Program.Read
import SysYFront.Proofs.Progress.Stmt

/-!
# SysYFront.Proofs.Progress.Program

The readers of functions and of programs move on and come to an end. All readers together:
`RecursionsEnd` says of every recursion and of every loop that it does.
-/

namespace SysYFront

open Reading

variable {tokens : List Token}

/-! ### Functions -/

theorem Param.readBrackets_alike : Alike 0 readBrackets readBrackets tokens := by
  apply (Alike.accept _).bind
  intro opened rest _
  split
  · apply (Alike.accept _).bind
    intro empty rest' _
    split
    · exact Decl.readDimensions_alike.map _
    · apply (Expr.read_alike rest').bind
      intro first last _
      apply (Alike.expect _ _).bind
      intro _ us _
      exact Decl.readDimensions_alike.map _
  · exact .pure _

theorem Param.read_alike (tokens : List Token) : Alike 1 read read tokens := by
  apply (Base.readScalar_alike _).bindFirst
  intro base rest _
  exact Alike.expectName.bind fun name rest' _ => readBrackets_alike.map _

/-- The parameters of a function are read in a loop. -/
theorem Param.readSeparated_descends :
    DescendsAlone (separatedStep (.symbol .comma) Param.read)
      (separated (.symbol .comma) Param.read) :=
  separated_descends fun ts => (Param.read_alike ts).moves

theorem Param.readAll_alike : Alike 0 readAll readAll tokens := by
  have hcases : readAll tokens = .ok [] tokens ∨ readAll tokens = .ok [] tokens.tail ∨
      readAll tokens = separated (.symbol .comma) Param.read tokens := by
    unfold readAll
    split
    · exact .inl rfl
    · exact .inr (.inl rfl)
    · exact .inr (.inr rfl)
  refine ⟨rfl, ?_⟩
  unfold Moves
  obtain hnone | hvoid | hsome := hcases
  · rw [hnone]
    exact ⟨List.suffix_rfl, Nat.le_refl _⟩
  · rw [hvoid]
    exact ⟨List.tail_suffix tokens, (List.tail_suffix tokens).length_le⟩
  · rw [hsome]
    exact ((separated_alike fun ts _ => Param.read_alike ts).mono (Nat.zero_le 1)).moves

theorem Function.read_alike (tokens : List Token) : Alike 1 read read tokens := by
  refine Alike.next? ?_
  cases tokens with
  | nil => exact .throw _
  | cons t ts =>
    dsimp only [List.head?_cons]
    split
    · apply Alike.advance
      apply Alike.expectName.bind
      intro name rest _
      apply (Alike.expect _ _).bind
      intro _ rest' _
      apply Param.readAll_alike.bind
      intro params us _
      apply (Alike.expect _ _).bind
      intro _ last _
      exact ((Block.read_alike last).map _).mono (Nat.zero_le 1)
    · exact .throw _

/-! ### Programs -/

theorem TopLevel.readSome_alike (tokens : List Token) : Alike 1 readSome readSome tokens := by
  refine Alike.get ?_
  cases hshape : UnitShape.ofKinds ((tokens.take 3).map Token.kind) with
  | stray =>
    cases tokens with
    | nil => cases hshape
    | cons t ts => exact .advance (.pure _)
  | declaration => exact (Decl.readList_alike tokens).map _
  | function => exact (Function.read_alike tokens).map _
  | other => exact .throw _

/-- The units of a program are read in a loop. -/
theorem Program.readUnits_descends :
    DescendsAlone (manyStep (fun _ => true) TopLevel.readSome)
      (many (fun _ => true) TopLevel.readSome) :=
  many_descends fun ts => (TopLevel.readSome_alike ts).moves

theorem Program.read_alike (tokens : List Token) : Alike 0 Program.read Program.read tokens :=
  (many_alike fun ts _ => TopLevel.readSome_alike ts).map _

/-! ### All readers -/

/-- Every reader that calls itself and every loop does what its step does, which goes on with fewer
tokens only. -/
structure RecursionsEnd : Prop where
  expr : Descends Expr.step Expr.readAt
  behindOperand (least : Nat) :
    Descends (Expr.extendStep Expr.readAt least) (Expr.extendAll Expr.readAt least)
  arguments : DescendsAlone (separatedStep (.symbol .comma) Expr.read)
    (separated (.symbol .comma) Expr.read)
  init : DescendsAlone Init.step Init.read
  initItems : DescendsAlone (Init.itemsStep Init.read) (Init.readAll Init.read)
  dimensions : DescendsAlone (manyStep (· == .symbol .leftBracket) Decl.readDimension)
    Decl.readDimensions
  declarators (isConst : Bool) (base : Base) :
    DescendsAlone (separatedStep (.symbol .comma) (Decl.readDeclarator isConst base))
      (separated (.symbol .comma) (Decl.readDeclarator isConst base))
  parameters : DescendsAlone (separatedStep (.symbol .comma) Param.read)
    (separated (.symbol .comma) Param.read)
  stmt : DescendsAlone Stmt.step Stmt.read
  blockItems : DescendsAlone (manyStep (· != .symbol .rightBrace) (Item.readSome Stmt.read))
    (many (· != .symbol .rightBrace) (Item.readSome Stmt.read))
  units : DescendsAlone (manyStep (fun _ => true) TopLevel.readSome)
    (many (fun _ => true) TopLevel.readSome)

theorem recursionsEnd : RecursionsEnd where
  expr := Expr.readAt_descends
  behindOperand := Expr.extendAll_descends
  arguments := separated_descends Expr.read_moves
  init := Init.read_descends
  initItems := Init.readAll_descends
  dimensions := Decl.readDimensions_descends
  declarators := Decl.readDeclarators_descends
  parameters := Param.readSeparated_descends
  stmt := Stmt.read_descends
  blockItems := Block.readItems_descends
  units := Program.readUnits_descends

end SysYFront
