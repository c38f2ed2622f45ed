import SysYFront.Decl.Read
import SysYFront.Proofs.Progress.Expr

/-!
# SysYFront.Proofs.Progress.Decl

The readers of initializers and of declaration lists move on and come to an end.
-/

namespace SysYFront

open Reading

variable {tokens : List Token}

/-! ### Initializers -/

namespace Init

/-- One item of a list, and the items that `loop` reads behind a comma; nothing where the list
closes. -/
def itemsStep (self : Reading (Init Unit)) (loop : Reading (List (Init Unit))) :
    Reading (List (Init Unit)) := do
  match ← Reading.next? with
  | some ⟨.symbol .rightBrace, _⟩ => pure []
  | _ =>
    let item ← self
    if ← Reading.accept (.symbol .comma) then
      let items ← loop
      pure (item :: items)
    else pure [item]

/-- Reads the items of a list, however many there are. -/
def readAll (self : Reading (Init Unit)) : Reading (List (Init Unit)) := fun tokens =>
  readItems self (tokens.length + 1) tokens

/-- Reads an initializer whose items are read with `self`. -/
def step (self : Reading (Init Unit)) : Reading (Init Unit) := do
  match ← Reading.next? with
  | some ⟨.stringLiteral s, l⟩ =>
    Reading.advance
    pure (ofString s l)
  | some ⟨.symbol .leftBrace, l⟩ =>
    Reading.advance
    let items ← readAll self
    let _ ← Reading.expect (.symbol .rightBrace) .closingInitializer
    pure (.list items l)
  | _ =>
    let e ← Expr.read
    pure (.expr e)

variable {self self' : Reading (Init Unit)}

theorem itemsStep_alike {loop loop' : Reading (List (Init Unit))} (h : Alike 1 self self' tokens)
    (hloop : ∀ ts, ts.length < tokens.length → Alike 0 loop loop' ts) :
    Alike 0 (itemsStep self loop) (itemsStep self' loop') tokens := by
  refine Alike.next? ?_
  split
  · exact .pure []
  · apply h.bind
    intro item rest hrest
    apply (Alike.accept _).bind
    intro more rest' hrest'
    split
    · exact (hloop rest' (by omega)).map _
    · exact .pure [item]

theorem readAll_alike (h : ∀ ts, ts.length ≤ tokens.length → Alike 1 self self' ts) :
    Alike 0 (readAll self) (readAll self') tokens := by
  have hwithin (n : Nat) : Alike 0 (readItems self n) (readItems self' n) tokens := by
    induction n generalizing tokens with
    | zero => exact .pure []
    | succ n ih =>
      apply itemsStep_alike (h tokens (Nat.le_refl _))
      intro ts hts
      exact ih fun us hus => h us (by omega)
  exact hwithin (tokens.length + 1)

theorem step_alike : Step 1 fun self (_ : Unit) => step (self ()) := by
  intro self self' _ tokens h
  refine Alike.next? ?_
  cases tokens with
  | nil => exact (Expr.read_alike []).map _
  | cons t ts =>
    dsimp only [List.head?_cons]
    split
    · exact .advance (.pure _)
    · apply Alike.advance
      apply (readAll_alike fun us hus => h () us (Nat.lt_succ_of_le hus)).bind
      intro items rest _
      exact .close _ _ _
    · exact (Expr.read_alike _).map _

/-- Initializers are read by recursion. -/
theorem read_descends : DescendsAlone step read :=
  (step_alike.descends_succ (fun n _ => readWithin n) fun _ => rfl).1

theorem read_alike (tokens : List Token) : Alike 1 read read tokens :=
  ((step_alike.descends_succ (fun n _ => readWithin n) fun _ => rfl).2 () tokens).alike

/-- The items of a list are read in a loop. -/
theorem readAll_descends : DescendsAlone (itemsStep read) (readAll read) := by
  have hstep : Step 0 fun self (_ : Unit) => itemsStep read (self ()) := by
    intro self self' _ ts hself
    exact itemsStep_alike (read_alike ts) (hself ())
  exact (hstep.descends_succ (fun n _ => readItems read n) fun _ => rfl).1

end Init

/-! ### Declarations -/

theorem Base.readScalar_alike (wanted : Expectation) :
    Alike 1 (readScalar wanted) (readScalar wanted) tokens := by
  refine Alike.next? ?_
  cases tokens with
  | nil => exact .throw _
  | cons t ts =>
    dsimp only [List.head?_cons]
    split
    · exact .advance (.pure _)
    · exact .throw _

namespace Decl

/-- An extent moves by its expression, whether or not its bracket is there. -/
theorem readDimension_alike (tokens : List Token) : Alike 1 readDimension readDimension tokens := by
  apply Alike.skip.bind
  intro _ rest _
  apply (Expr.read_alike rest).bindFirst
  intro e last _
  exact .close _ _ _

theorem readDimensions_alike : Alike 0 readDimensions readDimensions tokens :=
  many_alike fun ts _ => readDimension_alike ts

/-- Extents are read in a loop. -/
theorem readDimensions_descends :
    DescendsAlone (manyStep (· == .symbol .leftBracket) readDimension) readDimensions :=
  many_descends fun ts => (readDimension_alike ts).moves

variable (isConst : Bool) (base : Base)

theorem readDeclarator_alike (tokens : List Token) :
    Alike 1 (readDeclarator isConst base) (readDeclarator isConst base) tokens := by
  apply Alike.expectName.bindFirst
  intro _ rest _
  apply readDimensions_alike.bind
  intro dims rest' _
  apply (Alike.accept _).bind
  intro initialized last _
  split
  · exact ((Init.read_alike last).map _).mono (Nat.zero_le 1)
  · exact .pure _

/-- The variables of a declaration list are read in a loop. -/
theorem readDeclarators_descends :
    DescendsAlone (separatedStep (.symbol .comma) (readDeclarator isConst base))
      (separated (.symbol .comma) (readDeclarator isConst base)) :=
  separated_descends fun ts => (readDeclarator_alike isConst base ts).moves

theorem readList_alike (tokens : List Token) : Alike 1 readList readList tokens := by
  apply (Alike.accept _).bind
  intro isConst rest _
  apply (Base.readScalar_alike _).bindFirst
  intro base rest' _
  apply (separated_alike fun ts _ => readDeclarator_alike isConst base.1 ts).bind
  intro decls last _
  exact .close _ _ _

end Decl

end SysYFront
