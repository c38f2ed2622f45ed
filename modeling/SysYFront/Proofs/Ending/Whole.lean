import SysYFront.Proofs.Ending.Phrase
import SysYFront.Proofs.Progress.Program
import SysYFront.Proofs.Viable.Program

/-!
# SysYFront.Proofs.Ending.Whole

Reading a whole file: the readers of blocks and of programs look for the end of the file before each
part, and all readers may look at what stands behind it. The shape of a unit is told by its third
token, whether or not the file ends before that token, and of `void` the next token is asked.

**With the whole file in view, a program is read as from the tokens before the end**
(`Whole.readProgram_alikeBefore`). There is one place where the tokens behind the end make a
difference on the way. If `int` or `float` is the last token and an opening bracket stands behind the
end, then a function is read where otherwise a declaration would be. Both want a name, and neither
finds it.
-/

namespace SysYFront

open Reading

/-! ### The readers that depend on how a block is read -/

/-- Reads a statement whose blocks are read with `block` and its inner statements with `self`. -/
def Stmt.stepWith (block : Reading (Block Unit)) (self : Reading (Stmt Unit)) :
    Reading (Stmt Unit) := do
  match ← Reading.next? with
  | some ⟨.symbol .leftBrace, _⟩ =>
    let b ← block
    pure (.block b.items b.location)
  | some ⟨.symbol .semicolon, l⟩ =>
    Reading.advance
    pure (.empty l)
  | some ⟨.keyword k, l⟩ =>
    if startsWith k then
      Reading.advance
      readKeyword self l k
    else if Decl.startsWith (.keyword k) then
      throw .statementBody
    else throw .expression
  | some ⟨_, l⟩ => readExpression l
  | none => throw .expression

/-- Reads a function whose body is read with `block`. -/
def Function.readWith (block : Reading (Block Unit)) : Reading (Function Unit) := do
  match ← Reading.next? with
  | some ⟨kind, location⟩ =>
    match Base.ofKind? kind with
    | some returns =>
      Reading.advance
      let (name, _) ← Reading.expectName
      let _ ← Reading.expect (.symbol .leftParen) .openingParameters
      let params ← Param.readAll
      let _ ← Reading.expect (.symbol .rightParen) .closingParameters
      let body ← block
      pure { name, returns, params, body, location }
    | none => throw .topLevel
  | none => throw .topLevel

/-- Reads a unit of a known shape whose function is read with `function`. -/
def UnitShape.readWith (function : Reading (Function Unit)) : UnitShape → Reading (Program Unit)
  | stray => do
    Reading.advance
    pure []
  | declaration => do
    let decls ← Decl.readList
    pure (decls.map .global)
  | UnitShape.function => do
    let f ← function
    pure [.function f]
  | other => throw .topLevel

theorem Stmt.step_eq_stepWith (self : Reading (Stmt Unit)) :
    step self = stepWith (Block.readWith self) self :=
  rfl

theorem Function.read_eq_readWith : Function.read = readWith Block.read :=
  rfl

/-! ### Readers of a whole file -/

namespace Whole

/-- Reads a block, given how to read a statement. The block also ends at the end of the file. -/
def readBlockWith (stmt : Reading (Stmt Unit)) : Reading (Block Unit) := do
  let location ← Reading.expect (.symbol .leftBrace) .openingBlock
  let items ← Reading.many (fun kind => kind != .symbol .rightBrace && kind != .endOfFile)
    (Item.readSome stmt)
  let _ ← Reading.expect (.symbol .rightBrace) .closingBlock
  pure { items := items.flatten, location }

/-- Reads a statement, nested at most `depth` deep. -/
def readStmtWithin : Nat → Reading (Stmt Unit)
  | 0 => throw .expression
  | depth + 1 => Stmt.stepWith (readBlockWith (readStmtWithin depth)) (readStmtWithin depth)

/-- Reads a statement. -/
def readStmt : Reading (Stmt Unit) := fun tokens =>
  readStmtWithin (tokens.length + 1) tokens

/-- Reads a block. -/
def readBlock : Reading (Block Unit) :=
  readBlockWith readStmt

/-- Reads a function definition. -/
def readFunction : Reading (Function Unit) :=
  Function.readWith readBlock

/-- Reads one unit, the shape of which three tokens tell, be the end of the file among them or
not. -/
def readUnit : Reading (Program Unit) := do
  let tokens ← get
  (UnitShape.ofKinds ((tokens.take 3).map Token.kind)).readWith readFunction

/-- Reads a program up to the first end of the file. -/
def readProgram : Reading (Program Unit) := do
  let units ← Reading.many (· != .endOfFile) readUnit
  pure units.flatten

end Whole

variable {e : Ending} {tokens : List Token}

/-! ### Blocks and statements -/

section Statements

variable {stmt stmt' : Reading (Stmt Unit)} {block block' : Reading (Block Unit)}

theorem Item.readSome_alikeBefore (h : AlikeBefore e 1 stmt stmt' tokens) :
    AlikeBefore e 1 (readSome stmt) (readSome stmt') tokens := by
  refine .next? (fun htokens => ?_) fun t ts htokens => ?_
  · subst htokens
    exact h.map _
  · subst htokens
    dsimp only
    split
    · exact (Decl.readList_alikeBefore _).map _
    · exact h.map _

theorem Whole.readBlockWith_alikeBefore
    (h : ∀ ts, ts.length < tokens.length → AlikeBefore e 1 stmt stmt' ts) :
    AlikeBefore e 1 (Block.readWith stmt) (readBlockWith stmt') tokens := by
  apply (AlikeBefore.expect _ _).bindFirst
  intro location rest hrest
  have hitems : AlikeBefore e 0 (many (· != .symbol .rightBrace) (Item.readSome stmt))
      (many (fun kind => kind != .symbol .rightBrace && kind != .endOfFile) (Item.readSome stmt'))
      rest := by
    refine .many (fun kind hkind => ?_) rfl fun t ts _ hts => ?_
    · rw [bne_iff_ne.mpr hkind, Bool.and_true]
    · exact Item.readSome_alikeBefore (h (t :: ts) (Nat.lt_of_lt_of_le (Nat.succ_lt_succ hts) hrest))
  apply hitems.bind
  intro items last _
  exact .close _ _ _

namespace Stmt

theorem readCondition_alikeBefore (opening closing : Expectation) :
    AlikeBefore e 1 (readCondition opening closing) (readCondition opening closing) tokens := by
  apply (AlikeBefore.expect _ _).bindFirst
  intro _ rest _
  apply (Expr.read_alikeBefore rest).bind
  intro x last _
  exact .close _ _ _

theorem readExpression_alikeBefore (l : Location) :
    AlikeBefore e 1 (readExpression l) (readExpression l) tokens := by
  apply (Expr.read_alikeBefore tokens).bindFirst
  intro x rest _
  exact .close _ _ _

theorem readKeyword_alikeBefore
    (h : ∀ ts, ts.length ≤ tokens.length → AlikeBefore e 1 stmt stmt' ts) (l : Location)
    (k : Keyword) : AlikeBefore e 0 (readKeyword stmt l k) (readKeyword stmt' l k) tokens := by
  unfold readKeyword
  split
  · apply (readCondition_alikeBefore _ _).bind
    intro condition rest hrest
    apply (h rest (by omega)).bind
    intro body rest' hrest'
    apply (AlikeBefore.acceptKeyword _).bind
    intro more last hlast
    split
    · exact ((h last (by omega)).map _).mono (Nat.zero_le 1)
    · exact .pure _
  · apply (readCondition_alikeBefore _ _).bind
    intro condition rest hrest
    exact ((h rest (by omega)).map _).mono (Nat.zero_le 1)
  · exact .close _ _ _
  · exact .close _ _ _
  · apply (AlikeBefore.accept _).bind
    intro nothing rest _
    split
    · exact .pure _
    · apply (Expr.read_alikeBefore rest).bind
      intro x last _
      exact .close _ _ _

/-- No statement starts at the end of the file. -/
theorem stepWith_alikeBefore (hblock : AlikeBefore e 1 block block' tokens)
    (h : ∀ ts, ts.length < tokens.length → AlikeBefore e 1 stmt stmt' ts) :
    AlikeBefore e 1 (stepWith block stmt) (stepWith block' stmt') tokens := by
  refine .next? (fun _ => ?_) fun t ts htokens => ?_
  · exact (readExpression_alikeBefore e.finish).congr rfl rfl
  · subst htokens
    split
    · exact hblock.map _
    · exact .advance (.pure _)
    · split
      · exact .advance (readKeyword_alikeBefore (fun us hus => h us (Nat.lt_succ_of_le hus)) _ _)
      · split
        · exact .throw _
        · exact .throw _
    · exact readExpression_alikeBefore _
    · exact .throw _

end Stmt

end Statements

namespace Whole

theorem readStmtWithin_succ_alikeBefore {n : Nat}
    (h : ∀ ts, ts.length < tokens.length → AlikeBefore e 1 Stmt.read (readStmtWithin n) ts) :
    AlikeBefore e 1 Stmt.read (readStmtWithin (n + 1)) tokens := by
  have hstep : Stmt.read = Stmt.stepWith (Block.readWith Stmt.read) Stmt.read :=
    (Stmt.read_descends.step_eq ()).symm
  rw [hstep, readStmtWithin]
  exact Stmt.stepWith_alikeBefore (readBlockWith_alikeBefore h) h

/-- As many levels of nesting as there are tokens before the end are enough. -/
theorem readStmtWithin_alikeBefore {n : Nat} (hn : tokens.length ≤ n) :
    AlikeBefore e 1 Stmt.read (readStmtWithin (n + 1)) tokens := by
  induction n generalizing tokens with
  | zero => exact readStmtWithin_succ_alikeBefore fun ts hts => absurd hts (by omega)
  | succ n ih => exact readStmtWithin_succ_alikeBefore fun ts hts => ih (by omega)

theorem readStmt_alikeBefore (tokens : List Token) :
    AlikeBefore e 1 Stmt.read readStmt tokens := by
  have hlength : tokens.length ≤ (tokens ++ e.tokens).length := by simp
  have hwithin := readStmtWithin_alikeBefore (e := e) hlength
  exact fun hwords => hwithin hwords

theorem readBlock_alikeBefore (tokens : List Token) :
    AlikeBefore e 1 Block.read readBlock tokens :=
  readBlockWith_alikeBefore fun ts _ => readStmt_alikeBefore ts

end Whole

/-! ### Functions -/

theorem Param.readBrackets_alikeBefore : AlikeBefore e 0 readBrackets readBrackets tokens := by
  apply (AlikeBefore.accept _).bind
  intro opened rest _
  split
  · apply (AlikeBefore.accept _).bind
    intro empty rest' _
    split
    · exact Decl.readDimensions_alikeBefore.map _
    · apply (Expr.read_alikeBefore rest').bind
      intro first last _
      apply (AlikeBefore.expect _ _).bind
      intro _ us _
      exact Decl.readDimensions_alikeBefore.map _
  · exact .pure _

theorem Param.read_alikeBefore (tokens : List Token) : AlikeBefore e 1 read read tokens := by
  apply (Base.readScalar_alikeBefore _).bindFirst
  intro base rest _
  exact AlikeBefore.expectName.bind fun name rest' _ => readBrackets_alikeBefore.map _

theorem NotNext.append_ending {k : Token.Kind} (h : NotNext k tokens) (hk : k ≠ .endOfFile) :
    NotNext k (tokens ++ e.tokens) := by
  cases tokens with
  | nil => exact notNext_cons.mpr hk.symm
  | cons t ts => exact notNext_cons.mpr (notNext_cons.mp h)

/-- Behind `void` the end of the file is no closing bracket. -/
theorem Param.readAll_alikeBefore : AlikeBefore e 0 readAll readAll tokens := by
  have hseparated : AlikeBefore e 0 (separated (.symbol .comma) read)
      (separated (.symbol .comma) read) tokens :=
    (AlikeBefore.separated _ (fun ts => (read_alike ts).moves) fun ts _ =>
      read_alikeBefore ts).mono (Nat.zero_le 1)
  cases tokens with
  | nil => exact hseparated.congr rfl rfl
  | cons t ts =>
    obtain ⟨kind, l⟩ := t
    by_cases hparen : kind = .symbol .rightParen
    · subst hparen
      exact (AlikeBefore.pure []).congr rfl rfl
    · by_cases hvoid : kind = .keyword .voidKw
      · subst hvoid
        obtain hnext | ⟨m, us, rfl⟩ := notNext_or (.symbol .rightParen) ts
        · exact (AlikeBefore.throw .parameterBase).congr (Grammar.readAll_void hnext)
            (Grammar.readAll_void (hnext.append_ending nofun))
        · have htaken : AlikeBefore e 0 (advance >>= fun _ => pure [] : Reading (List (Param Unit)))
              (advance >>= fun _ => pure [])
              (⟨.keyword .voidKw, l⟩ :: ⟨.symbol .rightParen, m⟩ :: us) :=
            (AlikeBefore.pure []).past
          exact htaken.congr rfl rfl
      · exact hseparated.congr (Grammar.readAll_eq_separated hparen hvoid)
          (Grammar.readAll_eq_separated hparen hvoid)

theorem Whole.readFunction_alikeBefore (tokens : List Token) :
    AlikeBefore e 1 Function.read readFunction tokens := by
  rw [Function.read_eq_readWith]
  refine .next? (fun _ => .throw _) fun t ts htokens => ?_
  subst htokens
  dsimp only
  split
  · apply AlikeBefore.advance
    apply AlikeBefore.expectName.bind
    intro name rest _
    apply (AlikeBefore.expect _ _).bind
    intro _ rest' _
    apply Param.readAll_alikeBefore.bind
    intro params us _
    apply (AlikeBefore.expect _ _).bind
    intro _ last _
    exact ((readBlock_alikeBefore last).map _).mono (Nat.zero_le 1)
  · exact .throw _

/-! ### Units -/

open Grammar (shape ScalarWord StartsScalar)

/-- The shape of a unit is the same with the whole file in view, unless the file ends behind the
word `int` or `float`. -/
theorem shape_append_ending (h : ∀ kind base l, ScalarWord kind base → tokens ≠ [⟨kind, l⟩]) :
    shape (tokens ++ e.tokens) = shape tokens := by
  by_cases hword : StartsScalar tokens
  · obtain ⟨kind, base, l, ts, hkind, rfl⟩ := hword
    match ts with
    | [] => exact absurd rfl (h kind base l hkind)
    | [t] =>
      have hend : NotNext (.symbol .leftParen) e.tokens := notNext_cons.mpr nofun
      rw [Grammar.shape_variables hkind (notNext_nil _)]
      exact Grammar.shape_variables hkind hend
    | t :: u :: ts => rfl
  · cases tokens with
    | nil => rfl
    | cons t ts => exact Grammar.shape_congr rfl hword

namespace Whole

theorem readUnit_eq {s : UnitShape} (h : shape tokens = s) :
    readUnit tokens = s.readWith readFunction tokens :=
  h ▸ rfl

/-- Where the file ends behind the word `int` or `float`, a name is missing, be it that of a function
or that of a variable. -/
theorem readUnit_scalar {kind : Token.Kind} {base : Base} (hkind : ScalarWord kind base)
    (l : Location) : readUnit (⟨kind, l⟩ :: e.tokens) = .error .name e.tokens := by
  have hname : Grammar.NoName e.tokens := by simp [Grammar.NoName, Ending.tokens]
  obtain hshape | hshape := Grammar.shape_scalar hkind l e.tokens
  · have hfunction : readFunction (⟨kind, l⟩ :: e.tokens) = .error .name e.tokens := by
      cases hkind <;> rfl
    rw [readUnit_eq hshape]
    simp only [UnitShape.readWith, bind, EStateM.bind, hfunction]
  · rw [readUnit_eq hshape]
    simp only [UnitShape.readWith, bind, EStateM.bind, hname.readList_eq hkind]

theorem readUnit_alikeBefore (tokens : List Token) :
    AlikeBefore e 1 TopLevel.readSome readUnit tokens := by
  by_cases hlast : ∃ kind base l, ScalarWord kind base ∧ tokens = [⟨kind, l⟩]
  · obtain ⟨kind, base, l, hkind, rfl⟩ := hlast
    have hnone : Grammar.NoName [] := nofun
    have hmissing : AlikeBefore e 1 (advance >>= fun _ => throw .name : Reading (Program Unit))
        (advance >>= fun _ => throw .name) [⟨kind, l⟩] :=
      .advance (.throw .name)
    exact hmissing.congr (hnone.readSome_eq hkind) (readUnit_scalar hkind l)
  · have hsame : shape (tokens ++ e.tokens) = shape tokens :=
      shape_append_ending fun kind base l hkind htokens => hlast ⟨kind, base, l, hkind, htokens⟩
    have hread : AlikeBefore e 1 (Grammar.readShape (shape tokens))
        ((shape tokens).readWith readFunction) tokens := by
      cases hshape : shape tokens with
      | stray =>
        obtain ⟨l, us, rfl⟩ := Grammar.shape_eq_stray hshape
        exact .advance (.pure [])
      | declaration => exact (Decl.readList_alikeBefore tokens).map _
      | function => exact (readFunction_alikeBefore tokens).map _
      | other => exact .throw _
    exact hread.congr (Grammar.readSome_eq rfl) (readUnit_eq hsame)

/-! ### Programs -/

/-- With the whole file in view, a program is read as from the tokens before the end. -/
theorem readProgram_alikeBefore (tokens : List Token) :
    AlikeBefore e 0 Program.read readProgram tokens := by
  have hunits : AlikeBefore e 0 (many (fun _ => true) TopLevel.readSome)
      (many (· != .endOfFile) readUnit) tokens :=
    .many (fun _ hkind => bne_iff_ne.mpr hkind) rfl fun t ts _ _ => readUnit_alikeBefore (t :: ts)
  exact hunits.map _

end Whole

end SysYFront
