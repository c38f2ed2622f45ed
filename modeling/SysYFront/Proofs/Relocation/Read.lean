import SysYFront.Proofs.Relocation.Run
import SysYFront.Proofs.Relocation.Tree

/-!
# SysYFront.Proofs.Relocation.Read

Reading does not look at places. A reader compares the kinds of tokens and nothing else, so on
relocated tokens it takes the same way, stops at the same token and wants the same there, and what
it gives is the relocated value (`Reading.Follows`). The rules below go from the readers of single
tokens to the reader of programs, and **a list of tokens is read as the relocated program, or
refused with the relocated error** (`Program.ofTokens_relocate`).

The one place that is not the place of a token is that of the end of no tokens at all, so the list
must not be empty.
-/

namespace SysYFront

open Token (Kind)

variable {α β : Type} {f : Location → Location}

/-- Whether `m'` gives on relocated tokens what `m` gives on the tokens, changed by `g`. -/
def Reading.Follows (f : Location → Location) (g : α → β) (m : Reading α) (m' : Reading β) :
    Prop :=
  Mirrors id (List.map (Token.relocate f)) g m m'

open Reading (Follows)

/-! ### Single tokens and loops -/

namespace Reading

theorem follows_next? : Follows f (Option.map (Token.relocate f)) next? next? := by
  intro tokens
  simp [next?]

theorem follows_get :
    Follows f (List.map (Token.relocate f)) (get : Reading (List Token)) get :=
  fun _ => rfl

theorem follows_advance : Follows f id advance advance := by
  intro tokens
  simp [advance]

theorem follows_accept (k : Kind) : Follows f id (accept k) (accept k) := by
  intro tokens
  cases tokens with
  | nil => rfl
  | cons t tokens =>
    by_cases hk : t.kind = k
    · simp [accept, Token.relocate, hk]
    · simp [accept, Token.relocate, hk]

theorem follows_expect (k : Kind) (wanted : Expectation) :
    Follows f f (expect k wanted) (expect k wanted) := by
  intro tokens
  cases tokens with
  | nil => rfl
  | cons t tokens =>
    by_cases hk : t.kind = k
    · simp [expect, Token.relocate, hk]
    · simp [expect, Token.relocate, hk]

theorem follows_expectName : Follows f (Prod.map id f) expectName expectName := by
  intro tokens
  cases tokens with
  | nil => rfl
  | cons t tokens =>
    obtain ⟨kind, l⟩ := t
    cases kind <;> rfl

namespace Follows

variable {g : α → β} {m : Reading α} {m' : Reading β}

/-- As many tokens are left on either side, so a bound that depends on their number is the same. -/
theorem measured {m : Nat → Reading α} {m' : Nat → Reading β}
    (h : ∀ n, Follows f g (m n) (m' n)) :
    Follows f g (fun tokens => m tokens.length tokens) (fun tokens => m' tokens.length tokens) := by
  intro tokens
  show m' (tokens.map (Token.relocate f)).length _ = _
  rw [List.length_map]
  exact h tokens.length tokens

theorem manyWithin (goOn : Kind → Bool) (h : Follows f g m m') (n : Nat) :
    Follows f (List.map g) (manyWithin goOn m n) (manyWithin goOn m' n) := by
  induction n with
  | zero => exact Mirrors.pure rfl
  | succ n ih =>
    refine Mirrors.bind follows_next? fun next => ?_
    cases next with
    | none => exact Mirrors.pure rfl
    | some t =>
      exact Mirrors.branch Iff.rfl
        (Mirrors.bind h fun a => Mirrors.map ih fun as => rfl) (Mirrors.pure rfl)

theorem many (goOn : Kind → Bool) (h : Follows f g m m') :
    Follows f (List.map g) (many goOn m) (many goOn m') :=
  measured (manyWithin goOn h)

theorem separatedWithin (separator : Kind) (h : Follows f g m m') (n : Nat) :
    Follows f (List.map g) (separatedWithin separator m n) (separatedWithin separator m' n) := by
  induction n with
  | zero => exact Mirrors.map h fun _ => rfl
  | succ n ih =>
    refine Mirrors.bind h fun a => Mirrors.bind (follows_accept separator) fun more => ?_
    exact Mirrors.branch Iff.rfl (Mirrors.map ih fun _ => rfl) (Mirrors.pure rfl)

theorem separated (separator : Kind) (h : Follows f g m m') :
    Follows f (List.map g) (separated separator m) (separated separator m') :=
  measured (separatedWithin separator h)

end Follows

end Reading

/-! ### Expressions -/

namespace Expr

variable {self : Nat → Reading (Expr Unit)}

theorem readOperand_follows (h : ∀ least, Follows f (relocate f) (self least) (self least)) :
    Follows f (relocate f) (readOperand self) (readOperand self) := by
  refine Mirrors.bind Reading.follows_next? fun next => ?_
  cases next with
  | none => exact Mirrors.throw rfl
  | some t =>
    obtain ⟨kind, l⟩ := t
    cases kind with
    | intLiteral n | floatLiteral n | name n =>
      exact Mirrors.bind Reading.follows_advance fun _ => Mirrors.pure rfl
    | symbol s =>
      simp only [Option.map_some, Token.relocate]
      cases UnaryOp.ofSymbol? s with
      | some op =>
        exact Mirrors.bind Reading.follows_advance fun _ =>
          Mirrors.map (h unaryPower) fun _ => rfl
      | none =>
        refine Mirrors.branch Iff.rfl ?_ (Mirrors.throw rfl)
        exact Mirrors.bind Reading.follows_advance fun _ => Mirrors.bind (h 0) fun e =>
          Mirrors.map (Reading.follows_expect _ _) fun _ => rfl
    | _ => exact Mirrors.throw rfl

theorem readArguments_follows (h : ∀ least, Follows f (relocate f) (self least) (self least)) :
    Follows f (relocateAll f) (readArguments self) (readArguments self) := by
  refine Mirrors.bind (Reading.follows_accept _) fun closed => Mirrors.branch Iff.rfl
    (Mirrors.pure rfl) ?_
  refine Mirrors.bind ((h 0).separated _) fun args =>
    Mirrors.map (Reading.follows_expect _ _) fun _ => relocateAll_eq_map f args

theorem node_relocate (c : Connective) (a b : Expr Unit) (l : Location) :
    c.node (a.relocate f) (b.relocate f) (f l) = (c.node a b l).relocate f := by
  cases c <;> rfl

theorem extend_follows (h : ∀ least, Follows f (relocate f) (self least) (self least))
    (least n : Nat) (e : Expr Unit) :
    Follows f (relocate f) (extend self least n e) (extend self least n (e.relocate f)) := by
  induction n generalizing e with
  | zero => exact Mirrors.pure rfl
  | succ n ih =>
    refine Mirrors.bind Reading.follows_next? fun next => ?_
    cases next with
    | none => exact Mirrors.pure rfl
    | some t =>
      obtain ⟨kind, l⟩ := t
      cases kind with
      | symbol s =>
        have hconnective (c : Connective) :
            Follows f (relocate f)
              (if c.leftPower < least then pure e
                else do
                  Reading.advance
                  let right ← self c.rightPower
                  extend self least n (c.node e right l))
              (if c.leftPower < least then pure (e.relocate f)
                else do
                  Reading.advance
                  let right ← self c.rightPower
                  extend self least n (c.node (e.relocate f) right (f l))) := by
          refine Mirrors.branch Iff.rfl (Mirrors.pure rfl) ?_
          refine Mirrors.bind Reading.follows_advance fun _ =>
            Mirrors.bind (h c.rightPower) fun right => ?_
          rw [node_relocate]
          exact ih (c.node e right l)
        cases s with
        | leftBracket =>
          exact Mirrors.bind Reading.follows_advance fun _ => Mirrors.bind (h 0) fun i =>
            Mirrors.bind (Reading.follows_expect _ _) fun _ => ih (.index e i l ())
        | leftParen =>
          exact Mirrors.bind Reading.follows_advance fun _ =>
            Mirrors.bind (readArguments_follows h) fun args => ih (.call e args l ())
        | _ =>
          -- Every other symbol is a connective or ends the expression.
          first | exact Mirrors.pure rfl | exact hconnective _
      | _ => exact Mirrors.pure rfl

theorem readWithin_follows (depth least : Nat) :
    Follows f (relocate f) (readWithin depth least) (readWithin depth least) := by
  induction depth generalizing least with
  | zero => exact Mirrors.throw rfl
  | succ depth ih =>
    refine Mirrors.bind (readOperand_follows ih) fun e => ?_
    refine Mirrors.bind Reading.follows_get fun tokens => ?_
    rw [List.length_map]
    exact extend_follows ih least tokens.length e

theorem read_follows : Follows f (relocate f) read read :=
  Follows.measured fun n => readWithin_follows (n + 1) 0

end Expr

/-! ### Declarations -/

theorem Base.readScalar_follows (wanted : Expectation) :
    Follows f (Prod.map id f) (Base.readScalar wanted) (Base.readScalar wanted) := by
  refine Mirrors.bind Reading.follows_next? fun next => ?_
  cases next with
  | none => exact Mirrors.throw rfl
  | some t =>
    simp only [Option.map_some, Token.relocate]
    cases Base.ofScalarKind? t.kind with
    | none => exact Mirrors.throw rfl
    | some base => exact Mirrors.map Reading.follows_advance fun _ => rfl

namespace Init

theorem readItems_follows {self : Reading (Init Unit)} (h : Follows f (relocate f) self self)
    (n : Nat) : Follows f (relocateAll f) (readItems self n) (readItems self n) := by
  induction n with
  | zero => exact Mirrors.pure rfl
  | succ n ih =>
    have hitem : Follows f (relocateAll f)
        (do
          let item ← self
          if ← Reading.accept (.symbol .comma) then
            let items ← readItems self n
            pure (item :: items)
          else pure [item])
        (do
          let item ← self
          if ← Reading.accept (.symbol .comma) then
            let items ← readItems self n
            pure (item :: items)
          else pure [item]) := by
      refine Mirrors.bind h fun item => Mirrors.bind (Reading.follows_accept _) fun more => ?_
      exact Mirrors.branch Iff.rfl (Mirrors.map ih fun _ => rfl) (Mirrors.pure rfl)
    refine Mirrors.bind Reading.follows_next? fun next => ?_
    cases next with
    | none => exact hitem
    | some t =>
      obtain ⟨kind, l⟩ := t
      cases kind with
      | symbol s =>
        cases s with
        | rightBrace => exact Mirrors.pure rfl
        | _ => exact hitem
      | _ => exact hitem

theorem ofString_relocate (s : String) (l : Location) :
    ofString s (f l) = (ofString s l).relocate f := by
  simp [ofString, relocate, relocateAll_eq_map, Function.comp_def, Expr.relocate]

theorem readWithin_follows (depth : Nat) :
    Follows f (relocate f) (readWithin depth) (readWithin depth) := by
  induction depth with
  | zero => exact Mirrors.throw rfl
  | succ depth ih =>
    have hexpr : Follows f (relocate f)
        (do
          let e ← Expr.read
          pure (.expr e))
        (do
          let e ← Expr.read
          pure (.expr e)) :=
      Mirrors.map Expr.read_follows fun _ => rfl
    refine Mirrors.bind Reading.follows_next? fun next => ?_
    cases next with
    | none => exact hexpr
    | some t =>
      obtain ⟨kind, l⟩ := t
      cases kind with
      | stringLiteral s =>
        exact Mirrors.bind Reading.follows_advance fun _ =>
          Mirrors.pure (ofString_relocate s l).symm
      | symbol s =>
        cases s with
        | leftBrace =>
          refine Mirrors.bind Reading.follows_advance fun _ =>
            Mirrors.bind Reading.follows_get fun tokens => ?_
          rw [List.length_map]
          exact Mirrors.bind (readItems_follows ih _) fun items =>
            Mirrors.map (Reading.follows_expect _ _) fun _ => rfl
        | _ => exact hexpr
      | _ => exact hexpr

theorem read_follows : Follows f (relocate f) read read :=
  Follows.measured fun n => readWithin_follows (n + 1)

end Init

namespace Decl

theorem readDimensions_follows :
    Follows f (List.map (Expr.relocate f)) readDimensions readDimensions := by
  refine Follows.many _ ?_
  exact Mirrors.bind Reading.follows_advance fun _ => Mirrors.bind Expr.read_follows fun e =>
    Mirrors.map (Reading.follows_expect _ _) fun _ => rfl

theorem readDeclarator_follows (isConst : Bool) (base : Base) :
    Follows f (relocate f) (readDeclarator isConst base) (readDeclarator isConst base) := by
  refine Mirrors.bind Reading.follows_expectName fun name =>
    Mirrors.bind readDimensions_follows fun dims =>
      Mirrors.bind (Reading.follows_accept _) fun initialized => ?_
  exact Mirrors.branch Iff.rfl (Mirrors.map Init.read_follows fun _ => rfl) (Mirrors.pure rfl)

theorem readList_follows : Follows f (List.map (relocate f)) readList readList := by
  refine Mirrors.bind (Reading.follows_accept _) fun isConst =>
    Mirrors.bind (Base.readScalar_follows _) fun r =>
      Mirrors.bind (Follows.separated _ (readDeclarator_follows isConst r.1)) fun ds => ?_
  exact Mirrors.map (Reading.follows_expect _ _) fun _ => rfl

end Decl

/-! ### Statements -/

section Statements

variable {stmt : Reading (Stmt Unit)}

theorem Item.relocateAll_flatten (itemss : List (List (Item α))) :
    relocateAll f itemss.flatten = (itemss.map (relocateAll f)).flatten := by
  simp [funext (relocateAll_eq_map f), List.map_flatten]

theorem Item.readSome_follows (h : Follows f (Stmt.relocate f) stmt stmt) :
    Follows f (relocateAll f) (readSome stmt) (readSome stmt) := by
  have hone : Follows f (relocateAll f)
      (do
        let s ← stmt
        pure [.stmt s])
      (do
        let s ← stmt
        pure [.stmt s]) :=
    Mirrors.map h fun _ => rfl
  refine Mirrors.bind Reading.follows_next? fun next => ?_
  cases next with
  | none => exact hone
  | some t =>
    refine Mirrors.branch Iff.rfl (Mirrors.map Decl.readList_follows fun ds => ?_) hone
    simp [relocateAll_eq_map, Function.comp_def, relocate]

theorem Block.readWith_follows (h : Follows f (Stmt.relocate f) stmt stmt) :
    Follows f (relocate f) (readWith stmt) (readWith stmt) := by
  refine Mirrors.bind (Reading.follows_expect _ _) fun l =>
    Mirrors.bind (Follows.many _ (Item.readSome_follows h)) fun itemss =>
      Mirrors.map (Reading.follows_expect _ _) fun _ => ?_
  rw [relocate, Item.relocateAll_flatten]

namespace Stmt

theorem readCondition_follows (opening closing : Expectation) :
    Follows f (Expr.relocate f) (readCondition opening closing) (readCondition opening closing) :=
  Mirrors.bind (Reading.follows_expect _ _) fun _ => Mirrors.bind Expr.read_follows fun _ =>
    Mirrors.map (Reading.follows_expect _ _) fun _ => rfl

theorem readExpression_follows (l : Location) :
    Follows f (relocate f) (readExpression l) (readExpression (f l)) :=
  Mirrors.bind Expr.read_follows fun _ => Mirrors.map (Reading.follows_expect _ _) fun _ => rfl

theorem readKeyword_follows (h : Follows f (relocate f) stmt stmt) (l : Location) (k : Keyword) :
    Follows f (relocate f) (readKeyword stmt l k) (readKeyword stmt (f l) k) := by
  have hreturn : Follows f (relocate f) (readKeyword stmt l .returnKw)
      (readKeyword stmt (f l) .returnKw) := by
    refine Mirrors.bind (Reading.follows_accept _) fun ended =>
      Mirrors.branch Iff.rfl (Mirrors.pure rfl) ?_
    exact Mirrors.bind Expr.read_follows fun _ =>
      Mirrors.map (Reading.follows_expect _ _) fun _ => rfl
  cases k with
  | ifKw =>
    refine Mirrors.bind (readCondition_follows _ _) fun condition => Mirrors.bind h fun body =>
      Mirrors.bind (Reading.follows_accept _) fun more => ?_
    exact Mirrors.branch Iff.rfl (Mirrors.map h fun _ => rfl) (Mirrors.pure rfl)
  | whileKw =>
    exact Mirrors.bind (readCondition_follows _ _) fun condition => Mirrors.map h fun _ => rfl
  | breakKw | continueKw => exact Mirrors.map (Reading.follows_expect _ _) fun _ => rfl
  | _ =>
    -- The reader takes every other keyword that it is given for a `return`.
    exact hreturn

theorem readWithin_follows (depth : Nat) :
    Follows f (relocate f) (readWithin depth) (readWithin depth) := by
  induction depth with
  | zero => exact Mirrors.throw rfl
  | succ depth ih =>
    refine Mirrors.bind Reading.follows_next? fun next => ?_
    cases next with
    | none => exact Mirrors.throw rfl
    | some t =>
      obtain ⟨kind, l⟩ := t
      cases kind with
      | keyword k =>
        refine Mirrors.branch Iff.rfl
          (Mirrors.bind Reading.follows_advance fun _ => readKeyword_follows ih l k) ?_
        exact Mirrors.branch Iff.rfl (Mirrors.throw rfl) (Mirrors.throw rfl)
      | symbol s =>
        cases s with
        | leftBrace => exact Mirrors.map (Block.readWith_follows ih) fun _ => rfl
        | semicolon => exact Mirrors.bind Reading.follows_advance fun _ => Mirrors.pure rfl
        | _ => exact readExpression_follows l
      | _ => exact readExpression_follows l

theorem read_follows : Follows f (relocate f) read read :=
  Follows.measured fun n => readWithin_follows (n + 1)

end Stmt

end Statements

/-! ### Functions and programs -/

namespace Param

theorem readBrackets_follows :
    Follows f (Prod.map id (List.map (Expr.relocate f))) readBrackets readBrackets := by
  refine Mirrors.bind (Reading.follows_accept _) fun bracketed =>
    Mirrors.branch Iff.rfl ?_ (Mirrors.pure rfl)
  refine Mirrors.bind (Reading.follows_accept _) fun isOpen => Mirrors.branch Iff.rfl
    (Mirrors.map Decl.readDimensions_follows fun _ => rfl) ?_
  exact Mirrors.bind Expr.read_follows fun _ => Mirrors.bind (Reading.follows_expect _ _) fun _ =>
    Mirrors.map Decl.readDimensions_follows fun _ => rfl

theorem read_follows : Follows f (relocate f) read read :=
  Mirrors.bind (Base.readScalar_follows _) fun _ => Mirrors.bind Reading.follows_expectName fun _ =>
    Mirrors.map readBrackets_follows fun _ => rfl

theorem readAll_follows : Follows f (List.map (relocate f)) readAll readAll := by
  intro tokens
  have hkinds : ((tokens.map (Token.relocate f)).take 2).map Token.kind =
      (tokens.take 2).map Token.kind := by
    simp [← List.map_take, Function.comp_def, Token.relocate]
  unfold readAll
  rw [hkinds]
  split
  · rfl
  · show EStateM.Result.ok [] (tokens.map (Token.relocate f)).tail = .ok [] (tokens.tail.map _)
    rw [List.map_tail]
  · exact Follows.separated _ read_follows tokens

end Param

theorem Function.read_follows : Follows f (relocate f) read read := by
  refine Mirrors.bind Reading.follows_next? fun next => ?_
  cases next with
  | none => exact Mirrors.throw rfl
  | some t =>
    simp only [Option.map_some, Token.relocate]
    cases Base.ofKind? t.kind with
    | none => exact Mirrors.throw rfl
    | some returns =>
      refine Mirrors.bind Reading.follows_advance fun _ =>
        Mirrors.bind Reading.follows_expectName fun _ =>
          Mirrors.bind (Reading.follows_expect _ _) fun _ =>
            Mirrors.bind Param.readAll_follows fun params => ?_
      exact Mirrors.bind (Reading.follows_expect _ _) fun _ =>
        Mirrors.map (Block.readWith_follows Stmt.read_follows) fun _ => rfl

theorem TopLevel.readSome_follows : Follows f (Program.relocate f) readSome readSome := by
  refine Mirrors.bind Reading.follows_get fun tokens => ?_
  have hkinds : ((tokens.map (Token.relocate f)).take 3).map Token.kind =
      (tokens.take 3).map Token.kind := by
    simp [← List.map_take, Function.comp_def, Token.relocate]
  rw [hkinds]
  cases UnitShape.ofKinds ((tokens.take 3).map Token.kind) with
  | stray => exact Mirrors.bind Reading.follows_advance fun _ => Mirrors.pure rfl
  | declaration =>
    refine Mirrors.map Decl.readList_follows fun ds => ?_
    simp [Program.relocate, TopLevel.map, Function.comp_def]
  | function => exact Mirrors.map Function.read_follows fun _ => rfl
  | other => exact Mirrors.throw rfl

theorem Program.read_follows : Follows f (relocate f) read read := by
  refine Mirrors.map (Follows.many _ TopLevel.readSome_follows) fun ps => ?_
  show List.map _ ps.flatten = (ps.map (relocate f)).flatten
  rw [List.map_flatten]
  rfl

/-! ### Streams -/

/-- The program that a list of tokens holds. -/
def Program.ofTokens (tokens : List Token) : Except SyntaxError (Program Unit) := do
  let stream ← TokenStream.ofTokens tokens
  (stream.run Program.read).1

namespace TokenStream

variable (f)

def relocate (s : TokenStream) : TokenStream :=
  ⟨s.tokens.map (Token.relocate f), f s.finish⟩

theorem current_relocate (s : TokenStream) :
    (s.relocate f).current = s.current.relocate f := by
  obtain ⟨tokens, finish⟩ := s
  cases tokens <;> rfl

theorem firstInvalid?_relocate (tokens : List Token) :
    firstInvalid? (tokens.map (Token.relocate f)) =
      (firstInvalid? tokens).map (SyntaxError.relocate f) := by
  induction tokens with
  | nil => rfl
  | cons t tokens ih =>
    obtain ⟨kind, l⟩ := t
    unfold firstInvalid? at ih ⊢
    cases kind with
    | invalid reason => rfl
    | _ => simpa [Token.relocate] using ih

/-- Only the end of no tokens at all stands at no token's place. -/
theorem ofTokens_relocate {tokens : List Token} (h : tokens ≠ []) :
    ofTokens (tokens.map (Token.relocate f)) =
      relocateOutcome (SyntaxError.relocate f) (relocate f) (ofTokens tokens) := by
  have hkind : (fun t : Token => t.kind == .endOfFile) ∘ Token.relocate f =
      fun t : Token => t.kind == .endOfFile := rfl
  unfold ofTokens
  rw [firstInvalid?_relocate]
  cases firstInvalid? tokens with
  | some e => rfl
  | none =>
    simp only [Option.map_none, relocateOutcome, List.find?_map, hkind, List.getLast?_map,
      List.takeWhile_map, List.getLast?_eq_some_getLast h]
    cases tokens.find? fun t => t.kind == .endOfFile <;> rfl

theorem run_relocate {m : Reading α} {m' : Reading β} {g : α → β} (h : Follows f g m m')
    (s : TokenStream) :
    ((s.relocate f).run m').1 = relocateOutcome (SyntaxError.relocate f) g (s.run m).1 := by
  have hm : m' (s.relocate f).tokens = _ := h s.tokens
  unfold run
  rw [hm]
  cases m s.tokens with
  | ok a rest => rfl
  | error wanted rest =>
    -- Both stop at the first token that is left, so they name one kind.
    have hcurrent := current_relocate f { s with tokens := rest }
    simp only [relocate] at hcurrent
    simp only [relocate, relocateOutcome, id, hcurrent]
    rfl

end TokenStream

/-- **Relocated tokens are read as the relocated program or refused with the relocated error.** -/
theorem Program.ofTokens_relocate (f : Location → Location) {tokens : List Token}
    (h : tokens ≠ []) :
    ofTokens (tokens.map (Token.relocate f)) =
      relocateOutcome (SyntaxError.relocate f) (relocate f) (ofTokens tokens) := by
  unfold ofTokens
  rw [TokenStream.ofTokens_relocate f h]
  cases TokenStream.ofTokens tokens with
  | error e => rfl
  | ok stream => exact stream.run_relocate f read_follows

end SysYFront
