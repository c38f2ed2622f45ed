import SysYFront.Stmt.Read
import SysYFront.Proofs.Grammar.Decl

/-!
# SysYFront.Proofs.Grammar.Stmt

The grammar of statements and blocks,

    block      ::=  "{" (declaration-list | statement)* "}"
    statement  ::=  block | ";" | expr ";" | "break" ";" | "continue" ";"
                 |  "return" expr? ";" | "while" "(" expr ")" statement
                 |  "if" "(" expr ")" statement
                 |  "if" "(" expr ")" closed-statement "else" statement

and that the readers recognize it. A closed statement is one that does not end in an `if`
without `else` (`EndsOpen`); so an `else` belongs to the nearest `if` before it that has
none, and the grammar says so without mention of any order of reading.
-/

namespace SysYFront.Grammar

open Reading

/-- Whether a statement ends in an `if` that an `else` behind it would belong to. -/
def EndsOpen : Stmt Unit → Prop
  | .ifThen _ _ _ => True
  | .ifElse _ _ otherwise _ => EndsOpen otherwise
  | .whileLoop _ body _ => EndsOpen body
  | _ => False

/-- What may stand behind a statement: no `else`, if the statement would take it. -/
def EndsStatement (s : Stmt Unit) (rest : List Token) : Prop :=
  EndsOpen s → NotNext (.keyword .elseKw) rest

/-- The tokens of a condition with its brackets. -/
inductive Condition : List Token → Expr Unit → Prop
  | mk {ts : List Token} {e : Expr Unit} (l k : Location) : Derives .assignment ts e →
    Condition (⟨.symbol .leftParen, l⟩ :: ts ++ [⟨.symbol .rightParen, k⟩]) e

mutual

/-- The tokens of a statement. -/
inductive Statement : List Token → Stmt Unit → Prop
  | empty (l : Location) : Statement [⟨.symbol .semicolon, l⟩] (.empty l)
  | expr {t : Token} {ts : List Token} {e : Expr Unit} (k : Location) :
    Derives .assignment (t :: ts) e →
      Statement (t :: ts ++ [⟨.symbol .semicolon, k⟩]) (.expr e t.location)
  | block {ts : List Token} {parts : List (List (Item Unit))} (l k : Location) :
    Repeated BlockItem ts parts →
      Statement (⟨.symbol .leftBrace, l⟩ :: ts ++ [⟨.symbol .rightBrace, k⟩])
        (.block parts.flatten l)
  | ifThen {ts us : List Token} {c : Expr Unit} {s : Stmt Unit} (l : Location) :
    Condition ts c → Statement us s →
      Statement (⟨.keyword .ifKw, l⟩ :: ts ++ us) (.ifThen c s l)
  | ifElse {ts us vs : List Token} {c : Expr Unit} {s s' : Stmt Unit} (l k : Location) :
    Condition ts c → Statement us s → ¬ EndsOpen s → Statement vs s' →
      Statement (⟨.keyword .ifKw, l⟩ :: ts ++ us ++ ⟨.keyword .elseKw, k⟩ :: vs)
        (.ifElse c s s' l)
  | whileLoop {ts us : List Token} {c : Expr Unit} {s : Stmt Unit} (l : Location) :
    Condition ts c → Statement us s →
      Statement (⟨.keyword .whileKw, l⟩ :: ts ++ us) (.whileLoop c s l)
  | breakLoop (l k : Location) :
    Statement [⟨.keyword .breakKw, l⟩, ⟨.symbol .semicolon, k⟩] (.breakLoop l)
  | continueLoop (l k : Location) :
    Statement [⟨.keyword .continueKw, l⟩, ⟨.symbol .semicolon, k⟩] (.continueLoop l)
  | returnNothing (l k : Location) :
    Statement [⟨.keyword .returnKw, l⟩, ⟨.symbol .semicolon, k⟩] (.returnNothing l)
  | returnValue {ts : List Token} {e : Expr Unit} (l k : Location) : Derives .assignment ts e →
    Statement (⟨.keyword .returnKw, l⟩ :: ts ++ [⟨.symbol .semicolon, k⟩]) (.returnValue e l)

/-- The tokens of a declaration list or a statement in a block. -/
inductive BlockItem : List Token → List (Item Unit) → Prop
  | declarations {ts : List Token} {ds : List (Decl Unit)} : DeclarationList ts ds →
    BlockItem ts (ds.map .decl)
  | statement {ts : List Token} {s : Stmt Unit} : Statement ts s → BlockItem ts [.stmt s]

end

/-- The tokens of a block. -/
inductive Braced : List Token → Block Unit → Prop
  | mk {ts : List Token} {parts : List (List (Item Unit))} (l k : Location) :
    Repeated BlockItem ts parts →
      Braced (⟨.symbol .leftBrace, l⟩ :: ts ++ [⟨.symbol .rightBrace, k⟩]) ⟨parts.flatten, l⟩

/-- Whether a statement, and not a declaration, can start with a token. -/
def startsStatement : Token.Kind → Bool
  | .symbol .leftBrace | .symbol .semicolon => true
  | .keyword k => Stmt.startsWith k
  | kind => startsExpr kind

theorem startsStatement_of_startsExpr {kind : Token.Kind} (h : startsExpr kind = true) :
    startsStatement kind = true := by
  cases kind with
  | symbol s => cases s <;> first | rfl | exact h
  | keyword k => cases h
  | _ => exact h

theorem Statement.starts {ts : List Token} {s : Stmt Unit} (h : Statement ts s) :
    ∃ t us, ts = t :: us ∧ startsStatement t.kind = true := by
  cases h with
  | @expr t ts e k he =>
    obtain ⟨_, _, ht, hstarts⟩ := he.starts
    cases ht
    exact ⟨t, _, rfl, startsStatement_of_startsExpr hstarts⟩
  | _ => exact ⟨_, _, rfl, rfl⟩

variable {n depth : Nat} {tokens rest : List Token}

/-! ### Blocks -/

section Block

variable {stmt : Reading (Stmt Unit)}

theorem startsWith_of_startsStatement {kind : Token.Kind} (h : startsStatement kind = true) :
    Decl.startsWith kind = false := by
  cases kind with
  | keyword k => cases k <;> first | rfl | cases h
  | _ => rfl

theorem readSome_declaration {t : Token} (ht : Decl.startsWith t.kind = true) :
    Item.readSome stmt (t :: tokens) =
      (do
        let decls ← Decl.readList
        pure (decls.map .decl) : Reading (List (Item Unit))) (t :: tokens) := by
  simp only [Item.readSome, bind, EStateM.bind, next?, List.head?_cons, ht, if_true]

theorem readSome_statement {t : Token} (ht : Decl.startsWith t.kind = false) :
    Item.readSome stmt (t :: tokens) =
      (do
        let s ← stmt
        pure [.stmt s] : Reading (List (Item Unit))) (t :: tokens) := by
  simp only [Item.readSome, bind, EStateM.bind, next?, List.head?_cons, ht, Bool.false_eq_true,
    if_false]

theorem readSome_recognizes (h : Recognizes n Statement EndsStatement stmt) :
    Recognizes n BlockItem (fun _ rest => NotNext (.keyword .elseKw) rest)
      (Item.readSome stmt) where
  sound {tokens rest items} hlength hread := by
    have hstatement (hread : (do
        let s ← stmt
        pure [.stmt s] : Reading (List (Item Unit))) tokens = .ok items rest) :
        ∃ taken, tokens = taken ++ rest ∧ BlockItem taken items := by
      simp only [Reading.bind_eq_ok, Reading.pure_eq_ok] at hread
      obtain ⟨s, _, hs, rfl, rfl⟩ := hread
      obtain ⟨ts, htokens, hts⟩ := h.sound hlength hs
      exact ⟨ts, htokens, .statement hts⟩
    cases tokens with
    | nil => exact hstatement hread
    | cons t tokens =>
      cases ht : Decl.startsWith t.kind with
      | true =>
        rw [readSome_declaration ht] at hread
        simp only [Reading.bind_eq_ok, Reading.pure_eq_ok] at hread
        obtain ⟨ds, _, hds, rfl, rfl⟩ := hread
        obtain ⟨ts, htokens, hts⟩ := readList_recognizes.sound (Nat.lt_succ_self _) hds
        exact ⟨ts, htokens, .declarations hts⟩
      | false =>
        rw [readSome_statement ht] at hread
        exact hstatement hread
  complete {taken rest items} hlength hD hrest := by
    cases hD with
    | @declarations _ ds hts =>
      have hread : Decl.readList (taken ++ rest) = .ok ds rest :=
        readList_recognizes.complete (Nat.lt_succ_self _) hts trivial
      obtain ⟨t, us, rfl, ht⟩ := hts.starts
      rw [List.cons_append] at hread ⊢
      rw [readSome_declaration ht]
      simp only [Reading.bind_eq_ok, Reading.pure_eq_ok]
      exact ⟨ds, rest, hread, rfl, rfl⟩
    | @statement _ s hts =>
      have hread := h.complete hlength hts fun _ => hrest
      obtain ⟨t, us, rfl, ht⟩ := hts.starts
      rw [List.cons_append] at hread ⊢
      rw [readSome_statement (startsWith_of_startsStatement ht)]
      simp only [Reading.bind_eq_ok, Reading.pure_eq_ok]
      exact ⟨s, rest, hread, rfl, rfl⟩

/-- What a block holds starts neither with `else` nor with a closing brace. -/
theorem BlockItem.starts {ts : List Token} {items : List (Item Unit)}
    (h : BlockItem ts items) :
    ∃ t us, ts = t :: us ∧ t.kind ≠ .keyword .elseKw ∧ t.kind ≠ .symbol .rightBrace := by
  cases h with
  | declarations hts =>
    obtain ⟨t, us, rfl, ht⟩ := hts.starts
    refine ⟨t, us, rfl, ?_, ?_⟩ <;> intro hkind <;> rw [hkind] at ht <;> cases ht
  | statement hts =>
    obtain ⟨t, us, rfl, ht⟩ := hts.starts
    refine ⟨t, us, rfl, ?_, ?_⟩ <;> intro hkind <;> rw [hkind] at ht <;> cases ht

theorem readBlockItems_recognizes (h : Recognizes n Statement EndsStatement stmt) :
    Recognizes n (Repeated BlockItem)
      (fun _ rest => ∃ k us, rest = ⟨.symbol .rightBrace, k⟩ :: us)
      (many (· != .symbol .rightBrace) (Item.readSome stmt)) := by
  refine ((readSome_recognizes h).many (Q := NotNext (.keyword .elseKw)) ?_
    fun _ _ h => h).before ?_
  · intro ts items hD us _
    obtain ⟨t, ts, rfl, helse, hbrace⟩ := hD.starts
    exact ⟨by simpa using helse, t, ts, rfl, by simpa using hbrace⟩
  · rintro _ _ ⟨k, us, rfl⟩
    exact ⟨by simp, by simp⟩

theorem readWith_recognizes (h : Recognizes n Statement EndsStatement stmt) :
    Recognizes (n + 1) Braced (fun _ _ => True) (Block.readWith stmt) := by
  have hitems := readBlockItems_recognizes h
  constructor
  · intro tokens rest b hlength hread
    simp only [Block.readWith, Reading.bind_eq_ok, expect_eq_ok, Reading.pure_eq_ok] at hread
    obtain ⟨l, _, rfl, parts, mid, hparts, k, _, rfl, rfl, rfl⟩ := hread
    obtain ⟨ts, rfl, hts⟩ := hitems.sound (Nat.lt_of_succ_lt_succ hlength) hparts
    exact ⟨⟨.symbol .leftBrace, l⟩ :: ts ++ [⟨.symbol .rightBrace, k⟩], by simp, .mk l k hts⟩
  · intro taken rest b hlength hD _
    obtain @⟨ts, parts, l, k, hts⟩ := hD
    rw [List.append_assoc, List.cons_append] at hlength ⊢
    have hparts := hitems.complete (Nat.lt_of_succ_lt_succ hlength) hts ⟨k, rest, rfl⟩
    simp only [Block.readWith, Reading.bind_eq_ok, expect_eq_ok, Reading.pure_eq_ok]
    exact ⟨l, _, rfl, parts, _, hparts, k, rest, rfl, rfl, rfl⟩

end Block

/-! ### Statements -/

theorem readCondition_eq_ok {opening closing : Expectation} {c : Expr Unit} :
    Stmt.readCondition opening closing tokens = .ok c rest ↔
      ∃ ts, tokens = ts ++ rest ∧ Condition ts c := by
  simp only [Stmt.readCondition, Reading.bind_eq_ok, expect_eq_ok, Reading.pure_eq_ok,
    read_eq_ok_iff]
  constructor
  · rintro ⟨l, _, rfl, c, _, ⟨ts, rfl, hc, -⟩, k, _, rfl, rfl, rfl⟩
    exact ⟨⟨.symbol .leftParen, l⟩ :: ts ++ [⟨.symbol .rightParen, k⟩], by simp, .mk l k hc⟩
  · rintro ⟨_, rfl, @⟨ts, c, l, k, hc⟩⟩
    rw [List.append_assoc, List.cons_append]
    have hfollows : Follows 0 (⟨.symbol .rightParen, k⟩ :: rest) := follows_symbol (by decide)
    exact ⟨l, _, rfl, c, _, ⟨ts, rfl, hc, hfollows⟩, k, rest, rfl, rfl, rfl⟩

/-- Reads an expression and the semicolon behind it. -/
theorem read_semicolon {e : Expr Unit} {wanted : Expectation} {mid : List Token} {k : Location} :
    (Expr.read tokens = .ok e mid ∧ expect (.symbol .semicolon) wanted mid = .ok k rest) ↔
      mid = ⟨.symbol .semicolon, k⟩ :: rest ∧
        ∃ ts, tokens = ts ++ ⟨.symbol .semicolon, k⟩ :: rest ∧ Derives .assignment ts e := by
  rw [read_eq_ok_iff, expect_eq_ok]
  constructor
  · rintro ⟨⟨ts, rfl, he, -⟩, rfl⟩
    exact ⟨rfl, ts, rfl, he⟩
  · rintro ⟨rfl, ts, rfl, he⟩
    exact ⟨⟨ts, rfl, he, follows_symbol (by decide)⟩, rfl⟩

theorem readExpression_eq_ok {l : Location} {s : Stmt Unit} :
    Stmt.readExpression l tokens = .ok s rest ↔
      ∃ ts e k, tokens = ts ++ ⟨.symbol .semicolon, k⟩ :: rest ∧ Derives .assignment ts e ∧
        s = .expr e l := by
  simp only [Stmt.readExpression, Reading.bind_eq_ok, Reading.pure_eq_ok]
  constructor
  · rintro ⟨e, mid, he, k, mid', hk, rfl, rfl⟩
    obtain ⟨-, ts, htokens, hts⟩ := read_semicolon.mp ⟨he, hk⟩
    exact ⟨ts, e, k, htokens, hts, rfl⟩
  · rintro ⟨ts, e, k, htokens, hts, rfl⟩
    obtain ⟨he, hk⟩ := read_semicolon.mpr ⟨rfl, ts, htokens, hts⟩
    exact ⟨e, _, he, k, rest, hk, rfl, rfl⟩

/-- What readers of statements do: on fewer than `n` tokens they recognize statements, and
they leave no `else` that belongs to the statement. -/
structure Reads (n : Nat) (m : Reading (Stmt Unit)) : Prop where
  recognizes : Recognizes n Statement EndsStatement m
  ends {tokens rest : List Token} {s : Stmt Unit} : m tokens = .ok s rest → EndsStatement s rest

section Keyword

variable {self : Reading (Stmt Unit)} {s : Stmt Unit} {l : Location} {k : Keyword}

/-- An `if` takes the `else` that stands behind its body. -/
theorem readKeyword_if_eq_ok :
    Stmt.readKeyword self l .ifKw tokens = .ok s rest ↔
      ∃ ts mid c body, tokens = ts ++ mid ∧ Condition ts c ∧
        (self mid = .ok body rest ∧ NotNext (.keyword .elseKw) rest ∧ s = .ifThen c body l ∨
          ∃ k us otherwise, self mid = .ok body (⟨.keyword .elseKw, k⟩ :: us) ∧
            self us = .ok otherwise rest ∧ s = .ifElse c body otherwise l) := by
  simp only [Stmt.readKeyword, Reading.bind_eq_ok, readCondition_eq_ok]
  constructor
  · rintro ⟨c, mid, ⟨ts, htokens, hts⟩, body, mid', hbody, more, mid'', helse, hread⟩
    refine ⟨ts, mid, c, body, htokens, hts, ?_⟩
    cases more with
    | false =>
      obtain ⟨hnot, rfl⟩ := accept_eq_false.mp helse
      obtain ⟨rfl, rfl⟩ := Reading.pure_eq_ok.mp hread
      exact .inl ⟨hbody, hnot, rfl⟩
    | true =>
      obtain ⟨k, rfl⟩ := accept_eq_true.mp helse
      simp only [if_true, Reading.bind_eq_ok, Reading.pure_eq_ok] at hread
      obtain ⟨otherwise, _, hotherwise, rfl, rfl⟩ := hread
      exact .inr ⟨k, _, otherwise, hbody, hotherwise, rfl⟩
  · rintro ⟨ts, mid, c, body, htokens, hts, hmore⟩
    refine ⟨c, mid, ⟨ts, htokens, hts⟩, body, ?_⟩
    obtain ⟨hbody, hnot, rfl⟩ | ⟨k, us, otherwise, hbody, hotherwise, rfl⟩ := hmore
    · exact ⟨rest, hbody, false, rest, accept_eq_false.mpr ⟨hnot, rfl⟩,
        Reading.pure_eq_ok.mpr ⟨rfl, rfl⟩⟩
    · refine ⟨_, hbody, true, us, accept_eq_true.mpr ⟨k, rfl⟩, ?_⟩
      simp only [if_true, Reading.bind_eq_ok, Reading.pure_eq_ok]
      exact ⟨otherwise, rest, hotherwise, rfl, rfl⟩

theorem readKeyword_while_eq_ok :
    Stmt.readKeyword self l .whileKw tokens = .ok s rest ↔
      ∃ ts mid c body, tokens = ts ++ mid ∧ Condition ts c ∧ self mid = .ok body rest ∧
        s = .whileLoop c body l := by
  simp only [Stmt.readKeyword, Reading.bind_eq_ok, readCondition_eq_ok, Reading.pure_eq_ok]
  constructor
  · rintro ⟨c, mid, ⟨ts, htokens, hts⟩, body, _, hbody, rfl, rfl⟩
    exact ⟨ts, mid, c, body, htokens, hts, hbody, rfl⟩
  · rintro ⟨ts, mid, c, body, htokens, hts, hbody, rfl⟩
    exact ⟨c, mid, ⟨ts, htokens, hts⟩, body, rest, hbody, rfl, rfl⟩

theorem readKeyword_return_eq_ok :
    Stmt.readKeyword self l .returnKw tokens = .ok s rest ↔
      (∃ k, tokens = ⟨.symbol .semicolon, k⟩ :: rest ∧ s = .returnNothing l) ∨
        ∃ ts e k, tokens = ts ++ ⟨.symbol .semicolon, k⟩ :: rest ∧ Derives .assignment ts e ∧
          s = .returnValue e l := by
  simp only [Stmt.readKeyword, Reading.bind_eq_ok]
  constructor
  · rintro ⟨nothing, mid, hnothing, hread⟩
    cases nothing with
    | true =>
      obtain ⟨k, rfl⟩ := accept_eq_true.mp hnothing
      obtain ⟨rfl, rfl⟩ := Reading.pure_eq_ok.mp hread
      exact .inl ⟨k, rfl, rfl⟩
    | false =>
      obtain ⟨-, rfl⟩ := accept_eq_false.mp hnothing
      simp only [Bool.false_eq_true, if_false, Reading.bind_eq_ok, Reading.pure_eq_ok] at hread
      obtain ⟨e, _, he, k, _, hk, rfl, rfl⟩ := hread
      obtain ⟨-, ts, htokens, hts⟩ := read_semicolon.mp ⟨he, hk⟩
      exact .inr ⟨ts, e, k, htokens, hts, rfl⟩
  · rintro (⟨k, rfl, rfl⟩ | ⟨ts, e, k, rfl, hts, rfl⟩)
    · exact ⟨true, rest, accept_eq_true.mpr ⟨k, rfl⟩, Reading.pure_eq_ok.mpr ⟨rfl, rfl⟩⟩
    · obtain ⟨he, hk⟩ := read_semicolon.mpr ⟨rfl, ts, rfl, hts⟩
      -- an expression starts with no semicolon
      have hnot : NotNext (.symbol .semicolon) (ts ++ ⟨.symbol .semicolon, k⟩ :: rest) := by
        obtain ⟨t, us, rfl, ht⟩ := hts.starts
        rw [List.cons_append, notNext_cons]
        intro hkind
        rw [hkind] at ht
        cases ht
      refine ⟨false, _, accept_eq_false.mpr ⟨hnot, rfl⟩, ?_⟩
      simp only [Bool.false_eq_true, if_false, Reading.bind_eq_ok, Reading.pure_eq_ok]
      exact ⟨e, _, he, k, rest, hk, rfl, rfl⟩

theorem readKeyword_ends (h : Reads n self) (hk : Stmt.startsWith k = true)
    (hread : Stmt.readKeyword self l k tokens = .ok s rest) : EndsStatement s rest := by
  cases k with
  | ifKw =>
    obtain ⟨ts, mid, c, body, -, -, hmore⟩ := readKeyword_if_eq_ok.mp hread
    obtain ⟨-, hnot, rfl⟩ | ⟨k, us, otherwise, -, hotherwise, rfl⟩ := hmore
    · exact fun _ => hnot
    · exact fun hopen => h.ends hotherwise hopen
  | whileKw =>
    obtain ⟨ts, mid, c, body, -, -, hbody, rfl⟩ := readKeyword_while_eq_ok.mp hread
    exact fun hopen => h.ends hbody hopen
  | breakKw =>
    simp only [Stmt.readKeyword, Reading.bind_eq_ok, Reading.pure_eq_ok] at hread
    obtain ⟨_, _, -, rfl, -⟩ := hread
    exact False.elim
  | continueKw =>
    simp only [Stmt.readKeyword, Reading.bind_eq_ok, Reading.pure_eq_ok] at hread
    obtain ⟨_, _, -, rfl, -⟩ := hread
    exact False.elim
  | returnKw =>
    obtain ⟨k, -, rfl⟩ | ⟨ts, e, k, -, -, rfl⟩ := readKeyword_return_eq_ok.mp hread
    · exact False.elim
    · exact False.elim
  | _ => cases hk

theorem readKeyword_sound (h : Reads n self) (hk : Stmt.startsWith k = true)
    (hlength : tokens.length < n) (hread : Stmt.readKeyword self l k tokens = .ok s rest) :
    ∃ taken, tokens = taken ++ rest ∧ Statement (⟨.keyword k, l⟩ :: taken) s := by
  cases k with
  | ifKw =>
    obtain ⟨ts, mid, c, body, rfl, hts, hmore⟩ := readKeyword_if_eq_ok.mp hread
    rw [List.length_append] at hlength
    obtain ⟨hbody, -, rfl⟩ | ⟨k, left, otherwise, hbody, hotherwise, rfl⟩ := hmore
    · obtain ⟨us, rfl, hus⟩ := h.recognizes.sound (by omega) hbody
      exact ⟨ts ++ us, by simp, .ifThen l hts hus⟩
    · obtain ⟨us, rfl, hus⟩ := h.recognizes.sound (by omega) hbody
      rw [List.length_append, List.length_cons] at hlength
      obtain ⟨vs, rfl, hvs⟩ := h.recognizes.sound (by omega) hotherwise
      -- an open body would have taken the `else` itself
      have hclosed : ¬ EndsOpen body := fun hopen => h.ends hbody hopen _ rfl rfl
      refine ⟨ts ++ us ++ ⟨.keyword .elseKw, k⟩ :: vs, by simp, ?_⟩
      exact .ifElse l k hts hus hclosed hvs
  | whileKw =>
    obtain ⟨ts, mid, c, body, rfl, hts, hbody, rfl⟩ := readKeyword_while_eq_ok.mp hread
    rw [List.length_append] at hlength
    obtain ⟨us, rfl, hus⟩ := h.recognizes.sound (by omega) hbody
    exact ⟨ts ++ us, by simp, .whileLoop l hts hus⟩
  | breakKw =>
    simp only [Stmt.readKeyword, Reading.bind_eq_ok, expect_eq_ok, Reading.pure_eq_ok] at hread
    obtain ⟨k, _, rfl, rfl, rfl⟩ := hread
    exact ⟨_, rfl, .breakLoop l k⟩
  | continueKw =>
    simp only [Stmt.readKeyword, Reading.bind_eq_ok, expect_eq_ok, Reading.pure_eq_ok] at hread
    obtain ⟨k, _, rfl, rfl, rfl⟩ := hread
    exact ⟨_, rfl, .continueLoop l k⟩
  | returnKw =>
    obtain ⟨k, rfl, rfl⟩ | ⟨ts, e, k, rfl, hts, rfl⟩ := readKeyword_return_eq_ok.mp hread
    · exact ⟨_, rfl, .returnNothing l k⟩
    · have hreturn := Statement.returnValue l k hts
      exact ⟨_, by simp, hreturn⟩
  | _ => cases hk

end Keyword

section ReadWithin

variable {l : Location}

theorem readWithin_brace :
    Stmt.readWithin (depth + 1) (⟨.symbol .leftBrace, l⟩ :: tokens) =
      (do
        let b ← Block.readWith (Stmt.readWithin depth)
        pure (.block b.items b.location) : Reading (Stmt Unit))
        (⟨.symbol .leftBrace, l⟩ :: tokens) := rfl

theorem readWithin_keyword {k : Keyword} (hk : Stmt.startsWith k = true) :
    Stmt.readWithin (depth + 1) (⟨.keyword k, l⟩ :: tokens) =
      Stmt.readKeyword (Stmt.readWithin depth) l k tokens := by
  cases k <;> first | rfl | cases hk

theorem readWithin_expr {t : Token} (ht : startsExpr t.kind = true) :
    Stmt.readWithin (depth + 1) (t :: tokens) =
      Stmt.readExpression t.location (t :: tokens) := by
  obtain ⟨kind, l⟩ := t
  cases kind with
  | symbol s => cases s <;> first | rfl | cases ht
  | _ => first | rfl | cases ht

end ReadWithin

theorem readExpression_sound {t : Token} {s : Stmt Unit}
    (h : Stmt.readExpression t.location (t :: tokens) = .ok s rest) :
    EndsStatement s rest ∧ ∃ taken, t :: tokens = taken ++ rest ∧ Statement taken s := by
  obtain ⟨ts, e, k, htokens, hts, rfl⟩ := readExpression_eq_ok.mp h
  obtain ⟨t', ts, rfl, -⟩ := hts.starts
  obtain rfl : t = t' := (List.cons.inj htokens).1
  exact ⟨False.elim, t :: ts ++ [⟨.symbol .semicolon, k⟩], by simp [htokens], .expr k hts⟩

theorem readWithin_sound (h : Reads depth (Stmt.readWithin depth)) {s : Stmt Unit}
    (hlength : tokens.length < depth + 1)
    (hread : Stmt.readWithin (depth + 1) tokens = .ok s rest) :
    ∃ taken, tokens = taken ++ rest ∧ Statement taken s := by
  cases tokens with
  | nil => cases hread
  | cons t tokens =>
    obtain ⟨kind, l⟩ := t
    have hexpr (h : Stmt.readExpression l (⟨kind, l⟩ :: tokens) = .ok s rest) :=
      readExpression_sound h
    cases kind with
    | symbol symbol =>
      cases symbol with
      | leftBrace =>
        rw [readWithin_brace] at hread
        simp only [Reading.bind_eq_ok, Reading.pure_eq_ok] at hread
        obtain ⟨b, _, hb, rfl, rfl⟩ := hread
        obtain ⟨taken, htokens, hblock⟩ := (readWith_recognizes h.recognizes).sound hlength hb
        obtain @⟨ts, parts, l, k, hts⟩ := hblock
        exact ⟨_, htokens, .block l k hts⟩
      | semicolon =>
        cases hread
        exact ⟨_, rfl, .empty l⟩
      | _ => exact (hexpr hread).2
    | keyword k =>
      cases hk : Stmt.startsWith k with
      | true =>
        rw [readWithin_keyword hk] at hread
        obtain ⟨taken, rfl, hs⟩ :=
          readKeyword_sound h hk (Nat.lt_of_succ_lt_succ hlength) hread
        exact ⟨_, rfl, hs⟩
      | false => cases k <;> first | cases hread | cases hk
    | _ => exact (hexpr hread).2

theorem readWithin_ends (h : Reads depth (Stmt.readWithin depth)) {s : Stmt Unit}
    (hread : Stmt.readWithin (depth + 1) tokens = .ok s rest) : EndsStatement s rest := by
  cases tokens with
  | nil => cases hread
  | cons t tokens =>
    obtain ⟨kind, l⟩ := t
    have hexpr (h : Stmt.readExpression l (⟨kind, l⟩ :: tokens) = .ok s rest) :=
      readExpression_sound h
    cases kind with
    | symbol symbol =>
      cases symbol with
      | leftBrace =>
        rw [readWithin_brace] at hread
        simp only [Reading.bind_eq_ok, Reading.pure_eq_ok] at hread
        obtain ⟨b, _, -, rfl, -⟩ := hread
        exact False.elim
      | semicolon =>
        cases hread
        exact False.elim
      | _ => exact (hexpr hread).1
    | keyword k =>
      cases hk : Stmt.startsWith k with
      | true =>
        rw [readWithin_keyword hk] at hread
        exact readKeyword_ends h hk hread
      | false => cases k <;> first | cases hread | cases hk
    | _ => exact (hexpr hread).1

theorem readWithin_complete (h : Reads depth (Stmt.readWithin depth)) {taken : List Token}
    {s : Stmt Unit} (hlength : (taken ++ rest).length < depth + 1) (hs : Statement taken s)
    (hrest : EndsStatement s rest) :
    Stmt.readWithin (depth + 1) (taken ++ rest) = .ok s rest := by
  cases hs with
  | empty l => rfl
  | @expr t ts e k he =>
    obtain ⟨_, _, ht, hstarts⟩ := he.starts
    cases ht
    rw [List.append_assoc, List.cons_append, readWithin_expr hstarts]
    exact readExpression_eq_ok.mpr ⟨t :: ts, e, k, by simp, he, rfl⟩
  | @block ts parts l k hts =>
    have hblock := (readWith_recognizes h.recognizes).complete hlength (.mk l k hts) trivial
    rw [List.append_assoc, List.cons_append] at hblock ⊢
    rw [readWithin_brace]
    simp only [Reading.bind_eq_ok, Reading.pure_eq_ok]
    exact ⟨_, rest, hblock, rfl, rfl⟩
  | @ifThen ts us c s l hc hs =>
    rw [List.append_assoc, List.cons_append] at hlength ⊢
    rw [List.length_cons, List.length_append] at hlength
    have hnext : NotNext (.keyword .elseKw) rest := hrest trivial
    have hbody := h.recognizes.complete (by omega) hs fun _ => hnext
    rw [readWithin_keyword rfl]
    exact readKeyword_if_eq_ok.mpr ⟨ts, us ++ rest, c, s, rfl, hc, .inl ⟨hbody, hnext, rfl⟩⟩
  | @ifElse ts us vs c s s' l k hc hs hclosed hs' =>
    have hassoc : (⟨.keyword .ifKw, l⟩ :: ts ++ us ++ ⟨.keyword .elseKw, k⟩ :: vs) ++ rest =
        ⟨.keyword .ifKw, l⟩ :: (ts ++ (us ++ ⟨.keyword .elseKw, k⟩ :: (vs ++ rest))) := by simp
    rw [hassoc] at hlength ⊢
    rw [List.length_cons, List.length_append] at hlength
    have hbody : Stmt.readWithin depth (us ++ ⟨.keyword .elseKw, k⟩ :: (vs ++ rest)) = .ok s _ :=
      h.recognizes.complete (by omega) hs fun hopen => absurd hopen hclosed
    rw [List.length_append, List.length_cons] at hlength
    have hotherwise := h.recognizes.complete (by omega) hs' hrest
    rw [readWithin_keyword rfl]
    exact readKeyword_if_eq_ok.mpr
      ⟨ts, _, c, s, rfl, hc, .inr ⟨k, _, s', hbody, hotherwise, rfl⟩⟩
  | @whileLoop ts us c s l hc hs =>
    rw [List.append_assoc, List.cons_append] at hlength ⊢
    rw [List.length_cons, List.length_append] at hlength
    have hbody := h.recognizes.complete (by omega) hs hrest
    rw [readWithin_keyword rfl]
    exact readKeyword_while_eq_ok.mpr ⟨ts, us ++ rest, c, s, rfl, hc, hbody, rfl⟩
  | breakLoop l k => rfl
  | continueLoop l k => rfl
  | returnNothing l k => rfl
  | @returnValue ts e l k he =>
    rw [List.append_assoc, List.cons_append, readWithin_keyword rfl]
    exact readKeyword_return_eq_ok.mpr (.inr ⟨ts, e, k, rfl, he, rfl⟩)

/-- Within their depth, readers of statements recognize them. -/
theorem stmt_readWithin_reads (depth : Nat) : Reads depth (Stmt.readWithin depth) := by
  induction depth with
  | zero => exact ⟨⟨fun h => absurd h (Nat.not_lt_zero _), fun h => absurd h (Nat.not_lt_zero _)⟩,
      nofun⟩
  | succ depth ih => exact ⟨⟨readWithin_sound ih, readWithin_complete ih⟩, readWithin_ends ih⟩

theorem stmt_read_recognizes : Recognizes n Statement EndsStatement Stmt.read where
  sound _ h := (stmt_readWithin_reads _).recognizes.sound (Nat.lt_succ_self _) h
  complete _ hs hrest :=
    (stmt_readWithin_reads _).recognizes.complete (Nat.lt_succ_self _) hs hrest

theorem block_read_recognizes : Recognizes n Braced (fun _ _ => True) Block.read :=
  (readWith_recognizes stmt_read_recognizes).mono (Nat.le_succ n)

end SysYFront.Grammar
