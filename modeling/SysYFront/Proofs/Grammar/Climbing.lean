import Mathlib.Tactic.Push
import SysYFront.Proofs.Grammar.Expr

/-!
# SysYFront.Proofs.Grammar.Climbing

**Reading by binding power is reading by the grammar of expressions**
(`read_eq_ok_iff`). The reader is one loop that compares powers, the grammar has a
category for each level; what ties them is a power for each category (`Category.power`).

* A call with a least power gives an expression of a category of at least this power, and
  what it leaves does not go on with it (`Follows`).
* In the loop, the expression read so far is always *ready* for the next token (`Ready`):
  it is of a category to which an opening bracket, or the operator that stands there, can
  be attached. So brackets are never attached to a finished operation, and operators of one
  level associate to the left.
* The other way round, a call on the tokens of an expression goes through the loop until
  exactly this expression is read (`Derives.comes`). The induction follows the left
  side of the expression; what stands inside brackets or right of an operator is read by
  calls of less depth.
-/

namespace SysYFront.Grammar

open Reading
open SysYFront.Expr (readWithin readOperand readArguments extend unaryPower)

/-! ### Powers of categories -/

/-- The greatest power that a call may demand and still give an expression of the category. -/
def Category.power : Category → Nat
  | assignment => 2
  | disjunction => 3
  | conjunction => 5
  | equality => 7
  | relation => 9
  | sum => 11
  | product => 13
  | unary => 15
  | suffixed => 17
  | primary => 19

/-- The power with which the right end of an expression of the category was read. -/
def Category.reach : Category → Nat
  | assignment => 1
  | disjunction => 4
  | conjunction => 6
  | equality => 8
  | relation => 10
  | sum => 12
  | product => 14
  | unary | suffixed | primary => 15

/-- The category of what stands left of a connective. -/
def leftCategory : Connective → Category
  | .assign => .disjunction
  | .binary op => category op

theorem leftPower_binary (op : BinaryOp) :
    (Connective.binary op).leftPower = (category op).power := by
  cases op <;> rfl

theorem rightPower_binary (op : BinaryOp) :
    (Connective.binary op).rightPower = (category op).reach := by
  cases op <;> rfl

theorem two_le_leftPower (k : Connective) : 2 ≤ k.leftPower := by
  cases k with
  | assign => exact Nat.le_refl 2
  | binary op => cases op <;> decide

theorem tighter?_eq_none {c : Category} (h : c.tighter? = none) : c = .primary := by
  cases c <;> first | rfl | cases h

/-- What is tighter than a category has the next power. -/
theorem power_le_of_tighter? {c d d' : Category} (h : d.tighter? = some d')
    (hd : d.power < c.power) : d'.power ≤ c.power := by
  cases d <;> cases h <;> cases c <;> first | exact absurd hd (by decide) | decide

theorem power_lt_of_tighter? {c d : Category} (h : c.tighter? = some d) : c.power < d.power := by
  cases c <;> cases h <;> decide

theorem reach_le_of_tighter? {c d : Category} (h : c.tighter? = some d) : c.reach ≤ d.reach := by
  cases c <;> cases h <;> decide

/-- Operators that bind less than a call demands bind less than the right end of what it
gives; no operator binds less than assignment. -/
theorem power_le_reach {c : Category} (h : c.power < Category.suffixed.power) :
    c.power = 2 ∨ c.power ≤ c.reach := by
  revert h
  cases c <;> decide

theorem rightPower_le (k : Connective) : k.rightPower ≤ unaryPower := by
  cases k with
  | assign => decide
  | binary op => cases op <;> decide

/-- What is right of an operator was read with a power that only tighter expressions have. -/
theorem exists_tighter {op : BinaryOp} {c : Category}
    (h : (Connective.binary op).rightPower ≤ c.power) :
    ∃ d, (category op).tighter? = some d ∧ d.power ≤ c.power := by
  revert h
  cases op <;> cases c <;>
    first | exact fun h => absurd h (by decide) | exact fun _ => ⟨_, rfl, by decide⟩

theorem rightPower_le_of_tighter? {op : BinaryOp} {c : Category}
    (h : (category op).tighter? = some c) : (Connective.binary op).rightPower ≤ c.power := by
  cases op <;> cases h <;> decide

theorem eq_of_power_eq {c d : Category} (h : c.power = d.power) : c = d := by
  cases c <;> cases d <;> first | rfl | exact absurd h (by decide)

/-- An expression of a category is one of every category that is not tighter. -/
theorem Derives.loosen {c d : Category} {ts : List Token} {e : Expr Unit} (hc : Derives c ts e)
    (h : d.power ≤ c.power) : Derives d ts e := by
  rcases Nat.eq_or_lt_of_le h with heq | hlt
  · rwa [eq_of_power_eq heq]
  · cases hd : d.tighter? with
    | none =>
      obtain rfl := tighter?_eq_none hd
      cases c <;> exact absurd hlt (by decide)
    | some d' =>
      have hlt' := power_lt_of_tighter? hd
      exact .tighter hd (hc.loosen (power_le_of_tighter? hd hlt))
termination_by c.power - d.power

/-- Every expression is a whole one. -/
theorem Derives.whole {c : Category} {ts : List Token} {e : Expr Unit} (h : Derives c ts e) :
    Derives .assignment ts e :=
  h.loosen (by cases c <;> decide)

/-! ### What may follow -/

/-- The connective that a token is between two expressions. -/
def connective? : Token.Kind → Option Connective
  | .symbol s => Connective.ofSymbol? s
  | _ => none

/-- Whether a token opens a subscript or the arguments of a call. -/
def Opens (k : Token.Kind) : Prop :=
  k = .symbol .leftBracket ∨ k = .symbol .leftParen

/-- Whether a call with this least power stops before the tokens: they do not start with a
bracket, nor with a connective that binds as much. -/
def Follows (least : Nat) (tokens : List Token) : Prop :=
  ∀ t ∈ tokens.head?, ¬ Opens t.kind ∧ ∀ k, connective? t.kind = some k → k.leftPower < least

theorem Follows.mono {least least' : Nat} {tokens : List Token} (h : Follows least tokens)
    (hle : least ≤ least') : Follows least' tokens := fun t ht =>
  ⟨(h t ht).1, fun k hk => Nat.lt_of_lt_of_le ((h t ht).2 k hk) hle⟩

@[simp] theorem follows_nil (least : Nat) : Follows least [] := nofun

@[simp] theorem follows_cons {least : Nat} {t : Token} {tokens : List Token} :
    Follows least (t :: tokens) ↔
      ¬ Opens t.kind ∧ ∀ k, connective? t.kind = some k → k.leftPower < least := by
  simp [Follows]

/-- No call goes past a symbol that neither opens a bracket nor connects. -/
theorem follows_symbol {least : Nat} {s : Symbol} {l : Location} {tokens : List Token}
    (h : s ≠ .leftBracket ∧ s ≠ .leftParen ∧ connective? (.symbol s) = none) :
    Follows least (⟨.symbol s, l⟩ :: tokens) := by
  obtain ⟨hbracket, hparen, hk⟩ := h
  rw [follows_cons]
  refine ⟨?_, fun k hk' => ?_⟩
  · rintro (h | h)
    · exact hbracket (Token.Kind.symbol.inj h)
    · exact hparen (Token.Kind.symbol.inj h)
  · rw [hk] at hk'
    cases hk'

theorem connective?_symbol {s : Symbol} {op : BinaryOp} (h : s.text = op.symbol) :
    connective? (.symbol s) = some (.binary op) := by
  cases s <;> cases op <;> first | rfl | exact absurd h (by decide)

/-- An operator does not go on with what stands left of it. -/
theorem follows_operator {s : Symbol} {op : BinaryOp} {l : Location} {tokens : List Token}
    (h : s.text = op.symbol) : Follows (category op).reach (⟨.symbol s, l⟩ :: tokens) := by
  rw [follows_cons]
  refine ⟨?_, fun k hk => ?_⟩
  · rintro (hs | hs) <;> cases hs <;> cases op <;> exact absurd h (by decide)
  · obtain rfl := Option.some.inj ((connective?_symbol h).symm.trans hk)
    cases op <;> decide

theorem symbol_of_connective? {s : Symbol} {op : BinaryOp}
    (h : connective? (.symbol s) = some (.binary op)) : s.text = op.symbol := by
  rw [← ofSymbol?_eq_some_iff]
  cases s <;> cases h <;> rfl

theorem equal_of_connective? {s : Symbol} (h : connective? (.symbol s) = some .assign) :
    s = .equal := by
  cases s <;> first | rfl | cases h

/-- A token goes on with an expression if it opens a bracket or is a connective. -/
theorem goesOn_iff {k : Token.Kind} : GoesOn k ↔ Opens k ∨ (connective? k).isSome := by
  cases k with
  | symbol s =>
    constructor
    · intro h
      rcases h with rfl | rfl | rfl | ⟨op, hop⟩
      · exact .inl (.inl rfl)
      · exact .inl (.inr rfl)
      · exact .inr rfl
      · exact .inr (by rw [connective?_symbol hop]; rfl)
    · intro h
      rcases h with (hs | hs) | hs
      · exact .inl (Token.Kind.symbol.inj hs)
      · exact .inr (.inl (Token.Kind.symbol.inj hs))
      · obtain ⟨k, hk⟩ := Option.isSome_iff_exists.mp hs
        cases k with
        | assign => exact .inr (.inr (.inl (equal_of_connective? hk)))
        | binary op => exact .inr (.inr (.inr ⟨op, symbol_of_connective? hk⟩))
  | _ => simp [GoesOn, Opens, connective?]

/-- A whole expression ends exactly before a token that does not go on with it. -/
theorem follows_zero_iff {tokens : List Token} :
    Follows 0 tokens ↔ ∀ t ∈ tokens.head?, ¬ GoesOn t.kind := by
  refine forall₂_congr fun t _ => ?_
  rw [goesOn_iff, not_or]
  refine and_congr_right fun _ => ?_
  cases connective? t.kind <;> simp

/-! ### The loop -/

section Loop

variable {self : Nat → Reading (Expr Unit)} {least n : Nat} {e : Expr Unit} {tokens : List Token}
  {l : Location}

theorem readOperand_paren : readOperand self (⟨.symbol .leftParen, l⟩ :: tokens) =
    (do
      let e ← self 0
      let _ ← expect (.symbol .rightParen) .closingGroup
      pure e : Reading (Expr Unit)) tokens := rfl

theorem readOperand_unary {s : Symbol} {op : UnaryOp} (hs : s.text = op.symbol) :
    readOperand self (⟨.symbol s, l⟩ :: tokens) =
      (do
        let operand ← self unaryPower
        pure (.unary op operand l ()) : Reading (Expr Unit)) tokens := by
  rw [← unary_ofSymbol?_eq_some_iff] at hs
  cases s <;> cases hs <;> rfl

theorem extend_bracket : extend self least (n + 1) e (⟨.symbol .leftBracket, l⟩ :: tokens) =
    (do
      let i ← self 0
      let _ ← expect (.symbol .rightBracket) .closingIndex
      extend self least n (.index e i l ()) : Reading (Expr Unit)) tokens := rfl

theorem extend_paren : extend self least (n + 1) e (⟨.symbol .leftParen, l⟩ :: tokens) =
    (do
      let args ← readArguments self
      extend self least n (.call e args l ()) : Reading (Expr Unit)) tokens := rfl

theorem extend_connective {s : Symbol} {k : Connective} (hk : connective? (.symbol s) = some k)
    (hleast : least ≤ k.leftPower) : extend self least (n + 1) e (⟨.symbol s, l⟩ :: tokens) =
      (do
        let right ← self k.rightPower
        extend self least n (k.node e right l) : Reading (Expr Unit)) tokens := by
  have hpower : ¬ k.leftPower < least := Nat.not_lt.mpr hleast
  cases s <;> cases hk <;> exact congrFun (if_neg hpower) _

/-- Where nothing goes on with the expression, the loop ends. -/
theorem extend_of_follows (h : Follows least tokens) :
    extend self least n e tokens = .ok e tokens := by
  cases n with
  | zero => rfl
  | succ n =>
    cases tokens with
    | nil => rfl
    | cons t tokens =>
      obtain ⟨kind, l⟩ := t
      rw [follows_cons] at h
      obtain ⟨hopens, hpower⟩ := h
      cases kind with
      | symbol s =>
        cases s with
        | leftBracket => exact absurd (.inl rfl) hopens
        | leftParen => exact absurd (.inr rfl) hopens
        | _ => first | rfl | exact congrFun (if_pos (hpower _ rfl)) _
      | _ => rfl

end Loop

/-! ### Calls of one depth -/

/-- What calls of a depth do on fewer tokens than that. -/
structure Climbs (depth : Nat) : Prop where
  sound {least : Nat} {tokens rest : List Token} {e : Expr Unit} : least ≤ unaryPower →
    tokens.length < depth → readWithin depth least tokens = .ok e rest →
      ∃ taken c, tokens = taken ++ rest ∧ least ≤ c.power ∧ Derives c taken e ∧ Follows least rest
  complete {least : Nat} {c : Category} {taken rest : List Token} {e : Expr Unit} :
    (taken ++ rest).length < depth → Derives c taken e → least ≤ c.power → Follows least rest →
      readWithin depth least (taken ++ rest) = .ok e rest

variable {depth : Nat}

/-- A call without a least power reads a whole expression. -/
theorem Climbs.whole (ih : Climbs depth) :
    Recognizes depth (Derives .assignment) (fun _ rest => Follows 0 rest) (readWithin depth 0) where
  sound hlength h := by
    obtain ⟨taken, c, htokens, -, he, -⟩ := ih.sound (Nat.zero_le _) hlength h
    exact ⟨taken, htokens, he.whole⟩
  complete hlength he hrest := ih.complete hlength he (Nat.zero_le _) hrest

/-- Such calls, with commas between them, read a list of expressions. -/
theorem Climbs.separated (ih : Climbs depth) :
    Recognizes depth (Separated (.symbol .comma) (Derives .assignment))
      (fun _ rest => NotNext (.symbol .comma) rest ∧ ∀ _ : Expr Unit, Follows 0 rest)
      (Reading.separated (.symbol .comma) (readWithin depth 0)) :=
  ih.whole.separated fun _ _ _ => follows_symbol (by decide)

/-- The tokens of the arguments of a call, the closing bracket among them. -/
inductive Arguments : List Token → List (Expr Unit) → Prop
  | none (k : Location) : Arguments [⟨.symbol .rightParen, k⟩] []
  | some {ts : List Token} {args : List (Expr Unit)} (k : Location) :
    Separated (.symbol .comma) (Derives .assignment) ts args →
      Arguments (ts ++ [⟨.symbol .rightParen, k⟩]) args

theorem Derives.call_arguments {ts us : List Token} {f : Expr Unit} {args : List (Expr Unit)}
    (l : Location) (hf : Derives .suffixed ts f) (hargs : Arguments us args) :
    Derives .suffixed (ts ++ ⟨.symbol .leftParen, l⟩ :: us) (.call f args l ()) := by
  cases hargs with
  | none k => exact .callNothing l k hf
  | some k hargs =>
    have hcall := Derives.call l k hf hargs
    rwa [List.append_assoc, List.cons_append] at hcall

theorem Separated.starts {ts : List Token} {es : List (Expr Unit)}
    (h : Separated (.symbol .comma) (Derives .assignment) ts es) :
    ∃ t us, ts = t :: us ∧ startsExpr t.kind = true := by
  cases h with
  | one he => exact he.starts
  | more l he _ =>
    obtain ⟨t, us, rfl, ht⟩ := he.starts
    exact ⟨t, _, rfl, ht⟩

theorem readArguments_recognizes (ih : Climbs depth) :
    Recognizes depth Arguments (fun _ _ => True) (readArguments (readWithin depth)) where
  sound {tokens rest args} hlength h := by
    simp only [readArguments, Reading.bind_eq_ok] at h
    obtain ⟨closed, mid, hclosed, h⟩ := h
    cases closed with
    | true =>
      obtain ⟨k, rfl⟩ := accept_eq_true.mp hclosed
      obtain ⟨rfl, rfl⟩ := Reading.pure_eq_ok.mp h
      exact ⟨_, rfl, .none k⟩
    | false =>
      obtain ⟨-, rfl⟩ := accept_eq_false.mp hclosed
      simp only [Bool.false_eq_true, if_false, Reading.bind_eq_ok, expect_eq_ok,
        Reading.pure_eq_ok] at h
      obtain ⟨args', mid, hargs, k, _, rfl, rfl, rfl⟩ := h
      obtain ⟨taken, rfl, hD⟩ := ih.separated.sound hlength hargs
      exact ⟨taken ++ [⟨_, k⟩], by simp, .some k hD⟩
  complete {taken rest args} hlength hargs _ := by
    simp only [readArguments, Reading.bind_eq_ok]
    cases hargs with
    | none k => exact ⟨true, rest, accept_eq_true.mpr ⟨k, rfl⟩, Reading.pure_eq_ok.mpr ⟨rfl, rfl⟩⟩
    | @some ts _ k hargs =>
      rw [List.append_assoc] at hlength ⊢
      refine ⟨false, _, accept_eq_false.mpr ⟨?_, rfl⟩, ?_⟩
      · obtain ⟨t, us, rfl, ht⟩ := Separated.starts hargs
        intro t' ht' hkind
        obtain rfl := Option.some.inj ht'
        rw [hkind] at ht
        cases ht
      · simp only [Bool.false_eq_true, if_false, Reading.bind_eq_ok, expect_eq_ok,
          Reading.pure_eq_ok]
        have hread := ih.separated.complete hlength hargs
          ⟨by simp, fun _ => follows_symbol (by decide)⟩
        exact ⟨args, _, hread, k, rest, rfl, rfl, rfl⟩

/-! ### What calls give -/

/-- Whether an expression that was read is of a category that the next token, if it goes on,
can be attached to. -/
def Ready (least : Nat) (taken : List Token) (e : Expr Unit) (tokens : List Token) : Prop :=
  ∃ c, least ≤ c.power ∧ Derives c taken e ∧ ∀ t ∈ tokens.head?,
    (Opens t.kind → Category.suffixed.power ≤ c.power) ∧
      ∀ k, connective? t.kind = some k → (leftCategory k).power ≤ c.power

/-- An expression that can be anything is ready for every token. -/
theorem Ready.of_suffixed {c : Category} {least : Nat} {taken tokens : List Token} {e : Expr Unit}
    (he : Derives c taken e) (hc : Category.suffixed.power ≤ c.power)
    (hleast : least ≤ unaryPower) : Ready least taken e tokens := by
  refine ⟨c, ?_, he, fun t _ => ⟨fun _ => hc, fun k _ => ?_⟩⟩
  · have hpower : unaryPower ≤ Category.suffixed.power := by decide
    omega
  · have hk : (leftCategory k).power ≤ Category.suffixed.power := by
      cases k with
      | assign => decide
      | binary op => cases op <;> decide
    omega

/-- An operation is ready for what its right end has left. -/
theorem Ready.of_follows {c : Category} {least : Nat} {taken tokens : List Token} {e : Expr Unit}
    (he : Derives c taken e) (hleast : least ≤ c.power) (hrest : Follows c.reach tokens) :
    Ready least taken e tokens := by
  refine ⟨c, hleast, he, fun t ht => ⟨fun hopens => absurd hopens (hrest t ht).1, fun k hk => ?_⟩⟩
  have hlt := (hrest t ht).2 k hk
  have hlow := two_le_leftPower k
  cases k with
  | assign => revert hlt; cases c <;> decide
  | binary op => revert hlt; cases c <;> cases op <;> decide

theorem readOperand_sound (ih : Climbs depth) {least : Nat} (hleast : least ≤ unaryPower)
    {tokens rest : List Token} {e : Expr Unit} (hlength : tokens.length < depth + 1)
    (h : readOperand (readWithin depth) tokens = .ok e rest) :
    ∃ taken, tokens = taken ++ rest ∧ taken ≠ [] ∧ Ready least taken e rest := by
  cases tokens with
  | nil => cases h
  | cons t tokens =>
    obtain ⟨kind, l⟩ := t
    have hshort : tokens.length < depth := by simpa using hlength
    have primary {e : Expr Unit} (he : Derives .primary [⟨kind, l⟩] e) :
        ∃ taken, (⟨kind, l⟩ :: tokens : List Token) = taken ++ tokens ∧ taken ≠ [] ∧
          Ready least taken e tokens :=
      ⟨_, rfl, List.cons_ne_nil _ _, .of_suffixed he (by decide) hleast⟩
    cases kind with
    | intLiteral n => cases h; exact primary (.int n l)
    | floatLiteral x => cases h; exact primary (.float x l)
    | name s => cases h; exact primary (.name s l)
    | symbol s =>
      cases hs : UnaryOp.ofSymbol? s with
      | some op =>
        have hop := unary_ofSymbol?_eq_some_iff.mp hs
        rw [readOperand_unary hop] at h
        simp only [Reading.bind_eq_ok, Reading.pure_eq_ok] at h
        obtain ⟨operand, mid, hoperand, rfl, rfl⟩ := h
        obtain ⟨taken, c, rfl, hc, he, hrest⟩ := ih.sound (Nat.le_refl _) hshort hoperand
        refine ⟨⟨.symbol s, l⟩ :: taken, rfl, List.cons_ne_nil _ _, ?_⟩
        exact .of_follows (.unary l hop (he.loosen (d := .unary) hc)) hleast hrest
      | none =>
        cases s with
        | leftParen =>
          rw [readOperand_paren] at h
          simp only [Reading.bind_eq_ok, expect_eq_ok, Reading.pure_eq_ok] at h
          obtain ⟨e', mid, he, k, mid', rfl, rfl, rfl⟩ := h
          obtain ⟨taken, rfl, hinner⟩ := ih.whole.sound hshort he
          refine ⟨⟨.symbol .leftParen, l⟩ :: taken ++ [⟨.symbol .rightParen, k⟩], by simp,
            by simp, ?_⟩
          exact .of_suffixed (.group l k hinner) (by decide) hleast
        | plus | minus | bang => cases hs
        | _ => cases h
    | _ => cases h

/-- Where a call does not stop, the next token goes on with the expression. -/
theorem exists_of_not_follows {least : Nat} {tokens : List Token} (h : ¬ Follows least tokens) :
    ∃ s l tokens', tokens = ⟨.symbol s, l⟩ :: tokens' ∧ (s = .leftBracket ∨ s = .leftParen ∨
      ∃ k, connective? (.symbol s) = some k ∧ least ≤ k.leftPower) := by
  cases tokens with
  | nil => exact absurd (follows_nil least) h
  | cons t tokens =>
    obtain ⟨kind, l⟩ := t
    rw [follows_cons, not_and_or, not_not] at h
    rcases h with (rfl | rfl) | h
    · exact ⟨_, l, tokens, rfl, .inl rfl⟩
    · exact ⟨_, l, tokens, rfl, .inr (.inl rfl)⟩
    · obtain ⟨k, h⟩ := not_forall.mp h
      obtain ⟨hk, hlt⟩ := Classical.not_imp.mp h
      have hle := Nat.le_of_not_lt hlt
      cases kind with
      | symbol s => exact ⟨s, l, tokens, rfl, .inr (.inr ⟨k, hk, hle⟩)⟩
      | _ => cases hk

/-- What a connective makes of the expressions around it. -/
theorem Derives.connect {s : Symbol} {k : Connective} {c : Category} {ts us : List Token}
    {a b : Expr Unit} {l : Location} (hk : connective? (.symbol s) = some k)
    (ha : Derives (leftCategory k) ts a) (hc : k.rightPower ≤ c.power) (hb : Derives c us b) :
    ∃ d : Category, d.power = k.leftPower ∧ d.reach = k.rightPower ∧
      Derives d (ts ++ ⟨.symbol s, l⟩ :: us) (k.node a b l) := by
  cases k with
  | assign =>
    obtain rfl := equal_of_connective? hk
    exact ⟨.assignment, rfl, rfl, .assign l ha hb.whole⟩
  | binary op =>
    obtain ⟨d, hd, hdc⟩ := exists_tighter hc
    exact ⟨category op, (leftPower_binary op).symm, (rightPower_binary op).symm,
      .binary l (symbol_of_connective? hk) ha hd (hb.loosen hdc)⟩

/-- One round of the loop attaches what stands next to the expression, which is then ready
for what follows. -/
theorem extend_step (ih : Climbs depth) {least : Nat} (hleast : least ≤ unaryPower) {fuel : Nat}
    {taken tokens rest : List Token} {e e' : Expr Unit} (hlength : tokens.length < depth)
    (hready : Ready least taken e tokens) (hgo : ¬ Follows least tokens)
    (h : extend (readWithin depth) least (fuel + 1) e tokens = .ok e' rest) :
    ∃ ts mid a, tokens = ts ++ mid ∧ ts ≠ [] ∧ Ready least (taken ++ ts) a mid ∧
      extend (readWithin depth) least fuel a mid = .ok e' rest := by
  obtain ⟨c, -, he, hnext⟩ := hready
  obtain ⟨s, l, tokens, rfl, hs⟩ := exists_of_not_follows hgo
  obtain ⟨hopens, hconnective⟩ := hnext _ rfl
  have hshort : tokens.length < depth := Nat.lt_of_succ_lt hlength
  rcases hs with rfl | rfl | ⟨k, hk, hle⟩
  · rw [extend_bracket] at h
    simp only [Reading.bind_eq_ok, expect_eq_ok] at h
    obtain ⟨i, mid, hi, k, mid', rfl, h⟩ := h
    obtain ⟨ts, rfl, hindex⟩ := ih.whole.sound hshort hi
    have hwhole := Derives.index l k (he.loosen (hopens (.inl rfl))) hindex
    rw [List.append_assoc, List.cons_append] at hwhole
    refine ⟨⟨.symbol .leftBracket, l⟩ :: (ts ++ [⟨.symbol .rightBracket, k⟩]), mid', _, by simp,
      List.cons_ne_nil _ _, ?_, h⟩
    exact .of_suffixed hwhole (Nat.le_refl _) hleast
  · rw [extend_paren, Reading.bind_eq_ok] at h
    obtain ⟨args, mid, hargs, h⟩ := h
    obtain ⟨ts, rfl, harguments⟩ := (readArguments_recognizes ih).sound hshort hargs
    have hcallee := he.loosen (hopens (.inr rfl))
    refine ⟨_ :: ts, mid, _, rfl, List.cons_ne_nil _ _, ?_, h⟩
    exact .of_suffixed (hcallee.call_arguments l harguments) (Nat.le_refl _) hleast
  · rw [extend_connective hk hle, Reading.bind_eq_ok] at h
    obtain ⟨right, mid, hright, h⟩ := h
    have hleft := he.loosen (hconnective k hk)
    obtain ⟨ts, c', rfl, hc', hb, hrest⟩ := ih.sound (rightPower_le k) hshort hright
    obtain ⟨d, hpower, hreach, hwhole⟩ := hleft.connect hk hc' hb
    refine ⟨_ :: ts, mid, _, rfl, List.cons_ne_nil _ _, ?_, h⟩
    exact .of_follows hwhole (hpower ▸ hle) (hreach ▸ hrest)

theorem extend_sound (ih : Climbs depth) {least : Nat} (hleast : least ≤ unaryPower) (fuel : Nat)
    {taken tokens rest : List Token} {e e' : Expr Unit} (hfuel : tokens.length ≤ fuel)
    (hlength : tokens.length < depth) (hready : Ready least taken e tokens)
    (h : extend (readWithin depth) least fuel e tokens = .ok e' rest) :
    ∃ taken' c, taken ++ tokens = taken' ++ rest ∧ least ≤ c.power ∧ Derives c taken' e' ∧
      Follows least rest := by
  induction fuel generalizing taken tokens e with
  | zero =>
    obtain rfl := List.eq_nil_of_length_eq_zero (Nat.le_zero.mp hfuel)
    obtain ⟨c, hc, he, -⟩ := hready
    cases h
    exact ⟨taken, c, rfl, hc, he, follows_nil _⟩
  | succ fuel ihfuel =>
    by_cases hgo : Follows least tokens
    · obtain ⟨c, hc, he, -⟩ := hready
      rw [extend_of_follows hgo] at h
      cases h
      exact ⟨taken, c, rfl, hc, he, hgo⟩
    · obtain ⟨ts, mid, a, rfl, hts, ha, h⟩ := extend_step ih hleast hlength hready hgo h
      have hpos := List.length_pos_iff.mpr hts
      rw [List.length_append] at hfuel hlength
      obtain ⟨taken', c, htaken, hresult⟩ := ihfuel (by omega) (by omega) ha h
      exact ⟨taken', c, by rw [← htaken, List.append_assoc], hresult⟩

/-! ### What calls take -/

section Attach

variable {least fuel : Nat} {e : Expr Unit} {us rest : List Token} {l k : Location}

theorem extend_index (ih : Climbs depth) {i : Expr Unit} (hi : Derives .assignment us i)
    (hlength : (us ++ ⟨.symbol .rightBracket, k⟩ :: rest).length < depth) :
    extend (readWithin depth) least (fuel + 1) e
        (⟨.symbol .leftBracket, l⟩ :: (us ++ ⟨.symbol .rightBracket, k⟩ :: rest)) =
      extend (readWithin depth) least fuel (.index e i l ()) rest := by
  have hindex := ih.whole.complete hlength hi (follows_symbol (by decide))
  rw [extend_bracket]
  simp only [bind, EStateM.bind, hindex, expect, if_true]

theorem extend_call (ih : Climbs depth) {args : List (Expr Unit)} (hargs : Arguments us args)
    (hlength : (us ++ rest).length < depth) :
    extend (readWithin depth) least (fuel + 1) e (⟨.symbol .leftParen, l⟩ :: (us ++ rest)) =
      extend (readWithin depth) least fuel (.call e args l ()) rest := by
  have harguments := (readArguments_recognizes ih).complete hlength hargs trivial
  rw [extend_paren]
  simp only [bind, EStateM.bind, harguments]

theorem extend_operation (ih : Climbs depth) {s : Symbol} {c : Connective} {d : Category}
    {b : Expr Unit} (hc : connective? (.symbol s) = some c) (hleast : least ≤ c.leftPower)
    (hb : Derives d us b) (hd : c.rightPower ≤ d.power) (hrest : Follows c.rightPower rest)
    (hlength : (us ++ rest).length < depth) :
    extend (readWithin depth) least (fuel + 1) e (⟨.symbol s, l⟩ :: (us ++ rest)) =
      extend (readWithin depth) least fuel (c.node e b l) rest := by
  have hright := ih.complete hlength hb hd hrest
  rw [extend_connective hc hleast]
  simp only [bind, EStateM.bind, hright]

end Attach

/-- Whether a call on `tokens` comes to the loop with the expression `e` before `rest`. -/
def Comes (depth least : Nat) (tokens : List Token) (e : Expr Unit) (rest : List Token) : Prop :=
  ∃ fuel, rest.length ≤ fuel ∧
    readWithin (depth + 1) least tokens = extend (readWithin depth) least fuel e rest

theorem Comes.operand {least : Nat} {tokens rest : List Token} {e : Expr Unit}
    (h : readOperand (readWithin depth) tokens = .ok e rest) : Comes depth least tokens e rest := by
  refine ⟨rest.length, Nat.le_refl _, ?_⟩
  simp only [readWithin, bind, EStateM.bind, h]
  rfl

theorem Comes.group (ih : Climbs depth) {least : Nat} {ts rest : List Token} {l k : Location}
    {e : Expr Unit} (h : Derives .assignment ts e)
    (hlength : (ts ++ ⟨.symbol .rightParen, k⟩ :: rest).length < depth) :
    Comes depth least (⟨.symbol .leftParen, l⟩ :: (ts ++ ⟨.symbol .rightParen, k⟩ :: rest)) e
      rest := by
  have hinner := ih.whole.complete hlength h (follows_symbol (by decide))
  refine .operand ?_
  rw [readOperand_paren]
  simp only [Reading.bind_eq_ok, expect_eq_ok, Reading.pure_eq_ok]
  exact ⟨e, _, hinner, k, rest, rfl, rfl, rfl⟩

theorem Comes.unary (ih : Climbs depth) {least : Nat} {ts rest : List Token} {l : Location}
    {s : Symbol} {op : UnaryOp} {e : Expr Unit} (hs : s.text = op.symbol)
    (h : Derives .unary ts e) (hrest : Follows Category.unary.reach rest)
    (hlength : (ts ++ rest).length < depth) :
    Comes depth least (⟨.symbol s, l⟩ :: (ts ++ rest)) (.unary op e l ()) rest := by
  have hoperand := ih.complete hlength h (Nat.le_refl _) hrest
  refine .operand ?_
  rw [readOperand_unary hs]
  simp only [Reading.bind_eq_ok, Reading.pure_eq_ok]
  exact ⟨e, rest, hoperand, rfl, rfl⟩

/-- From one expression the loop comes to the next, a round later. -/
theorem Comes.round {least : Nat} {tokens mid rest : List Token} {t : Token} {e e' : Expr Unit}
    (h : Comes depth least tokens e (t :: mid)) (hmid : rest.length ≤ mid.length)
    (hround : ∀ fuel, extend (readWithin depth) least (fuel + 1) e (t :: mid) =
      extend (readWithin depth) least fuel e' rest) : Comes depth least tokens e' rest := by
  obtain ⟨fuel, hfuel, hread⟩ := h
  rw [List.length_cons] at hfuel
  obtain ⟨fuel, rfl⟩ : ∃ n, fuel = n + 1 := ⟨fuel - 1, by omega⟩
  exact ⟨fuel, by omega, hread.trans (hround fuel)⟩

theorem Comes.arguments (ih : Climbs depth) {least : Nat} {ts us rest : List Token} {l : Location}
    {f : Expr Unit} {args : List (Expr Unit)}
    (hf : Comes depth least (ts ++ ⟨.symbol .leftParen, l⟩ :: (us ++ rest)) f
      (⟨.symbol .leftParen, l⟩ :: (us ++ rest))) (hargs : Arguments us args)
    (hlength : (ts ++ ⟨.symbol .leftParen, l⟩ :: (us ++ rest)).length < depth + 1) :
    Comes depth least (ts ++ ⟨.symbol .leftParen, l⟩ :: (us ++ rest)) (.call f args l ()) rest := by
  rw [List.length_append, List.length_cons] at hlength
  exact hf.round (by simp) fun fuel => extend_call ih hargs (by omega)

/-- On the tokens of an expression, a call comes to the loop with exactly this expression,
unless what follows goes on with its right end. The induction is on the left side of the
expression only. -/
theorem Derives.comes (ih : Climbs depth) : ∀ {c : Category} {ts : List Token} {e : Expr Unit},
    Derives c ts e → ∀ {least : Nat} {rest : List Token}, least ≤ c.power →
      (ts ++ rest).length < depth + 1 →
      (c.power < Category.suffixed.power → Follows c.reach rest) →
      Comes depth least (ts ++ rest) e rest
  | _, _, _, .int n l, least, rest, _, _, _ | _, _, _, .float x l, least, rest, _, _, _
  | _, _, _, .name s l, least, rest, _, _, _ => .operand rfl
  | _, _, _, @Derives.group ts e l k h, least, rest, _, hlength, _ => by
    rw [List.append_assoc, List.cons_append] at hlength ⊢
    exact .group ih h (Nat.lt_of_succ_lt_succ hlength)
  | _, _, _, .unary l hs h, least, rest, _, hlength, hrest =>
    .unary ih hs h (hrest (by decide)) (Nat.lt_of_succ_lt_succ hlength)
  | _, _, _, .index l k ha hi, least, rest, hleast, hlength, _ => by
    simp only [List.append_assoc, List.cons_append, List.nil_append] at hlength ⊢
    have harray := ha.comes ih hleast hlength fun h => absurd h (Nat.lt_irrefl _)
    rw [List.length_append, List.length_cons] at hlength
    refine harray.round ?_ fun fuel => extend_index ih hi (by omega)
    rw [List.length_append, List.length_cons]
    omega
  | _, _, _, .callNothing l k hf, least, rest, hleast, hlength, _ => by
    rw [List.append_assoc] at hlength ⊢
    have hcallee := hf.comes ih hleast hlength fun h => absurd h (Nat.lt_irrefl _)
    exact hcallee.arguments ih (.none k) hlength
  | _, _, _, @Derives.call ts us _ _ l k hf hargs, least, rest, hleast, hlength, _ => by
    rw [List.append_assoc ts, List.append_assoc ts, List.cons_append] at hlength ⊢
    have hcallee := hf.comes ih hleast hlength fun h => absurd h (Nat.lt_irrefl _)
    exact hcallee.arguments ih (.some k hargs) hlength
  | _, _, _, @Derives.binary _ _ _ _ _ op _ l hs ha hd hb, least, rest, hleast, hlength, hrest => by
    rw [List.append_assoc, List.cons_append] at hlength ⊢
    have hoperator := connective?_symbol hs
    have hleft := ha.comes ih hleast hlength fun _ => follows_operator hs
    rw [List.length_append, List.length_cons] at hlength
    have hreach : Follows (Connective.binary op).rightPower rest := by
      rw [rightPower_binary]
      exact hrest (by cases op <;> decide)
    refine hleft.round (by simp) fun fuel => ?_
    rw [← leftPower_binary] at hleast
    exact extend_operation ih hoperator hleast hb (rightPower_le_of_tighter? hd) hreach (by omega)
  | _, _, _, .assign l ha hb, least, rest, hleast, hlength, hrest => by
    rw [List.append_assoc, List.cons_append] at hlength ⊢
    have hleft := ha.comes ih (Nat.le_trans hleast (by decide)) hlength fun _ => by
      rw [follows_cons]
      refine ⟨fun h => ?_, fun k hk => ?_⟩
      · rcases h with h | h <;> cases h
      · cases hk
        decide
    rw [List.length_append, List.length_cons] at hlength
    refine hleft.round (by simp) fun fuel => ?_
    exact extend_operation ih (c := .assign) rfl hleast hb (by decide) (hrest (by decide))
      (by omega)
  | c, _, _, .tighter (d := d) hd h, least, rest, hleast, hlength, hrest => by
    have hpower := power_lt_of_tighter? hd
    refine h.comes ih (by omega) hlength fun hd' => ?_
    exact (hrest (by omega)).mono (reach_le_of_tighter? hd)

/-! ### Calls of every depth -/

/-- Calls of every depth give and take what the grammar says. -/
theorem climbs (depth : Nat) : Climbs depth := by
  induction depth with
  | zero => exact ⟨fun _ hlength => absurd hlength (Nat.not_lt_zero _),
      fun hlength => absurd hlength (Nat.not_lt_zero _)⟩
  | succ depth ih =>
    refine ⟨fun hleast hlength h => ?_, fun {least c taken rest e} hlength he hleast hrest => ?_⟩
    · simp only [readWithin, Reading.bind_eq_ok, get_eq_ok] at h
      obtain ⟨e', mid, he, _, _, ⟨rfl, rfl⟩, h⟩ := h
      obtain ⟨ts, rfl, hts, hready⟩ := readOperand_sound ih hleast hlength he
      have hpos := List.length_pos_iff.mpr hts
      rw [List.length_append] at hlength
      exact extend_sound ih hleast _ (Nat.le_refl _) (by omega) hready h
    · have hreach : c.power < Category.suffixed.power → Follows c.reach rest := by
        intro hc t ht
        refine ⟨(hrest t ht).1, fun k hk => ?_⟩
        have hlt := (hrest t ht).2 k hk
        have hlow := two_le_leftPower k
        rcases power_le_reach hc with hassign | hc'
        · omega
        · omega
      obtain ⟨fuel, -, hread⟩ := he.comes ih hleast hlength hreach
      rw [hread, extend_of_follows hrest]

/-- Reading an expression takes the tokens of the longest expression that can be read. -/
theorem read_eq_ok_iff {tokens rest : List Token} {e : Expr Unit} :
    Expr.read tokens = .ok e rest ↔
      ∃ taken, tokens = taken ++ rest ∧ Derives .assignment taken e ∧ Follows 0 rest := by
  have hlength : tokens.length < tokens.length + 1 := Nat.lt_succ_self _
  constructor
  · intro h
    obtain ⟨taken, c, htokens, -, he, hrest⟩ :=
      (climbs (tokens.length + 1)).sound (Nat.zero_le _) hlength h
    exact ⟨taken, htokens, he.whole, hrest⟩
  · intro h
    obtain ⟨taken, rfl, he, hrest⟩ := h
    exact (climbs _).complete hlength he (Nat.zero_le _) hrest

end SysYFront.Grammar
