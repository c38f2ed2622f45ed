import SysYFront.Expr.Read
import SysYFront.Proofs.Grammar.Phrase

/-!
# SysYFront.Proofs.Grammar.Expr

The grammar of expressions, in categories from the loosest to the tightest:

    assignment   ::=  disjunction  |  disjunction "=" assignment
    disjunction  ::=  conjunction  |  disjunction "||" conjunction
    conjunction  ::=  equality     |  conjunction "&&" equality
    equality     ::=  relation     |  equality ("==" | "!=") relation
    relation     ::=  sum          |  relation ("<" | ">" | "<=" | ">=") sum
    sum          ::=  product      |  sum ("+" | "-") product
    product      ::=  unary        |  product ("*" | "/" | "%") unary
    unary        ::=  suffixed     |  ("+" | "-" | "!") unary
    suffixed     ::=  primary      |  suffixed "[" assignment "]"
                   |  suffixed "(" (assignment ("," assignment)*)? ")"
    primary      ::=  int  |  float  |  name  |  "(" assignment ")"

Nothing here knows of binding powers. Brackets around an expression leave no node, and a
node stands at its own token: the literal, the name, the operator or the opening bracket.
-/

namespace SysYFront.Grammar

/-- What an expression is to the operators around it. -/
inductive Category
  | assignment
  | disjunction
  | conjunction
  | equality
  | relation
  | sum
  | product
  | unary
  | suffixed
  | primary
  deriving DecidableEq

/-- The category that is next in tightness; every expression of it is one of the category. -/
def Category.tighter? : Category → Option Category
  | assignment => some disjunction
  | disjunction => some conjunction
  | conjunction => some equality
  | equality => some relation
  | relation => some sum
  | sum => some product
  | product => some unary
  | unary => some suffixed
  | suffixed => some primary
  | primary => none

/-- The category of an operator's expressions, and of what stands left of it. -/
def category : BinaryOp → Category
  | .or => .disjunction
  | .and => .conjunction
  | .eq | .ne => .equality
  | .lt | .gt | .le | .ge => .relation
  | .add | .sub => .sum
  | .mul | .div | .mod => .product

/-- The tokens of an expression of a category, and its tree. -/
inductive Derives : Category → List Token → Expr Unit → Prop
  | int (n : Int32) (l : Location) :
    Derives .primary [⟨.intLiteral n, l⟩] (.literal (.int n) l ())
  | float (x : Float32) (l : Location) :
    Derives .primary [⟨.floatLiteral x, l⟩] (.literal (.float x) l ())
  | name (s : String) (l : Location) : Derives .primary [⟨.name s, l⟩] (.var s l ())
  | group {ts : List Token} {e : Expr Unit} (l k : Location) : Derives .assignment ts e →
    Derives .primary (⟨.symbol .leftParen, l⟩ :: ts ++ [⟨.symbol .rightParen, k⟩]) e
  | index {ts us : List Token} {a i : Expr Unit} (l k : Location) :
    Derives .suffixed ts a → Derives .assignment us i →
      Derives .suffixed
        (ts ++ ⟨.symbol .leftBracket, l⟩ :: us ++ [⟨.symbol .rightBracket, k⟩]) (.index a i l ())
  | callNothing {ts : List Token} {f : Expr Unit} (l k : Location) : Derives .suffixed ts f →
    Derives .suffixed (ts ++ [⟨.symbol .leftParen, l⟩, ⟨.symbol .rightParen, k⟩])
      (.call f [] l ())
  | call {ts us : List Token} {f : Expr Unit} {args : List (Expr Unit)} (l k : Location) :
    Derives .suffixed ts f → Separated (.symbol .comma) (Derives .assignment) us args →
      Derives .suffixed
        (ts ++ ⟨.symbol .leftParen, l⟩ :: us ++ [⟨.symbol .rightParen, k⟩]) (.call f args l ())
  | unary {ts : List Token} {e : Expr Unit} {s : Symbol} {op : UnaryOp} (l : Location) :
    s.text = op.symbol → Derives .unary ts e →
      Derives .unary (⟨.symbol s, l⟩ :: ts) (.unary op e l ())
  | binary {ts us : List Token} {a b : Expr Unit} {s : Symbol} {op : BinaryOp} {c : Category}
    (l : Location) : s.text = op.symbol → Derives (category op) ts a →
      (category op).tighter? = some c → Derives c us b →
      Derives (category op) (ts ++ ⟨.symbol s, l⟩ :: us) (.binary op a b l ())
  | assign {ts us : List Token} {a b : Expr Unit} (l : Location) :
    Derives .disjunction ts a → Derives .assignment us b →
      Derives .assignment (ts ++ ⟨.symbol .equal, l⟩ :: us) (.assign a b l ())
  | tighter {ts : List Token} {e : Expr Unit} {c d : Category} : c.tighter? = some d →
    Derives d ts e → Derives c ts e

/-- Whether a token behind an expression goes on with it: an opening bracket, `=` or an
operator with two operands. -/
def GoesOn : Token.Kind → Prop
  | .symbol s => s = .leftBracket ∨ s = .leftParen ∨ s = .equal ∨
    ∃ op : BinaryOp, s.text = op.symbol
  | _ => False

/-- Whether an expression can start with a token of a kind. -/
def startsExpr : Token.Kind → Bool
  | .intLiteral _ | .floatLiteral _ | .name _ => true
  | .symbol .leftParen | .symbol .plus | .symbol .minus | .symbol .bang => true
  | _ => false

theorem ofSymbol?_eq_some_iff {s : Symbol} {op : BinaryOp} :
    BinaryOp.ofSymbol? s = some op ↔ s.text = op.symbol := by
  cases s <;> cases op <;> decide

theorem unary_ofSymbol?_eq_some_iff {s : Symbol} {op : UnaryOp} :
    UnaryOp.ofSymbol? s = some op ↔ s.text = op.symbol := by
  cases s <;> cases op <;> decide

/-! ### The tokens of an expression -/

/-- An expression has tokens, and starts with one that starts expressions. -/
theorem Derives.starts : ∀ {c : Category} {ts : List Token} {e : Expr Unit}, Derives c ts e →
    ∃ t us, ts = t :: us ∧ startsExpr t.kind = true
  | _, _, _, .int n l => ⟨_, _, rfl, rfl⟩
  | _, _, _, .float x l => ⟨_, _, rfl, rfl⟩
  | _, _, _, .name s l => ⟨_, _, rfl, rfl⟩
  | _, _, _, .group l k h => ⟨_, _, rfl, rfl⟩
  | _, _, _, .unary l hs h => by
    rename_i s op
    refine ⟨_, _, rfl, ?_⟩
    rw [← unary_ofSymbol?_eq_some_iff] at hs
    cases s <;> first | rfl | cases hs
  | _, _, _, .index l k h _ | _, _, _, .callNothing l k h | _, _, _, .call l k h _
  | _, _, _, .binary l _ h _ _ | _, _, _, .assign l h _ => by
    obtain ⟨t, us, rfl, ht⟩ := h.starts
    exact ⟨t, _, rfl, ht⟩
  | _, _, _, .tighter _ h => h.starts

mutual

/-- The end of the file is no part of an expression. -/
theorem Derives.no_end : ∀ {c : Category} {ts : List Token} {e : Expr Unit}, Derives c ts e →
    ∀ t ∈ ts, t.kind ≠ .endOfFile
  | _, _, _, .int n l | _, _, _, .float x l | _, _, _, .name s l => by simp
  | _, _, _, .group l k h => by
    have hinner := h.no_end
    simpa [or_imp, forall_and] using hinner
  | _, _, _, .index l k ha hi => by
    have harray := ha.no_end
    have hindex := hi.no_end
    simpa [or_imp, forall_and] using ⟨harray, hindex⟩
  | _, _, _, .callNothing l k h => by
    have hcallee := h.no_end
    simpa [or_imp, forall_and] using hcallee
  | _, _, _, .call l k h hargs => by
    have hcallee := h.no_end
    have harguments := Separated.no_end hargs
    simpa [or_imp, forall_and] using ⟨hcallee, harguments⟩
  | _, _, _, .unary l _ h => by
    have hoperand := h.no_end
    simpa using hoperand
  | _, _, _, .binary l _ ha _ hb | _, _, _, .assign l ha hb => by
    have hleft := ha.no_end
    have hright := hb.no_end
    simpa [or_imp, forall_and] using ⟨hleft, hright⟩
  | _, _, _, .tighter _ h => h.no_end

theorem Separated.no_end : ∀ {ts : List Token} {es : List (Expr Unit)},
    Separated (.symbol .comma) (Derives .assignment) ts es → ∀ t ∈ ts, t.kind ≠ .endOfFile
  | _, _, .one h => h.no_end
  | _, _, .more l h hs => by
    have hfirst := h.no_end
    have hothers := Separated.no_end hs
    simpa [or_imp, forall_and] using ⟨hfirst, hothers⟩

end

end SysYFront.Grammar
