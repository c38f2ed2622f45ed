import Mathlib.Data.List.TakeWhile
import SysYFront.Proofs.Grammar.Climbing

/-!
# SysYFront.Proofs.Grammar.Position

Reading at a position of a list of tokens. A reader that starts there sees the tokens up to
the next `endOfFile` (`TokenStream.visible`), and it stops at the position of the first token
that it leaves (`Reading.Reaches`).

**An expression is read from one position to another if and only if the tokens between them
derive it and the token there does not go on with it** (`read_reaches_iff`).
-/

namespace SysYFront

namespace TokenStream

variable {tokens : List Token}

/-- The tokens that can be read from a position on. -/
def visible (tokens : List Token) (p : Nat) : List Token :=
  (tokens.drop p).takeWhile fun t => !(t.kind == .endOfFile)

/-- A stream is what can be read from the start of its tokens. -/
theorem ofTokens_visible {s : TokenStream} (h : ofTokens tokens = .ok s) :
    s.tokens = visible tokens 0 := by
  unfold ofTokens at h
  split at h
  · cases h
  · cases h
    rfl

/-- Where tokens end with `endOfFile`, a position that can be reached has a token. -/
theorem length_visible_lt (hend : tokens.getLast?.map Token.kind = some .endOfFile) {p : Nat}
    (hp : p < tokens.length) : p + (visible tokens p).length < tokens.length := by
  have hsub := List.takeWhile_sublist (l := tokens.drop p) fun t => !(t.kind == .endOfFile)
  have hlength : (tokens.drop p).length = tokens.length - p := List.length_drop ..
  rcases Nat.lt_or_ge (visible tokens p).length (tokens.drop p).length with hlt | hge
  · omega
  · -- otherwise everything behind `p` can be read, the last token too
    obtain ⟨t, ht, hkind⟩ := Option.map_eq_some_iff.mp hend
    have hall := hsub.eq_of_length (Nat.le_antisymm hsub.length_le hge)
    have hlast : t ∈ tokens.drop p := by
      refine List.mem_of_getLast? ?_
      rw [List.getLast?_drop, if_neg (by omega), ht]
    have hvisible := List.takeWhile_eq_self_iff.mp hall t hlast
    rw [hkind] at hvisible
    exact absurd hvisible (by decide)

/-- What can be read from a position that was reached is what is left there. -/
theorem visible_add {p k : Nat} (h : k ≤ (visible tokens p).length) :
    visible tokens (p + k) = (visible tokens p).drop k := by
  unfold visible at h ⊢
  rw [← List.drop_drop]
  generalize tokens.drop p = left at h ⊢
  induction k generalizing left with
  | zero => rfl
  | succ k ih =>
    cases left with
    | nil => rfl
    | cons t ts =>
      rw [List.takeWhile_cons] at h ⊢
      split at h
      · rename_i ht
        rw [if_pos ht]
        exact ih ts (Nat.le_of_succ_le_succ h)
      · exact absurd h (Nat.not_succ_le_zero k)

theorem take_visible {p k : Nat} (h : k ≤ (visible tokens p).length) :
    (visible tokens p).take k = tokens.extract p (p + k) := by
  rw [List.extract_eq_take_drop, Nat.add_sub_cancel_left]
  unfold visible at h ⊢
  generalize tokens.drop p = left at h ⊢
  have hsplit := List.takeWhile_append_dropWhile (l := left)
    (p := fun t : Token => !(t.kind == .endOfFile))
  conv => rhs; rw [← hsplit]
  exact (List.take_append_of_le_length h).symm

/-- As long as the end of the file is not among the tokens, they can be read. -/
theorem le_length_visible {p q : Nat} (hpq : p ≤ q) (hq : q ≤ tokens.length)
    (h : ∀ t ∈ tokens.extract p q, t.kind ≠ .endOfFile) :
    q - p ≤ (visible tokens p).length := by
  rw [List.extract_eq_take_drop] at h
  unfold visible
  have hlength : (tokens.drop p).length = tokens.length - p := List.length_drop ..
  have hle : q - p ≤ (tokens.drop p).length := by omega
  generalize tokens.drop p = left at h hle ⊢
  rw [← List.take_append_drop (q - p) left, List.takeWhile_append_of_pos (by simpa using h),
    List.length_append, List.length_take]
  omega

end TokenStream

open TokenStream (visible)

/-- Whether a reader that starts at the position `p` gives `a` and stops at `q`. -/
def Reading.Reaches {α : Type} (m : Reading α) (tokens : List Token) (p : Nat) (a : α)
    (q : Nat) : Prop :=
  p ≤ q ∧ q ≤ p + (visible tokens p).length ∧ m (visible tokens p) = .ok a (visible tokens q)

namespace Grammar

open Reading

variable {tokens ts : List Token} {e e' : Expr Unit}

/-- The grammar is unambiguous: tokens derive at most one expression. -/
theorem Derives.unique (h : Derives .assignment ts e) (h' : Derives .assignment ts e') :
    e = e' := by
  have hread := read_eq_ok_iff.mpr ⟨ts, (List.append_nil ts).symm, h, follows_nil 0⟩
  have hread' := read_eq_ok_iff.mpr ⟨ts, (List.append_nil ts).symm, h', follows_nil 0⟩
  cases hread.symm.trans hread'
  rfl

/-- The token at a position that was reached is the first that can be read from there, or
the end of the file. -/
theorem follows_visible_iff {q : Nat} {t : Token} (ht : tokens[q]? = some t) :
    Follows 0 (visible tokens q) ↔ ¬ GoesOn t.kind := by
  obtain ⟨hq, rfl⟩ := List.getElem?_eq_some_iff.mp ht
  rw [follows_zero_iff, visible, List.drop_eq_getElem_cons hq, List.takeWhile_cons]
  split
  · simp
  · rename_i hend
    rw [Bool.not_eq_true, Bool.not_eq_false', beq_iff_eq] at hend
    rw [hend]
    simp [GoesOn]

/-- **Precedence climbing is the grammar of expressions.** In a list of tokens that ends with
`endOfFile`, the reader that starts at `p` gives `e` and stops at `q` if and only if the tokens
from `p` to `q` derive `e` and the token at `q` does not go on with it; and tokens derive
at most one expression. -/
theorem read_reaches_iff (hend : tokens.getLast?.map Token.kind = some .endOfFile) :
    (∀ (p q : Nat) (e : Expr Unit), p ≤ q →
      (Reaches Expr.read tokens p e q ↔ Derives .assignment (tokens.extract p q) e ∧
        ∃ t, tokens[q]? = some t ∧ ¬ GoesOn t.kind)) ∧
      ∀ (ts : List Token) (e e' : Expr Unit), Derives .assignment ts e →
        Derives .assignment ts e' → e = e' := by
  refine ⟨fun p q e hpq => ?_, fun ts e e' => Derives.unique⟩
  constructor
  · rintro ⟨-, hq, hread⟩
    obtain ⟨taken, htaken, he, hfollows⟩ := read_eq_ok_iff.mp hread
    obtain ⟨k, rfl⟩ := Nat.exists_eq_add_of_le hpq
    have hk : k ≤ (visible tokens p).length := Nat.le_of_add_le_add_left hq
    have hextract : taken = tokens.extract p (p + k) := by
      rw [TokenStream.visible_add hk] at htaken
      rw [← TokenStream.take_visible hk]
      exact (List.append_cancel_right (htaken.symm.trans (List.take_append_drop k _).symm))
    have hp : p < tokens.length := by
      obtain ⟨t, us, rfl, -⟩ := he.starts
      refine Nat.lt_of_not_le fun hle => ?_
      rw [visible, List.drop_eq_nil_of_le hle] at htaken
      cases htaken
    have hqlt : p + k < tokens.length :=
      Nat.lt_of_le_of_lt hq (TokenStream.length_visible_lt hend hp)
    have ht := List.getElem?_eq_getElem hqlt
    exact ⟨hextract ▸ he, _, ht, (follows_visible_iff ht).mp hfollows⟩
  · rintro ⟨he, t, ht, hgo⟩
    obtain ⟨hqlt, -⟩ := List.getElem?_eq_some_iff.mp ht
    have hlength := TokenStream.le_length_visible hpq (Nat.le_of_lt hqlt) he.no_end
    refine ⟨hpq, by omega, ?_⟩
    obtain ⟨k, rfl⟩ := Nat.exists_eq_add_of_le hpq
    rw [Nat.add_sub_cancel_left] at hlength
    refine read_eq_ok_iff.mpr ⟨_, ?_, he, (follows_visible_iff ht).mpr hgo⟩
    rw [TokenStream.visible_add hlength, ← TokenStream.take_visible hlength,
      List.take_append_drop]

/-- In `= - x [ 1 ] ;` an expression stands from the second token to the semicolon. -/
theorem negated_element_reaches :
    let tokens : List Token := [⟨.symbol .equal, ⟨1, 1⟩⟩, ⟨.symbol .minus, ⟨1, 3⟩⟩,
      ⟨.name "x", ⟨1, 5⟩⟩, ⟨.symbol .leftBracket, ⟨1, 6⟩⟩, ⟨.intLiteral 1, ⟨1, 7⟩⟩,
      ⟨.symbol .rightBracket, ⟨1, 8⟩⟩, ⟨.symbol .semicolon, ⟨1, 9⟩⟩, ⟨.endOfFile, ⟨1, 10⟩⟩]
    tokens.getLast?.map Token.kind = some .endOfFile ∧
      Reaches Expr.read tokens 1 (.unary .neg (.index (.var "x" ⟨1, 5⟩ ())
        (.literal (.int 1) ⟨1, 7⟩ ()) ⟨1, 6⟩ ()) ⟨1, 3⟩ ()) 6 := by
  intro tokens
  have hend : tokens.getLast?.map Token.kind = some .endOfFile := rfl
  refine ⟨hend, ((read_reaches_iff hend).1 1 6 _ (by decide)).mpr ⟨?_, _, rfl, ?_⟩⟩
  · have harray : Derives .suffixed [⟨.name "x", ⟨1, 5⟩⟩] (.var "x" ⟨1, 5⟩ ()) :=
      .tighter rfl (.name "x" ⟨1, 5⟩)
    have hsubscript : Derives .assignment [⟨.intLiteral 1, ⟨1, 7⟩⟩]
        (.literal (.int 1) ⟨1, 7⟩ ()) := (Derives.int 1 ⟨1, 7⟩).whole
    have helement := Derives.index ⟨1, 6⟩ ⟨1, 8⟩ harray hsubscript
    have hminus : Symbol.minus.text = UnaryOp.neg.symbol := rfl
    exact (Derives.unary ⟨1, 3⟩ hminus (.tighter rfl helement)).whole
  · rintro (h | h | h | ⟨op, h⟩)
    · cases h
    · cases h
    · cases h
    · exact absurd h (by cases op <;> decide)

end Grammar

end SysYFront
