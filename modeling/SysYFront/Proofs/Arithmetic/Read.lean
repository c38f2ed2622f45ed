import SysYFront.Proofs.Arithmetic.IntExpr
import SysYFront.Proofs.Arithmetic.Scan
import SysYFront.Proofs.Grammar.Program

/-!
# SysYFront.Proofs.Arithmetic.Read

The declaration of a constant with an integer expression is read as the tree of the
expression (`IntExpr.program_ofSource`): brackets around operands leave no node, every operator
stands where its symbol does, and a negative literal is the negation of its magnitude. Where the
evaluation of the expression ends with a division by zero there is a token of that operator
(`IntExpr.FailsAt`).
-/

namespace SysYFront

namespace IntExpr

open Token Grammar

/-- The tree of an expression whose text starts at `l`. -/
def tree (s : Layout) : IntExpr → Location → Expr Unit
  | literal n, l =>
    if n < 0 then
      .unary .neg (.literal (.int (Int32.ofNat n.toInt.natAbs)) (l.after '-') ()) l ()
    else .literal (.int (Int32.ofNat n.toInt.natAbs)) l ()
  | unary op e, l =>
    .unary op (e.tree s (inside e.isCompound (l.past op.symbol.toList))) l ()
  | binary op a b, l =>
    let k := behind s a l
    .binary op (a.tree s (inside a.isCompound l))
      (b.tree s (inside b.isCompound (nextTo s op.symbol k))) k ()

/-! ### Symbols of operators -/

theorem exists_unary_symbol (op : UnaryOp) : ∃ s : Symbol, s.text = op.symbol := by
  cases op
  exacts [⟨.plus, rfl⟩, ⟨.minus, rfl⟩, ⟨.bang, rfl⟩]

theorem exists_binary_symbol (op : BinaryOp) : ∃ s : Symbol, s.text = op.symbol := by
  cases op
  exacts [⟨.plus, rfl⟩, ⟨.minus, rfl⟩, ⟨.star, rfl⟩, ⟨.slash, rfl⟩, ⟨.percent, rfl⟩,
    ⟨.equalEqual, rfl⟩, ⟨.bangEqual, rfl⟩, ⟨.less, rfl⟩, ⟨.lessEqual, rfl⟩, ⟨.greater, rfl⟩,
    ⟨.greaterEqual, rfl⟩, ⟨.andAnd, rfl⟩, ⟨.orOr, rfl⟩]

/-! ### What stands next to each other -/

section Neighbours

variable {s : Layout} {p : Char → Bool} {rest : List Char}

/-- A class without blanks stops at a gap if it stops at what stands behind the gap. -/
theorem stops_gap (h : Stops p rest) (hblank : ∀ c, isBlank c = true → p c = false) :
    Stops p (s.gap ++ rest) := by
  cases hgap : s.gap with
  | nil => exact h
  | cons c cs =>
    have hc : isBlank c = true := s.blank c (hgap ▸ List.mem_cons_self)
    exact stops_cons.mpr (hblank c hc)

theorem stops_digits (n : Nat) (hdigit : ∀ c, c.isDigit = true → p c = false) :
    Stops p (Nat.toDigits 10 n ++ rest) := by
  cases htext : Nat.toDigits 10 n with
  | nil => exact absurd htext Nat.toDigits_ne_nil
  | cons c cs =>
    have hc : c ∈ Nat.toDigits 10 n := htext ▸ List.mem_cons_self
    exact stops_cons.mpr (hdigit c (Nat.isDigit_of_mem_toDigits (by decide) (by decide) hc))

/-- An operand starts with a digit, a minus sign or a bracket. -/
theorem stops_operand (e : IntExpr) (hdigit : ∀ c, c.isDigit = true → p c = false)
    (hminus : p '-' = false) (hbracket : p '(' = false) :
    Stops p (e.operandText s ++ rest) := by
  cases e with
  | literal n =>
    change Stops p (literalText n ++ rest)
    unfold literalText
    split
    · exact stops_cons.mpr hminus
    · exact stops_digits _ hdigit
  | unary op e => exact stops_cons.mpr hbracket
  | binary op a b => exact stops_cons.mpr hbracket

theorem stops_symbol (op : BinaryOp) : Stops isNumberPart (op.symbol.toList ++ rest) := by
  cases op <;> exact stops_cons.mpr rfl

end Neighbours

/-! ### Divisions by zero -/

/-- Whether an evaluation that fails does so at a token of the division or the remainder. -/
def FailsAt (ts : List Token) (v : Except Diagnostic Int) : Prop :=
  ∀ p l, v = .error ⟨p, l⟩ →
    p = .divisionByZero ∧ ⟨.symbol .slash, l⟩ ∈ ts ∨ p = .moduloByZero ∧ ⟨.symbol .percent, l⟩ ∈ ts

section FailsAt

variable {ts us : List Token} {v : Except Diagnostic Int} {f : Int → Except Diagnostic Int}

theorem FailsAt.pure (x : Int) : FailsAt ts (Pure.pure x) := nofun

theorem FailsAt.bind (h : FailsAt ts v) (hf : ∀ x, FailsAt ts (f x)) : FailsAt ts (v >>= f) := by
  cases v with
  | ok x => exact hf x
  | error d => exact h

theorem FailsAt.mono (h : FailsAt ts v) (hts : ts ⊆ us) : FailsAt us v := fun p l hv =>
  (h p l hv).imp (And.imp_right (hts ·)) (And.imp_right (hts ·))

theorem FailsAt.guard {p : Problem} {l : Location} {q : Prop} [Decidable q]
    (h : p = .divisionByZero ∧ ⟨.symbol .slash, l⟩ ∈ ts ∨
      p = .moduloByZero ∧ ⟨.symbol .percent, l⟩ ∈ ts) (hv : FailsAt ts v) :
    FailsAt ts (if q then report p l else v) := by
  split
  · rintro _ _ ⟨⟩
    exact h
  · exact hv

theorem failsAt_binaryValue {op : BinaryOp} {symbol : Symbol} (htext : symbol.text = op.symbol)
    {l : Location} (hmem : ⟨.symbol symbol, l⟩ ∈ ts) (x y : Int) :
    FailsAt ts (binaryValue op x y l) := by
  have hsymbol := ofSymbol?_eq_some_iff.mpr htext
  cases op with
  | div =>
    obtain rfl : symbol = .slash := by cases symbol <;> first | rfl | cases hsymbol
    exact .guard (.inl ⟨rfl, hmem⟩) (.pure _)
  | mod =>
    obtain rfl : symbol = .percent := by cases symbol <;> first | rfl | cases hsymbol
    exact .guard (.inr ⟨rfl, hmem⟩) (.pure _)
  | _ => exact .pure _

end FailsAt

/-! ### From text to tree -/

/-- Whether a token can be taken by a reader. -/
def IsWord (t : Token) : Prop :=
  t.kind ≠ .endOfFile ∧ ∀ reason, t.kind ≠ .invalid reason

/-- Whether the text `cs` at `l` is read as the expression `t` where `rest` follows, and `v` can
be its evaluation. -/
def Reads (c : Category) (l : Location) (cs rest : List Char) (t : Expr Unit)
    (v : Except Diagnostic Int) : Prop :=
  ∃ ts, Scans l cs ts rest ∧ (∀ t ∈ ts, IsWord t) ∧ Derives c ts t ∧ FailsAt ts v

variable {s : Layout} {l : Location} {cs rest : List Char} {t : Expr Unit} {e : IntExpr}
  {v : Except Diagnostic Int}

theorem Reads.loosen {c d : Category} (h : Reads c l cs rest t v) (hd : d.power ≤ c.power) :
    Reads d l cs rest t v := by
  obtain ⟨ts, hts, hwords, hD, hv⟩ := h
  exact ⟨ts, hts, hwords, hD.loosen hd, hv⟩

theorem reads_digits (n : Nat) (x : Int) (hrest : Stops isNumberPart rest) :
    Reads .unary l (Nat.toDigits 10 n) rest (.literal (.int (Int32.ofNat n)) l ()) (pure x) :=
  ⟨[⟨.intLiteral (Int32.ofNat n), l⟩], .decimal n hrest, by simp [IsWord],
    (Derives.int (Int32.ofNat n) l).loosen (by decide), .pure x⟩

theorem reads_unary (op : UnaryOp) (f : Int → Int)
    (h : Reads .unary (l.past op.symbol.toList) cs rest t v)
    (hjoins : Stops joinsSymbol (cs ++ rest)) :
    Reads .unary l (op.symbol.toList ++ cs) rest (.unary op t l ()) (do let x ← v; pure (f x)) := by
  obtain ⟨ts, hts, hwords, hD, hv⟩ := h
  obtain ⟨symbol, htext⟩ := exists_unary_symbol op
  have hop := Scans.operator (l := l) symbol hjoins
  rw [htext] at hop
  exact ⟨_, hop.append hts, by simpa [IsWord] using hwords, .unary l htext hD,
    (hv.mono (List.subset_cons_self _ _)).bind fun x => .pure _⟩

theorem reads_enclosed (h : Reads .assignment (l.after '(') cs (')' :: rest) t v) :
    Reads .primary l ('(' :: cs ++ [')']) rest t v := by
  obtain ⟨ts, hts, hwords, hD, hv⟩ := h
  have hopen : Scans l ['('] [⟨.symbol .leftParen, l⟩] (cs ++ ')' :: rest) :=
    .delimiter (.inl rfl)
  have hclose {k : Location} : Scans k [')'] [⟨.symbol .rightParen, k⟩] rest :=
    .delimiter (.inr (.inl rfl))
  exact ⟨_, (hopen.append hts).append hclose, by
    simpa [IsWord, or_imp, forall_and] using hwords, .group l _ hD, hv.mono (by simp)⟩

theorem reads_literal (n : Int32) (hrest : Stops isNumberPart rest) :
    Reads .unary l (literalText n) rest ((literal n).tree s l) ((literal n).eval s l) := by
  unfold literalText tree
  split
  · have hjoins : Stops joinsSymbol (Nat.toDigits 10 n.toInt.natAbs ++ rest) :=
      stops_digits _ fun c hc => joinsSymbol_eq_false (.inl hc)
    exact reads_unary .neg id (reads_digits n.toInt.natAbs n.toInt hrest) hjoins
  · exact reads_digits _ _ hrest

/-- An operand is read as its expression, if the expression by itself is. -/
theorem reads_operand
    (h : ∀ {l rest}, Stops isNumberPart rest →
      Reads .assignment l (e.text s) rest (e.tree s l) (e.eval s l))
    (hrest : Stops isNumberPart rest) :
    Reads .unary l (e.operandText s) rest (e.tree s (inside e.isCompound l))
      (e.eval s (inside e.isCompound l)) := by
  have hclose : Stops isNumberPart (')' :: rest) := stops_cons.mpr rfl
  cases e with
  | literal n => exact reads_literal n hrest
  | unary op e => exact (reads_enclosed (h hclose)).loosen (by decide)
  | binary op a b => exact (reads_enclosed (h hclose)).loosen (by decide)

theorem stops_joins_operand : Stops joinsSymbol (e.operandText s ++ rest) :=
  stops_operand e (fun _ hc => joinsSymbol_eq_false (.inl hc)) rfl rfl

/-- The text of an expression is read as its tree. -/
theorem reads_text (s : Layout) : ∀ (e : IntExpr) {l : Location} {rest : List Char},
    Stops isNumberPart rest → Reads .assignment l (e.text s) rest (e.tree s l) (e.eval s l)
  | literal n, l, rest, hrest => (reads_literal n hrest).loosen (by decide)
  | unary op e, l, rest, hrest => by
    have hoperand := reads_operand (l := l.past op.symbol.toList) (reads_text s e) hrest
    exact (reads_unary op (unaryValue op) hoperand stops_joins_operand).loosen (by decide)
  | binary op a b, l, rest, hrest => by
    obtain ⟨symbol, htext⟩ := exists_binary_symbol op
    obtain ⟨c, hc, hpower⟩ := exists_tighter (c := .unary) (rightPower_le (.binary op))
    have hgap {k : Location} {rest : List Char} : Scans k s.gap [] rest := .blanks s.blank
    -- behind the left operand stands a blank or the operator
    have hstops : Stops isNumberPart
        (s.gap ++ (op.symbol.toList ++ (s.gap ++ (b.operandText s ++ rest)))) :=
      stops_gap (stops_symbol op) fun c => isNumberPart_of_isBlank
    obtain ⟨ts, hts, htwords, hta, hva⟩ := reads_operand (l := l) (reads_text s a) hstops
    -- and behind the operator a blank or the right operand
    have hjoins : Stops joinsSymbol (s.gap ++ (b.operandText s ++ rest)) :=
      stops_gap stops_joins_operand fun c hc => joinsSymbol_eq_false (.inr hc)
    have hop := Scans.operator (l := behind s a l) symbol hjoins
    rw [htext] at hop
    obtain ⟨us, hus, huwords, hub, hvb⟩ := reads_operand
      (l := nextTo s op.symbol (behind s a l)) (reads_text s b) hrest
    have hplace : l.past (a.operandText s ++ s.gap ++ op.symbol.toList ++ s.gap) =
        nextTo s op.symbol (behind s a l) := by
      simp [nextTo, behind]
    have hscan := (((hts.append hgap).append hop).append hgap).append (hplace ▸ hus)
    have hleft := hta.loosen (d := category op) (by cases op <;> decide)
    have hbinary := Derives.binary (behind s a l) htext hleft hc (hub.loosen hpower)
    have htokens : ts ++ [] ++ [⟨.symbol symbol, behind s a l⟩] ++ [] ++ us =
        ts ++ ⟨.symbol symbol, behind s a l⟩ :: us := by
      simp
    refine ⟨_, htokens ▸ hscan, ?_, hbinary.whole, ?_⟩
    · exact List.forall_mem_append.mpr ⟨htwords, by simpa [IsWord] using huwords⟩
    · refine (hva.mono (by simp)).bind fun x => (hvb.mono (by simp)).bind fun y => ?_
      exact failsAt_binaryValue htext (by simp) x y

/-! ### The declaration -/

/-- The declaration of a constant `x` with the expression as its initializer. -/
def declaration (s : Layout) (e : IntExpr) : Decl Unit :=
  ⟨"x", true, .int, [], some (.expr (e.tree s (start s e))), ⟨1, 11⟩, ()⟩

/-- A word and a blank before a text. -/
theorem scans_word (c : Char) (cs : List Char) {ds : List Char} {ts : List Token}
    (hstart : isNameStart c = true) (hdigit : c.isDigit = false)
    (hpart : cs.all isNamePart = true)
    (h : Scans (l.past (c :: cs ++ [' '])) ds ts rest) :
    Scans l (c :: cs ++ [' '] ++ ds) (⟨(word c cs).1, l⟩ :: ts) rest := by
  have hword : Scans l (c :: cs) [⟨(word c cs).1, l⟩] ([' '] ++ (ds ++ rest)) :=
    .word hstart hdigit hpart (stops_cons.mpr rfl)
  exact (hword.append (.blanks (by simp [isBlank]))).append h

theorem scans_header : Scans .start "const int x = ".toList
    [⟨.keyword .constKw, ⟨1, 1⟩⟩, ⟨.keyword .intKw, ⟨1, 7⟩⟩, ⟨.name "x", ⟨1, 11⟩⟩,
      ⟨.symbol .equal, ⟨1, 13⟩⟩] rest := by
  have hequal : Scans ⟨1, 13⟩ ['=', ' '] [⟨.symbol .equal, ⟨1, 13⟩⟩] rest := by
    have hsymbol : Scans ⟨1, 13⟩ ['='] [⟨.symbol .equal, ⟨1, 13⟩⟩] ([' '] ++ rest) :=
      .operator .equal (stops_cons.mpr rfl)
    exact hsymbol.append (.blanks (by simp [isBlank]))
  have hname : Scans ⟨1, 11⟩ ['x', ' ', '=', ' ']
      [⟨.name "x", ⟨1, 11⟩⟩, ⟨.symbol .equal, ⟨1, 13⟩⟩] rest :=
    scans_word 'x' [] rfl rfl rfl hequal
  have hint : Scans ⟨1, 7⟩ ['i', 'n', 't', ' ', 'x', ' ', '=', ' ']
      [⟨.keyword .intKw, ⟨1, 7⟩⟩, ⟨.name "x", ⟨1, 11⟩⟩, ⟨.symbol .equal, ⟨1, 13⟩⟩] rest :=
    scans_word 'i' ['n', 't'] rfl rfl rfl hname
  exact scans_word 'c' ['o', 'n', 's', 't'] rfl rfl rfl hint

/-- The initializer, in brackets or not, is read as the tree of the expression. -/
theorem reads_initializer (s : Layout) (e : IntExpr) (hrest : Stops isNumberPart rest) :
    Reads .assignment (Location.start.past "const int x = ".toList)
      (enclose (s.bracketed && e.isCompound) (e.text s)) rest (e.tree s (start s e))
      (e.eval s (start s e)) := by
  unfold start enclose inside
  split
  · exact (reads_enclosed (reads_text s e (stops_cons.mpr rfl))).loosen (by decide)
  · exact reads_text s e hrest

/-- The tokens of the declaration, around those of the expression. -/
theorem derives_declaration {ts : List Token} (k : Location)
    (h : Derives .assignment ts (e.tree s (start s e))) :
    DerivesProgram ([⟨.keyword .constKw, ⟨1, 1⟩⟩, ⟨.keyword .intKw, ⟨1, 7⟩⟩,
      ⟨.name "x", ⟨1, 11⟩⟩, ⟨.symbol .equal, ⟨1, 13⟩⟩] ++ ts ++ [⟨.symbol .semicolon, k⟩])
      [.global (declaration s e)] := by
  have hdeclarator : Declarator true .int
      (⟨.name "x", ⟨1, 11⟩⟩ :: [] ++ ⟨.symbol .equal, ⟨1, 13⟩⟩ :: ts) (declaration s e) :=
    .initialized "x" ⟨1, 11⟩ ⟨1, 13⟩ .nil (.expr h)
  have hlist := DeclarationList.const ⟨1, 1⟩ ⟨1, 7⟩ k .int (.one hdeclarator)
  have hprogram := DerivesProgram.mk (.cons (ProgramUnit.declarations hlist) .nil)
  rwa [List.append_nil] at hprogram

/-- The tokens of the declaration are words that derive it, up to the end of the file, and the
operators of the expression are among them. -/
theorem ofSource_source (s : Layout) (e : IntExpr) : ∃ ts finish,
    Token.ofSource (source s e) = ts ++ [⟨.endOfFile, finish⟩] ∧ (∀ t ∈ ts, IsWord t) ∧
      DerivesProgram ts [.global (declaration s e)] ∧ FailsAt ts (e.eval s (start s e)) := by
  have hrest : Stops isNumberPart [';'] := stops_cons.mpr rfl
  obtain ⟨ts, hts, hwords, hD, hv⟩ := reads_initializer s e hrest
  have hfinish {k : Location} : Scans k [';'] [⟨.symbol .semicolon, k⟩] [] :=
    .delimiter (.inr (.inr rfl))
  have htext : (source s e).toList =
      "const int x = ".toList ++ enclose (s.bracketed && e.isCompound) (e.text s) ++ [';'] := by
    simp [source]
  have hscan := (scans_header.append hts).append hfinish
  rw [← htext] at hscan
  refine ⟨_, _, hscan.ofSource, ?_, derives_declaration _ hD,
    hv.mono (List.Subset.trans (List.subset_append_right _ _) (List.subset_append_left _ _))⟩
  simpa [IsWord, or_imp, forall_and] using hwords

/-- The declaration of a constant is read as its tree. -/
theorem program_ofSource (s : Layout) (e : IntExpr) :
    Program.ofSource (source s e) = .ok [.global (declaration s e)] := by
  obtain ⟨ts, finish, htokens, hwords, hD, -⟩ := ofSource_source s e
  have hvalid : TokenStream.firstInvalid? (ts ++ [⟨.endOfFile, finish⟩]) = none := by
    refine firstInvalid?_eq_none (List.forall_mem_append.mpr ⟨fun t ht => (hwords t ht).2, ?_⟩)
    simp
  obtain ⟨stream, hstream⟩ : ∃ stream, TokenStream.ofSource (source s e) = .ok stream := by
    rw [TokenStream.ofSource, htokens, TokenStream.ofTokens, hvalid]
    exact ⟨_, rfl⟩
  have hvisible : stream.tokens = ts := by
    rw [TokenStream.ofSource, htokens] at hstream
    rw [TokenStream.ofTokens_visible hstream, TokenStream.visible, List.drop_zero,
      List.takeWhile_append_of_pos fun t ht => by simp [(hwords t ht).1]]
    simp
  rw [Program.ofSource, hstream]
  change (stream.run Program.read).1 = _
  rw [TokenStream.run, hvisible, program_read_eq_ok.mpr ⟨rfl, hD⟩]

end IntExpr

end SysYFront
