import SysYFront.Token.Source

/-!
# SysYFront.Proofs.Arithmetic.Scan

Cutting a text part by part. What a part is cut into depends on what follows it: a number or a
word goes on with the characters that it can be made of, and a symbol may be the start of a
longer one (`Token.Scans`).
-/

namespace SysYFront.Token

variable {p q : Char → Bool} {l : Location} {cs ds rest : List Char} {ts us : List Token} {c : Char}

/-! ### What follows -/

/-- Whether a text starts with no character of a class. -/
def Stops (p : Char → Bool) (rest : List Char) : Prop :=
  ∀ c ∈ rest.head?, p c = false

@[simp] theorem stops_nil : Stops p [] := nofun

@[simp] theorem stops_cons : Stops p (c :: rest) ↔ p c = false := by
  simp [Stops]

theorem Stops.mono (h : Stops q rest) (hpq : ∀ c, p c = true → q c = true) : Stops p rest := by
  intro c hc
  have hq := h c hc
  cases hp : p c with
  | false => rfl
  | true => exact absurd (hq.symm.trans (hpq c hp)) Bool.noConfusion

theorem Stops.takeWhile (h : Stops p rest) : rest.takeWhile p = [] := by
  cases rest with
  | nil => rfl
  | cons c rest => simp [stops_cons.mp h]

theorem Stops.dropWhile (h : Stops p rest) : rest.dropWhile p = rest := by
  cases rest with
  | nil => rfl
  | cons c rest => simp [stops_cons.mp h]

/-- Characters of a class before a text that starts with none are all that is taken. -/
theorem Stops.takeWhile_append (h : Stops p rest) (hcs : ∀ c ∈ cs, p c = true) :
    (cs ++ rest).takeWhile p = cs := by
  rw [List.takeWhile_append_of_pos hcs, h.takeWhile, List.append_nil]

theorem Stops.dropWhile_append (h : Stops p rest) (hcs : ∀ c ∈ cs, p c = true) :
    (cs ++ rest).dropWhile p = rest := by
  rw [List.dropWhile_append_of_pos hcs, h.dropWhile]

/-! ### Parts of a text -/

/-- Whether the text `cs` at `l` is cut into the tokens `ts` where `rest` follows. -/
def Scans (l : Location) (cs : List Char) (ts : List Token) (rest : List Char) : Prop :=
  ofPieces l (pieces (cs ++ rest)) = ts ++ ofPieces (l.past cs) (pieces rest)

theorem Scans.nil : Scans l [] [] rest := rfl

theorem Scans.append (h : Scans l cs ts (ds ++ rest)) (h' : Scans (l.past cs) ds us rest) :
    Scans l (cs ++ ds) (ts ++ us) rest := by
  unfold Scans at h h' ⊢
  rw [List.append_assoc, h, h', Location.past_append, List.append_assoc]

/-- The tokens of a text that is cut by itself. -/
theorem Scans.ofSource {source : String} (h : Scans .start source.toList ts []) :
    ofSource source = ts ++ [⟨.endOfFile, Location.start.past source.toList⟩] := by
  unfold Scans at h
  rw [List.append_nil] at h
  rw [Token.ofSource, h, pieces, ofPieces]

theorem Scans.of_scanPiece_token {kind : Kind}
    (h : scanPiece c (cs ++ rest) = (some kind, cs.length)) :
    Scans l (c :: cs) [⟨kind, l⟩] rest := by
  rw [Scans, List.cons_append, pieces, h, List.take_left, List.drop_left]
  rfl

theorem Scans.of_scanPiece_none (h : scanPiece c (cs ++ rest) = (none, cs.length)) :
    Scans l (c :: cs) [] rest := by
  rw [Scans, List.cons_append, pieces, h, List.take_left, List.drop_left]
  rfl

/-- Blanks are cut into no token. -/
theorem Scans.blanks (h : ∀ c ∈ cs, isBlank c = true) : Scans l cs [] rest := by
  induction cs generalizing l with
  | nil => exact .nil
  | cons c cs ih =>
    have hfirst : Scans l [c] [] (cs ++ rest) := by
      refine .of_scanPiece_none ?_
      unfold scanPiece
      rw [if_pos (h c List.mem_cons_self), List.length_nil]
    exact hfirst.append (ih fun d hd => h d (List.mem_cons_of_mem c hd))

/-! ### Tokens -/

/-- What makes a comment of a slash before it. -/
def opensComment (c : Char) : Bool :=
  c == '/' || c == '*'

/-- What is neither blank nor a comment is a token. -/
theorem scanPiece_eq_scan (hblank : isBlank c = false)
    (hcomment : c = '/' → Stops opensComment cs) :
    scanPiece c cs = (some (scan c cs).1, (scan c cs).2) := by
  unfold scanPiece
  rw [if_neg (by simp [hblank])]
  split
  · simp [opensComment] at hcomment
  · simp [opensComment] at hcomment
  · rfl

/-- Classes of characters without blanks and without the slash start tokens. -/
theorem scanPiece_of_class (hc : p c = true) (hslash : p '/' = false)
    (hblank : p ' ' = false ∧ p '\t' = false ∧ p '\r' = false ∧ p '\n' = false) :
    scanPiece c cs = (some (scan c cs).1, (scan c cs).2) := by
  have hne {d : Char} (hd : p d = false) : c ≠ d := by
    rintro rfl
    exact absurd (hc.symm.trans hd) Bool.noConfusion
  obtain ⟨hspace, htab, hreturn, hline⟩ := hblank
  refine scanPiece_eq_scan ?_ fun h => absurd h (hne hslash)
  simp [isBlank, hne hspace, hne htab, hne hreturn, hne hline]

/-! ### Symbols -/

/-- What starts with the character of a symbol is scanned as a symbol. -/
theorem scan_symbol {s : Symbol} (h : s.text.toList = c :: cs) (rest : List Char) :
    isBlank c = false ∧ scan c rest = symbol c rest := by
  cases s <;> cases h <;> exact ⟨rfl, rfl⟩

/-- A symbol ends where no longer symbol and no comment starts with it. -/
theorem Scans.symbol (s : Symbol)
    (hsymbol : ∀ d ∈ rest.head?, Symbol.ofText? (s.text.toList ++ [d]) = none)
    (hcomment : s = .slash → Stops opensComment rest) :
    Scans l s.text.toList [⟨.symbol s, l⟩] rest := by
  cases htext : s.text.toList with
  | nil => cases s <;> cases htext
  | cons c cs =>
    obtain ⟨hblank, hscan⟩ := scan_symbol htext (cs ++ rest)
    refine .of_scanPiece_token ?_
    rw [scanPiece_eq_scan hblank, hscan]
    · cases cs with
      | nil =>
        have hpair : (rest.head?.bind fun d => Symbol.ofText? [c, d]) = none := by
          rw [htext] at hsymbol
          cases rest with
          | nil => rfl
          | cons d rest => exact hsymbol d rfl
        rw [List.nil_append, Token.symbol, hpair, ← htext]
        cases s <;> cases htext <;> rfl
      | cons d ds => cases s <;> cases htext <;> rfl
    · rintro rfl
      cases s <;> cases htext
      exact hcomment rfl

/-- What can make a longer symbol or a comment of the symbol before it. -/
def joinsSymbol (c : Char) : Bool :=
  c == '=' || c == '&' || c == '|' || opensComment c

theorem joinsSymbol_eq_false (h : c.isDigit = true ∨ isBlank c = true) :
    joinsSymbol c = false := by
  have hne (d : Char) (hd : d.isDigit = false ∧ isBlank d = false) : c ≠ d := by
    rintro rfl
    simp [hd] at h
  simp [joinsSymbol, opensComment, hne '=' ⟨rfl, rfl⟩, hne '&' ⟨rfl, rfl⟩, hne '|' ⟨rfl, rfl⟩,
    hne '/' ⟨rfl, rfl⟩, hne '*' ⟨rfl, rfl⟩]

theorem Scans.operator (s : Symbol) (h : Stops joinsSymbol rest) :
    Scans l s.text.toList [⟨.symbol s, l⟩] rest := by
  refine .symbol s (fun d hd => ?_) fun _ => h.mono fun c hc => by simp [joinsSymbol, hc]
  have hne : '=' ≠ d ∧ '&' ≠ d ∧ '|' ≠ d := by
    have hd := h d hd
    simp only [joinsSymbol, Bool.or_eq_false_iff, beq_eq_false_iff_ne] at hd
    exact ⟨hd.1.1.1.symm, hd.1.1.2.symm, hd.1.2.symm⟩
  cases s <;> simp [Symbol.ofText?, Symbol.all, Symbol.text, hne]

/-- No symbol and no comment starts with a bracket or a semicolon and goes on. -/
theorem Scans.delimiter {s : Symbol} (hs : s = .leftParen ∨ s = .rightParen ∨ s = .semicolon) :
    Scans l s.text.toList [⟨.symbol s, l⟩] rest := by
  rcases hs with rfl | rfl | rfl <;>
    exact .symbol _ (fun d _ => by simp [Symbol.ofText?, Symbol.all, Symbol.text]) nofun

/-! ### Words -/

/-- A word, reserved or not, ends where no longer word starts with it. -/
theorem Scans.word (hstart : isNameStart c = true) (hdigit : c.isDigit = false)
    (hpart : cs.all isNamePart = true) (hrest : Stops isNamePart rest) :
    Scans l (c :: cs) [⟨(Token.word c cs).1, l⟩] rest := by
  have hquote : c ≠ '"' := by
    rintro rfl
    exact absurd hstart (by decide)
  rw [List.all_eq_true] at hpart
  have hself := stops_nil.takeWhile_append hpart
  rw [List.append_nil] at hself
  have hword : Token.word c (cs ++ rest) = ((Token.word c cs).1, cs.length) := by
    unfold Token.word
    rw [hrest.takeWhile_append hpart, hself]
    cases hkeyword : Keyword.ofText? (String.ofList (c :: cs)) <;> simp only [hkeyword]
  refine .of_scanPiece_token ?_
  rw [scanPiece_of_class hstart rfl ⟨rfl, rfl, rfl, rfl⟩, scan, if_neg hquote,
    if_neg (by simp [hdigit]), if_pos hstart, hword]

/-! ### Numbers -/

theorem isNumberPart_of_isBlank (h : isBlank c = true) : isNumberPart c = false := by
  simp only [isBlank, Bool.or_eq_true, beq_iff_eq] at h
  obtain ((rfl | rfl) | rfl) | rfl := h <;> rfl

theorem digitValue_digitChar : ∀ {k : Nat}, k < 16 → digitValue k.digitChar = k := by
  decide

/-- Digits are the digits of the number that they denote. -/
theorem numeral_toDigits {b : Nat} (hb : 1 < b) (hb' : b ≤ 16) (n : Nat) :
    numeral b (Nat.toDigits b n) = n := by
  induction n using Nat.strongRecOn with
  | ind n ih =>
    rcases Nat.lt_or_ge n b with hlt | hge
    · rw [Nat.toDigits_of_lt_base hlt, numeral, List.foldl_cons, List.foldl_nil,
        digitValue_digitChar (Nat.lt_of_lt_of_le hlt hb'), Nat.zero_mul, Nat.zero_add]
    · have hlast : n % b < 16 := Nat.lt_of_lt_of_le (Nat.mod_lt n (by omega)) hb'
      have hmore := ih (n / b) (Nat.div_lt_self (by omega) hb)
      rw [numeral] at hmore
      rw [Nat.toDigits_of_base_le hb hge, numeral, List.foldl_append, hmore, List.foldl_cons,
        List.foldl_nil, digitValue_digitChar hlast, Nat.div_add_mod']

/-- A number that is not zero has no leading zero. -/
theorem head?_toDigits_ne {n : Nat} (hn : n ≠ 0) : (Nat.toDigits 10 n).head? ≠ some '0' := by
  induction n using Nat.strongRecOn with
  | ind n ih =>
    rcases Nat.lt_or_ge n 10 with hlt | hge
    · rw [Nat.toDigits_of_lt_base hlt]
      simpa using hn
    · rw [Nat.toDigits_of_base_le (by decide) hge, List.head?_append,
        Option.or_of_isSome (List.isSome_head?.mpr Nat.toDigits_ne_nil)]
      exact ih (n / 10) (by omega) (by omega)

/-- What goes on with no number goes on with no name. -/
theorem Stops.isNamePart (h : Stops isNumberPart rest) : Stops isNamePart rest :=
  h.mono fun c hc => by simp [isNumberPart, hc]

theorem Stops.isDigit (h : Stops Token.isNamePart rest) : Stops Char.isDigit rest :=
  h.mono fun c hc => by simp [Token.isNamePart, Char.isAlphanum, hc]

/-- A number without a leading zero is a decimal one. -/
theorem number_eq_decimal (hzero : c = '0' → cs = []) (hrest : Stops isNamePart rest) :
    number c (cs ++ rest) = decimalNumber c (cs ++ rest) := by
  cases cs with
  | nil =>
    cases rest with
    | nil => rfl
    | cons d rest =>
      have hd := stops_cons.mp hrest
      have hx : ¬ (d = 'x' ∨ d = 'X') := by
        rintro (rfl | rfl) <;> cases hd
      have hdigit : ¬ (d.isDigit = true ∨ d = '_') := by
        simp only [Token.isNamePart, Char.isAlphanum, Bool.or_eq_false_iff,
          beq_eq_false_iff_ne] at hd
        simp [hd]
      simp [number, hx, hdigit]
  | cons d ds =>
    have hc : c ≠ '0' := fun h => absurd (hzero h) (List.cons_ne_nil d ds)
    simp [number, hc]

theorem decimalNumber_eq (hcs : ∀ d ∈ cs, d.isDigit = true) (hrest : Stops isNumberPart rest) :
    decimalNumber c (cs ++ rest) = (intKind 10 (c :: cs), cs.length) := by
  have hdigits : Stops Char.isDigit rest := hrest.isNamePart.isDigit
  rw [decimalNumber, hdigits.takeWhile_append hcs, hdigits.dropWhile_append hcs]
  split
  · exact absurd (stops_cons.mp hrest) (by decide)
  · rw [endNumber, hrest.takeWhile]

/-- A digit starts a number. -/
theorem scanPiece_digit (hdigit : c.isDigit = true) :
    scanPiece c cs = (some (number c cs).1, (number c cs).2) := by
  have hquote : c ≠ '"' := by
    rintro rfl
    exact absurd hdigit (by decide)
  rw [scanPiece_of_class hdigit rfl ⟨rfl, rfl, rfl, rfl⟩, scan, if_neg hquote, if_pos hdigit]

theorem Scans.number {kind : Kind} (hdigit : c.isDigit = true)
    (h : Token.number c (cs ++ rest) = (kind, cs.length)) : Scans l (c :: cs) [⟨kind, l⟩] rest := by
  refine .of_scanPiece_token ?_
  rw [scanPiece_digit hdigit, h]

theorem Scans.decimal (n : Nat) (hrest : Stops isNumberPart rest) :
    Scans l (Nat.toDigits 10 n) [⟨.intLiteral (Int32.ofNat n), l⟩] rest := by
  cases htext : Nat.toDigits 10 n with
  | nil => exact absurd htext Nat.toDigits_ne_nil
  | cons c cs =>
    have hdigit : ∀ d ∈ c :: cs, d.isDigit = true := fun d hd =>
      Nat.isDigit_of_mem_toDigits (by decide) (by decide) (htext ▸ hd)
    rw [List.forall_mem_cons] at hdigit
    have hzero : c = '0' → cs = [] := by
      rintro rfl
      by_cases hn : n = 0
      · rw [hn, Nat.toDigits_zero] at htext
        exact (List.cons.inj htext).2.symm
      · exact absurd (htext ▸ rfl) (head?_toDigits_ne hn)
    have hvalue : intKind 10 (c :: cs) = .intLiteral (Int32.ofNat n) := by
      rw [intKind, ← htext, numeral_toDigits (by decide) (by decide)]
    refine .number hdigit.1 ?_
    rw [number_eq_decimal hzero hrest.isNamePart, decimalNumber_eq hdigit.2 hrest, hvalue]

end SysYFront.Token
