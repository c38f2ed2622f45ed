import Mathlib.Data.Int.ModEq
import Mathlib.Data.Nat.Digits.Defs
import SysYFront.Proofs.Source.Spelling

/-!
# SysYFront.Proofs.Source.Numeral

What numbers are read as. A numeral is decimal, hexadecimal or octal, and its digits denote a number
of any size (`Numeral`). Whatever comes before it, and as long as nothing comes behind it that a
number could go on with, it is cut into one integer literal. That holds the integer of thirty-two
bits that is congruent to the number (`ofSource_numeral`).

How a number is read is settled by its first two characters, before any point is seen. So of the
digits with a point that could be float literals, those that start like an octal number are
refused: a zero before the point stands there alone (`ofSource_pointed`).
-/

namespace SysYFront.Token

variable {l : Location} {b k : Nat} {c d : Char} {cs ds before rest : List Char}
  {ks js : List Nat} {ts us : List Token}

/-! ### Digits -/

/-- Whether a character is the digit `k` of base `b`. A letter may be small or capital. -/
def IsDigit (b : Nat) (c : Char) (k : Nat) : Prop :=
  k < b ∧ (c = k.digitChar ∨ c = k.digitChar.toUpper)

/-- Whether a text is the digits `ks` of base `b`, with underscores anywhere among them. -/
inductive DigitRow (b : Nat) : List Char → List Nat → Prop
  | nil : DigitRow b [] []
  | digit {c : Char} {k : Nat} {cs : List Char} {ks : List Nat} : IsDigit b c k →
    DigitRow b cs ks → DigitRow b (c :: cs) (k :: ks)
  | underscore {cs : List Char} {ks : List Nat} : DigitRow b cs ks → DigitRow b ('_' :: cs) ks

theorem IsDigit.mono {b' : Nat} (h : IsDigit b c k) (hb : b ≤ b') : IsDigit b' c k :=
  ⟨Nat.lt_of_lt_of_le h.1 hb, h.2⟩

theorem IsDigit.value (h : IsDigit b c k) (hb : b ≤ 16) : c ≠ '_' ∧ digitValue c = k := by
  have hk : k < 16 := Nat.lt_of_lt_of_le h.1 hb
  obtain ⟨-, hline, hvalue⟩ := hexDigit_of_spelled hk h.2
  exact ⟨hline, hvalue.trans (digitValue_digitChar hk)⟩

theorem IsDigit.isDigit (h : IsDigit 10 c k) : c.isDigit = true := by
  have hall : ∀ k < 10, k.digitChar.isDigit = true ∧ k.digitChar.toUpper.isDigit = true := by
    decide
  obtain ⟨hk, rfl | rfl⟩ := h
  · exact (hall k hk).1
  · exact (hall k hk).2

theorem IsDigit.radix {radix : Radix} (h : IsDigit radix.base c k) : radix.isDigit c = true := by
  have hoctal : ∀ k < 8, Radix.octal.isDigit k.digitChar = true ∧
      Radix.octal.isDigit k.digitChar.toUpper = true := by
    decide
  obtain ⟨hk, hc⟩ := h
  cases radix with
  | hexadecimal => exact (hexDigit_of_spelled hk hc).1
  | octal =>
    rcases hc with rfl | rfl
    · exact (hoctal k hk).1
    · exact (hoctal k hk).2

theorem forall_isDigit (h : List.Forall₂ (IsDigit 10) cs ks) : ∀ c ∈ cs, c.isDigit = true := by
  induction h with
  | nil => exact nofun
  | cons hc _ ih => exact List.forall_mem_cons.mpr ⟨hc.isDigit, ih⟩

theorem map_digitValue (h : List.Forall₂ (IsDigit 10) cs ks) : cs.map digitValue = ks := by
  induction h with
  | nil => rfl
  | cons hc _ ih => rw [List.map_cons, ih, (hc.value (by decide)).2]

/-- The number that is read is the one that the values of the digits denote. -/
theorem numeral_eq_ofDigits (b : Nat) (cs : List Char) :
    numeral b cs = Nat.ofDigits b (cs.map digitValue).reverse := by
  rw [Nat.ofDigits_eq_foldr, List.foldr_reverse, List.foldl_map]
  simp only [numeral, Nat.add_comm, Nat.mul_comm, Nat.cast_id]

namespace DigitRow

variable {radix : Radix}

theorem isPart (h : DigitRow radix.base cs ks) :
    ∀ c ∈ cs, (c == '_' || radix.isDigit c) = true := by
  induction h with
  | nil => exact nofun
  | digit hc _ ih => exact List.forall_mem_cons.mpr ⟨by rw [hc.radix, Bool.or_true], ih⟩
  | underscore _ ih => exact List.forall_mem_cons.mpr ⟨rfl, ih⟩

theorem map_filter (h : DigitRow b cs ks) (hb : b ≤ 16) :
    (cs.filter (· != '_')).map digitValue = ks := by
  induction h with
  | nil => rfl
  | digit hc _ ih =>
    obtain ⟨hline, hvalue⟩ := hc.value hb
    simp [hline, hvalue, ih]
  | underscore _ ih => simpa using ih

theorem exists_digit (h : DigitRow b cs ks) (hb : b ≤ 16) (hks : ks ≠ []) : ∃ c ∈ cs, c ≠ '_' := by
  have hne : cs.filter (· != '_') ≠ [] := by
    intro hnil
    have hvalues := h.map_filter hb
    rw [hnil] at hvalues
    exact hks hvalues.symm
  obtain ⟨c, hc⟩ := List.exists_mem_of_ne_nil _ hne
  rw [List.mem_filter, bne_iff_ne] at hc
  exact ⟨c, hc⟩

/-- Digits of a radix are read as the lowest bits of the number that they denote. -/
theorem radixNumber_eq (radix : Radix) (lead : Nat) (h : DigitRow radix.base cs ks) (hks : ks ≠ [])
    (hrest : Stops isNumberPart rest) :
    radixNumber radix lead (cs ++ rest) =
      (.intLiteral (Int32.ofNat (Nat.ofDigits radix.base ks.reverse)), lead + cs.length) := by
  have hb : radix.base ≤ 16 := by cases radix <;> decide
  rw [Token.radixNumber_eq radix lead h.isPart (h.exists_digit hb hks) hrest, intKind,
    numeral_eq_ofDigits, h.map_filter hb]

end DigitRow

/-! ### Integer literals -/

/-- Whether a text is a numeral and denotes `n`: zero, or decimal digits that do not start with
zero, or digits of base sixteen or eight behind their mark. -/
inductive Numeral : List Char → Nat → Prop
  | zero : Numeral ['0'] 0
  | decimal {c : Char} {k : Nat} {cs : List Char} {ks : List Nat} : IsDigit 10 c k → k ≠ 0 →
    List.Forall₂ (IsDigit 10) cs ks → Numeral (c :: cs) (Nat.ofDigits 10 (k :: ks).reverse)
  | hexadecimal {x : Char} {cs : List Char} {ks : List Nat} : x = 'x' ∨ x = 'X' →
    DigitRow 16 cs ks → ks ≠ [] → Numeral ('0' :: x :: cs) (Nat.ofDigits 16 ks.reverse)
  | octal {cs : List Char} {ks : List Nat} : DigitRow 8 cs ks → ks ≠ [] →
    Numeral ('0' :: cs) (Nat.ofDigits 8 ks.reverse)

/-- A digit or an underscore behind a zero makes the number octal. -/
theorem number_zero_cons (hd : d.isDigit = true ∨ d = '_') (cs : List Char) :
    number '0' (d :: cs) = radixNumber .octal 0 (d :: cs) := by
  have hx : ¬ ('0' = '0' ∧ (d = 'x' ∨ d = 'X')) := by
    rintro ⟨-, rfl | rfl⟩ <;> exact absurd hd (by decide)
  rw [number, if_neg hx, if_pos ⟨rfl, hd⟩]

theorem Numeral.scans {n : Nat} (h : Numeral cs n) (hrest : Stops isNumberPart rest) :
    Scans l cs [⟨.intLiteral (Int32.ofNat n), l⟩] rest := by
  cases h with
  | zero =>
    refine .number rfl ?_
    rw [number_eq_decimal (fun _ => rfl) hrest.isNamePart,
      decimalNumber_eq (List.forall_mem_nil _) hrest]
    rfl
  | @decimal c k cs ks hc hk hcs =>
    have hzero : c = '0' → cs = [] := by
      rintro rfl
      exact absurd (hc.value (by decide)).2.symm hk
    have hvalues := map_digitValue (.cons hc hcs)
    refine .number hc.isDigit ?_
    rw [number_eq_decimal hzero hrest.isNamePart, decimalNumber_eq (forall_isDigit hcs) hrest,
      intKind, numeral_eq_ofDigits, hvalues]
  | @hexadecimal x cs ks hx hrow hks =>
    refine .number rfl ?_
    rw [List.cons_append, number, if_pos ⟨rfl, hx⟩,
      DigitRow.radixNumber_eq .hexadecimal 1 hrow hks hrest, List.length_cons, Nat.add_comm]
    rfl
  | @octal cs ks hrow hks =>
    refine .number rfl ?_
    have hread := DigitRow.radixNumber_eq .octal 0 hrow hks hrest
    rw [Nat.zero_add] at hread
    -- The radix is chosen by the character behind the zero, which may be an underscore.
    cases hrow with
    | nil => exact absurd rfl hks
    | digit hd _ => exact (number_zero_cons (.inl (hd.mono (by decide)).isDigit) _).trans hread
    | underscore _ => exact (number_zero_cons (.inr rfl) _).trans hread

/-- An integer of thirty-two bits is congruent to the number that it is made of. -/
theorem toInt_ofNat_modEq (n : Nat) : (Int32.ofNat n).toInt ≡ n [ZMOD 2 ^ 32] := by
  rw [Int32.toInt_ofNat']
  exact Int.bmod_emod

/-- What stands behind a text that is cut by itself is cut from where that text ends. -/
theorem Scans.ofSource_append (h : Scans .start cs ts rest) :
    Token.ofSource (String.ofList (cs ++ rest)) = ts ++ ofPieces (.behind cs) (pieces rest) := by
  rw [Token.ofSource, String.toList_ofList, h, Location.past_start]

theorem Scans.ofSource_between (hbefore : Scans .start before ts (cs ++ rest))
    (h : Scans (.behind before) cs us rest) :
    Token.ofSource (String.ofList (before ++ cs ++ rest)) =
      ts ++ us ++ ofPieces (.behind (before ++ cs)) (pieces rest) := by
  rw [← Location.past_start] at h
  exact (hbefore.append h).ofSource_append

/-- **Integer literals of any length**: wherever a numeral stands, with nothing behind it that a
number could go on with, the whole of it is one integer literal, which holds the integer of
thirty-two bits that is congruent to the number that the digits denote. -/
theorem ofSource_numeral {spelling : List Char} {n : Nat}
    (hbefore : Scans .start before ts (spelling ++ rest)) (h : Numeral spelling n)
    (hrest : Stops isNumberPart rest) :
    ∃ v : Int32, v.toInt ≡ n [ZMOD 2 ^ 32] ∧
      ofSource (String.ofList (before ++ spelling ++ rest)) =
        ts ++ [⟨.intLiteral v, .behind before⟩] ++
          ofPieces (.behind (before ++ spelling)) (pieces rest) :=
  ⟨Int32.ofNat n, toInt_ofNat_modEq n, hbefore.ofSource_between (h.scans hrest)⟩

/-- More than thirty-two bits, with separators among the digits. -/
theorem long_numeral : ∃ v : Int32, v.toInt ≡ (4294967311 : Nat) [ZMOD 2 ^ 32] ∧
    ofSource "=0X_1_0000_000f" =
      [⟨.symbol .equal, ⟨1, 1⟩⟩, ⟨.intLiteral v, ⟨1, 2⟩⟩, ⟨.endOfFile, ⟨1, 16⟩⟩] := by
  have hzero : IsDigit 16 '0' 0 := ⟨by decide, .inl rfl⟩
  have hzeros {cs : List Char} {ks : List Nat} (h : DigitRow 16 cs ks) :
      DigitRow 16 ('0' :: '0' :: '0' :: cs) (0 :: 0 :: 0 :: ks) :=
    .digit hzero (.digit hzero (.digit hzero h))
  have hlow : DigitRow 16 ['_', '0', '0', '0', 'f'] [0, 0, 0, 15] :=
    .underscore (hzeros (.digit ⟨by decide, .inl rfl⟩ .nil))
  have hrow : DigitRow 16 ['_', '1', '_', '0', '0', '0', '0', '_', '0', '0', '0', 'f']
      [1, 0, 0, 0, 0, 0, 0, 0, 15] :=
    .underscore (.digit ⟨by decide, .inl rfl⟩ (.underscore (.digit hzero (hzeros hlow))))
  have hbefore (cs : List Char) :
      Scans .start ['='] [⟨.symbol .equal, .start⟩] ('0' :: cs) :=
    .of_scanPiece_token rfl
  obtain ⟨v, hvalue, hread⟩ := ofSource_numeral (hbefore _)
    (.hexadecimal (.inr rfl) hrow (List.cons_ne_nil _ _)) stops_nil
  rw [pieces] at hread
  exact ⟨v, hvalue, hread⟩

/-! ### Float literals -/

/-- What starts with a digit is a number, whatever becomes of it. -/
theorem exists_ofPieces_number (hdigit : c.isDigit = true) (l : Location) (cs : List Char) :
    ∃ more, ofPieces l (pieces (c :: cs)) = ⟨(number c cs).1, l⟩ :: more := by
  rw [pieces, scanPiece_digit hdigit]
  exact ⟨_, rfl⟩

/-- Digits with a point among them are read as the float that is nearest to them. -/
theorem decimalNumber_point (hcs : ∀ d ∈ cs, d.isDigit = true) (hds : ∀ d ∈ ds, d.isDigit = true)
    (hrest : Stops isNumberPart rest) :
    decimalNumber c (cs ++ '.' :: ds ++ rest) =
      (floatKind (c :: cs) ds, (cs ++ '.' :: ds).length) := by
  have hpoint : Stops Char.isDigit ('.' :: (ds ++ rest)) := stops_cons.mpr rfl
  have hdigits : Stops Char.isDigit rest := hrest.isNamePart.isDigit
  rw [List.append_assoc, List.cons_append, decimalNumber, hpoint.takeWhile_append hcs,
    hpoint.dropWhile_append hcs]
  simp only [hdigits.takeWhile_append hds, hdigits.dropWhile_append hds, endNumber,
    hrest.takeWhile, List.length_append, List.length_cons, Nat.add_assoc, Nat.add_comm 1]

/-- What is wrong with digits that start like an octal number where a point follows them: the
first of them that is not octal, else the point. -/
def pointFault (digits : List Char) : Fault :=
  match digits.find? fun d => !Radix.octal.isDigit d with
  | some d => .badOctalDigit d
  | none => .badNumberPart '.'

section Octal

variable (hcs : ∀ d ∈ cs, Radix.octal.isDigit d = true)
include hcs

theorem octal_isPart : ∀ d ∈ cs, (d == '_' || Radix.octal.isDigit d) = true := by
  intro d hd
  rw [hcs d hd, Bool.or_true]

theorem radixNumber_badDigit (hc : c.isDigit = true) (hoctal : Radix.octal.isDigit c = false) :
    (radixNumber .octal 0 (cs ++ c :: rest)).1 = .invalid (Fault.badOctalDigit c).reason := by
  have hline : c ≠ '_' := by
    rintro rfl
    exact absurd hc (by decide)
  have hstops : Stops (fun d => d == '_' || Radix.octal.isDigit d) (c :: rest) := by
    rw [stops_cons, hoctal, Bool.or_false]
    exact beq_eq_false_iff_ne.mpr hline
  rw [radixNumber]
  simp only [hstops.takeWhile_append (octal_isPart hcs), hstops.dropWhile_append (octal_isPart hcs),
    List.takeWhile_cons_of_pos hc]
  rfl

theorem radixNumber_badPoint (hne : cs ≠ []) :
    (radixNumber .octal 0 (cs ++ '.' :: rest)).1 = .invalid (Fault.badNumberPart '.').reason := by
  have hdigit : ∃ d ∈ cs, d ≠ '_' := by
    obtain ⟨d, hd⟩ := List.exists_mem_of_ne_nil cs hne
    refine ⟨d, hd, ?_⟩
    rintro rfl
    exact absurd (hcs _ hd) (by decide)
  rw [radixNumber_eq_endNumber .octal 0 (octal_isPart hcs) hdigit (stops_cons.mpr rfl)]
  rfl

end Octal

theorem radixNumber_octal_point (hcs : ∀ d ∈ cs, d.isDigit = true) (hne : cs ≠ []) :
    (radixNumber .octal 0 (cs ++ '.' :: rest)).1 = .invalid (pointFault cs).reason := by
  cases hfind : cs.find? fun d => !Radix.octal.isDigit d with
  | some e =>
    obtain ⟨hbad, good, more, rfl, hgood⟩ := List.find?_eq_some_iff_append.mp hfind
    rw [Bool.not_eq_true'] at hbad
    simp only [Bool.not_not] at hgood
    have he : e.isDigit = true := hcs e (List.mem_append_right good List.mem_cons_self)
    rw [List.append_assoc, List.cons_append, pointFault, hfind]
    exact radixNumber_badDigit hgood he hbad
  | none =>
    have hgood : ∀ d ∈ cs, Radix.octal.isDigit d = true := by
      intro d hd
      have hoctal := List.find?_eq_none.mp hfind d hd
      rwa [Bool.not_eq_true', Bool.not_eq_false] at hoctal
    rw [pointFault, hfind]
    exact radixNumber_badPoint hgood hne

/-- The float nearest to the number that decimal digits denote, with a point among them. -/
def nearestFloat (whole fraction : List Nat) : Float32 :=
  Float32.ofScientific (Nat.ofDigits 10 (whole ++ fraction).reverse) true fraction.length

/-- Whether a text starts with a zero and goes on. -/
def LeadingZero (whole : List Char) : Prop :=
  ∃ d more, whole = '0' :: d :: more

theorem Scans.pointed (hcs : List.Forall₂ (IsDigit 10) cs ks)
    (hds : List.Forall₂ (IsDigit 10) ds js) (hne : cs ≠ []) (hzero : ¬ LeadingZero cs)
    (hrest : Stops isNumberPart rest) :
    Scans l (cs ++ '.' :: ds) [⟨.floatLiteral (nearestFloat ks js), l⟩] rest := by
  have hvalue : floatKind cs ds = .floatLiteral (nearestFloat ks js) := by
    have hlength : ds.length = js.length := by rw [← map_digitValue hds, List.length_map]
    rw [floatKind, numeral_eq_ofDigits, List.map_append, map_digitValue hcs, map_digitValue hds,
      hlength, nearestFloat]
  rw [← hvalue]
  have hdigits := forall_isDigit hcs
  cases cs with
  | nil => exact absurd rfl hne
  | cons c cs =>
    rw [List.forall_mem_cons] at hdigits
    have halone : c = '0' → cs = [] := by
      rintro rfl
      cases cs with
      | nil => rfl
      | cons d more => exact absurd ⟨d, more, rfl⟩ hzero
    have hpoint : Stops isNamePart ('.' :: (ds ++ rest)) := stops_cons.mpr rfl
    rw [List.cons_append]
    refine .number hdigits.1 ?_
    rw [← decimalNumber_point hdigits.2 (forall_isDigit hds) hrest, List.append_assoc,
      List.cons_append, number_eq_decimal halone hpoint]

theorem exists_ofPieces_leadingZero (hcs : ∀ d ∈ cs, d.isDigit = true) (hzero : LeadingZero cs)
    (l : Location) (rest : List Char) : ∃ more, ofPieces l (pieces (cs ++ '.' :: rest)) =
      ⟨.invalid (pointFault cs).reason, l⟩ :: more := by
  obtain ⟨d, ds, rfl⟩ := hzero
  obtain ⟨hfirst, htail⟩ := List.forall_mem_cons.mp hcs
  have hfault : pointFault ('0' :: d :: ds) = pointFault (d :: ds) := rfl
  obtain ⟨more, hmore⟩ := exists_ofPieces_number hfirst l (d :: ds ++ '.' :: rest)
  rw [List.cons_append, number_zero_cons (.inl (htail d List.mem_cons_self)), ← List.cons_append,
    radixNumber_octal_point htail (List.cons_ne_nil d ds), ← hfault] at hmore
  exact ⟨more, hmore⟩

/-- **Float literals**: digits with a point behind the first of them are one float literal, which
holds the float that is nearest to them, unless a zero stands before the point and not alone there.
Then they are refused, because of the first digit that is not octal or because of the point. -/
theorem ofSource_pointed {whole fraction : List Char}
    (hbefore : Scans .start before ts (whole ++ '.' :: fraction ++ rest)) (hne : whole ≠ [])
    (hwhole : List.Forall₂ (IsDigit 10) whole ks)
    (hfraction : List.Forall₂ (IsDigit 10) fraction js) (hrest : Stops isNumberPart rest) :
    (ofSource (String.ofList (before ++ (whole ++ '.' :: fraction) ++ rest)) =
        ts ++ [⟨.floatLiteral (nearestFloat ks js), .behind before⟩] ++
          ofPieces (.behind (before ++ (whole ++ '.' :: fraction))) (pieces rest) ↔
      ¬ LeadingZero whole) ∧
    (LeadingZero whole → ∃ more,
      ofSource (String.ofList (before ++ (whole ++ '.' :: fraction) ++ rest)) =
        ts ++ ⟨.invalid (pointFault whole).reason, .behind before⟩ :: more) := by
  have hrefused : LeadingZero whole → ∃ more,
      ofSource (String.ofList (before ++ (whole ++ '.' :: fraction) ++ rest)) =
        ts ++ ⟨.invalid (pointFault whole).reason, .behind before⟩ :: more := by
    intro hzero
    obtain ⟨more, hmore⟩ := exists_ofPieces_leadingZero (forall_isDigit hwhole) hzero
      (.behind before) (fraction ++ rest)
    rw [← List.cons_append, ← List.append_assoc] at hmore
    rw [List.append_assoc, hbefore.ofSource_append, hmore]
    exact ⟨more, rfl⟩
  refine ⟨⟨?_, ?_⟩, hrefused⟩
  · intro hfloat hzero
    -- The token behind those of `before` cannot be both a literal and a fault.
    obtain ⟨more, hmore⟩ := hrefused hzero
    rw [hmore, List.append_assoc, List.append_cancel_left_eq] at hfloat
    cases hfloat
  · intro hzero
    exact hbefore.ofSource_between (.pointed hwhole hfraction hne hzero hrest)

/-- A zero stands alone before the point. -/
theorem half_pointed : ofSource "0.50" = [⟨.floatLiteral 0.50, ⟨1, 1⟩⟩, ⟨.endOfFile, ⟨1, 5⟩⟩] := by
  have hwhole : List.Forall₂ (IsDigit 10) ['0'] [0] := .cons ⟨by decide, .inl rfl⟩ .nil
  have hfraction : List.Forall₂ (IsDigit 10) ['5', '0'] [5, 0] :=
    .cons ⟨by decide, .inl rfl⟩ (.cons ⟨by decide, .inl rfl⟩ .nil)
  have hzero : ¬ LeadingZero ['0'] := by
    rintro ⟨d, more, h⟩
    cases h
  have hread :=
    (ofSource_pointed .nil (List.cons_ne_nil _ _) hwhole hfraction stops_nil).1.mpr hzero
  rw [pieces] at hread
  exact hread

/-- Digits of the form of a float literal that are read as no float. -/
theorem leadingZero_refused : List.Forall₂ (IsDigit 10) ['0', '1'] [0, 1] ∧
    List.Forall₂ (IsDigit 10) ['5'] [5] ∧
    (ofSource "01.5" = [⟨.invalid "Invalid character '.' in numeric literal", ⟨1, 1⟩⟩,
      ⟨.endOfFile, ⟨1, 5⟩⟩]) ∧ ∀ v l, ⟨.floatLiteral v, l⟩ ∉ ofSource "01.5" := by
  have hscans : Scans .start "01.5".toList
      [⟨.invalid "Invalid character '.' in numeric literal", .start⟩] [] :=
    .of_scanPiece_token rfl
  have htokens : ofSource "01.5" = [⟨.invalid "Invalid character '.' in numeric literal", ⟨1, 1⟩⟩,
      ⟨.endOfFile, ⟨1, 5⟩⟩] :=
    Scans.ofSource hscans
  refine ⟨.cons ⟨by decide, .inl rfl⟩ (.cons ⟨by decide, .inl rfl⟩ .nil),
    .cons ⟨by decide, .inl rfl⟩ .nil, htokens, ?_⟩
  rw [htokens]
  simp

end SysYFront.Token
