import SysYFront.Proofs.Arithmetic.Scan
import SysYFront.Proofs.Source.Partition

/-!
# SysYFront.Proofs.Source.Spelling

Cutting a text undoes writing it.

A token may be spelled in several ways: an integer is the decimal or the hexadecimal number of
its thirty-two bits, and a character of a string stands for itself or is named behind a
backslash (`Spells`). Between two tokens stand a blank and then any blanks and comments
(`Separator`). Whatever is chosen, the tokens of the text are those that were written, each at
the place where its spelling starts (`ofSource_spelled`).

Every token is read by a loop of its own, which ends at the blank behind it (`Spells.scans`),
and no comment leaves anything behind (`Scans.filler`).
-/

namespace SysYFront.Token

variable {l : Location} {c : Char} {cs rest : List Char} {p : Char → Bool}

/-! ### Spellings -/

/-- How a character is spelled in a string. -/
inductive SpellsChar : Char → List Char → Prop
  | plain {c : Char} : c ≠ '"' → c ≠ '\\' → SpellsChar c [c]
  | quote : SpellsChar '"' ['\\', '"']
  | backslash : SpellsChar '\\' ['\\', '\\']
  | newline : SpellsChar '\n' ['\\', 'n']
  | tab : SpellsChar '\t' ['\\', 't']
  | nul : SpellsChar '\x00' ['\\', '0']

/-- Whether `digits` are the hexadecimal digits of a number, with any leading zeros and each
letter small or capital. -/
def SpellsHex (n : Nat) (digits : List Char) : Prop :=
  ∃ zeros, List.Forall₂ (fun c d => d = c ∨ d = c.toUpper)
    (List.replicate zeros '0' ++ Nat.toDigits 16 n) digits

/-- How a token is spelled. -/
inductive Spells : Kind → List Char → Prop
  | keyword (k : Keyword) : Spells (.keyword k) k.text.toList
  | name {c : Char} {cs : List Char} : isNameStart c = true → cs.all isNamePart = true →
    (∀ k : Keyword, k.text.toList ≠ c :: cs) → Spells (.name (String.ofList (c :: cs))) (c :: cs)
  | symbol (s : Symbol) : Spells (.symbol s) s.text.toList
  | decimal (n : Int32) : Spells (.intLiteral n) (Nat.toDigits 10 n.toUInt32.toNat)
  | hexadecimal {n : Int32} {x : Char} {digits : List Char} : x = 'x' ∨ x = 'X' →
    SpellsHex n.toUInt32.toNat digits → Spells (.intLiteral n) ('0' :: x :: digits)
  | string {s : List Char} {parts : List (List Char)} : List.Forall₂ SpellsChar s parts →
    Spells (.stringLiteral (String.ofList s)) ('"' :: (parts.flatten ++ ['"']))

/-- What stands between two tokens: a blank, and then any blanks and comments. -/
def Separator (gap : List Char) : Prop :=
  ∃ c fill, gap = c :: fill ∧ c ∈ [' ', '\t', '\r', '\n'] ∧ Filler fill

theorem Separator.filler (h : Separator cs) : Filler cs := by
  obtain ⟨c, fill, rfl, hc, hfill⟩ := h
  exact .blank hc hfill

/-! ### What stands between tokens -/

/-- The first mark of its end closes a block comment. -/
theorem closeComment?_of_not_infix {body : List Char} (h : ¬ ['*', '/'] <:+: body)
    (rest : List Char) : closeComment? (body ++ '*' :: '/' :: rest) = some (body.length + 2) := by
  induction body with
  | nil => rfl
  | cons c body ih =>
    rw [List.infix_cons_iff, not_or] at h
    have hopen : ∀ more, c = '*' → body ++ '*' :: '/' :: rest = '/' :: more → False := by
      rintro more rfl hmore
      cases body with
      | nil => cases hmore
      | cons d body =>
        obtain ⟨rfl, -⟩ := List.cons.inj hmore
        exact h.1 ⟨body, rfl⟩
    rw [List.cons_append, closeComment?.eq_3 _ _ hopen, ih h.2]
    rfl

/-- What stands between tokens is cut into no token. -/
theorem Scans.filler (h : Filler cs) : Scans l cs [] rest := by
  induction h generalizing l with
  | nothing => exact .nil
  | @blank c fill hc _ ih =>
    have hfirst : Scans l [c] [] (fill ++ rest) :=
      .blanks (by simpa [isBlank, or_assoc] using hc)
    exact hfirst.append ih
  | @line body fill hbody _ ih =>
    have hfirst : Scans l ('/' :: '/' :: body) [] ('\n' :: fill ++ rest) := by
      refine .of_scanPiece_none ?_
      have hline : ∀ d ∈ body, (d != '\n') = true := by
        intro d hd
        exact bne_iff_ne.mpr (ne_of_mem_of_not_mem hd hbody)
      have htake : (body ++ '\n' :: (fill ++ rest)).takeWhile (· != '\n') = body :=
        (stops_cons.mpr (by decide)).takeWhile_append hline
      simp [scanPiece, isBlank, htake, Nat.add_comm]
    have hfeed : Scans (l.past ('/' :: '/' :: body)) ['\n'] [] (fill ++ rest) :=
      .blanks (List.forall_mem_singleton.mpr rfl)
    simpa using hfirst.append (hfeed.append ih)
  | @block body fill hbody _ ih =>
    have hfirst : Scans l ('/' :: '*' :: (body ++ ['*', '/'])) [] (fill ++ rest) := by
      refine .of_scanPiece_none ?_
      have hclose := closeComment?_of_not_infix hbody (fill ++ rest)
      simp [scanPiece, isBlank, hclose, Nat.add_comm]
    simpa using hfirst.append ih

/-- Whether nothing or a blank comes next. -/
def EndsToken (rest : List Char) : Prop :=
  ∀ c ∈ rest.head?, isBlank c = true

theorem Separator.endsToken (h : Separator cs) : EndsToken (cs ++ rest) := by
  obtain ⟨c, fill, rfl, hc, -⟩ := h
  intro d hd
  obtain rfl : c = d := Option.some.inj hd
  simpa [isBlank, or_assoc] using hc

/-- A class without blanks goes on into no blank. -/
theorem EndsToken.stops (h : EndsToken rest) (hp : ∀ c, isBlank c = true → p c = false) :
    Stops p rest :=
  fun c hc => hp c (h c hc)

/-! ### Words -/

/-- A reserved word is made of letters. -/
theorem exists_keyword_text (k : Keyword) : ∃ c cs, k.text.toList = c :: cs ∧
    isNameStart c = true ∧ c.isDigit = false ∧ cs.all isNamePart = true ∧
      Token.word c cs = (.keyword k, cs.length) := by
  cases k <;> exact ⟨_, _, rfl, by decide, by decide, by decide, by decide⟩

theorem Scans.keyword (k : Keyword) (hrest : Stops isNamePart rest) :
    Scans l k.text.toList [⟨.keyword k, l⟩] rest := by
  obtain ⟨c, cs, htext, hstart, hdigit, hpart, hword⟩ := exists_keyword_text k
  rw [htext]
  have hscans := Scans.word (l := l) hstart hdigit hpart hrest
  rwa [hword] at hscans

/-- The letters by their numbers. -/
theorem isAlpha_iff {c : Char} : c.isAlpha = true ↔
    ('A'.toNat ≤ c.toNat ∧ c.toNat ≤ 'Z'.toNat) ∨ ('a'.toNat ≤ c.toNat ∧ c.toNat ≤ 'z'.toNat) := by
  unfold Char.isAlpha Char.isUpper Char.isLower
  simp only [Bool.or_eq_true, Bool.and_eq_true, decide_eq_true_eq]
  exact Iff.rfl

/-- No digit starts a name. -/
theorem isDigit_eq_false (h : isNameStart c = true) : c.isDigit = false := by
  rw [Bool.eq_false_iff, Ne, Char.isDigit_iff_toNat]
  simp only [isNameStart, Bool.or_eq_true, isAlpha_iff, beq_iff_eq, Char.reduceToNat] at h ⊢
  rcases h with h | rfl
  · omega
  · decide

/-- A word that is not reserved is a name. -/
theorem word_eq_name (hpart : cs.all isNamePart = true)
    (hkeyword : ∀ k : Keyword, k.text.toList ≠ c :: cs) :
    Token.word c cs = (.name (String.ofList (c :: cs)), cs.length) := by
  have hself := stops_nil.takeWhile_append (List.all_eq_true.mp hpart)
  rw [List.append_nil] at hself
  have hnone : Keyword.ofText? (String.ofList (c :: cs)) = none := by
    refine List.find?_eq_none.mpr fun k _ hk => hkeyword k ?_
    rw [beq_iff_eq.mp hk, String.toList_ofList]
  simp only [Token.word, hself, hnone]

/-! ### Numbers -/

/-- The bits of an integer are the integer. -/
theorem ofNat_toNat (n : Int32) : Int32.ofNat n.toUInt32.toNat = n := by
  cases n with
  | ofUInt32 n => exact congrArg Int32.ofUInt32 UInt32.ofNat_toNat

theorem exists_digit_of_mem {b n : Nat} (hb : 1 < b) (h : c ∈ Nat.toDigits b n) :
    ∃ k < b, c = k.digitChar := by
  induction n using Nat.strongRecOn with
  | ind n ih =>
    rcases Nat.lt_or_ge n b with hlt | hge
    · rw [Nat.toDigits_of_lt_base hlt, List.mem_singleton] at h
      exact ⟨n, hlt, h⟩
    · rw [Nat.toDigits_of_base_le hb hge, List.mem_append, List.mem_singleton] at h
      rcases h with h | h
      · exact ih (n / b) (Nat.div_lt_self (by omega) hb) h
      · exact ⟨n % b, Nat.mod_lt n (by omega), h⟩

/-- A capital digit is a digit of the same value. -/
theorem hexDigit_of_spelled {k : Nat} (hk : k < 16) {d : Char}
    (hd : d = k.digitChar ∨ d = k.digitChar.toUpper) :
    Radix.hexadecimal.isDigit d = true ∧ d ≠ '_' ∧ digitValue d = digitValue k.digitChar := by
  have hall : ∀ k < 16, ∀ upper : Bool, let d := bif upper then k.digitChar.toUpper else k.digitChar
      Radix.hexadecimal.isDigit d = true ∧ d ≠ '_' ∧ digitValue d = digitValue k.digitChar := by
    decide
  obtain rfl | rfl := hd
  · exact hall k hk false
  · exact hall k hk true

theorem numeral_zeros (b zeros : Nat) (ds : List Char) :
    numeral b (List.replicate zeros '0' ++ ds) = numeral b ds := by
  induction zeros with
  | zero => rfl
  | succ zeros ih =>
    have hzero : 0 * b + digitValue '0' = 0 := by rw [Nat.zero_mul]; rfl
    rw [List.replicate_succ, List.cons_append, numeral, List.foldl_cons, hzero]
    exact ih

/-- A number is read from the values of its digits. -/
theorem numeral_congr {ds es : List Char} (b : Nat) (h : ds.map digitValue = es.map digitValue) :
    numeral b ds = numeral b es := by
  have hvalues (ds : List Char) :
      numeral b ds = (ds.map digitValue).foldl (fun n v => n * b + v) 0 := by
    rw [List.foldl_map]
    rfl
  rw [hvalues, hvalues, h]

/-- Hexadecimal digits are read as the number that they spell. -/
theorem SpellsHex.read {n : Nat} {digits : List Char} (h : SpellsHex n digits) :
    digits ≠ [] ∧ (∀ d ∈ digits, Radix.hexadecimal.isDigit d = true ∧ d ≠ '_') ∧
      numeral 16 digits = n := by
  obtain ⟨zeros, hdigits⟩ := h
  have hmem : ∀ c ∈ List.replicate zeros '0' ++ Nat.toDigits 16 n, ∃ k < 16, c = k.digitChar := by
    intro c hc
    rcases List.mem_append.mp hc with hc | hc
    · exact ⟨0, by decide, List.eq_of_mem_replicate hc⟩
    · exact exists_digit_of_mem (by decide) hc
  have hne : List.replicate zeros '0' ++ Nat.toDigits 16 n ≠ [] := by
    simp [Nat.toDigits_ne_nil]
  have hnumeral : numeral 16 (List.replicate zeros '0' ++ Nat.toDigits 16 n) = n := by
    rw [numeral_zeros, numeral_toDigits (by decide) (by decide)]
  generalize List.replicate zeros '0' ++ Nat.toDigits 16 n = plain at *
  have hread : (∀ d ∈ digits, Radix.hexadecimal.isDigit d = true ∧ d ≠ '_') ∧
      digits.map digitValue = plain.map digitValue := by
    clear hne hnumeral
    induction hdigits with
    | nil => exact ⟨nofun, rfl⟩
    | @cons c d _ _ hd _ ih =>
      obtain ⟨hfirst, hmore⟩ := List.forall_mem_cons.mp hmem
      obtain ⟨k, hk, rfl⟩ := hfirst
      obtain ⟨hdigit, hline, hvalue⟩ := hexDigit_of_spelled hk hd
      obtain ⟨hdigits, hvalues⟩ := ih hmore
      exact ⟨List.forall_mem_cons.mpr ⟨⟨hdigit, hline⟩, hdigits⟩,
        by rw [List.map_cons, List.map_cons, hvalue, hvalues]⟩
  refine ⟨?_, hread.1, (numeral_congr 16 hread.2).trans hnumeral⟩
  rintro rfl
  exact hne (List.map_eq_nil_iff.mp hread.2.symm)

/-- A name goes on with the digits of either radix and with their separators. -/
theorem isNamePart_of_isDigit (radix : Radix) (h : (c == '_' || radix.isDigit c) = true) :
    isNamePart c = true := by
  simp only [Bool.or_eq_true, beq_iff_eq] at h
  rcases h with rfl | h
  · rfl
  · cases radix <;>
      simp only [Radix.isDigit, isNamePart, Char.isAlphanum, isAlpha_iff, Char.isDigit_iff_toNat,
        Bool.or_eq_true, Bool.and_eq_true, decide_eq_true_eq, Char.le_def,
        UInt32.le_iff_toNat_le, Char.toNat_val, Char.reduceToNat] at h ⊢ <;> grind

/-- Digits of a radix, with their separators, are read up to where no name goes on. -/
theorem radixNumber_eq_endNumber (radix : Radix) (lead : Nat)
    (hpart : ∀ d ∈ cs, (d == '_' || radix.isDigit d) = true) (hdigit : ∃ d ∈ cs, d ≠ '_')
    (hrest : Stops isNamePart rest) :
    radixNumber radix lead (cs ++ rest) =
      endNumber (intKind radix.base (cs.filter (· != '_'))) (lead + cs.length) rest := by
  have hstops : Stops (fun d => d == '_' || radix.isDigit d) rest :=
    hrest.mono fun d => isNamePart_of_isDigit radix
  unfold radixNumber
  dsimp only
  rw [hstops.takeWhile_append hpart, hstops.dropWhile_append hpart, hrest.isDigit.takeWhile]
  cases hfilter : cs.filter (· != '_') with
  | nil =>
    obtain ⟨d, hd, hne⟩ := hdigit
    exact absurd (List.filter_eq_nil_iff.mp hfilter d hd) (by simp [hne])
  | cons d digits => rfl

/-- Digits of a radix make an integer where no number goes on. -/
theorem radixNumber_eq (radix : Radix) (lead : Nat)
    (hpart : ∀ d ∈ cs, (d == '_' || radix.isDigit d) = true) (hdigit : ∃ d ∈ cs, d ≠ '_')
    (hrest : Stops isNumberPart rest) :
    radixNumber radix lead (cs ++ rest) =
      (intKind radix.base (cs.filter (· != '_')), lead + cs.length) := by
  rw [radixNumber_eq_endNumber radix lead hpart hdigit hrest.isNamePart, endNumber, hrest.takeWhile]

theorem Scans.hexadecimal {n : Nat} {x : Char} {digits : List Char} (hx : x = 'x' ∨ x = 'X')
    (h : SpellsHex n digits) (hrest : Stops isNumberPart rest) :
    Scans l ('0' :: x :: digits) [⟨.intLiteral (Int32.ofNat n), l⟩] rest := by
  obtain ⟨hne, hdigits, hvalue⟩ := h.read
  have hpart : ∀ d ∈ digits, (d == '_' || Radix.hexadecimal.isDigit d) = true := by
    intro d hd
    rw [(hdigits d hd).1, Bool.or_true]
  have hdigit : ∃ d ∈ digits, d ≠ '_' := by
    obtain ⟨d, hd⟩ := List.exists_mem_of_ne_nil digits hne
    exact ⟨d, hd, (hdigits d hd).2⟩
  have hfilter : digits.filter (· != '_') = digits :=
    List.filter_eq_self.mpr fun d hd => bne_iff_ne.mpr (hdigits d hd).2
  refine .number rfl ?_
  rw [List.cons_append, Token.number, if_pos ⟨rfl, hx⟩, radixNumber_eq _ _ hpart hdigit hrest,
    hfilter, Radix.base, intKind, hvalue, List.length_cons, Nat.add_comm]

/-! ### Strings -/

theorem SpellsChar.stringBody? {c : Char} {cs part : List Char} {n : Nat} (h : SpellsChar c part)
    {s : List Char} (hrest : stringBody? cs = some (s, n)) :
    stringBody? (part ++ cs) = some (c :: s, part.length + n) := by
  cases h with
  | plain hquote hslash =>
    rw [List.singleton_append, Token.stringBody?, hrest]
    · simp [Nat.add_comm]
    · exact hquote
    · exact fun h _ => hslash h
    · exact fun _ _ h _ => hslash h
  | _ => simp [Token.stringBody?, hrest, unescape, Nat.add_comm]

theorem Scans.string {s : List Char} {parts : List (List Char)}
    (h : List.Forall₂ SpellsChar s parts) :
    Scans l ('"' :: (parts.flatten ++ ['"'])) [⟨.stringLiteral (String.ofList s), l⟩] rest := by
  have hbody : stringBody? (parts.flatten ++ '"' :: rest) =
      some (s, parts.flatten.length + 1) := by
    induction h with
    | nil => rfl
    | cons hc _ ih =>
      rw [List.flatten_cons, List.append_assoc, hc.stringBody? ih, List.length_append,
        Nat.add_assoc]
  refine .of_scanPiece_token ?_
  rw [scanPiece_eq_scan rfl fun h => absurd h (by decide)]
  simp [scan, Token.string, hbody]

/-! ### The text of a list of tokens -/

/-- A token is read back where a blank or nothing follows it. -/
theorem Spells.scans {kind : Kind} (h : Spells kind cs) (hrest : EndsToken rest) :
    Scans l cs [⟨kind, l⟩] rest := by
  have hnumber : Stops isNumberPart rest := hrest.stops fun c => isNumberPart_of_isBlank
  have hname : Stops isNamePart rest := hnumber.isNamePart
  cases h with
  | keyword k => exact .keyword k hname
  | @name c cs hstart hpart hkeyword =>
    have hscans := Scans.word (l := l) hstart (isDigit_eq_false hstart) hpart hname
    rwa [word_eq_name hpart hkeyword] at hscans
  | symbol s => exact .operator s (hrest.stops fun c hc => joinsSymbol_eq_false (.inr hc))
  | decimal n =>
    have hscans := Scans.decimal (l := l) n.toUInt32.toNat hnumber
    rwa [ofNat_toNat] at hscans
  | @hexadecimal n x digits hx hdigits =>
    have hscans := Scans.hexadecimal (l := l) hx hdigits hnumber
    rwa [ofNat_toNat] at hscans
  | string hparts => exact .string hparts

section Texts

variable {segs : List Segment} {last : List Char}

theorem endsToken_flatMap (hgaps : ∀ s ∈ segs, Separator s.gap)
    (hlast : last = [] ∨ Separator last) : EndsToken (segs.flatMap Segment.text ++ last) := by
  cases segs with
  | nil =>
    rcases hlast with rfl | hlast
    · exact nofun
    · rw [List.flatMap_nil, List.nil_append, ← List.append_nil last]
      exact hlast.endsToken
  | cons s segs =>
    rw [List.flatMap_cons, Segment.text, List.append_assoc, List.append_assoc]
    exact (hgaps s List.mem_cons_self).endsToken

/-- Tokens that are spelled and separated are read back one by one. -/
theorem ofPieces_spelled (hspelled : ∀ s ∈ segs, Spells s.kind s.spelling)
    (hfirst : ∀ s ∈ segs.head?, Filler s.gap) (hgaps : ∀ s ∈ segs.tail, Separator s.gap)
    (hlast : last = [] ∨ Separator last) (before : List Char) :
    ofPieces (.behind before) (pieces (segs.flatMap Segment.text ++ last)) =
      located before last segs := by
  induction segs generalizing before with
  | nil =>
    have hfiller : Filler last := hlast.elim (fun h => h ▸ .nothing) Separator.filler
    have hscans : Scans (.behind before) last [] [] := .filler hfiller
    rw [Scans, List.append_nil] at hscans
    rw [List.flatMap_nil, List.nil_append, hscans, Location.past_behind, pieces]
    rfl
  | cons s segs ih =>
    have hmore : ∀ s ∈ segs.head?, Filler s.gap := fun s hs =>
      (hgaps s (List.mem_of_mem_head? hs)).filler
    have hgap : Scans (.behind before) s.gap []
        (s.spelling ++ (segs.flatMap Segment.text ++ last)) :=
      .filler (hfirst s rfl)
    have htoken := (hspelled s List.mem_cons_self).scans (l := .behind (before ++ s.gap))
      (endsToken_flatMap hgaps hlast)
    rw [← Location.past_behind] at htoken
    have hscans := hgap.append htoken
    rw [Scans, Location.past_behind, Location.past_behind, ← Segment.text] at hscans
    rw [List.flatMap_cons, List.append_assoc, hscans,
      ih (fun s hs => hspelled s (List.mem_cons_of_mem _ hs)) hmore
        (fun s hs => hgaps s (List.mem_of_mem_tail hs))]
    rfl

end Texts

/-- **Cutting a text undoes writing it**: where tokens are written one after the other, with
a separator between each and the next, the tokens of the text are the ones that were written,
each at the place where its spelling starts, and the end of the file. -/
theorem ofSource_spelled (segs : List Segment) (last : List Char)
    (hspelled : ∀ s ∈ segs, Spells s.kind s.spelling) (hfirst : ∀ s ∈ segs.head?, Filler s.gap)
    (hgaps : ∀ s ∈ segs.tail, Separator s.gap) (hlast : last = [] ∨ Separator last) :
    ofSource (String.ofList (segs.flatMap Segment.text ++ last)) = located [] last segs := by
  rw [ofSource, String.toList_ofList]
  exact ofPieces_spelled hspelled hfirst hgaps hlast []

/-- A word that starts with a reserved one, a comment with a star in it, a line feed in a
string and an integer with the highest bit set. -/
theorem condition_spelled :
    ofSource "if (\t/***/iff //=\n<= 0XfF \"\\\"\n\\n\" 4294967295\r\n" =
      [⟨.keyword .ifKw, ⟨1, 1⟩⟩, ⟨.symbol .leftParen, ⟨1, 4⟩⟩, ⟨.name "iff", ⟨1, 11⟩⟩,
        ⟨.symbol .lessEqual, ⟨2, 1⟩⟩, ⟨.intLiteral 255, ⟨2, 4⟩⟩,
        ⟨.stringLiteral "\"\n\n", ⟨2, 9⟩⟩, ⟨.intLiteral (-1), ⟨3, 5⟩⟩, ⟨.endOfFile, ⟨4, 1⟩⟩] := by
  refine ofSource_spelled
    [⟨[], .keyword .ifKw, ['i', 'f']⟩, ⟨[' '], .symbol .leftParen, ['(']⟩,
      ⟨['\t', '/', '*', '*', '*', '/'], .name "iff", ['i', 'f', 'f']⟩,
      ⟨[' ', '/', '/', '=', '\n'], .symbol .lessEqual, ['<', '=']⟩,
      ⟨[' '], .intLiteral 255, ['0', 'X', 'f', 'F']⟩,
      ⟨[' '], .stringLiteral "\"\n\n", ['"', '\\', '"', '\n', '\\', 'n', '"']⟩,
      ⟨[' '], .intLiteral (-1), "4294967295".toList⟩]
    ['\r', '\n'] ?_ ?_ ?_ ?_
  · simp only [List.forall_mem_cons]
    refine ⟨.keyword .ifKw, .symbol .leftParen, .name rfl rfl (by rintro ⟨⟩ <;> decide),
      .symbol .lessEqual, .hexadecimal (.inr rfl) ⟨0, ?_⟩, ?_, .decimal (-1), nofun⟩
    · exact .cons (.inl rfl) (.cons (.inr rfl) .nil)
    · exact .string (.cons .quote (.cons (.plain (by decide) (by decide)) (.cons .newline .nil)))
  · simpa using Filler.nothing
  · simp only [List.tail_cons, List.forall_mem_cons]
    have hblank : Separator [' '] := ⟨_, _, rfl, by decide, .nothing⟩
    refine ⟨hblank, ⟨_, _, rfl, by decide, @Filler.block ['*'] _ (by decide) .nothing⟩,
      ⟨_, _, rfl, by decide, @Filler.line ['='] _ (by decide) .nothing⟩, hblank, hblank, hblank,
      nofun⟩
  · exact .inr ⟨_, _, rfl, by decide, .blank (by decide) .nothing⟩

end SysYFront.Token
