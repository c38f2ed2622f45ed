import SysYFront.Proofs.Arithmetic.Scan
import SysYFront.Proofs.Source.Partition

/-!
# SysYFront.Proofs.Source.Lines

Cutting a text line by line.

**A text that ends inside no string and no block comment is cut alone**
(`ofSource_append_line`): the tokens of what follows behind a line feed do not depend on it,
except that their lines are counted on, and its own tokens, the malformed ones among them, do
not depend on what follows. The reason is that no scanner but those two goes past a line feed,
whatever it is in the middle of (`scan_line`).
-/

namespace SysYFront

namespace Location

/-- The place `n` lines further down, in the same column. -/
def down (n : Nat) (l : Location) : Location :=
  ⟨l.line + n, l.column⟩

theorem after_down (n : Nat) (l : Location) (c : Char) :
    (l.down n).after c = (l.after c).down n := by
  unfold after
  split
  · exact congrArg (Location.mk · 1) (Nat.add_right_comm l.line n 1)
  · rfl

theorem past_down (n : Nat) (l : Location) (text : List Char) :
    (l.down n).past text = (l.past text).down n := by
  induction text generalizing l with
  | nil => rfl
  | cons c text ih => rw [past_cons, after_down, ih, past_cons]

/-- A line feed behind a text goes to the start of the next line. -/
theorem past_line (text : List Char) :
    (start.past text).after '\n' = start.down (1 + text.count '\n') := by
  rw [past_start, behind, after, if_pos rfl, start, down, Nat.add_comm 1 (_ + _)]

end Location

namespace Token

/-- The token `n` lines further down. -/
def down (n : Nat) (t : Token) : Token :=
  ⟨t.kind, t.location.down n⟩

variable {p : Char → Bool} {cs more : List Char} {c : Char}

/-! ### Scanners before a line feed -/

theorem takeWhile_line (hp : p '\n' = false) :
    (cs ++ '\n' :: more).takeWhile p = cs.takeWhile p := by
  rw [List.takeWhile_append]
  split
  · rename_i hall
    rw [List.takeWhile_cons_of_neg (by simp [hp]), List.append_nil]
    exact ((List.takeWhile_sublist p).eq_of_length hall).symm
  · rfl

theorem dropWhile_line (hp : p '\n' = false) :
    (cs ++ '\n' :: more).dropWhile p = cs.dropWhile p ++ '\n' :: more := by
  rw [List.dropWhile_append]
  split
  · rename_i hnil
    rw [List.dropWhile_cons_of_neg (by simp [hp]), List.isEmpty_iff.mp hnil, List.nil_append]
  · rfl

theorem endNumber_line (kind : Kind) (n : Nat) :
    endNumber kind n (cs ++ '\n' :: more) = endNumber kind n cs := by
  unfold endNumber
  rw [takeWhile_line rfl]

theorem radixNumber_line (radix : Radix) (lead : Nat) :
    radixNumber radix lead (cs ++ '\n' :: more) = radixNumber radix lead cs := by
  have hpart : ('\n' == '_' || radix.isDigit '\n') = false := by cases radix <;> rfl
  unfold radixNumber
  dsimp only
  rw [takeWhile_line hpart, dropWhile_line hpart, takeWhile_line rfl, takeWhile_line rfl,
    endNumber_line]

theorem decimalNumber_line : decimalNumber c (cs ++ '\n' :: more) = decimalNumber c cs := by
  unfold decimalNumber
  dsimp only
  rw [takeWhile_line rfl, dropWhile_line rfl]
  cases hrest : cs.dropWhile Char.isDigit with
  | nil => exact @endNumber_line [] more _ _
  | cons d rest =>
    by_cases hd : d = '.'
    · subst hd
      simp only [List.cons_append]
      rw [takeWhile_line rfl, dropWhile_line rfl, endNumber_line]
    · rw [List.cons_append]
      split
      · rename_i heq
        exact absurd (List.cons.inj heq).1 hd
      · rw [← List.cons_append, endNumber_line]
        split
        · rename_i heq
          exact absurd (List.cons.inj heq).1 hd
        · rfl

theorem number_line : number c (cs ++ '\n' :: more) = number c cs := by
  cases cs with
  | nil =>
    have hdecimal : decimalNumber c ([] ++ '\n' :: more) = decimalNumber c [] := decimalNumber_line
    simpa [number] using hdecimal
  | cons d cs =>
    rw [List.cons_append]
    unfold number
    dsimp only
    rw [radixNumber_line, ← List.cons_append, radixNumber_line, decimalNumber_line]

theorem word_line : word c (cs ++ '\n' :: more) = word c cs := by
  unfold word
  rw [takeWhile_line rfl]

theorem symbol_line : symbol c (cs ++ '\n' :: more) = symbol c cs := by
  cases cs with
  | nil =>
    have hpair : Symbol.ofText? [c, '\n'] = none := by
      simp [Symbol.ofText?, Symbol.all, Symbol.text]
    simp [symbol, hpair]
  | cons d cs => rfl

/-- A string that is closed does not depend on what follows. -/
theorem stringBody?_append {r : List Char × Nat} (h : stringBody? cs = some r) :
    stringBody? (cs ++ more) = some r := by
  fun_induction stringBody? cs generalizing r with
  | case1 => cases h
  | case2 rest => exact h
  | case3 => cases h
  | case4 d rest ih =>
    obtain ⟨r', hr', rfl⟩ := Option.map_eq_some_iff.mp h
    simp [stringBody?, ih hr']
  | case5 d rest hquote hlast hescape ih =>
    obtain ⟨r', hr', rfl⟩ := Option.map_eq_some_iff.mp h
    have hd : d ≠ '\\' := by
      rintro rfl
      cases rest with
      | nil => exact hlast rfl rfl
      | cons e rest => exact hescape e rest rfl rfl
    rw [List.cons_append, stringBody?.eq_5 _ _ hquote (fun h _ => hd h) (fun _ _ h _ => hd h),
      ih hr']
    rfl

theorem string_line (h : (string cs).1 ≠ .invalid Fault.openString.reason) :
    string (cs ++ '\n' :: more) = string cs := by
  unfold string at h ⊢
  cases hbody : stringBody? cs with
  | none =>
    rw [hbody] at h
    exact absurd rfl h
  | some r => rw [stringBody?_append hbody]

/-- No scanner goes past a line feed, but that of strings. -/
theorem scan_line (h : (scan c cs).1 ≠ .invalid Fault.openString.reason) :
    scan c (cs ++ '\n' :: more) = scan c cs := by
  unfold scan at h ⊢
  split
  · rename_i hquote
    rw [if_pos hquote] at h
    exact string_line h
  · rw [number_line, word_line, symbol_line]

theorem closeComment?_append {n : Nat} (h : closeComment? cs = some n) :
    closeComment? (cs ++ more) = some n := by
  fun_induction closeComment? cs generalizing n with
  | case1 => cases h
  | case2 rest => exact h
  | case3 d rest hopen ih =>
    obtain ⟨m, hm, rfl⟩ := Option.map_eq_some_iff.mp h
    have hnot : ∀ tail, d = '*' → rest ++ more = '/' :: tail → False := by
      rintro tail rfl htail
      cases rest with
      | nil => cases hm
      | cons e rest =>
        cases htail
        exact hopen rest rfl rfl
    rw [List.cons_append, closeComment?.eq_3 _ _ hnot, ih hm]
    rfl

/-! ### Pieces before a line feed -/

/-- Whether a kind is that of a piece which only the end of the text ends. -/
def Unterminated (kind : Kind) : Prop :=
  kind = .invalid Fault.openString.reason ∨ kind = .invalid Fault.openComment.reason

/-- No piece goes past a line feed unless it is unterminated where the text ends. -/
theorem scanPiece_line (h : ∀ kind ∈ (scanPiece c cs).1, ¬ Unterminated kind) :
    scanPiece c (cs ++ '\n' :: more) = scanPiece c cs := by
  cases hblank : isBlank c with
  | true => simp [scanPiece, hblank]
  | false =>
    by_cases hcomment : c = '/' → Stops opensComment cs
    · have hcomment' : c = '/' → Stops opensComment (cs ++ '\n' :: more) := by
        intro hc
        cases cs with
        | nil => exact stops_cons.mpr rfl
        | cons d cs => exact stops_cons.mpr (stops_cons.mp (hcomment hc))
      rw [scanPiece_eq_scan hblank hcomment] at h ⊢
      rw [scanPiece_eq_scan hblank hcomment', scan_line fun hopen => h _ rfl (.inl hopen)]
    · obtain ⟨rfl, hopens⟩ := Classical.not_imp.mp hcomment
      cases cs with
      | nil => exact absurd stops_nil hopens
      | cons d rest =>
        rw [stops_cons, Bool.not_eq_false] at hopens
        have hd : d = '/' ∨ d = '*' := by simpa [opensComment] using hopens
        rcases hd with rfl | rfl
        · simp [scanPiece, takeWhile_line]
        · cases hclose : closeComment? rest with
          | none => exact absurd (.inr rfl) (h _ (by simp [scanPiece, hblank, hclose]))
          | some n => simp [scanPiece, hclose, closeComment?_append hclose]

theorem scanPiece_le : (scanPiece c cs).2 ≤ cs.length := by
  have hopening := scanPiece_opening c cs
  generalize scanPiece c cs = piece at hopening
  cases hopening with
  | blank _ => exact Nat.zero_le _
  | line _ _ => simp
  | block _ => simp
  | token _ hn => exact hn

/-- A text that is closed is cut into its own pieces, the line feed and the pieces behind it. -/
theorem pieces_line (h : ∀ p ∈ pieces cs, ∀ kind ∈ p.kind, ¬ Unterminated kind) :
    pieces (cs ++ '\n' :: more) = pieces cs ++ ⟨none, ['\n']⟩ :: pieces more := by
  fun_induction pieces cs with
  | case1 =>
    rw [List.nil_append, pieces]
    rfl
  | case2 c cs ih =>
    obtain ⟨hfirst, hothers⟩ := List.forall_mem_cons.mp h
    rw [List.cons_append, pieces, scanPiece_line hfirst, List.take_append_of_le_length scanPiece_le,
      List.drop_append_of_le_length scanPiece_le, ih hothers, List.cons_append]

/-! ### Tokens before a line feed -/

/-- What follows some pieces stands behind their text. -/
theorem ofPieces_append (l : Location) (ps qs : List Piece) :
    ∃ words m, ofPieces l ps = words ++ [⟨.endOfFile, m⟩] ∧
      ofPieces l (ps ++ qs) = words ++ ofPieces (l.past (ps.flatMap Piece.text)) qs := by
  induction ps generalizing l with
  | nil => exact ⟨[], l, rfl, rfl⟩
  | cons p ps ih =>
    obtain ⟨words, m, hwords, happend⟩ := ih (l.past p.text)
    rw [List.flatMap_cons, Location.past_append, List.cons_append, ofPieces, ofPieces, hwords,
      happend]
    cases p.kind with
    | none => exact ⟨words, m, rfl, rfl⟩
    | some kind => exact ⟨⟨kind, l⟩ :: words, m, rfl, rfl⟩

theorem ofPieces_down (n : Nat) (l : Location) (ps : List Piece) :
    ofPieces (l.down n) ps = (ofPieces l ps).map (down n) := by
  induction ps generalizing l with
  | nil => rfl
  | cons p ps ih =>
    rw [ofPieces, ofPieces, Location.past_down, ih]
    cases p.kind <;> rfl

theorem exists_mem_ofPieces {ps : List Piece} {p : Piece} {kind : Kind} (l : Location)
    (hp : p ∈ ps) (hkind : p.kind = some kind) : ∃ t ∈ ofPieces l ps, t.kind = kind := by
  induction ps generalizing l with
  | nil => cases hp
  | cons q ps ih =>
    rw [ofPieces]
    rcases List.mem_cons.mp hp with rfl | hp
    · rw [hkind]
      exact ⟨_, List.mem_cons_self, rfl⟩
    · obtain ⟨t, ht, htkind⟩ := ih (l.past q.text) hp
      cases q.kind with
      | none => exact ⟨t, ht, htkind⟩
      | some _ => exact ⟨t, List.mem_cons_of_mem _ ht, htkind⟩

/-- **Cutting goes line by line.** Where the tokens of `a` show no unterminated string and no
unterminated comment, they are the first tokens of `a`, a line feed and `b`, and those of `b`
follow, in the same columns and as many lines further down as end before them. -/
theorem ofSource_append_line (a b : String)
    (hstring : ∀ t ∈ ofSource a, t.kind ≠ .invalid "Unterminated string literal")
    (hcomment : ∀ t ∈ ofSource a, t.kind ≠ .invalid "Unterminated block comment") :
    ∃ words l, ofSource a = words ++ [⟨.endOfFile, l⟩] ∧
      ofSource (a ++ "\n" ++ b) =
        words ++ (ofSource b).map (down (1 + a.toList.count '\n')) := by
  have hclosed : ∀ p ∈ pieces a.toList, ∀ kind ∈ p.kind, ¬ Unterminated kind := by
    intro p hp kind hkind hopen
    obtain ⟨t, ht, rfl⟩ := exists_mem_ofPieces .start hp hkind
    exact hopen.elim (hstring t ht) (hcomment t ht)
  obtain ⟨words, l, hwords, happend⟩ := ofPieces_append .start (pieces a.toList)
    (⟨none, ['\n']⟩ :: pieces b.toList)
  have htext : (a ++ "\n" ++ b).toList = a.toList ++ '\n' :: b.toList := by simp
  refine ⟨words, l, hwords, ?_⟩
  rw [ofSource, htext, pieces_line hclosed, happend, texts_pieces]
  change words ++ ofPieces ((Location.start.past a.toList).after '\n') (pieces b.toList) = _
  rw [Location.past_line, ofPieces_down, ← ofSource]

/-- A malformed number and a single ampersand before a comment, and a string with a line feed, are
cut as they are alone, whatever follows in the next line. -/
theorem malformed_line_append :
    (∀ t ∈ ofSource "x = \"a\n\" 1a. & 09 // c", t.kind ≠ .invalid "Unterminated string literal") ∧
      (∀ t ∈ ofSource "x = \"a\n\" 1a. & 09 // c",
        t.kind ≠ .invalid "Unterminated block comment") ∧
      ∃ words l, ofSource "x = \"a\n\" 1a. & 09 // c" = words ++ [⟨.endOfFile, l⟩] ∧
        ofSource ("x = \"a\n\" 1a. & 09 // c" ++ "\n" ++ "*/ \"") =
          words ++ (ofSource "*/ \"").map (down 2) := by
  have hstring : ∀ t ∈ ofSource "x = \"a\n\" 1a. & 09 // c",
      t.kind ≠ .invalid "Unterminated string literal" := by decide +kernel
  have hcomment : ∀ t ∈ ofSource "x = \"a\n\" 1a. & 09 // c",
      t.kind ≠ .invalid "Unterminated block comment" := by decide +kernel
  exact ⟨hstring, hcomment, ofSource_append_line _ "*/ \"" hstring hcomment⟩

end Token

end SysYFront
