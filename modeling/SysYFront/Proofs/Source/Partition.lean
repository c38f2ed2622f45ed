import Mathlib.Data.List.Induction
import SysYFront.Token.Source

/-!
# SysYFront.Proofs.Source.Partition

How the tokens of a source text lie in it.

**The tokens partition the text** (`ofSource_partitions`): each stands at an offset, the
offsets grow up to the end of the file at the length of the text, every other token takes some
text from its offset on, and what no token takes is blank or a comment (`Filler`). Nothing
else is skipped, however malformed the text is.

The argument goes along the text by segments: what is skipped before a token, and the text of
the token (`Segment`). Skipping ends at a token, at the end of the text, or in a comment that
the end of the text closes (`exists_filler`).
-/

namespace SysYFront

namespace Location

/-- The place behind a whole beginning of a text: a line for each of its line feeds, and a
column for each character behind the last of them. -/
def behind (before : List Char) : Location :=
  ⟨1 + before.count '\n', 1 + (before.reverse.takeWhile (· != '\n')).length⟩

theorem behind_concat (before : List Char) (c : Char) :
    behind (before ++ [c]) = (behind before).after c := by
  by_cases hc : c = '\n'
  · simp [behind, after, hc, Nat.add_assoc]
  · simp [behind, after, hc, Nat.add_comm]

/-- Counting character by character comes to the place behind all of them. -/
theorem past_behind (before text : List Char) :
    (behind before).past text = behind (before ++ text) := by
  induction text generalizing before with
  | nil => rw [past_nil, List.append_nil]
  | cons c text ih => rw [past_cons, ← behind_concat, ih, List.append_assoc, List.singleton_append]

theorem past_start (text : List Char) : start.past text = behind text :=
  past_behind [] text

/-- Whether a place comes before another in the order of a text. -/
def Precedes (l k : Location) : Prop :=
  l.line < k.line ∨ l.line = k.line ∧ l.column < k.column

theorem Precedes.trans {l k m : Location} (h : l.Precedes k) (h' : k.Precedes m) :
    l.Precedes m := by
  unfold Precedes at *
  omega

theorem precedes_after (l : Location) (c : Char) : l.Precedes (l.after c) := by
  unfold Precedes after
  split
  · exact .inl (Nat.lt_succ_self _)
  · exact .inr ⟨rfl, Nat.lt_succ_self _⟩

/-- Text takes up space. -/
theorem precedes_past (l : Location) {text : List Char} (h : text ≠ []) :
    l.Precedes (l.past text) := by
  induction text generalizing l with
  | nil => exact absurd rfl h
  | cons c text ih =>
    rw [past_cons]
    cases text with
    | nil => exact l.precedes_after c
    | cons d text => exact (l.precedes_after c).trans (ih _ (List.cons_ne_nil d text))

end Location

namespace Token

/-! ### What scanning takes -/

/-- Whether what was scanned is a word, not the end of the file, and lies in the text. -/
structure FitsIn (s : Scanned) (cs : List Char) : Prop where
  isWord : s.1 ≠ .endOfFile
  inside : s.2 ≤ cs.length

theorem length_takeWhile_le (p : Char → Bool) (cs : List Char) :
    (cs.takeWhile p).length ≤ cs.length :=
  (List.takeWhile_sublist p).length_le

theorem length_takeWhile_add (p : Char → Bool) (cs : List Char) :
    (cs.takeWhile p).length + (cs.dropWhile p).length = cs.length := by
  rw [← List.length_append, List.takeWhile_append_dropWhile]

theorem fitsIn_faulty {cs : List Char} {n : Nat} (f : Fault) (h : n ≤ cs.length) :
    FitsIn (faulty f n) cs :=
  ⟨nofun, h⟩

theorem fitsIn_endNumber {cs rest : List Char} {kind : Kind} {n : Nat} (hkind : kind ≠ .endOfFile)
    (h : n + rest.length ≤ cs.length) : FitsIn (endNumber kind n rest) cs := by
  have hpart := length_takeWhile_le isNumberPart rest
  unfold endNumber
  split
  · exact ⟨hkind, by omega⟩
  · rename_i htake
    rw [htake, List.length_cons] at hpart
    exact fitsIn_faulty _ (by omega)

theorem fitsIn_radixNumber {cs rest : List Char} {lead : Nat} (radix : Radix)
    (h : lead + rest.length ≤ cs.length) : FitsIn (radixNumber radix lead rest) cs := by
  have hsplit := length_takeWhile_add (fun c => c == '_' || radix.isDigit c) rest
  have hpart := length_takeWhile_le isNamePart
    (rest.dropWhile fun c => c == '_' || radix.isDigit c)
  unfold radixNumber
  dsimp only
  split
  · exact fitsIn_faulty _ (by omega)
  · exact fitsIn_faulty _ (by omega)
  · exact fitsIn_endNumber nofun (by omega)

theorem fitsIn_decimalNumber (c : Char) (cs : List Char) : FitsIn (decimalNumber c cs) cs := by
  have hwhole := length_takeWhile_add Char.isDigit cs
  unfold decimalNumber
  dsimp only
  split
  · rename_i rest hpoint
    have hfraction := length_takeWhile_add Char.isDigit rest
    rw [hpoint, List.length_cons] at hwhole
    exact fitsIn_endNumber nofun (by omega)
  · exact fitsIn_endNumber nofun (by omega)

theorem fitsIn_number (c : Char) (cs : List Char) : FitsIn (number c cs) cs := by
  unfold number
  split
  · rename_i d rest
    split
    · exact fitsIn_radixNumber _ (by rw [List.length_cons]; omega)
    · split
      · exact fitsIn_radixNumber _ (by omega)
      · exact fitsIn_decimalNumber c _
  · exact fitsIn_decimalNumber c []

theorem stringBody?_le {cs s : List Char} {n : Nat} (h : stringBody? cs = some (s, n)) :
    n ≤ cs.length := by
  fun_induction stringBody? cs generalizing s n with
  | case1 => cases h
  | case2 rest =>
    cases h
    exact Nat.le_add_left 1 rest.length
  | case3 => cases h
  | case4 c rest ih =>
    obtain ⟨⟨s', m⟩, hs', heq⟩ := Option.map_eq_some_iff.mp h
    cases heq
    have hm := ih hs'
    simp only [List.length_cons]
    omega
  | case5 c rest _ _ _ ih =>
    obtain ⟨⟨s', m⟩, hs', heq⟩ := Option.map_eq_some_iff.mp h
    cases heq
    have hm := ih hs'
    rw [List.length_cons]
    omega

theorem fitsIn_string (cs : List Char) : FitsIn (string cs) cs := by
  unfold string
  split
  · rename_i s n hbody
    exact ⟨nofun, stringBody?_le hbody⟩
  · exact fitsIn_faulty _ (Nat.le_refl _)

theorem fitsIn_word (c : Char) (cs : List Char) : FitsIn (word c cs) cs := by
  have hpart := length_takeWhile_le isNamePart cs
  unfold word
  dsimp only
  split
  · exact ⟨nofun, hpart⟩
  · exact ⟨nofun, hpart⟩

theorem fitsIn_symbol (c : Char) (cs : List Char) : FitsIn (symbol c cs) cs := by
  unfold symbol
  split
  · rename_i hpair
    refine ⟨nofun, ?_⟩
    cases cs with
    | nil => cases hpair
    | cons d cs => exact Nat.le_add_left 1 cs.length
  · exact ⟨nofun, Nat.zero_le _⟩
  · exact fitsIn_faulty _ (Nat.zero_le _)

/-- A token that is scanned is a word and lies in the text. -/
theorem fitsIn_scan (c : Char) (cs : List Char) : FitsIn (scan c cs) cs := by
  unfold scan
  split
  · exact fitsIn_string cs
  · split
    · exact fitsIn_number c cs
    · split
      · exact fitsIn_word c cs
      · exact fitsIn_symbol c cs

/-- The end of a block comment is the first mark of one. -/
theorem closeComment?_eq_some {cs : List Char} {n : Nat} (h : closeComment? cs = some n) :
    ∃ body rest, cs = body ++ '*' :: '/' :: rest ∧ n = body.length + 2 ∧
      ¬ ['*', '/'] <:+: body := by
  fun_induction closeComment? cs generalizing n with
  | case1 => cases h
  | case2 rest =>
    cases h
    exact ⟨[], rest, rfl, rfl, by simp⟩
  | case3 c cs hopen ih =>
    obtain ⟨m, hm, rfl⟩ := Option.map_eq_some_iff.mp h
    obtain ⟨body, rest, rfl, rfl, hbody⟩ := ih hm
    refine ⟨c :: body, rest, rfl, rfl, ?_⟩
    rw [List.infix_cons_iff]
    rintro (hfirst | hlater)
    · obtain ⟨more, hmore⟩ := hfirst
      cases body with
      | nil => cases hmore
      | cons d body =>
        cases hmore
        exact hopen _ rfl rfl
    · exact hbody hlater

/-! ### Pieces -/

/-- What a text starts with, by the kind of its first piece and the number of further
characters that it takes. -/
inductive Opening : Char → List Char → Option Kind × Nat → Prop
  | blank {c : Char} {cs : List Char} : c ∈ [' ', '\t', '\r', '\n'] → Opening c cs (none, 0)
  | line {body rest : List Char} : '\n' ∉ body → (∀ c ∈ rest.head?, c = '\n') →
    Opening '/' ('/' :: (body ++ rest)) (none, body.length + 1)
  | block {body rest : List Char} : ¬ ['*', '/'] <:+: body →
    Opening '/' ('*' :: (body ++ '*' :: '/' :: rest)) (none, body.length + 3)
  | token {c : Char} {cs : List Char} {kind : Kind} {n : Nat} : kind ≠ .endOfFile →
    n ≤ cs.length → Opening c cs (some kind, n)

/-- Every text that is not empty starts with a blank, a whole comment or a token. -/
theorem scanPiece_opening (c : Char) (cs : List Char) : Opening c cs (scanPiece c cs) := by
  unfold scanPiece
  split
  · rename_i hblank
    exact .blank (by simpa [isBlank, or_assoc] using hblank)
  · rename_i hblank
    clear hblank
    split
    · rename_i rest
      have hsplit := List.takeWhile_append_dropWhile (p := (· != '\n')) (l := rest)
      rw [Nat.add_comm]
      conv => arg 2; rw [← hsplit]
      refine .line (fun hmem => ?_) fun d hd => ?_
      · simpa using List.all_eq_true.mp List.all_takeWhile _ hmem
      · have hstop := List.head?_dropWhile_not (p := (· != '\n')) (l := rest)
        rw [Option.mem_def.mp hd] at hstop
        simpa using hstop
    · rename_i rest
      split
      · rename_i n hclose
        obtain ⟨body, rest, rfl, rfl, hbody⟩ := closeComment?_eq_some hclose
        rw [Nat.add_comm 1]
        exact .block hbody
      · exact .token nofun (Nat.le_refl _)
    · obtain ⟨hword, hinside⟩ := fitsIn_scan c cs
      exact .token hword hinside

/-! ### What stands between tokens -/

/-- Text that holds no token: blanks and whole comments. A comment of a line ends with the line
feed, one of a block with the first mark of its end. -/
inductive Filler : List Char → Prop
  | nothing : Filler []
  | blank {c : Char} {cs : List Char} : c ∈ [' ', '\t', '\r', '\n'] → Filler cs → Filler (c :: cs)
  | line {body cs : List Char} : '\n' ∉ body → Filler cs →
    Filler ('/' :: '/' :: (body ++ '\n' :: cs))
  | block {body cs : List Char} : ¬ ['*', '/'] <:+: body → Filler cs →
    Filler ('/' :: '*' :: (body ++ '*' :: '/' :: cs))

/-- What may stand behind the last token: the end of the text closes a comment of a line. -/
inductive Trailing : List Char → Prop
  | filler {fill : List Char} : Filler fill → Trailing fill
  | line {fill body : List Char} : Filler fill → '\n' ∉ body →
    Trailing (fill ++ '/' :: '/' :: body)

/-- Whether a text starts with a token of a kind that is scanned from its first characters. -/
def StartsWithToken (kind : Kind) (spelling text : List Char) : Prop :=
  kind ≠ .endOfFile ∧
    ∃ c cs, spelling = c :: cs ∧ scanPiece c (cs ++ text) = (some kind, cs.length)

theorem pieces_token {kind : Kind} {spelling text : List Char}
    (h : StartsWithToken kind spelling text) :
    pieces (spelling ++ text) = ⟨some kind, spelling⟩ :: pieces text := by
  obtain ⟨-, c, cs, rfl, hscan⟩ := h
  rw [List.cons_append, pieces, hscan, List.take_left, List.drop_left]

/-- Skipping goes to a token, to the end of the text, or to a comment that the end closes. -/
theorem exists_filler : ∀ cs : List Char, ∃ fill rest, cs = fill ++ rest ∧ Filler fill ∧
    (∀ l, ofPieces l (pieces cs) = ofPieces (l.past fill) (pieces rest)) ∧
    (rest = [] ∨ (∃ body, rest = '/' :: '/' :: body ∧ '\n' ∉ body ∧
        pieces rest = [⟨none, rest⟩]) ∨
      ∃ kind spelling text, rest = spelling ++ text ∧ StartsWithToken kind spelling text)
  | [] => ⟨[], [], rfl, .nothing, fun _ => rfl, .inl rfl⟩
  | c :: cs => by
    have hopening := scanPiece_opening c cs
    generalize hscan : scanPiece c cs = piece at hopening
    cases hopening with
    | blank hc =>
      obtain ⟨fill, rest, rfl, hfill, hskip, hrest⟩ := exists_filler cs
      refine ⟨c :: fill, rest, rfl, .blank hc hfill, fun l => ?_, hrest⟩
      rw [pieces, hscan, List.take_zero, List.drop_zero]
      exact hskip (l.after c)
    | @line body rest hbody hclosed =>
      have hline : pieces ('/' :: '/' :: (body ++ rest)) =
          ⟨none, '/' :: '/' :: body⟩ :: pieces rest := by
        rw [pieces, hscan, List.take_succ_cons, List.drop_succ_cons, List.take_left, List.drop_left]
      cases rest with
      | nil =>
        rw [List.append_nil] at hline ⊢
        rw [pieces] at hline
        exact ⟨[], _, rfl, .nothing, fun _ => rfl, .inr (.inl ⟨body, rfl, hbody, hline⟩)⟩
      | cons d rest =>
        obtain rfl := hclosed d rfl
        obtain ⟨fill, rest, rfl, hfill, hskip, hrest⟩ := exists_filler rest
        refine ⟨'/' :: '/' :: (body ++ '\n' :: fill), rest, by simp, .line hbody hfill,
          fun l => ?_, hrest⟩
        have hfeed : scanPiece '\n' (fill ++ rest) = (none, 0) := rfl
        rw [hline, pieces, hfeed, List.take_zero, List.drop_zero]
        simp only [ofPieces, Location.past_cons, Location.past_append, Location.past_nil, hskip]
    | @block body rest hbody =>
      obtain ⟨fill, rest, rfl, hfill, hskip, hrest⟩ := exists_filler rest
      refine ⟨'/' :: '*' :: (body ++ '*' :: '/' :: fill), rest, by simp, .block hbody hfill,
        fun l => ?_, hrest⟩
      have htext : '*' :: (body ++ '*' :: '/' :: (fill ++ rest)) =
          ('*' :: (body ++ ['*', '/'])) ++ (fill ++ rest) := by simp
      have hlength : body.length + 3 = ('*' :: (body ++ ['*', '/'])).length := by simp
      rw [pieces, hscan, hlength, htext, List.take_left, List.drop_left]
      simp only [ofPieces, Location.past_cons, Location.past_append, Location.past_nil, hskip]
    | @token _ _ kind n hkind hn =>
      have htoken : StartsWithToken kind (c :: cs.take n) (cs.drop n) := by
        refine ⟨hkind, c, cs.take n, rfl, ?_⟩
        rw [List.take_append_drop, List.length_take, Nat.min_eq_left hn]
        exact hscan
      exact ⟨[], _, rfl, .nothing, fun _ => rfl,
        .inr (.inr ⟨kind, _, _, by simp, htoken⟩)⟩
termination_by cs => cs.length

/-! ### Segments -/

/-- A token's text with what is skipped before it. -/
structure Segment where
  gap : List Char
  kind : Kind
  spelling : List Char

/-- The whole text of a segment. -/
def Segment.text (s : Segment) : List Char :=
  s.gap ++ s.spelling

/-- The tokens of segments that follow the text `before`, and the end of the file behind `last`. -/
def located (before last : List Char) : List Segment → List Token
  | [] => [⟨.endOfFile, .behind (before ++ last)⟩]
  | s :: segs => ⟨s.kind, .behind (before ++ s.gap)⟩ :: located (before ++ s.text) last segs

/-- Whether a text consists of segments and a last gap. -/
inductive Tiles (last : List Char) : List Segment → List Char → Prop
  | finish : Trailing last → Tiles last [] last
  | segment {s : Segment} {segs : List Segment} {text : List Char} : Filler s.gap →
    StartsWithToken s.kind s.spelling text → Tiles last segs text →
      Tiles last (s :: segs) (s.text ++ text)

/-- Every text consists of segments, and its tokens are theirs. -/
theorem exists_tiles (cs : List Char) : ∃ last segs, Tiles last segs cs ∧
    ∀ before, ofPieces (.behind before) (pieces cs) = located before last segs := by
  obtain ⟨fill, rest, hcs, hfill, hskip, hrest⟩ := exists_filler cs
  rcases hrest with rfl | ⟨body, rfl, hbody, hline⟩ | ⟨kind, spelling, text, rfl, htoken⟩
  · rw [List.append_nil] at hcs
    subst hcs
    refine ⟨cs, [], .finish (.filler hfill), fun before => ?_⟩
    rw [hskip, pieces, ofPieces, Location.past_behind, located]
  · subst hcs
    refine ⟨_, [], .finish (.line hfill hbody), fun before => ?_⟩
    rw [hskip, hline, ofPieces, ofPieces, Location.past_behind, Location.past_behind, located,
      List.append_assoc]
  · have hshort : text.length < cs.length := by
      obtain ⟨-, c, ds, rfl, -⟩ := htoken
      rw [hcs]
      simp only [List.length_append, List.length_cons]
      omega
    obtain ⟨last, segs, htiles, htokens⟩ := exists_tiles text
    subst hcs
    have hsegment := Tiles.segment (s := ⟨fill, kind, spelling⟩) hfill htoken htiles
    rw [Segment.text, List.append_assoc] at hsegment
    refine ⟨last, _, hsegment, fun before => ?_⟩
    rw [hskip, pieces_token htoken, ofPieces, Location.past_behind, Location.past_behind, htokens,
      located, Segment.text, List.append_assoc]
termination_by cs.length

/-! ### Offsets -/

variable {last text : List Char} {segs : List Segment}

/-- The text before a segment. -/
def textBefore (segs : List Segment) (k : Nat) : List Char :=
  (segs.take k).flatMap Segment.text

/-- What is skipped before a segment, and behind the last one. -/
def gapBefore (last : List Char) (segs : List Segment) (k : Nat) : List Char :=
  (segs[k]?.map Segment.gap).getD last

theorem textBefore_succ {k : Nat} {s : Segment} (h : segs[k]? = some s) :
    textBefore segs (k + 1) = textBefore segs k ++ s.text := by
  simp [textBefore, List.take_add_one, h]

theorem textBefore_cons (s : Segment) (segs : List Segment) (k : Nat) :
    textBefore (s :: segs) (k + 1) = s.text ++ textBefore segs k := by
  simp [textBefore]

/-- A text goes on with its segments from each of them on. -/
theorem Tiles.drop (h : Tiles last segs text) {k : Nat} (hk : k ≤ segs.length) :
    ∃ rest, text = textBefore segs k ++ rest ∧ Tiles last (segs.drop k) rest := by
  induction h generalizing k with
  | finish hlast =>
    obtain rfl := Nat.le_zero.mp hk
    exact ⟨last, rfl, .finish hlast⟩
  | @segment s segs text hgap htoken htiles ih =>
    cases k with
    | zero => exact ⟨_, rfl, .segment hgap htoken htiles⟩
    | succ k =>
      obtain ⟨rest, rfl, hrest⟩ := ih (Nat.le_of_succ_le_succ hk)
      exact ⟨rest, by rw [textBefore_cons, List.append_assoc], hrest⟩

theorem length_located (before last : List Char) (segs : List Segment) :
    (located before last segs).length = segs.length + 1 := by
  induction segs generalizing before with
  | nil => rfl
  | cons s segs ih => rw [located, List.length_cons, ih, List.length_cons]

theorem located_at {before : List Char} {k : Nat} {s : Segment} (h : segs[k]? = some s) :
    (located before last segs)[k]? =
      some ⟨s.kind, .behind (before ++ (textBefore segs k ++ s.gap))⟩ := by
  induction segs generalizing before k with
  | nil => cases h
  | cons s' segs ih =>
    cases k with
    | zero =>
      cases h
      rfl
    | succ k =>
      rw [located, List.getElem?_cons_succ, ih h, textBefore_cons]
      simp

/-- The last token is the end of the file, and no other is. -/
theorem located_finish (h : Tiles last segs text) (before : List Char) :
    ∃ words, located before last segs = words ++ [⟨.endOfFile, .behind (before ++ text)⟩] ∧
      ∀ t ∈ words, t.kind ≠ .endOfFile := by
  induction h generalizing before with
  | finish _ => exact ⟨[], rfl, nofun⟩
  | @segment s segs text _ htoken _ ih =>
    obtain ⟨words, hwords, hkinds⟩ := ih (before ++ s.text)
    refine ⟨⟨s.kind, .behind (before ++ s.gap)⟩ :: words, ?_, ?_⟩
    · rw [located, hwords, List.append_assoc, List.cons_append]
    · exact List.forall_mem_cons.mpr ⟨htoken.1, hkinds⟩

/-! ### The partition -/

/-- Whether tokens partition a text. Token `k` stands at the offset `start k`; what is skipped
before it starts at the offset `left k`, where the text of the token before it ends. -/
structure Partitions (text : List Char) (tokens : List Token) (left start : Nat → Nat) : Prop where
  first : left 0 = 0
  /-- The end of the file is the last token, at the end of the text, and no other token. -/
  finish : ∃ words, tokens = words ++ [⟨.endOfFile, .behind text⟩] ∧
    (∀ t ∈ words, t.kind ≠ .endOfFile) ∧ start words.length = text.length
  located : ∀ (k : Nat) (t : Token), tokens[k]? = some t →
    t.location = .behind (text.take (start k))
  /-- Every token but the last takes some text. -/
  advances : ∀ k, k + 1 < tokens.length → start k < left (k + 1) ∧ left (k + 1) ≤ start (k + 1)
  /-- A token is what is scanned at its offset, with all the text that scanning takes. -/
  scanned : ∀ (k : Nat) (t : Token), tokens[k]? = some t → k + 1 < tokens.length →
    StartsWithToken t.kind (text.extract (start k) (left (k + 1))) (text.drop (left (k + 1)))
  gaps : ∀ k, k + 1 < tokens.length → Filler (text.extract (left k) (start k))
  trailing : ∀ k, k + 1 = tokens.length → Trailing (text.extract (left k) (start k))
  increasing : tokens.Pairwise fun s t : Token => s.location.Precedes t.location

/-- Offsets that advance grow. -/
theorem start_lt {tokens : List Token} {left start : Nat → Nat}
    (h : ∀ k, k + 1 < tokens.length → start k < left (k + 1) ∧ left (k + 1) ≤ start (k + 1))
    {i j : Nat} (hij : i < j) (hj : j < tokens.length) : start i < start j := by
  induction j with
  | zero => exact absurd hij (Nat.not_lt_zero i)
  | succ j ih =>
    obtain ⟨hleft, hstart⟩ := h j hj
    have hlast : start j < start (j + 1) := Nat.lt_of_lt_of_le hleft hstart
    rcases Nat.lt_succ_iff_lt_or_eq.mp hij with hlt | rfl
    · exact Nat.lt_trans (ih hlt (Nat.lt_of_succ_lt hj)) hlast
    · exact hlast

/-- A later offset is a later place. -/
theorem precedes_behind {text : List Char} {i j : Nat} (hij : i < j) (hj : j ≤ text.length) :
    (Location.behind (text.take i)).Precedes (.behind (text.take j)) := by
  have hsplit : text.take j = text.take i ++ (text.take j).drop i := by
    have hshort : (text.take j).take i = text.take i := by
      rw [List.take_take, Nat.min_eq_left (Nat.le_of_lt hij)]
    rw [← hshort, List.take_append_drop]
  rw [hsplit, ← Location.past_behind]
  refine Location.precedes_past _ (List.ne_nil_of_length_pos ?_)
  rw [List.length_drop, List.length_take]
  omega

/-- Where the gap before a token starts. -/
def gapOffset (segs : List Segment) (k : Nat) : Nat :=
  (textBefore segs k).length

/-- Where a token starts, and the end of the file behind all. -/
def tokenOffset (last : List Char) (segs : List Segment) (k : Nat) : Nat :=
  (textBefore segs k ++ gapBefore last segs k).length

/-- The offsets of a segment cut its parts out of the text. -/
theorem Tiles.segment_at (h : Tiles last segs text) {k : Nat} {s : Segment}
    (hs : segs[k]? = some s) :
    text.take (tokenOffset last segs k) = textBefore segs k ++ s.gap ∧
      tokenOffset last segs k < gapOffset segs (k + 1) ∧
      Filler (text.extract (gapOffset segs k) (tokenOffset last segs k)) ∧
      StartsWithToken s.kind (text.extract (tokenOffset last segs k) (gapOffset segs (k + 1)))
        (text.drop (gapOffset segs (k + 1))) := by
  obtain ⟨hk, rfl⟩ := List.getElem?_eq_some_iff.mp hs
  have hgap : gapBefore last segs k = segs[k].gap := by rw [gapBefore, hs]; rfl
  obtain ⟨rest, rfl, hrest⟩ := h.drop (Nat.le_of_lt hk)
  rw [List.drop_eq_getElem_cons hk] at hrest
  obtain - | ⟨hfiller, htoken, htiles⟩ := hrest
  rename_i rest
  simp only [tokenOffset, gapOffset, hgap, textBefore_succ hs, Segment.text,
    List.extract_eq_take_drop]
  generalize textBefore segs k = before
  generalize segs[k] = s at *
  have hpos : 0 < s.spelling.length := by
    obtain ⟨-, c, cs, hspelling, -⟩ := htoken
    rw [hspelling]
    exact Nat.zero_lt_succ _
  have htext : before ++ (s.gap ++ s.spelling ++ rest) =
      (before ++ s.gap) ++ (s.spelling ++ rest) := by simp
  have hlength : (before ++ (s.gap ++ s.spelling)).length - (before ++ s.gap).length =
      s.spelling.length := by
    simp only [List.length_append]
    omega
  refine ⟨?_, ?_, ?_, ?_⟩
  · rw [htext, List.take_left]
  · simpa using hpos
  · simpa [List.take_length_add_append] using hfiller
  · rw [htext, List.drop_left, hlength, List.take_left, ← htext, ← List.append_assoc before _ rest,
      List.drop_left]
    exact htoken

/-- Behind all segments the last gap is left, up to the end of the text. -/
theorem Tiles.last_at (h : Tiles last segs text) :
    tokenOffset last segs segs.length = text.length ∧
      Trailing (text.extract (gapOffset segs segs.length) (tokenOffset last segs segs.length)) := by
  obtain ⟨rest, rfl, hrest⟩ := h.drop (Nat.le_refl _)
  rw [List.drop_length] at hrest
  obtain ⟨hlast⟩ := hrest
  have hgap : gapBefore last segs segs.length = last := by simp [gapBefore]
  rw [tokenOffset, gapOffset, hgap]
  refine ⟨rfl, ?_⟩
  simpa [List.extract_eq_take_drop] using hlast

/-- Every token but the last is that of a segment. -/
theorem exists_segment {k : Nat} (hk : k + 1 < (Token.located [] last segs).length) :
    ∃ s, segs[k]? = some s := by
  rw [length_located] at hk
  exact ⟨_, List.getElem?_eq_getElem (Nat.lt_of_succ_lt_succ hk)⟩

theorem Tiles.advances (h : Tiles last segs text) (k : Nat)
    (hk : k + 1 < (Token.located [] last segs).length) :
    tokenOffset last segs k < gapOffset segs (k + 1) ∧
      gapOffset segs (k + 1) ≤ tokenOffset last segs (k + 1) := by
  obtain ⟨s, hs⟩ := exists_segment hk
  refine ⟨(h.segment_at hs).2.1, ?_⟩
  rw [gapOffset, tokenOffset, List.length_append]
  exact Nat.le_add_right _ _

/-- A token is located where its offset is, the end of the file too. -/
theorem Tiles.location_at (h : Tiles last segs text) {k : Nat} {t : Token}
    (ht : (Token.located [] last segs)[k]? = some t) :
    t.location = .behind (text.take (tokenOffset last segs k)) := by
  rcases Nat.lt_or_ge k segs.length with hk | hk
  · have hs := List.getElem?_eq_getElem hk
    obtain rfl := Option.some.inj ((located_at hs).symm.trans ht)
    rw [(h.segment_at hs).1]
    rfl
  · obtain ⟨words, hwords, -⟩ := located_finish h []
    have hlength := length_located [] last segs
    obtain ⟨hlt, -⟩ := List.getElem?_eq_some_iff.mp ht
    obtain rfl : k = words.length := by
      rw [hwords, List.length_append, List.length_singleton] at hlength hlt
      omega
    rw [hwords, List.length_append, List.length_singleton] at hlength
    rw [hwords, List.getElem?_concat_length] at ht
    obtain rfl := Option.some.inj ht
    rw [Nat.succ.inj hlength, h.last_at.1, List.take_length]
    rfl

/-- Later tokens are located further on. -/
theorem Tiles.increasing (h : Tiles last segs text) :
    (Token.located [] last segs).Pairwise fun s t : Token => s.location.Precedes t.location := by
  have hlength := length_located [] last segs
  obtain ⟨hend, -⟩ := h.last_at
  rw [List.pairwise_iff_getElem]
  intro i j hi hj hij
  rw [h.location_at (List.getElem?_eq_getElem hi), h.location_at (List.getElem?_eq_getElem hj)]
  refine precedes_behind (start_lt h.advances hij hj) ?_
  rcases Nat.lt_or_ge j segs.length with hlt | hge
  · rw [← hend]
    exact Nat.le_of_lt (start_lt h.advances hlt (by omega))
  · obtain rfl : j = segs.length := by omega
    exact Nat.le_of_eq hend

theorem Tiles.partitions (h : Tiles last segs text) :
    Partitions text (Token.located [] last segs) (gapOffset segs) (tokenOffset last segs) := by
  have hlength := length_located [] last segs
  obtain ⟨hend, htrailing⟩ := h.last_at
  obtain ⟨words, hwords, hkinds⟩ := located_finish h []
  have hwordsLength : words.length = segs.length := by
    rw [hwords, List.length_append] at hlength
    exact Nat.succ.inj hlength
  refine
    { first := rfl
      finish := ⟨words, hwords, hkinds, by rw [hwordsLength, hend]⟩
      located := fun _ _ => h.location_at
      advances := h.advances
      scanned := fun k t ht hk => ?_
      gaps := fun k hk => ?_
      trailing := fun k hk => ?_
      increasing := h.increasing }
  · obtain ⟨s, hs⟩ := exists_segment hk
    obtain rfl := Option.some.inj ((located_at hs).symm.trans ht)
    exact (h.segment_at hs).2.2.2
  · obtain ⟨s, hs⟩ := exists_segment hk
    exact (h.segment_at hs).2.2.1
  · obtain rfl : k = segs.length := by omega
    exact htrailing

/-- **The tokens of a source text partition it**, whatever the text is. -/
theorem ofSource_partitions (source : String) :
    ∃ left start, Partitions source.toList (ofSource source) left start := by
  obtain ⟨last, segs, htiles, htokens⟩ := exists_tiles source.toList
  have hsource : ofSource source = Token.located [] last segs := htokens []
  exact ⟨_, _, hsource ▸ htiles.partitions⟩

end Token

end SysYFront
