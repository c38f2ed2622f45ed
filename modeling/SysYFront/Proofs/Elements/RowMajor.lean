import Mathlib.Algebra.BigOperators.Fin
import SysYFront.Proofs.Elements.Reading

/-!
# SysYFront.Proofs.Elements.RowMajor

Where the elements of a constant array lie in its table. Every index leaves a window on the same
table, with one dimension less and further on by whole rows of what is left. So a list of indices
comes to the row-major position of the elements behind it, as long as each index is in the range of
its own dimension (`ValueType.part?_eq_some_iff`).

Positions are numbers of mixed radix, with the extents as radices: every place of the table is the
position of exactly one full list of indices (`Shape.existsUnique_position`). Nothing here asks what
values the table holds.
-/

namespace SysYFront

namespace Shape

variable {dims is : List Int}

/-- The position of a single element lies in the array. -/
theorem position_lt_size (h : List.Forall₂ IsIndex is dims) : position dims is < size dims := by
  have hinside := position_add_size_le h []
  rw [List.append_nil, size_nil] at hinside
  omega

/-- A position counts, for each index, the elements that it skips: the product of the extents
behind its own, as often as the index says. -/
theorem position_eq_sum (h : List.Forall₂ IsIndex is (dims.take is.length)) :
    (position dims is : Int) = ∑ j : Fin is.length, is[j] * (size (dims.drop (j + 1)) : Int) := by
  induction is generalizing dims with
  | nil => simp
  | cons i is ih =>
    cases dims with
    | nil => cases h
    | cons d dims =>
      obtain ⟨hi, hothers⟩ := List.forall₂_cons.mp h
      show _ = ∑ j : Fin (is.length + 1), (i :: is)[j] * (size ((d :: dims).drop (j + 1)) : Int)
      rw [Fin.sum_univ_succ, position, Nat.cast_add, Nat.cast_mul, Int.toNat_of_nonneg hi.1,
        ih hothers]
      rfl

/-- Every place of an array is the position of one full list of indices, and of no other. -/
theorem existsUnique_position (hpos : ∀ d ∈ dims, 0 < d) {n : Nat} (hn : n < size dims) :
    ∃! is, List.Forall₂ IsIndex is dims ∧ position dims is = n := by
  induction dims generalizing n with
  | nil =>
    rw [size_nil] at hn
    refine ⟨[], ⟨.nil, by rw [position_nil]; omega⟩, ?_⟩
    rintro is ⟨his, -⟩
    exact List.forall₂_nil_right_iff.mp his
  | cons d dims ih =>
    obtain ⟨hd, hothers⟩ := List.forall_mem_cons.mp hpos
    have hrow : 0 < size dims := size_pos hothers
    -- The first index counts whole rows, and the others find the rest in the last one.
    obtain ⟨is, ⟨his, hrest⟩, hunique⟩ := ih hothers (Nat.mod_lt n hrow)
    have hfirst : n / size dims < d.toNat := (Nat.div_lt_iff_lt_mul hrow).mpr hn
    have hindex : IsIndex ((n / size dims : Nat) : Int) d := by
      generalize n / size dims = q at hfirst
      exact ⟨by omega, by omega⟩
    refine ⟨((n / size dims : Nat) : Int) :: is, ⟨.cons hindex his, ?_⟩, ?_⟩
    · rw [position, Int.toNat_natCast, hrest]
      exact Nat.div_add_mod' n (size dims)
    · rintro js ⟨hjs, hposition⟩
      cases hjs with
      | @cons j _ js _ hj hjs =>
        have hinner : position dims js < size dims := position_lt_size hjs
        rw [position] at hposition
        have hquotient : n / size dims = j.toNat := by
          rw [← hposition, Nat.add_comm, Nat.add_mul_div_right _ _ hrow, Nat.div_eq_of_lt hinner,
            Nat.zero_add]
        have hremainder : n % size dims = position dims js := by
          rw [← hposition, Nat.add_comm, Nat.add_mul_mod_self_right, Nat.mod_eq_of_lt hinner]
        rw [hunique js ⟨hjs, hremainder.symm⟩, hquotient, Int.toNat_of_nonneg hj.1]

end Shape

open Shape (IsIndex position size elementSize maxObjectSize)

/-- Behind indices in range, a window that spans a shape spans what is left of it. -/
theorem Window.Spans.behind {w : Window} {dims is : List Int} (h : w.Spans dims)
    (his : List.Forall₂ IsIndex is (dims.take is.length)) :
    Window.Spans { w with offset := w.offset + position dims is } (dims.drop is.length) := by
  have hplace := Shape.position_add_size_le his (dims.drop is.length)
  rw [List.take_append_drop] at hplace
  have hinside := h.inside
  refine ⟨fun d hd => h.extents_pos d (List.mem_of_mem_drop hd), ?_, ?_⟩
  · exact Nat.le_trans (by omega) h.countable
  · show w.offset + position dims is + size (dims.drop is.length) ≤ w.cells.size
    omega

namespace ValueType

/-! ### Lists of indices -/

/-- The element or inner array behind the indices `is`, taken one after the other. -/
def part? (t : ValueType) (is : List Int) : Option ValueType :=
  is.foldlM ValueType.at? t

/-- What `t`, which looks at `w`, has behind as many indices as `is`, from their position on. -/
def partBehind (t : ValueType) (w : Window) (is : List Int) : ValueType :=
  { t with
    dims := t.dims.drop is.length
    window := some { w with offset := w.offset + position t.dims is } }

variable {t v : ValueType} {w : Window} {is : List Int}

/-- There is a part behind exactly the indices that are in range, each in its own dimension. It has
the dimensions that are left, and looks at the same cells from the position of the indices on. -/
theorem part?_eq_some_iff (h : t.window = some w) (hw : w.Spans t.dims)
    (hlength : is.length ≤ t.dims.length) :
    t.part? is = some v ↔
      List.Forall₂ IsIndex is (t.dims.take is.length) ∧ v = t.partBehind w is := by
  induction is generalizing t w with
  | nil =>
    have hself : t.partBehind w [] = t := by
      simp [partBehind, ← h]
    rw [hself]
    simp [part?, eq_comm]
  | cons i is ih =>
    cases hd : t.dims with
    | nil =>
      rw [hd] at hlength
      cases hlength
    | cons d dims =>
      have hat := at?_of_spans h hd hw i
      rw [hd] at hw hlength
      rw [part?, List.foldlM_cons]
      by_cases hi : IsIndex i d
      · -- The other indices go on from the row.
        rw [hat.trans (if_pos hi)]
        show part? _ is = some v ↔ _
        rw [ih rfl (hw.row hi) (Nat.le_of_succ_le_succ hlength)]
        simp [partBehind, hd, hi, position, Nat.add_assoc]
      · rw [hat.trans (if_neg hi)]
        simp [hi]

/-! ### Row-major addresses -/

/-- Whether `v` is the part of `t` behind the indices `is`, where `t` has the table `cells`. -/
structure IsPart (t : ValueType) (cells : Array Scalar) (is : List Int) (v : ValueType) : Prop where
  /-- The part looks at the table of the whole. -/
  shares : v.window = some ⟨cells, v.offset⟩
  dims : v.dims = t.dims.drop is.length
  /-- Each index skips, for every step, as many elements as the extents behind its own hold. -/
  offset : (v.offset : Int) = ∑ j : Fin is.length, is[j] * (size (t.dims.drop (j + 1)) : Int)
  inside : v.offset + size v.dims ≤ cells.size
  elements : v.elements? = some ((cells.toList.drop v.offset).take (size v.dims))
  /-- Only the extents and the window differ. -/
  kept : v = { t with dims := v.dims, window := v.window }

/-- Whether indices address the table `cells` of `t` in row-major order. -/
structure RowMajor (t : ValueType) (cells : Array Scalar) : Prop where
  /-- There is a part behind exactly the indices that are in range. -/
  isSome_iff : ∀ is : List Int, is.length ≤ t.dims.length →
    (((t.withCells cells).part? is).isSome = true ↔
      List.Forall₂ IsIndex is (t.dims.take is.length))
  isPart : ∀ (is : List Int) (v : ValueType), is.length ≤ t.dims.length →
    (t.withCells cells).part? is = some v → t.IsPart cells is v
  /-- A full list of indices comes to a single value, that of the table at its offset. -/
  value : ∀ (is : List Int) (v : ValueType), is.length = t.dims.length →
    (t.withCells cells).part? is = some v → ∃ h : v.offset < cells.size,
      v.value? = some cells[v.offset]
  /-- Full lists of indices come to every place of the table, and to each only once. -/
  bijective : ∀ n < cells.size, ∃! is : List Int, is.length = t.dims.length ∧
    ∃ v, (t.withCells cells).part? is = some v ∧ v.offset = n

variable {cells : Array Scalar}

/-- What `t` has behind some indices is offset in its table by their position. -/
theorem offset_partBehind : (t.partBehind ⟨cells, 0⟩ is).offset = position t.dims is :=
  Nat.zero_add _

theorem isPart_partBehind (hw : Window.Spans ⟨cells, 0⟩ t.dims)
    (his : List.Forall₂ IsIndex is (t.dims.take is.length)) :
    t.IsPart cells is (t.partBehind ⟨cells, 0⟩ is) := by
  have hpart := hw.behind his
  rw [Nat.zero_add, ← offset_partBehind] at hpart
  have hwindow : (t.partBehind ⟨cells, 0⟩ is).window =
      some ⟨cells, (t.partBehind ⟨cells, 0⟩ is).offset⟩ := rfl
  refine ⟨hwindow, rfl, ?_, hpart.inside, elements?_of_spans hwindow hpart, rfl⟩
  rw [offset_partBehind]
  exact Shape.position_eq_sum his

/-- A part without dimensions is the one value at its offset. -/
theorem IsPart.value? (h : t.IsPart cells is v) (hlength : is.length = t.dims.length) :
    ∃ hv : v.offset < cells.size, v.value? = some cells[v.offset] := by
  have hdims : v.dims = [] := by
    rw [h.dims, hlength, List.drop_length]
  have hinside := h.inside
  have helements := h.elements
  rw [hdims, Shape.size_nil] at hinside helements
  refine ⟨hinside, ?_⟩
  rw [ValueType.value?, helements]
  simp [isArray, hdims, List.head?_take]

/-- **Indices address the table of a constant in row-major order**, for every shape of positive
extents whose object can be addressed and every table of exactly as many cells. -/
theorem withCells_rowMajor (t : ValueType) (cells : Array Scalar) (hpos : ∀ d ∈ t.dims, 0 < d)
    (hobject : size t.dims * elementSize ≤ maxObjectSize) (hcells : cells.size = size t.dims) :
    t.RowMajor cells := by
  have hw : Window.Spans ⟨cells, 0⟩ t.dims :=
    ⟨hpos, Shape.size_le_maxCount hobject, by rw [Nat.zero_add, hcells]⟩
  have hparts (is : List Int) (v : ValueType) (hlength : is.length ≤ t.dims.length) :
      (t.withCells cells).part? is = some v ↔
        List.Forall₂ IsIndex is (t.dims.take is.length) ∧ v = t.partBehind ⟨cells, 0⟩ is :=
    part?_eq_some_iff (t := t.withCells cells) rfl hw hlength
  have hpart (is : List Int) (v : ValueType) (hlength : is.length ≤ t.dims.length)
      (h : (t.withCells cells).part? is = some v) : t.IsPart cells is v := by
    obtain ⟨his, rfl⟩ := (hparts is v hlength).mp h
    exact isPart_partBehind hw his
  refine ⟨?_, hpart, ?_, ?_⟩
  · intro is hlength
    simp [Option.isSome_iff_exists, hparts is _ hlength]
  · intro is v hlength h
    exact (hpart is v hlength.le h).value? hlength
  · intro n hn
    obtain ⟨is, ⟨his, hplace⟩, hunique⟩ := Shape.existsUnique_position hpos (hcells ▸ hn)
    have hlength : is.length = t.dims.length := his.length_eq
    have hfull : t.dims.take is.length = t.dims := by rw [hlength, List.take_length]
    have hfound := (hparts is _ hlength.le).mpr ⟨by rw [hfull]; exact his, rfl⟩
    refine ⟨is, ⟨hlength, _, hfound, offset_partBehind.trans hplace⟩, ?_⟩
    rintro js ⟨hjs, v, hv, hoffset⟩
    obtain ⟨hrange, rfl⟩ := (hparts js v hjs.le).mp hv
    rw [hjs, List.take_length] at hrange
    exact hunique js ⟨hrange, offset_partBehind.symm.trans hoffset⟩

/-- The type of `const int m[2][3]`, before it has a table. -/
def matrix : ValueType :=
  ⟨true, true, .int, [2, 3], none⟩

/-- Rows of three elements each: the first index skips three of them, the second one. -/
theorem matrix_rowMajor :
    (∀ d ∈ matrix.dims, 0 < d) ∧ size matrix.dims * elementSize ≤ maxObjectSize ∧
      matrix.RowMajor #[.int 1, .int 2, .int 3, .int 4, .int 5, .int 6] :=
  ⟨by decide, by decide, withCells_rowMajor matrix _ (by decide) (by decide) rfl⟩

end ValueType

end SysYFront
