import SysYFront.Proofs.Invariant.WellFormed

/-!
# SysYFront.Proofs.Domain.Types

The operations of a check that are not defined for all operands, or lose something for some of
them, and the operands for which they are right (`PartialOp.InDomain`). Where such an operation
is performed, nothing is tested any more: what makes its operands good was established when a
shape was declared, long before.

Most of them belong to types: strides, elements, byte offsets, and rows of constant arrays. On a
well-formed type all of these are in their domain, for every index
(`ValueType.WellFormed.inDomain`).
-/

namespace SysYFront

open Shape (size elementSize maxObjectSize maxCount)

/-- The frames as a stack, the global one at the bottom. -/
def Scopes.frames (s : Scopes) : List Frame :=
  s.globals :: s.inner.reverse

/-- An operation with its operands that needs good ones. -/
inductive PartialOp
  /-- The first extent of a shape. -/
  | outermost (dims : List Int)
  /-- The extents of a shape without the first `n`. -/
  | extentsFrom (n : Nat) (dims : List Int)
  /-- The number of elements of a shape, a product that stops at the greatest number there is. -/
  | count (dims : List Int)
  | sum (m n : Nat)
  | product (m n : Nat)
  /-- The next multiple of `step`, by a division that rounds up. -/
  | roundUp (n step : Nat)
  /-- A type of shape `dims` with a table of its own. -/
  | withCells (dims : List Int) (cells : Array Scalar)
  /-- The row of a constant array at an index that was found to be in range. -/
  | row (t : ValueType) (i : Int)
  | frame (i : Nat) (frames : List Frame)
  /-- A declaration in the innermost scope, which must not declare the name already. -/
  | declare (s : Scopes) (name : String) (t : ValueType)
  /-- The end of a loop, which is counted down. -/
  | countDown (loops : Nat)

/-- Whether an operation is defined for its operands and loses nothing. -/
def PartialOp.InDomain : PartialOp → Prop
  | outermost dims => dims ≠ []
  | extentsFrom n dims => n ≤ dims.length
  | count dims => ∀ n, size (dims.take n) ≤ maxCount
  | sum m n => m + n ≤ maxObjectSize
  | product m n => m * n ≤ maxObjectSize
  | roundUp n step => 1 ≤ step ∧ SysYFront.roundUp n step ≤ maxObjectSize
  | withCells dims cells => cells.size = Shape.count dims
  | row t i => (t.at? i).isSome = true
  | frame i frames => i < frames.length
  | declare s name t => (s.declare? name t).isSome = true
  | countDown loops => 0 < loops

/-! ### Counting -/

namespace Shape

variable {dims : List Int}

/-- No part of a product of positive extents is greater than the whole. -/
theorem size_take_le (h : ∀ d ∈ dims, 0 < d) (n : Nat) : size (dims.take n) ≤ size dims := by
  induction dims generalizing n with
  | nil => simp
  | cons d dims ih =>
    obtain ⟨hd, hothers⟩ := List.forall_mem_cons.mp h
    cases n with
    | zero => exact size_pos h
    | succ n => exact Nat.mul_le_mul_left _ (ih hothers n)

/-- The product that counts the elements never stops, at no factor. -/
theorem Small.count_inDomain (h : Small dims) : (PartialOp.count dims).InDomain := by
  intro n
  exact Nat.le_trans (size_take_le h.pos n) h.countable

theorem Small.size_le (h : Small dims) : size dims ≤ maxObjectSize := by
  have haddressable := h.addressable
  simp only [elementSize] at haddressable
  omega

/-- Behind an open extent nothing is counted. -/
theorem count_open_inDomain (dims : List Int) :
    (PartialOp.count (openExtent :: dims)).InDomain := by
  intro n
  cases n with
  | zero =>
    show 1 ≤ maxCount
    decide
  | succ n =>
    have hzero : size ((openExtent :: dims).take (n + 1)) = 0 := by
      rw [List.take_succ_cons, size_cons]
      exact Nat.zero_mul _
    rw [hzero]
    exact Nat.zero_le _

end Shape

/-! ### Types -/

namespace ValueType

/-- The operations on a type that need good operands: those of its stride, of its number of
elements and of its values, and those of a row at an index that is in range. -/
inductive Performs (t : ValueType) : PartialOp → Prop
  | stride : Performs t (.count (t.dims.drop 1))
  | count : Performs t (.count t.dims)
  | elements {w : Window} : t.window = some w → Performs t (.sum w.offset t.count)
  | byteOffset : Performs t (.product t.offset elementSize)
  /-- A message about an index that is out of range names the first extent. -/
  | outermost : t.isArray = true → Performs t (.outermost t.dims)
  | rowStep {i : Int} : t.window.isSome = true → Shape.accepts t.dims i = true →
    Performs t (.product i.toNat t.stride)
  | rowDims {i : Int} : t.window.isSome = true → Shape.accepts t.dims i = true →
    Performs t (.extentsFrom 1 t.dims)
  | rowOffset {i : Int} : t.window.isSome = true → Shape.accepts t.dims i = true →
    Performs t (.sum t.offset (i.toNat * t.stride))
  | row {i : Int} : t.window.isSome = true → Shape.accepts t.dims i = true →
    Performs t (.row t i)

variable {t : ValueType}

/-- A row that is in range begins, step by step, inside the table. -/
theorem WellFormed.row_inside (h : t.WellFormed) {w : Window} (hw : t.window = some w) {i : Int}
    (hi : Shape.accepts t.dims i = true) :
    t.offset = w.offset ∧ w.offset + i.toNat * t.stride ≤ w.cells.size := by
  have hoffset : t.offset = w.offset := by simp [offset, hw]
  refine ⟨hoffset, ?_⟩
  have hinside := (h.covers hw).inside
  have hstride := h.stride_eq
  cases hdims : t.dims with
  | nil =>
    rw [hdims] at hi
    cases hi
  | cons d dims =>
    have hpos : 0 < d := (h.small_of_window hw).pos d (by simp [hdims])
    rw [hdims] at hi hinside hstride
    rw [hstride]
    have hrow := Shape.row_le ((accepts_cons hpos dims i).mp hi) dims
    simp only [List.drop_one, List.tail_cons]
    omega

/-- **On a well-formed type every operation is in its domain.** -/
theorem WellFormed.inDomain (h : t.WellFormed) {op : PartialOp} (hop : t.Performs op) :
    op.InDomain := by
  -- What is taken of a table lies inside the table, and that can be addressed.
  have hcells {w : Window} (hw : t.window = some w) {n : Nat} (hn : n ≤ w.cells.size) :
      elementSize * n ≤ maxObjectSize :=
    Nat.le_trans (Nat.mul_le_mul_left _ hn) (h.table_addressable w hw)
  have hrow {i : Int} (hwindow : t.window.isSome = true) (hi : Shape.accepts t.dims i = true) :
      elementSize * (t.offset + i.toNat * t.stride) ≤ maxObjectSize := by
    obtain ⟨w, hw⟩ := Option.isSome_iff_exists.mp hwindow
    obtain ⟨hoffset, hinside⟩ := h.row_inside hw hi
    rw [hoffset]
    exact hcells hw hinside
  simp only [elementSize] at hcells hrow
  cases hop with
  | stride => exact h.small_drop.count_inDomain
  | count =>
    rcases h.shape with hsmall | ⟨dims, hdims, -⟩
    · exact hsmall.count_inDomain
    · rw [hdims]
      exact Shape.count_open_inDomain dims
  | @elements w hw =>
    have hend := hcells hw (h.inside w hw)
    show w.offset + t.count ≤ maxObjectSize
    omega
  | byteOffset =>
    show t.offset * elementSize ≤ maxObjectSize
    cases hw : t.window with
    | none => simp [offset, hw]
    | some w =>
      have hinside := h.inside w hw
      have hstart := hcells hw (Nat.le_trans (Nat.le_add_right _ _) hinside)
      simp only [offset, hw, Option.map_some, Option.getD_some, elementSize]
      omega
  | outermost harray =>
    intro hnil
    simp [isArray, hnil] at harray
  | @rowStep i hwindow hi =>
    have hend := hrow hwindow hi
    show i.toNat * t.stride ≤ maxObjectSize
    omega
  | rowDims _ hi =>
    cases hdims : t.dims with
    | nil =>
      rw [hdims] at hi
      cases hi
    | cons d dims => exact Nat.le_add_left 1 dims.length
  | @rowOffset i hwindow hi =>
    have hend := hrow hwindow hi
    show t.offset + i.toNat * t.stride ≤ maxObjectSize
    omega
  | @row i hwindow hi =>
    obtain ⟨w, hw⟩ := Option.isSome_iff_exists.mp hwindow
    show (t.at? i).isSome = true
    simp [ValueType.at?, hw, hi]

end ValueType

end SysYFront
