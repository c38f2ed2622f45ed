import SysYFront.Proofs.Domain.Types

/-!
# SysYFront.Proofs.Domain.Layout

The operations of the walk over an initializer in braces. A walk stands at a place in a list: for
an array of some shape, from some element on, with some elements used and some items to come
(`Init.Walk`). Whatever it comes to from the outermost list, also where it is refused further on,
the array lies in the whole one and no more elements are used than it has (`Init.Walk.Fits`). So
every operation there is in its domain.
-/

namespace SysYFront

open Shape (size maxObjectSize)

/-- The next boundary is not behind the end of the array. -/
theorem roundUp_le {n step total : Nat} (hstep : 0 < step) (hdvd : step ∣ total) (h : n ≤ total) :
    roundUp n step ≤ total := by
  obtain ⟨k, rfl⟩ := hdvd
  have hquotient : (n + step - 1) / step < k + 1 := by
    rw [Nat.div_lt_iff_lt_mul hstep, Nat.add_mul, Nat.mul_comm k]
    omega
  rw [roundUp, Nat.mul_comm step]
  exact Nat.mul_le_mul_right step (Nat.le_of_lt_succ hquotient)

namespace Init

variable {α : Type}

/-- A place in a walk: the shape of the array that a list stands for, its first element, how many
of its elements are used, and the items that are still to come. -/
structure Walk (α : Type) where
  dims : List Int
  start : Nat
  used : Nat
  items : List (Init α)

namespace Walk

variable {c : Checker} {rule : InitRule} {w w' : Walk α}

/-- The places that the walk over a list comes to, in it and in the lists in it. -/
inductive Reaches (c : Checker) (rule : InitRule) : Walk α → Walk α → Prop
  | here {w : Walk α} : Reaches c rule w w
  | inside {dims : List Int} {start used : Nat} {inner items : List (Init α)} {l : Location}
    {w : Walk α} : dims.length ≠ 1 → roundUp used (Shape.stride dims) < Shape.count dims →
    Reaches c rule ⟨dims.drop 1, start + roundUp used (Shape.stride dims), 0, inner⟩ w →
    Reaches c rule ⟨dims, start, used, .list inner l :: items⟩ w
  | behind {dims : List Int} {start used used' : Nat} {item : Init α} {items : List (Init α)}
    {item' : Init ValueType} {leaves : List Placed} {w : Walk α} :
    layItem c rule dims start used item = .ok (item', leaves, used') →
    Reaches c rule ⟨dims, start, used', items⟩ w →
    Reaches c rule ⟨dims, start, used, item :: items⟩ w

/-- The operations at a place that need good operands: the size and the stride of the array, and
the counts for the item that comes next. -/
inductive Performs (w : Walk α) : PartialOp → Prop
  | count : Performs w (.count w.dims)
  | inner : Performs w (.extentsFrom 1 w.dims)
  | stride : Performs w (.count (w.dims.drop 1))
  | slot {e : Expr α} {items : List (Init α)} : w.items = .expr e :: items →
    w.used < Shape.count w.dims → Performs w (.sum w.start w.used)
  | used {e : Expr α} {items : List (Init α)} : w.items = .expr e :: items →
    w.used < Shape.count w.dims → Performs w (.sum w.used 1)
  | boundary {inner items : List (Init α)} {l : Location} : w.items = .list inner l :: items →
    w.dims.length ≠ 1 → Performs w (.roundUp w.used (Shape.stride w.dims))
  | start {inner items : List (Init α)} {l : Location} : w.items = .list inner l :: items →
    w.dims.length ≠ 1 → roundUp w.used (Shape.stride w.dims) < Shape.count w.dims →
    Performs w (.sum w.start (roundUp w.used (Shape.stride w.dims)))
  | past {inner items : List (Init α)} {l : Location} : w.items = .list inner l :: items →
    w.dims.length ≠ 1 → roundUp w.used (Shape.stride w.dims) < Shape.count w.dims →
    Performs w (.sum (roundUp w.used (Shape.stride w.dims)) (Shape.stride w.dims))

/-- Whether the array lies in an object that can be addressed, and no more elements are used than
it has. -/
structure Fits (w : Walk α) : Prop where
  array : w.dims ≠ []
  small : Shape.Small w.dims
  inside : w.start + size w.dims ≤ maxObjectSize
  used : w.used ≤ size w.dims

variable {dims : List Int} {start used : Nat} {items : List (Init α)}

/-- Before the end of the array there is a whole inner array behind the next boundary. -/
theorem Fits.boundary (h : Fits (α := α) ⟨dims, start, used, items⟩)
    (hbelow : roundUp used (Shape.stride dims) < Shape.count dims) :
    roundUp used (Shape.stride dims) + Shape.stride dims ≤ size dims := by
  have hstride : Shape.stride dims = size (dims.drop 1) := h.small.drop.count_eq
  rw [h.small.count_eq] at hbelow
  rw [hstride] at hbelow ⊢
  exact roundUp_add_le (Shape.size_drop_dvd dims) hbelow

/-- A list in the array fits in again. -/
theorem Fits.inner (h : Fits (α := α) ⟨dims, start, used, items⟩) (hdims : dims.length ≠ 1)
    (hbelow : roundUp used (Shape.stride dims) < Shape.count dims) (inner : List (Init α)) :
    Fits ⟨dims.drop 1, start + roundUp used (Shape.stride dims), 0, inner⟩ where
  array := by
    have hpos := List.length_pos_iff.mpr h.array
    show dims.drop 1 ≠ []
    rw [← List.length_pos_iff, List.length_drop]
    dsimp only at hpos
    omega
  small := h.small.drop
  inside := by
    have hroom := h.boundary hbelow
    have hstride : Shape.stride dims = size (dims.drop 1) := h.small.drop.count_eq
    have hinside := h.inside
    dsimp only at hinside ⊢
    omega
  used := Nat.zero_le _

/-- What is used behind an item that is laid out is not more than there is. -/
theorem Fits.behind {item : Init α} (h : Fits ⟨dims, start, used, item :: items⟩)
    {item' : Init ValueType} {leaves : List Placed} {used' : Nat}
    (hitem : layItem c rule dims start used item = .ok (item', leaves, used')) :
    Fits ⟨dims, start, used', items⟩ where
  array := h.array
  small := h.small
  inside := h.inside
  used := by
    show used' ≤ size dims
    cases item with
    | expr e =>
      simp only [layItem, guard_eq_ok, bind_eq_ok, pure_eq_ok] at hitem
      obtain ⟨hroom, e', -, ⟨⟩⟩ := hitem
      have hcount : Shape.count dims = size dims := h.small.count_eq
      omega
    | list inner l =>
      simp only [layItem, guard_eq_ok, bind_eq_ok, pure_eq_ok, Prod.exists] at hitem
      obtain ⟨-, hbelow, inner', leaves', -, ⟨⟩⟩ := hitem
      exact h.boundary (Nat.not_le.mp hbelow)

/-- A walk that starts in an object that can be addressed fits in it wherever it comes. -/
theorem Reaches.fits (h : Reaches c rule w w') (hw : w.Fits) : w'.Fits := by
  induction h with
  | here => exact hw
  | inside hdims hbelow _ ih => exact ih (hw.inner hdims hbelow _)
  | behind hitem _ ih => exact ih (hw.behind hitem)

/-- **Wherever a walk fits, every operation is in its domain.** -/
theorem Fits.inDomain (h : w.Fits) {op : PartialOp} (hop : w.Performs op) : op.InDomain := by
  obtain ⟨dims, start, used, items⟩ := w
  have hcount : Shape.count dims = size dims := h.small.count_eq
  have hstride : Shape.stride dims = size (dims.drop 1) := h.small.drop.count_eq
  have hsize := h.small.size_le
  have hinside := h.inside
  dsimp only at hsize hinside
  cases hop with
  | count => exact h.small.count_inDomain
  | inner => exact List.length_pos_iff.mpr h.array
  | stride => exact h.small.drop.count_inDomain
  | slot _ hroom =>
    show start + used ≤ maxObjectSize
    dsimp only at hroom
    omega
  | used _ hroom =>
    show used + 1 ≤ maxObjectSize
    dsimp only at hroom
    omega
  | boundary _ _ =>
    have hstep : 0 < size (dims.drop 1) := Shape.size_pos h.small.drop.pos
    have hnext := roundUp_le hstep (Shape.size_drop_dvd dims) h.used
    show 1 ≤ Shape.stride dims ∧ roundUp used (Shape.stride dims) ≤ maxObjectSize
    rw [hstride]
    exact ⟨hstep, Nat.le_trans hnext hsize⟩
  | start _ _ hbelow =>
    show start + roundUp used (Shape.stride dims) ≤ maxObjectSize
    dsimp only at hbelow
    omega
  | past _ _ hbelow =>
    have hroom := h.boundary hbelow
    show roundUp used (Shape.stride dims) + Shape.stride dims ≤ maxObjectSize
    omega

end Walk

end Init

end SysYFront
