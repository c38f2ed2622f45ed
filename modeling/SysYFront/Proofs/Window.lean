import Mathlib.Tactic.ByContra
import SysYFront.Expr.Basic
import SysYFront.Proofs.Meaning.Constant

/-!
# SysYFront.Proofs.Window

The windows of the checker show the tables of the meanings. A type that the checker
holds is *proper* (`ValueType.Proper`): it has a window if and only if it is constant,
and then the window lies inside its cells, which all have the base type of the type.
Of a proper type, taking a row of the window and then reading it is reading it and
then taking a row of the table (`table?_at?`), whatever the offset.

Counts of elements stop at a bound in the checker. Extents that are declared are
positive and their object is small, so the bound is never met (`count_eq_size`).
-/

namespace SysYFront

/-! ### Counting elements -/

namespace Shape

theorem foldl_count (dims : List Int) : ∀ n ≤ maxCount,
    dims.foldl (fun n d => min (n * d.toNat) maxCount) n = min (n * size dims) maxCount := by
  induction dims with
  | nil =>
    intro n hn
    simp [Nat.min_eq_left hn]
  | cons d dims ih =>
    intro n _
    rw [List.foldl_cons, ih _ (Nat.min_le_right _ _), size_cons, ← Nat.mul_assoc]
    by_cases hd : n * d.toNat ≤ maxCount
    · rw [Nat.min_eq_left hd]
    · -- A count that has stopped stays at the bound, unless an extent is zero.
      have hstop : min (n * d.toNat) maxCount = maxCount := Nat.min_eq_right (by omega)
      rw [hstop]
      cases hs : size dims with
      | zero => simp
      | succ k =>
        have h₁ : maxCount ≤ maxCount * (k + 1) := Nat.le_mul_of_pos_right _ (by omega)
        have h₂ : n * d.toNat ≤ n * d.toNat * (k + 1) := Nat.le_mul_of_pos_right _ (by omega)
        omega

/-- The count is the true number of elements, up to the bound. -/
theorem count_eq (dims : List Int) : count dims = min (size dims) maxCount := by
  rw [count, foldl_count dims 1 (by decide), Nat.one_mul]

theorem count_eq_size {dims : List Int} (h : size dims ≤ maxCount) : count dims = size dims := by
  rw [count_eq, Nat.min_eq_left h]

/-- The elements of an object that can be addressed can be counted. -/
theorem size_le_maxCount {dims : List Int} (h : size dims * elementSize ≤ maxObjectSize) :
    size dims ≤ maxCount := by
  simp only [elementSize, maxObjectSize, maxCount, UInt64.size] at h ⊢
  omega

theorem size_pos {dims : List Int} (h : ∀ d ∈ dims, 0 < d) : 0 < size dims := by
  induction dims with
  | nil => decide
  | cons d dims ih =>
    have hd : 0 < d := h d (by simp)
    exact Nat.mul_pos (by omega) (ih fun e he => h e (by simp [he]))

/-- Dropping the outermost extent makes no shape larger. -/
theorem size_drop_le {dims : List Int} (h : ∀ d ∈ dims, 0 < d) :
    size (dims.drop 1) ≤ size dims := by
  cases dims with
  | nil => exact Nat.le_refl _
  | cons d dims =>
    have hd : 0 < d := h d (by simp)
    exact Nat.le_mul_of_pos_left _ (by omega)

/-- A row lies inside the elements of its array. -/
theorem row_le {d i : Int} (hi : 0 ≤ i ∧ i < d) (dims : List Int) :
    i.toNat * size dims + size dims ≤ size (d :: dims) := by
  have hlast : (i.toNat + 1) * size dims ≤ d.toNat * size dims :=
    Nat.mul_le_mul_right _ (by omega)
  rwa [Nat.add_mul, Nat.one_mul] at hlast

theorem foldlM_count {dims : List Int} (h : ∀ d ∈ dims, 0 < d) : ∀ n > 0,
    dims.foldlM (fun n d => if n * d.toNat ≤ maxCount then some (n * d.toNat) else none) n =
      if n * size dims ≤ maxCount ∨ dims = [] then some (n * size dims) else none := by
  induction dims with
  | nil => simp
  | cons d dims ih =>
    intro n hn
    have hd : 0 < d := h d (by simp)
    have hpos : 0 < n * d.toNat := Nat.mul_pos hn (by omega)
    have hall : ∀ e ∈ dims, 0 < e := fun e he => h e (by simp [he])
    -- Extents are positive, so a product that is too large at some step stays so.
    have hle : n * d.toNat ≤ n * d.toNat * size dims := Nat.le_mul_of_pos_right _ (size_pos hall)
    rw [List.foldlM_cons, size_cons, ← Nat.mul_assoc]
    by_cases hb : n * d.toNat ≤ maxCount
    · rw [if_pos hb]
      simp only [Option.bind_eq_bind, Option.bind_some, ih hall _ hpos, reduceCtorEq, or_false]
      by_cases hnil : dims = []
      · simp [hnil, hb]
      · simp [hnil]
    · rw [if_neg hb, if_neg (by simp only [reduceCtorEq, or_false]; omega)]
      rfl

/-- A shape of positive extents is countable if and only if its object can be addressed. -/
theorem count?_eq {dims : List Int} (h : ∀ d ∈ dims, 0 < d) :
    count? dims =
      if size dims * elementSize ≤ maxObjectSize then some (size dims) else none := by
  rw [count?, foldlM_count h 1 (by decide), Nat.one_mul]
  by_cases hs : size dims * elementSize ≤ maxObjectSize
  · simp [size_le_maxCount hs, hs]
  · by_cases hm : size dims ≤ maxCount ∨ dims = []
    · simp [hm, hs]
    · simp [hm, hs]

end Shape

/-! ### Windows and tables -/

/-- Whether an object of shape `dims` can be counted and lies inside the cells of a window, whatever
values these are. -/
structure Window.Spans (w : Window) (dims : List Int) : Prop where
  extents_pos : ∀ d ∈ dims, 0 < d
  countable : Shape.size dims ≤ Shape.maxCount
  inside : w.offset + Shape.size dims ≤ w.cells.size

/-- What the rest of the checker relies on in a window of base type `base` and shape `dims`. -/
structure Window.Covers (w : Window) (base : Base) (dims : List Int) : Prop where
  extents_pos : ∀ d ∈ dims, 0 < d
  countable : Shape.size dims ≤ Shape.maxCount
  inside : w.offset + Shape.size dims ≤ w.cells.size
  base_cells : ∀ v ∈ w.cells, v.base = base

theorem Window.Covers.spans {w : Window} {base : Base} {dims : List Int} (h : w.Covers base dims) :
    w.Spans dims :=
  ⟨h.extents_pos, h.countable, h.inside⟩

/-- Row `i` of a window that spans a shape spans the shape of the rows. -/
theorem Window.Spans.row {w : Window} {d : Int} {dims : List Int} (h : w.Spans (d :: dims))
    {i : Int} (hi : 0 ≤ i ∧ i < d) :
    Window.Spans { w with offset := w.offset + i.toNat * Shape.size dims } dims where
  extents_pos := fun e he => h.extents_pos e (by simp [he])
  countable := Nat.le_trans (Shape.size_drop_le h.extents_pos) h.countable
  inside := by
    have hin := h.inside
    have hrow := Shape.row_le hi dims
    show w.offset + i.toNat * Shape.size dims + Shape.size dims ≤ w.cells.size
    omega

namespace ValueType

/-- Exactly constants have a window, and it covers them. -/
structure Proper (t : ValueType) : Prop where
  isConst_eq : t.isConst = t.window.isSome
  covers : ∀ w, t.window = some w → w.Covers t.base t.dims

/-- The table that a type shows. -/
def table? (t : ValueType) : Option Table :=
  t.elements?.map fun cells => ⟨t.dims, cells⟩

/-- What a type makes of the name that it is declared for. -/
def meaning (t : ValueType) : Meaning :=
  ⟨t.base, t.dims, t.elements?⟩

/-- A type is that of a variable, a parameter or a constant: something that a name has. -/
structure Declared (t : ValueType) : Prop extends t.Proper where
  isPlace : t.isPlace = true

@[simp] theorem table?_eq_none {t : ValueType} (h : t.window = none) : t.table? = none := by
  simp [table?, elements?, h]

/-- A type shows the cells that its elements lie in. -/
theorem elements?_of_spans {t : ValueType} {w : Window} (h : t.window = some w)
    (hw : w.Spans t.dims) :
    t.elements? = some ((w.cells.toList.drop w.offset).take (Shape.size t.dims)) := by
  have hc : t.count = Shape.size t.dims := Shape.count_eq_size hw.countable
  simp [elements?, h, hc, hw.inside]

theorem elements?_eq {t : ValueType} {w : Window} (h : t.window = some w)
    (hw : w.Covers t.base t.dims) :
    t.elements? = some ((w.cells.toList.drop w.offset).take (Shape.size t.dims)) :=
  elements?_of_spans h hw.spans

theorem table?_eq {t : ValueType} {w : Window} (h : t.window = some w)
    (hw : w.Covers t.base t.dims) :
    t.table? = some ⟨t.dims, (w.cells.toList.drop w.offset).take (Shape.size t.dims)⟩ := by
  rw [table?, elements?_eq h hw, Option.map_some]

/-- A proper type shows a table if and only if it is constant. -/
theorem Proper.table?_isSome {t : ValueType} (h : t.Proper) : t.table?.isSome = t.isConst := by
  rw [h.isConst_eq]
  cases hw : t.window with
  | none => rw [table?_eq_none hw]; rfl
  | some w => rw [table?_eq hw (h.covers w hw)]; rfl

/-- The value of a type is the value of its table. -/
theorem value?_eq (t : ValueType) : t.value? = t.table?.bind Table.value? := by
  unfold value? table? Table.value? isArray
  cases t.elements? with
  | none => simp
  | some cells => by_cases hd : t.dims = [] <;> simp [hd]

/-- Only a type without dimensions has a value. -/
theorem dims_eq_nil_of_value? {t : ValueType} {v : Scalar} (h : t.value? = some v) :
    t.dims = [] := by
  by_contra hdims
  simp [value?, isArray, hdims] at h

/-- The value of a proper type has its base type. -/
theorem Proper.base_value {t : ValueType} (h : t.Proper) {v : Scalar} (hv : t.value? = some v) :
    v.base = t.base := by
  rw [value?_eq] at hv
  cases hw : t.window with
  | none => simp [table?_eq_none hw] at hv
  | some w =>
    have hc := h.covers w hw
    rw [table?_eq hw hc, Option.bind_some, Table.value?] at hv
    split at hv
    · have hmem := List.mem_of_mem_drop (List.mem_of_mem_take (List.mem_of_head? hv))
      exact hc.base_cells v (by simpa using hmem)
    · cases hv

/-- A proper constant without dimensions shows the table of its one value. -/
theorem Proper.table?_of_value? {t : ValueType} (h : t.Proper) {v : Scalar}
    (hv : t.value? = some v) : t.table? = some (.scalar v) := by
  rw [value?_eq] at hv
  cases hw : t.window with
  | none => simp [table?_eq_none hw] at hv
  | some w =>
    have hc := h.covers w hw
    rw [table?_eq hw hc] at hv ⊢
    simp only [Option.bind_some, Table.value?] at hv
    split at hv
    · rename_i hd
      simp only [hd, Shape.size_nil] at hv ⊢
      cases hl : w.cells.toList.drop w.offset with
      | nil => simp [hl] at hv
      | cons u us =>
        simp only [hl, List.take_succ_cons, List.take_zero, List.head?_cons,
          Option.some.injEq] at hv
        simp [hv, Table.scalar]
    · cases hv

theorem proper_scalar (b : Base) : (scalar b).Proper :=
  ⟨rfl, nofun⟩

theorem proper_place (b : Base) (dims : List Int) : (place b dims).Proper :=
  ⟨rfl, nofun⟩

theorem proper_element (t : ValueType) : t.element.Proper :=
  ⟨rfl, nofun⟩

theorem proper_constant (v : Scalar) : (constant v).Proper where
  isConst_eq := rfl
  covers := by
    intro w hw
    cases hw
    exact ⟨nofun, show 1 ≤ Shape.maxCount by decide, Nat.le_refl 1, by simp [constant]⟩

/-! ### Rows -/

/-- Row `i` of a window that covers a shape covers the shape of the rows. -/
theorem Covers.row {t : ValueType} {w : Window} {d : Int} {dims : List Int}
    (h : w.Covers t.base (d :: dims)) {i : Int} (hi : 0 ≤ i ∧ i < d) :
    Window.Covers { w with offset := w.offset + i.toNat * Shape.size dims } t.base dims := by
  obtain ⟨hpos, hcount, hinside⟩ := h.spans.row hi
  exact ⟨hpos, hcount, hinside, h.base_cells⟩

/-- An array of positive outer extent accepts exactly the indices below it. -/
theorem accepts_cons {d : Int} (hd : 0 < d) (dims : List Int) (i : Int) :
    Shape.accepts (d :: dims) i = true ↔ 0 ≤ i ∧ i < d := by
  simp [Shape.accepts, Int.not_lt.mpr (Int.le_of_lt hd)]

/-- An index in range moves the window on by whole rows. -/
theorem at?_of_spans {t : ValueType} {w : Window} {d : Int} {dims : List Int}
    (h : t.window = some w) (hd : t.dims = d :: dims) (hw : w.Spans t.dims) (i : Int) :
    t.at? i =
      if 0 ≤ i ∧ i < d then
        some { t with
          dims
          window := some { w with offset := w.offset + i.toNat * Shape.size dims } }
      else none := by
  rw [hd] at hw
  have hs : t.stride = Shape.size dims := by
    rw [stride, Shape.stride, hd]
    exact Shape.count_eq_size (Nat.le_trans (Shape.size_drop_le hw.extents_pos) hw.countable)
  simp only [at?, h, hd, accepts_cons (hw.extents_pos d (by simp)), hs, List.drop_one,
    List.tail_cons]

theorem at?_eq {t : ValueType} {w : Window} {d : Int} {dims : List Int} (h : t.window = some w)
    (hd : t.dims = d :: dims) (hw : w.Covers t.base t.dims) (i : Int) :
    t.at? i =
      if 0 ≤ i ∧ i < d then
        some { t with
          dims
          window := some { w with offset := w.offset + i.toNat * Shape.size dims } }
      else none :=
  at?_of_spans h hd hw.spans i

/-- Of a proper type, a row of the window shows a row of the table. -/
theorem Proper.at?_eq_some {t u : ValueType} (ht : t.Proper) {i : Int} (h : t.at? i = some u) :
    u.Proper ∧ u.isConst = true ∧ u.isPlace = t.isPlace ∧ u.base = t.base ∧
      u.dims = t.dims.drop 1 := by
  cases hw : t.window with
  | none => simp [at?, hw] at h
  | some w =>
    have hc := ht.covers w hw
    cases hd : t.dims with
    | nil => simp [at?, hw, hd, Shape.accepts] at h
    | cons d dims =>
      rw [at?_eq hw hd hc] at h
      split at h
      · rename_i hi
        obtain rfl := Option.some.inj h
        rw [hd] at hc
        refine ⟨⟨?_, ?_⟩, ?_, rfl, rfl, rfl⟩
        · simp [ht.isConst_eq, hw]
        · intro w' hw'
          obtain rfl := Option.some.inj hw'
          exact Covers.row hc hi
        · simp [ht.isConst_eq, hw]
      · cases h

theorem Proper.table?_at? {t : ValueType} (ht : t.Proper) (i : Int) :
    (t.at? i).bind table? = t.table?.bind fun s => s.row? i := by
  cases hw : t.window with
  | none => simp [at?, hw]
  | some w =>
    have hc := ht.covers w hw
    cases hd : t.dims with
    | nil => simp [at?, hw, hd, Shape.accepts, table?_eq hw hc, Table.row?]
    | cons d dims =>
      rw [at?_eq hw hd hc, table?_eq hw hc, Option.bind_some]
      simp only [hd, Table.row?]
      by_cases hi : 0 ≤ i ∧ i < d
      · rw [hd] at hc
        rw [if_pos hi, if_pos hi, Option.bind_some, table?_eq rfl (Covers.row hc hi)]
        -- The row lies inside the window, so cutting the window first loses nothing of it.
        have hrow := Shape.row_le hi dims
        have hmin : min (Shape.size dims) (Shape.size (d :: dims) - i.toNat * Shape.size dims) =
            Shape.size dims := Nat.min_eq_left (by omega)
        simp only [List.drop_take, List.take_take, List.drop_drop, hmin]
      · rw [if_neg hi, if_neg hi, Option.bind_none]

end ValueType

end SysYFront
