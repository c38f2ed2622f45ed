import SysYFront.Decl.Check
import SysYFront.Function.Check
import SysYFront.Proofs.Agreement.Layout
import SysYFront.Proofs.Window

/-!
# SysYFront.Proofs.Invariant.WellFormed

The representation invariant of types, and that every way in which the checker makes a type
keeps it: literals, results of operators and calls, variables, parameters with an open
outermost extent, constants with their table, rows of constants and elements at unknown
indices.

Two kinds of types are well-formed. A *small* shape has positive extents only and its object
can be addressed; any type may have one. An open shape has one more extent in front, which
counts for no storage; only a parameter has one, so it is never constant.
-/

namespace SysYFront

/-! ### Shapes -/

namespace Shape

/-- A shape of positive extents whose object can be addressed. -/
structure Small (dims : List Int) : Prop where
  pos : ∀ d ∈ dims, 0 < d
  addressable : elementSize * size dims ≤ maxObjectSize

theorem small_nil : Small [] :=
  ⟨nofun, by decide⟩

theorem small_of_count? {dims : List Int} (hpos : ∀ d ∈ dims, 0 < d) {n : Nat}
    (h : count? dims = some n) : Small dims ∧ n = size dims := by
  rw [count?_eq hpos] at h
  split at h
  · rename_i hsize
    rw [Nat.mul_comm] at hsize
    exact ⟨⟨hpos, hsize⟩, (Option.some.inj h).symm⟩
  · cases h

variable {dims : List Int}

theorem Small.drop (h : Small dims) : Small (dims.drop 1) where
  pos d hd := h.pos d (List.mem_of_mem_drop hd)
  addressable := Nat.le_trans (Nat.mul_le_mul_left _ (size_drop_le h.pos)) h.addressable

theorem Small.countable (h : Small dims) : size dims ≤ maxCount := by
  have haddressable := h.addressable
  rw [Nat.mul_comm] at haddressable
  exact size_le_maxCount haddressable

theorem Small.count_eq (h : Small dims) : count dims = size dims :=
  count_eq_size h.countable

/-- Leaving out an open extent changes nothing where there is none. -/
theorem filter_eq_of_pos (h : ∀ d ∈ dims, 0 < d) : dims.filter (· ≠ openExtent) = dims := by
  refine List.filter_eq_self.mpr fun d hd => ?_
  have hpos := h d hd
  have hne : d ≠ openExtent := by
    simp only [openExtent]
    omega
  simpa using hne

end Shape

/-! ### The invariant -/

namespace ValueType

open Shape (Small size elementSize maxObjectSize openExtent)

/-- The representation invariant of a type. -/
structure WellFormed (t : ValueType) : Prop where
  /-- Extents are positive, apart from an open outermost one of a type without values. -/
  extents : ∀ i d, t.dims[i]? = some d →
    0 < d ∨ i = 0 ∧ d = openExtent ∧ t.isConst = false ∧ t.window = none
  /-- The object can be addressed, where an open extent counts for nothing. -/
  addressable : elementSize * size (t.dims.filter (· ≠ openExtent)) ≤ maxObjectSize
  stride_eq : t.stride = size (t.dims.drop 1)
  /-- Exactly constants have a window. -/
  window_isSome : t.window.isSome = t.isConst
  /-- The window lies inside its table. -/
  inside : ∀ w, t.window = some w → w.offset + t.count ≤ w.cells.size
  table_addressable : ∀ w, t.window = some w → elementSize * w.cells.size ≤ maxObjectSize
  /-- The window is one of the parts into which its size cuts the table. -/
  aligned : ∀ w, t.window = some w → t.count ∣ w.offset
  tags : ∀ w, t.window = some w → ∀ v ∈ w.cells, v.base = t.base

variable {t : ValueType}

/-- A well-formed type has a small shape, or an open one and no values. -/
theorem WellFormed.shape (h : t.WellFormed) :
    Small t.dims ∨ ∃ dims, t.dims = openExtent :: dims ∧ Small dims ∧ t.isConst = false ∧
      t.window = none := by
  by_cases hall : ∀ d ∈ t.dims, 0 < d
  · refine .inl ⟨hall, ?_⟩
    have haddressable := h.addressable
    rwa [Shape.filter_eq_of_pos hall] at haddressable
  · right
    -- only the outermost extent may fail to be positive
    cases hdims : t.dims with
    | nil => exact absurd (by simp [hdims]) hall
    | cons d dims =>
      have hothers : ∀ e ∈ dims, 0 < e := by
        intro e he
        obtain ⟨i, hi⟩ := List.mem_iff_getElem?.mp he
        rcases h.extents (i + 1) e (by simp [hdims, hi]) with hpos | ⟨hzero, -⟩
        · exact hpos
        · cases hzero
      rcases h.extents 0 d (by simp [hdims]) with hpos | ⟨-, rfl, hconst, hwindow⟩
      · refine absurd (fun e he => ?_) hall
        rw [hdims] at he
        rcases List.mem_cons.mp he with rfl | he
        · exact hpos
        · exact hothers e he
      · refine ⟨dims, rfl, ⟨hothers, ?_⟩, hconst, hwindow⟩
        have haddressable := h.addressable
        rwa [hdims, List.filter_cons_of_neg (by simp), Shape.filter_eq_of_pos hothers]
          at haddressable

/-- A type of small shape is well-formed if its window is. -/
theorem wellFormed_of_small (hdims : Small t.dims) (hwindow : t.window.isSome = t.isConst)
    (hcovers : ∀ w, t.window = some w → w.offset + size t.dims ≤ w.cells.size ∧
      elementSize * w.cells.size ≤ maxObjectSize ∧ size t.dims ∣ w.offset ∧
      ∀ v ∈ w.cells, v.base = t.base) : t.WellFormed where
  extents _ _ hi := .inl (hdims.pos _ (List.mem_of_getElem? hi))
  addressable := by
    rw [Shape.filter_eq_of_pos hdims.pos]
    exact hdims.addressable
  stride_eq := hdims.drop.count_eq
  window_isSome := hwindow
  inside w hw := by
    rw [count, hdims.count_eq]
    exact (hcovers w hw).1
  table_addressable w hw := (hcovers w hw).2.1
  aligned w hw := by
    rw [count, hdims.count_eq]
    exact (hcovers w hw).2.2.1
  tags w hw := (hcovers w hw).2.2.2

theorem WellFormed.small_of_window (h : t.WellFormed) {w : Window} (hw : t.window = some w) :
    Small t.dims := by
  rcases h.shape with hsmall | ⟨_, _, _, _, hnone⟩
  · exact hsmall
  · rw [hnone] at hw
    cases hw

theorem WellFormed.covers (h : t.WellFormed) {w : Window} (hw : t.window = some w) :
    w.Covers t.base t.dims := by
  have hsmall := h.small_of_window hw
  have hinside := h.inside w hw
  rw [count, hsmall.count_eq] at hinside
  exact ⟨hsmall.pos, hsmall.countable, hinside, h.tags w hw⟩

/-! ### What the invariant gives -/

/-- The elements of a constant are always known. -/
theorem WellFormed.elements?_isSome (h : t.WellFormed) (hconst : t.isConst = true) :
    t.elements?.isSome = true := by
  have hwindow := h.window_isSome
  rw [hconst] at hwindow
  obtain ⟨w, hw⟩ := Option.isSome_iff_exists.mp hwindow
  rw [elements?_eq hw (h.covers hw)]
  rfl

/-- The value of a constant scalar is always known. -/
theorem WellFormed.value?_isSome (h : t.WellFormed) (hconst : t.isConst = true)
    (hdims : t.dims = []) : t.value?.isSome = true := by
  have hwindow := h.window_isSome
  rw [hconst] at hwindow
  obtain ⟨w, hw⟩ := Option.isSome_iff_exists.mp hwindow
  have hcovers := h.covers hw
  have hinside := hcovers.inside
  have helements := elements?_eq hw hcovers
  rw [hdims, Shape.size_nil] at hinside helements
  rw [value?, isArray, hdims, helements]
  simp only [List.isEmpty_nil, Bool.not_true, Bool.false_eq_true, if_false, Option.bind_some]
  rw [List.head?_take, if_neg Nat.one_ne_zero, List.head?_drop, List.getElem?_eq_getElem
    (by rw [Array.length_toList]; omega)]
  rfl

/-! ### Ways to make a type -/

theorem wellFormed_scalar (base : Base) : (scalar base).WellFormed :=
  wellFormed_of_small Shape.small_nil rfl nofun

theorem wellFormed_constant (v : Scalar) : (constant v).WellFormed := by
  refine wellFormed_of_small Shape.small_nil rfl fun w hw => ?_
  obtain rfl := Option.some.inj hw
  have hsize : elementSize * 1 ≤ maxObjectSize := by decide
  exact ⟨Nat.le_refl 1, hsize, Nat.dvd_zero _, by simp [constant]⟩

theorem wellFormed_place (base : Base) {dims : List Int} (h : Small dims) :
    (place base dims).WellFormed :=
  wellFormed_of_small h rfl nofun

/-- A parameter may leave its outermost extent open. -/
theorem wellFormed_place_open (base : Base) {dims : List Int} (h : Small dims) :
    (place base (openExtent :: dims)).WellFormed where
  extents i d hi := by
    cases i with
    | zero =>
      obtain rfl := Option.some.inj hi
      exact .inr ⟨rfl, rfl, rfl, rfl⟩
    | succ i =>
      rw [place, List.getElem?_cons_succ] at hi
      exact .inl (h.pos _ (List.mem_of_getElem? hi))
  addressable := by
    rw [place, List.filter_cons_of_neg (by simp), Shape.filter_eq_of_pos h.pos]
    exact h.addressable
  stride_eq := h.count_eq
  window_isSome := rfl
  inside := nofun
  table_addressable := nofun
  aligned := nofun
  tags := nofun

/-- Behind the outermost extent every shape is small. -/
theorem WellFormed.small_drop (h : t.WellFormed) : Small (t.dims.drop 1) := by
  rcases h.shape with hsmall | ⟨dims, hdims, hsmall, -⟩
  · exact hsmall.drop
  · rw [hdims]
    exact hsmall

theorem WellFormed.element (h : t.WellFormed) : t.element.WellFormed :=
  wellFormed_of_small h.small_drop rfl nofun

/-- A row of a constant is one of the parts into which its size cuts the table. -/
theorem WellFormed.at? (h : t.WellFormed) {i : Int} {u : ValueType} (hu : t.at? i = some u) :
    u.WellFormed := by
  cases hw : t.window with
  | none => simp [ValueType.at?, hw] at hu
  | some w =>
    have hcovers := h.covers hw
    have hsmall := h.small_of_window hw
    have haligned := h.aligned w hw
    rw [count, hsmall.count_eq] at haligned
    cases hdims : t.dims with
    | nil => simp [ValueType.at?, hw, hdims, Shape.accepts] at hu
    | cons d dims =>
      rw [at?_eq hw hdims hcovers] at hu
      split at hu
      · rename_i hi
        obtain rfl := Option.some.inj hu
        rw [hdims] at hcovers hsmall haligned
        refine wellFormed_of_small hsmall.drop ?_ fun w' hw' => ?_
        · have hwindow := h.window_isSome
          rw [hw] at hwindow
          exact hwindow
        · obtain rfl := Option.some.inj hw'
          refine ⟨(Covers.row hcovers hi).inside, h.table_addressable w hw, ?_, h.tags w hw⟩
          have hrows : size dims ∣ w.offset := Nat.dvd_trans ⟨d.toNat, Nat.mul_comm _ _⟩ haligned
          exact Nat.dvd_add hrows ⟨i.toNat, Nat.mul_comm _ _⟩
      · cases hu

end ValueType

/-! ### Tables of constants -/

namespace Placed

variable {base : Base}

/-- Storing leaves keeps the number of cells and their base type. -/
theorem foldl_cells (hbase : base ≠ .void) (leaves : List Placed) (cells : Array Scalar)
    (hcells : ∀ v ∈ cells, v.base = base) :
    let stored := leaves.foldl
      (fun cells p =>
        match p.leaf.value? with
        | some v => cells.setIfInBounds p.slot (v.convert base)
        | none => cells) cells
    stored.size = cells.size ∧ ∀ v ∈ stored, v.base = base := by
  induction leaves generalizing cells with
  | nil => exact ⟨rfl, hcells⟩
  | cons p leaves ih =>
    simp only [List.foldl_cons]
    cases p.leaf.value? with
    | none => exact ih cells hcells
    | some v =>
      have hstored := ih (cells.setIfInBounds p.slot (v.convert base)) fun u hu => by
        rcases Array.mem_or_eq_of_mem_setIfInBounds hu with hu | rfl
        · exact hcells u hu
        · exact Scalar.base_convert v base hbase
      rw [Array.size_setIfInBounds] at hstored
      exact hstored

theorem cells_spec (hbase : base ≠ .void) (count : Nat) (leaves : List Placed) :
    (cells base count leaves).size = count ∧ ∀ v ∈ cells base count leaves, v.base = base := by
  have hzero : (Scalar.zero base).base = base := by
    cases base with
    | int => rfl
    | float => rfl
    | void => exact absurd rfl hbase
  have hcells := foldl_cells hbase leaves (Array.replicate count (.zero base)) fun v hv => by
    rw [Array.eq_of_mem_replicate hv]
    exact hzero
  rw [Array.size_replicate] at hcells
  exact hcells

end Placed

/-- The type of a declared variable is well-formed, whatever its initializer holds. -/
theorem Decl.wellFormed_resolvedType (isConst : Bool) {base : Base} (hbase : base ≠ .void)
    {dims : List Int} (hdims : Shape.Small dims) (leaves : List Placed) :
    (Decl.resolvedType isConst base dims (Shape.size dims) leaves).WellFormed := by
  cases isConst with
  | false => exact ValueType.wellFormed_place base hdims
  | true =>
    obtain ⟨hsize, htags⟩ := Placed.cells_spec hbase (Shape.size dims) leaves
    refine ValueType.wellFormed_of_small hdims rfl fun w hw => ?_
    obtain rfl := Option.some.inj hw
    refine ⟨by simp [Decl.resolvedType, hsize], ?_, Nat.dvd_zero _, htags⟩
    rw [hsize]
    exact hdims.addressable

end SysYFront
