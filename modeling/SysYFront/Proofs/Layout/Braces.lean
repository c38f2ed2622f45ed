import SysYFront.Proofs.Invariant.Typed
import SysYFront.Proofs.Layout.Seats
import SysYFront.Proofs.Layout.Table
import SysYFront.Proofs.Session.Restore

/-!
# SysYFront.Proofs.Layout.Braces

**Initializers in braces lose and overwrite nothing.** The walk over a list in braces counts single
elements, moves on to boundaries of inner arrays, and starts again at zero inside them. Every list
that it accepts is seated (`Init.layItems_seated`): with each item comes its place, and the items
sit behind one another.

So the table of a constant array is what the list says. It has an element for every slot, each
leaf has its own, later leaves later ones, and all others are zero (`Decl.check_braces`).
-/

namespace SysYFront

open Shape (size)

variable {α : Type} {c c' : Checker}

/-! ### The walk -/

/-- The next boundary is less than one step away. -/
theorem roundUp_lt_add (n : Nat) {step : Nat} (hstep : 0 < step) : roundUp n step < n + step := by
  have hmul : roundUp n step ≤ n + step - 1 := Nat.div_mul_le_self _ _
  omega

namespace Init

open Seats (Seated)

/-- What the walk over items, for an array of shape `dims` with elements from `start` on, finds
behind the first `used` elements: seats for all of them, whose leaves are checked. -/
structure SeatedAs (c : Checker) (rule : InitRule) (dims : List Int) (start used : Nat)
    (items : List (Init α)) (items' : List (Init ValueType)) (leaves : List Placed)
    (seats : Seats α) : Prop where
  sources : seats.sources = items
  checked : seats.checked = items'
  placed : seats.leaves.map SeatedLeaf.placed = leaves
  leaf : ∀ p ∈ seats.leaves, checkLeaf c rule p.source = .ok p.checked
  seated : Seated dims (start + used) (start + size dims) seats

/-- Whatever the walk accepts is seated. -/
theorem layItems_seated (c : Checker) (rule : InitRule) : ∀ {dims : List Int} {start used : Nat}
    (items : List (Init α)) {items' : List (Init ValueType)} {leaves : List Placed},
    dims ≠ [] → (∀ d ∈ dims, 0 < d) → size dims ≤ Shape.maxCount → size dims ∣ start →
    layItems c rule dims start used items = .ok (items', leaves) →
    ∃ seats, SeatedAs c rule dims start used items items' leaves seats
  | dims, start, used, [], items', leaves, _, _, _, _, h => by
    rw [layItems, pure_eq_ok] at h
    cases h
    exact ⟨.nil, rfl, rfl, rfl, nofun, .nil⟩
  | dims, start, used, .expr e :: items, items', leaves, hdims, hpos, hsize, haligned, h => by
    have hcount : Shape.count dims = size dims := Shape.count_eq_size hsize
    simp only [layItems, layItem, hcount, bind_eq_ok, guard_eq_ok, pure_eq_ok, Prod.exists] at h
    obtain ⟨_, _, _, ⟨hroom, e', he, ⟨⟩⟩, rest', others, hrest, ⟨⟩⟩ := h
    obtain ⟨rest, hseats⟩ := layItems_seated c rule items hdims hpos hsize haligned hrest
    have hslot : start + used < start + size dims := Nat.add_lt_add_left (Nat.not_le.mp hroom) start
    have hleaf : Seated dims (start + used) (start + size dims)
        (.leaf ⟨start + used, e, e'⟩ rest) :=
      .leaf (p := ⟨start + used, e, e'⟩) hslot hseats.seated
    refine ⟨.leaf ⟨start + used, e, e'⟩ rest, ?_, ?_, ?_,
      List.forall_mem_cons.mpr ⟨he, hseats.leaf⟩, hleaf⟩
    · rw [Seats.sources, hseats.sources]
    · rw [Seats.checked, hseats.checked]
    · rw [Seats.leaves, List.map_cons, hseats.placed]
      rfl
  | dims, start, used, .list inner l :: items, items', leaves, hdims, hpos, hsize, haligned,
      h => by
    have hdrop : ∀ d ∈ dims.drop 1, 0 < d := fun d hd => hpos d (List.mem_of_mem_drop hd)
    have hsize' : size (dims.drop 1) ≤ Shape.maxCount :=
      Nat.le_trans (Shape.size_drop_le hpos) hsize
    have hcount : Shape.count dims = size dims := Shape.count_eq_size hsize
    have hstride : Shape.stride dims = size (dims.drop 1) := Shape.count_eq_size hsize'
    simp only [layItems, layItem, hcount, hstride, bind_eq_ok, guard_eq_ok, pure_eq_ok,
      Prod.exists] at h
    obtain ⟨_, _, _, ⟨hrank, hbelow, inner', here, hinner, ⟨⟩⟩, rest', others, hrest, ⟨⟩⟩ := h
    have hstep : 0 < size (dims.drop 1) := Shape.size_pos hdrop
    have hrank' : 1 < dims.length := by
      have := List.length_pos_iff.mpr hdims
      omega
    have hinner' : dims.drop 1 ≠ [] := by
      rw [← List.length_pos_iff, List.length_drop]
      omega
    -- The boundary is one of the inner arrays of the whole table too.
    have hboundary : size (dims.drop 1) ∣ start + roundUp used (size (dims.drop 1)) :=
      Nat.dvd_add (Nat.dvd_trans (Shape.size_drop_dvd dims) haligned) (Nat.dvd_mul_left _ _)
    obtain ⟨first, hfirst⟩ := layItems_seated c rule inner hinner' hdrop hsize' hboundary hinner
    obtain ⟨rest, hseats⟩ := layItems_seated c rule items hdims hpos hsize haligned hrest
    have hnext := le_roundUp used hstep
    have hnear := roundUp_lt_add used hstep
    have hroom := roundUp_add_le (Shape.size_drop_dvd dims) (Nat.not_le.mp hbelow)
    have hlist : Seated dims (start + used) (start + size dims)
        (.list (start + roundUp used (size (dims.drop 1))) first l rest) := by
      refine .list hrank' hboundary (by omega) (by omega) (by omega) hfirst.seated ?_
      rw [Nat.add_assoc]
      exact hseats.seated
    refine ⟨.list (start + roundUp used (size (dims.drop 1))) first l rest, ?_, ?_, ?_,
      List.forall_mem_append.mpr ⟨hfirst.leaf, hseats.leaf⟩, hlist⟩
    · rw [Seats.sources, hfirst.sources, hseats.sources]
    · rw [Seats.checked, hfirst.checked, hseats.checked]
    · rw [Seats.leaves, List.map_append, hfirst.placed, hseats.placed]

end Init

/-! ### The table -/

/-- Whether `cells` is the table of a constant array of shape `dims` with the items of `seats` in
its braces. -/
structure Seats.Fill (seats : Seats α) (base : Base) (dims : List Int) (cells : Array Scalar) :
    Prop where
  size : cells.size = Shape.size dims
  /-- No value is `void`, and neither is a variable. -/
  tags : base ≠ .void → ∀ v ∈ cells, v.base = base
  increasing : seats.leaves.Pairwise fun p q => p.slot < q.slot
  stored : ∀ p ∈ seats.leaves, p.slot < Shape.size dims ∧
    ∃ v, p.checked.value? = some v ∧ cells[p.slot]? = some (v.convert base)
  zero : ∀ i < Shape.size dims, (∀ p ∈ seats.leaves, p.slot ≠ i) →
    cells[i]? = some (.zero base)
  queued : seats.Queued dims 0
  apart : ∀ depth before start inner behind, Nested dims seats depth before start inner behind →
    depth < dims.length ∧ start + Shape.size (dims.drop depth) ≤ Shape.size dims ∧
      Apart (dims.drop depth) before start inner behind

/-- Behind its check, a leaf of a constant has a value. -/
theorem Init.checkLeaf_constant {rule : InitRule} {e : Expr α} {e' : Expr ValueType}
    (h : checkLeaf c rule e = .ok e') (hrule : rule.constant = true) :
    e.check c = .ok e' ∧ ∃ v, e'.value? = some v := by
  simp only [checkLeaf, bind_eq_ok, guard_eq_ok, pure_eq_ok] at h
  obtain ⟨_, he, _, -, hknown, rfl⟩ := h
  refine ⟨he, Option.isSome_iff_exists.mp ?_⟩
  simpa [hrule, Option.isSome_iff_ne_none] using hknown

/-- The table that is made of the leaves of a seated list holds the list. -/
theorem Seats.Seated.fill {seats : Seats α} {dims : List Int}
    (h : Seated dims 0 (Shape.size dims) seats)
    (hknown : ∀ p ∈ seats.leaves, ∃ v, p.checked.value? = some v) (base : Base) :
    seats.Fill base dims
      (Placed.cells base (Shape.size dims) (seats.leaves.map SeatedLeaf.placed)) where
  size := Placed.size_cells
  tags hbase := (Placed.cells_spec hbase _ _).2
  increasing := h.increasing
  stored p hp := by
    obtain ⟨-, hslot⟩ := h.leaves_within p hp
    obtain ⟨v, hv⟩ := hknown p hp
    have hapart : (seats.leaves.map SeatedLeaf.placed).Pairwise fun p q => p.slot < q.slot :=
      List.pairwise_map.mpr h.increasing
    refine ⟨hslot, v, hv, ?_⟩
    rw [Placed.getElem?_cells]
    exact Placed.store_of_mem hapart (List.mem_map_of_mem hp) hv
      (by rwa [List.length_replicate])
  zero i hi hnone := by
    rw [Placed.getElem?_cells, Placed.store_of_forall_ne (List.forall_mem_map.mpr hnone),
      List.getElem?_replicate, if_pos hi]
  queued := h.queued
  apart _ _ _ _ _ hnested := by
    obtain ⟨hdepth, -, hstop, hapart⟩ := h.apart hnested
    exact ⟨hdepth, hstop, hapart⟩

/-- **Initializers in braces lose and overwrite nothing.** If the declaration of a constant with a
list in braces passes, whatever the list and the extents, then the extents are positive and the
object can be addressed, and there are seats for the items of the list: what the items were
before their check and are behind it, leaf by leaf, each with its place, such that the table of
the constant is what they say. -/
theorem Decl.check_braces {d : Decl α} {d' : Decl ValueType} {items : List (Init α)}
    {l : Location} (h : d.check c = .ok d' c') (hconst : d.isConst = true)
    (hinit : d.init = some (.list items l)) :
    ∃ dims cells, ∃ seats : Seats α,
      d'.note = ⟨true, true, d.base, dims, some ⟨cells, 0⟩⟩ ∧
      dims ≠ [] ∧ (∀ n ∈ dims, 0 < n) ∧ Shape.size dims * Shape.elementSize ≤ Shape.maxObjectSize ∧
      seats.sources = items ∧ d'.init = some (.list seats.checked l) ∧
      (∀ p ∈ seats.leaves, p.source.check c = .ok p.checked) ∧
      seats.Fill d.base dims cells := by
  obtain ⟨hresolve, -⟩ := Decl.check_eq_ok.mp h
  simp only [resolve, guard_eq_ok, bind_eq_ok, Prod.exists] at hresolve
  obtain ⟨-, dims', dims, hdims, hresolve⟩ := hresolve
  have hpos := (Expr.checkExtents_every hdims).2
  split at hresolve
  · cases hresolve
  · rename_i count hcount
    obtain ⟨hsmall, rfl⟩ := Shape.small_of_count? hpos hcount
    simp only [bind_eq_ok, pure_eq_ok, Prod.exists, hinit] at hresolve
    obtain ⟨init, leaves, hlayout, rfl⟩ := hresolve
    cases dims with
    | nil => cases hlayout
    | cons n dims =>
      simp only [Init.layOut, bind_eq_ok, pure_eq_ok, Prod.exists] at hlayout
      obtain ⟨items', leaves, hitems, ⟨⟩⟩ := hlayout
      have hdims : n :: dims ≠ [] := List.cons_ne_nil n dims
      obtain ⟨seats, hseats⟩ := Init.layItems_seated c _ items hdims hpos hsmall.countable
        (Nat.dvd_zero _) hitems
      have hleaf := fun p hp => Init.checkLeaf_constant (hseats.leaf p hp) (by simp [hconst])
      have hseated := hseats.seated
      simp only [Nat.zero_add] at hseated
      have hfill := hseated.fill (fun p hp => (hleaf p hp).2) d.base
      rw [hseats.placed] at hfill
      refine ⟨n :: dims, _, seats, ?_, hdims, hpos, ?_, hseats.sources, ?_,
        fun p hp => (hleaf p hp).1, hfill⟩
      · rw [Decl.resolvedType, if_pos hconst]
      · rw [Nat.mul_comm]
        exact hsmall.addressable
      · rw [hseats.checked]

/-- The declaration `const int m[3][2][2] = {1, {2}, {{3, 4}, {}}};`. -/
def raggedArray : Decl Unit :=
  let int (n : Int32) : Expr Unit := .literal (.int n) .nowhere ()
  { name := "m", isConst := true, base := .int, dims := [int 3, int 2, int 2]
    init := some (.list [.expr (int 1), .list [.expr (int 2)] .nowhere,
      .list [.list [.expr (int 3), .expr (int 4)] .nowhere, .list [] .nowhere] .nowhere] .nowhere)
    location := .nowhere, note := () }

/-- The ragged array passes: its lists move on to the next inner array, and what they leave out is
zero. -/
theorem raggedArray_check : ∃ d' c', raggedArray.check .fresh = .ok d' c' ∧
    d'.note.elements? = some ([1, 0, 0, 0, 2, 0, 0, 0, 3, 4, 0, 0].map Scalar.int) ∧
    ∃ dims cells, ∃ seats : Seats Unit,
      d'.note = ⟨true, true, .int, dims, some ⟨cells, 0⟩⟩ ∧
      raggedArray.init = some (.list seats.sources .nowhere) ∧ seats.Fill .int dims cells := by
  refine ⟨_, _, rfl, rfl, ?_⟩
  obtain ⟨dims, cells, seats, hnote, -, -, -, hsources, -, -, hfill⟩ :=
    Decl.check_braces (d := raggedArray) (c := .fresh) rfl rfl rfl
  exact ⟨dims, cells, seats, hnote, by rw [hsources]; rfl, hfill⟩

end SysYFront
