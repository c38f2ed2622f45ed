import SysYFront.Proofs.Agreement.Layout

/-!
# SysYFront.Proofs.Layout.Table

The table of a constant, element by element: one that no leaf goes to is zero, and one that exactly
one leaf goes to holds the value of the leaf.
-/

namespace SysYFront

namespace Placed

variable {base : Base} {p : Placed} {leaves : List Placed} {stored : List Scalar}

theorem store_cons_of_some {v : Scalar} (hv : p.leaf.value? = some v) :
    store base stored (p :: leaves) = store base (stored.set p.slot (v.convert base)) leaves := by
  rw [store, List.foldl_cons, hv, store]

theorem store_cons_of_none (hv : p.leaf.value? = none) :
    store base stored (p :: leaves) = store base stored leaves := by
  rw [store, List.foldl_cons, hv, store]

theorem length_store : (store base stored leaves).length = stored.length := by
  induction leaves generalizing stored with
  | nil => rfl
  | cons p leaves ih =>
    cases hv : p.leaf.value? with
    | none => rw [store_cons_of_none hv, ih]
    | some v => rw [store_cons_of_some hv, ih, List.length_set]

/-- An element that no leaf goes to stays as it is. -/
theorem store_of_forall_ne {i : Nat} (h : ∀ p ∈ leaves, p.slot ≠ i) :
    (store base stored leaves)[i]? = stored[i]? := by
  induction leaves generalizing stored with
  | nil => rfl
  | cons p leaves ih =>
    obtain ⟨hp, hothers⟩ := List.forall_mem_cons.mp h
    cases hv : p.leaf.value? with
    | none => rw [store_cons_of_none hv, ih hothers]
    | some v => rw [store_cons_of_some hv, ih hothers, List.getElem?_set_ne hp]

/-- An element holds the value of its leaf, if no other leaf goes to it. -/
theorem store_of_mem {v : Scalar} (hapart : leaves.Pairwise fun p q => p.slot < q.slot)
    (hp : p ∈ leaves) (hv : p.leaf.value? = some v) (hslot : p.slot < stored.length) :
    (store base stored leaves)[p.slot]? = some (v.convert base) := by
  induction leaves generalizing stored with
  | nil => cases hp
  | cons q leaves ih =>
    obtain ⟨hq, hothers⟩ := List.pairwise_cons.mp hapart
    rcases List.mem_cons.mp hp with rfl | hp
    · -- The later leaves leave the element alone.
      have hlater : ∀ r ∈ leaves, r.slot ≠ p.slot := fun r hr => Nat.ne_of_gt (hq r hr)
      rw [store_cons_of_some hv, store_of_forall_ne hlater, List.getElem?_set_self hslot]
    · cases hvalue : q.leaf.value? with
      | none =>
        rw [store_cons_of_none hvalue]
        exact ih hothers hp hslot
      | some u =>
        rw [store_cons_of_some hvalue]
        exact ih hothers hp (by rwa [List.length_set])

theorem size_cells {count : Nat} : (cells base count leaves).size = count := by
  rw [← Array.length_toList, toList_cells, length_store, List.length_replicate]

theorem getElem?_cells (count i : Nat) :
    (cells base count leaves)[i]? =
      (store base (List.replicate count (.zero base)) leaves)[i]? := by
  rw [← toList_cells, Array.getElem?_toList]

end Placed

end SysYFront
