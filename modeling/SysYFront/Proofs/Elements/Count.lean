import Mathlib.Algebra.BigOperators.Group.List.Basic
import Mathlib.Algebra.Order.Ring.Int
import SysYFront.Proofs.Window

/-!
# SysYFront.Proofs.Elements.Count

The two counts of the elements of a shape. The one that stops is taken for shapes that are known to
be small, and the one that fails decides which are. **The failing count is exact**
(`count?_exact`): it knows the true product of positive extents if and only if the object can be
addressed, however large the products on the way would become. Where it gives a number the other
count never stops, neither on the whole shape nor on a part of it.
-/

namespace SysYFront.Shape

variable {dims outer inner : List Int} {n : Nat}

theorem size_append (outer inner : List Int) : size (outer ++ inner) = size outer * size inner := by
  induction outer with
  | nil => rw [List.nil_append, size_nil, Nat.one_mul]
  | cons d outer ih => rw [List.cons_append, size_cons, size_cons, ih, Nat.mul_assoc]

/-- Of positive extents the size is the product of the integers. -/
theorem size_eq_prod (h : ∀ d ∈ dims, 0 < d) : (size dims : Int) = dims.prod := by
  induction dims with
  | nil => rfl
  | cons d dims ih =>
    obtain ⟨hd, hothers⟩ := List.forall_mem_cons.mp h
    rw [size_cons, Nat.cast_mul, Int.toNat_of_nonneg hd.le, ih hothers, List.prod_cons]

/-- The products that do not fail are the true ones, whatever the extents are. -/
theorem foldlM_eq_some {m : Nat}
    (h : dims.foldlM
      (fun n d => if n * d.toNat ≤ maxCount then some (n * d.toNat) else none) m = some n) :
    n = m * size dims := by
  induction dims generalizing m with
  | nil =>
    rw [size_nil, Nat.mul_one]
    exact (Option.some.inj h).symm
  | cons d dims ih =>
    rw [List.foldlM_cons] at h
    obtain ⟨product, hproduct, hrest⟩ := Option.bind_eq_some_iff.mp h
    split at hproduct
    · obtain rfl := Option.some.inj hproduct
      rw [ih hrest, size_cons, Nat.mul_assoc]
    · cases hproduct

/-- Where the failing count gives a number, it is the size of an object that can be addressed. -/
theorem size_of_count? (h : count? dims = some n) :
    size dims = n ∧ n * elementSize ≤ maxObjectSize := by
  unfold count? at h
  split at h
  · rename_i product hproduct
    split at h
    · rename_i hsmall
      obtain rfl := Option.some.inj h
      rw [← Nat.one_mul (size dims)]
      exact ⟨(foldlM_eq_some hproduct).symm, hsmall⟩
    · cases h
  · cases h

/-- The other count does not stop there. -/
theorem count_of_count? (h : count? dims = some n) : count dims = n := by
  obtain ⟨rfl, hsmall⟩ := size_of_count? h
  exact count_eq_size (size_le_maxCount hsmall)

/-- A part of a shape of positive extents has no more elements than the whole. -/
theorem size_le_of_append (h : ∀ d ∈ outer ++ inner, 0 < d) :
    size outer ≤ size (outer ++ inner) ∧ size inner ≤ size (outer ++ inner) := by
  obtain ⟨houter, hinner⟩ := List.forall_mem_append.mp h
  rw [size_append]
  exact ⟨Nat.le_mul_of_pos_right _ (size_pos hinner), Nat.le_mul_of_pos_left _ (size_pos houter)⟩

/-- The elements of an object are counted as the product of two counts, wherever its shape is cut:
neither of them stops, since neither is greater than the whole. -/
theorem count_append (h : ∀ d ∈ outer ++ inner, 0 < d) (hn : count? (outer ++ inner) = some n) :
    count (outer ++ inner) = count outer * count inner ∧ count outer ≤ n ∧ count inner ≤ n := by
  obtain ⟨rfl, hsmall⟩ := size_of_count? hn
  have hwhole : size (outer ++ inner) ≤ maxCount := size_le_maxCount hsmall
  obtain ⟨houter, hinner⟩ := size_le_of_append h
  rw [count_eq_size hwhole, count_eq_size (houter.trans hwhole),
    count_eq_size (hinner.trans hwhole)]
  exact ⟨size_append outer inner, houter, hinner⟩

/-- **The size check is exact.** Of positive extents the failing count gives a number if and only if
four times their product, taken in the integers, is a thirty-two bit number, and then it gives the
product. Whatever the extents are, where it gives a number the stopping count gives the same; and
if they are positive, then wherever they are cut in two the count of the whole is the product of
the counts of the parts, neither of which is greater. -/
theorem count?_exact (dims : List Int) :
    ((∀ d ∈ dims, 0 < d) → ∀ n : Nat, count? dims = some n ↔
      4 * dims.prod ≤ Int32.maxValue.toInt ∧ (n : Int) = dims.prod) ∧
    ∀ n : Nat, count? dims = some n → count dims = n ∧
      ((∀ d ∈ dims, 0 < d) → ∀ outer inner, dims = outer ++ inner →
        count dims = count outer * count inner ∧ count outer ≤ n ∧ count inner ≤ n) := by
  refine ⟨fun hpos n => ?_, fun n hn => ⟨count_of_count? hn, ?_⟩⟩
  · have hmax : Int32.maxValue.toInt = (maxObjectSize : Int) := rfl
    have haddressable : size dims * elementSize ≤ maxObjectSize ↔
        4 * dims.prod ≤ Int32.maxValue.toInt := by
      rw [hmax, ← size_eq_prod hpos, elementSize]
      omega
    rw [count?_eq hpos, ← haddressable, ← size_eq_prod hpos]
    split
    · rename_i hsmall
      rw [Option.some.injEq, Nat.cast_inj, eq_comm]
      exact (and_iff_right hsmall).symm
    · rename_i hlarge
      exact iff_of_false (Option.some_ne_none n).symm fun h => hlarge h.1
  · rintro hpos outer inner rfl
    exact count_append hpos hn

/-- An object that is just small enough, and one with longer rows that is not. -/
theorem longRows_count :
    (∀ d ∈ [65536, 8191], (0 : Int) < d) ∧ count? [65536, 8191] = some 536805376 ∧
      count [65536, 8191] = count [65536] * count [8191] ∧ count? [65536, 8192] = none := by
  have hpos : ∀ d ∈ [65536, 8191], (0 : Int) < d := by decide
  have hlarge : ∀ d ∈ [65536, 8192], (0 : Int) < d := by decide
  have hcount : count? [65536, 8191] = some 536805376 :=
    ((count?_exact [65536, 8191]).1 hpos _).mpr (by decide)
  refine ⟨hpos, hcount, ?_, Option.eq_none_iff_forall_ne_some.mpr fun n hn => ?_⟩
  · exact (((count?_exact [65536, 8191]).2 _ hcount).2 hpos [65536] [8191] rfl).1
  · exact absurd (((count?_exact [65536, 8192]).1 hlarge n).mp hn).1 (by decide)

end SysYFront.Shape
