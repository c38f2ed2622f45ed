import SysYFront.Proofs.Agreement.Expr

/-!
# SysYFront.Proofs.Agreement.Layout

The checker agrees with the rules on initializers. The checker gives every leaf the
number of its element and stores the values one after the other in cells that are zero;
the rules give the leaf of every element, in order, and need no numbers. What ties them
is that a run of leaves *fills* its stretch of the cells (`Placed.Fills`), a statement
that is put together from the stretches of its items.

An item is laid out only if it fits, so the elements that are taken up behind it are
never more than there are. With it comes that a list in braces takes up exactly the
elements of its inner array (`Init.length_spreadAll`).
-/

namespace SysYFront

variable {α : Type} {c : Checker} {Γ : Context} {Φ : Headings}

/-! ### Storing leaves -/

namespace Placed

/-- The cells with the values of leaves in their elements. -/
def store (base : Base) (cells : List Scalar) (leaves : List Placed) : List Scalar :=
  leaves.foldl
    (fun cells p =>
      match p.leaf.value? with
      | some v => cells.set p.slot (v.convert base)
      | none => cells)
    cells

theorem toList_cells (base : Base) (count : Nat) (leaves : List Placed) :
    (cells base count leaves).toList =
      store base (List.replicate count (.zero base)) leaves := by
  unfold cells store
  rw [← Array.toList_replicate]
  refine (List.foldl_hom Array.toList fun cells p => ?_).symm
  cases p.leaf.value? <;> simp

/-- Whether leaves, stored from element `start` on, put there what `spread` says. -/
def Fills (Γ : Context) (base : Base) (start : Nat) (leaves : List Placed)
    (spread : List (Option (Expr α))) : Prop :=
  ∀ before behind : List Scalar, before.length = start →
    store base (before ++ (List.replicate spread.length (.zero base) ++ behind)) leaves =
      before ++ (spread.map (Decl.leafValue Γ base) ++ behind)

/-- Elements that nothing goes to stay zero. -/
theorem fills_replicate (base : Base) (start n : Nat) :
    Fills (α := α) Γ base start [] (List.replicate n none) := by
  intro before behind _
  simp [store, Decl.leafValue]

theorem fills_leaf {e : Expr α} {e' : Expr ValueType} (h : e'.value? = e.scalar? Γ)
    (base : Base) (start : Nat) : Fills Γ base start [⟨start, e'⟩] [some e] := by
  intro before behind hbefore
  subst hbefore
  cases hv : e.scalar? Γ <;> simp [store, Decl.leafValue, h, hv]

theorem Fills.append {base : Base} {start next : Nat} {leaves leaves' : List Placed}
    {spread spread' : List (Option (Expr α))} (h : Fills Γ base start leaves spread)
    (h' : Fills Γ base next leaves' spread') (hnext : next = start + spread.length) :
    Fills Γ base start (leaves ++ leaves') (spread ++ spread') := by
  intro before behind hbefore
  subst hbefore
  have hstore (cells : List Scalar) : store base cells (leaves ++ leaves') =
      store base (store base cells leaves) leaves' := List.foldl_append
  have hfront := h before (List.replicate spread'.length (.zero base) ++ behind) rfl
  have hbehind := h' (before ++ spread.map (Decl.leafValue Γ base)) behind (by simp [hnext])
  rw [hstore, List.length_append, ← List.replicate_append_replicate, List.append_assoc, hfront,
    ← List.append_assoc, hbehind]
  simp

end Placed

/-! ### Taking up elements -/

theorem le_roundUp (n : Nat) {step : Nat} (hstep : 0 < step) : n ≤ roundUp n step := by
  have hdiv := Nat.div_add_mod (n + step - 1) step
  have hmod := Nat.mod_lt (n + step - 1) hstep
  rw [roundUp, Nat.mul_comm]
  omega

/-- Behind a boundary below `total` there is room for one more step. -/
theorem roundUp_add_le {n step total : Nat} (hdvd : step ∣ total) (h : roundUp n step < total) :
    roundUp n step + step ≤ total := by
  obtain ⟨k, rfl⟩ := hdvd
  rw [roundUp, Nat.mul_comm] at h ⊢
  rw [← Nat.mul_succ]
  exact Nat.mul_le_mul_left step (Nat.lt_of_mul_lt_mul_left h)

theorem Shape.size_drop_dvd (dims : List Int) : size (dims.drop 1) ∣ size dims := by
  cases dims with
  | nil => exact Nat.dvd_refl _
  | cons d dims => exact Nat.dvd_mul_left _ _

namespace Init

variable {known : Bool}

mutual

/-- A valid item takes up elements of the array only. -/
theorem length_spread_le : ∀ {dims : List Int} {used : Nat} (item : Init α),
    (∀ d ∈ dims, 0 < d) → ItemValid Γ Φ known dims used item →
      used + (spread dims used item).length ≤ Shape.size dims
  | dims, used, .expr e, _, h => h.1
  | dims, used, .list items _, hdims, h => by
    have hdrop : ∀ d ∈ dims.drop 1, 0 < d := fun d hd => hdims d (List.mem_of_mem_drop hd)
    have hitems := length_spreadAll items hdrop (Nat.zero_le _) h.2.2
    have hused := le_roundUp used (Shape.size_pos hdrop)
    have hroom := roundUp_add_le (Shape.size_drop_dvd dims) h.2.1
    rw [spread, List.length_append, List.length_replicate, hitems]
    omega

/-- Valid items take up the elements up to the end of the array. -/
theorem length_spreadAll : ∀ {dims : List Int} {used : Nat} (items : List (Init α)),
    (∀ d ∈ dims, 0 < d) → used ≤ Shape.size dims → ItemsValid Γ Φ known dims used items →
      (spreadAll dims used items).length = Shape.size dims - used
  | dims, used, [], _, _, _ => by simp [spreadAll]
  | dims, used, item :: items, hdims, hused, h => by
    have hitem := length_spread_le item hdims h.1
    have hitems := length_spreadAll items hdims hitem h.2
    rw [spreadAll, List.length_append, hitems]
    omega

end

/-! ### Laying out -/

/-- What laying out makes of an item that follows `used` elements of the array of shape
`dims` whose first element is `start`. -/
structure LaidAs (Γ : Context) (Φ : Headings) (dims : List Int) (start used : Nat)
    (item : Init α) (r : Init ValueType × List Placed × Nat) : Prop where
  tree : r.1.map ValueType.typing = (item.annotate Γ Φ).fold Γ
  fills : ∀ base, Placed.Fills Γ base (start + used) r.2.1 (spread dims used item)
  used : r.2.2 = used + (spread dims used item).length

/-- What laying out makes of the items up to the end of the array. -/
structure AllLaidAs (Γ : Context) (Φ : Headings) (dims : List Int) (start used : Nat)
    (items : List (Init α)) (r : List (Init ValueType) × List Placed) : Prop where
  tree : mapAll ValueType.typing r.1 = foldAll Γ (annotateAll Γ Φ items)
  fills : ∀ base, Placed.Fills Γ base (start + used) r.2 (spreadAll dims used items)

theorem checkLeaf_decides (hc : c.Agrees Γ Φ) (rule : InitRule) (e : Expr α) :
    Decides (e.LeafValid Γ Φ rule.constant) (e.CheckedAs Γ Φ) (checkLeaf c rule e) := by
  have hknown {e' : Expr ValueType} (he : e.CheckedAs Γ Φ e') :
      ¬ (rule.constant ∧ e'.value?.isNone) ↔
        (rule.constant = true → (e.scalar? Γ).isSome) := by
    rw [he.value?]
    cases e.scalar? Γ <;> simp
  refine Decides.congr (V := _ ∧ _ ∧ _) ((e.check_decides hc).bind fun _ e' he =>
    (Expr.requireScalar_decides he _).bind fun _ _ _ =>
      Decides.congr (Decides.guard fun _ => Decides.pure he)
        ((and_iff_left trivial).trans (hknown he))) ?_
  simp [Expr.LeafValid, and_assoc]

mutual

/-- Laying out an item succeeds if and only if it fits and its leaves keep the rules. -/
theorem layItem_decides (hc : c.Agrees Γ Φ) (rule : InitRule) :
    ∀ {dims : List Int} (start used : Nat) (item : Init α), (∀ d ∈ dims, 0 < d) →
      Shape.size dims ≤ Shape.maxCount →
      Decides (ItemValid Γ Φ rule.constant dims used item) (LaidAs Γ Φ dims start used item)
        (layItem c rule dims start used item)
  | dims, start, used, .expr e, hdims, hsize => by
    have hcount : Shape.count dims = Shape.size dims := Shape.count_eq_size hsize
    refine Decides.congr (Decides.guard fun _ =>
      (checkLeaf_decides hc rule e).map fun _ e' he => ⟨?_, fun base => ?_, rfl⟩) ?_
    · rw [map, annotate, fold, he.tree]
    · exact Placed.fills_leaf he.value? base (start + used)
    · simp [ItemValid, hcount]
  | dims, start, used, .list items l, hdims, hsize => by
    have hdrop : ∀ d ∈ dims.drop 1, 0 < d := fun d hd => hdims d (List.mem_of_mem_drop hd)
    have hsize' := Nat.le_trans (Shape.size_drop_le hdims) hsize
    have hcount : Shape.count dims = Shape.size dims := Shape.count_eq_size hsize
    have hstride : Shape.stride dims = Shape.size (dims.drop 1) := Shape.count_eq_size hsize'
    have hused := le_roundUp used (Shape.size_pos hdrop)
    unfold layItem
    rw [hcount, hstride]
    refine Decides.congr (Decides.guard fun _ => Decides.guard fun _ =>
      (layItems_decides hc rule _ 0 items hdrop hsize').map fun hvalid r hr =>
        ⟨?_, fun base => ?_, ?_⟩) ?_
    · rw [map, annotate, fold, hr.tree]
    · -- The elements up to the boundary are skipped, and the list fills the ones behind it.
      have hpad := Placed.fills_replicate (α := α) (Γ := Γ) base (start + used)
        (roundUp used (Shape.size (dims.drop 1)) - used)
      exact hpad.append (hr.fills base) (by rw [List.length_replicate]; omega)
    · have hlength := length_spreadAll items hdrop (Nat.zero_le _) hvalid
      rw [spread, List.length_append, List.length_replicate, hlength]
      dsimp only
      omega
    · simp [ItemValid]

theorem layItems_decides (hc : c.Agrees Γ Φ) (rule : InitRule) :
    ∀ {dims : List Int} (start used : Nat) (items : List (Init α)), (∀ d ∈ dims, 0 < d) →
      Shape.size dims ≤ Shape.maxCount →
      Decides (ItemsValid Γ Φ rule.constant dims used items)
        (AllLaidAs Γ Φ dims start used items) (layItems c rule dims start used items)
  | dims, start, used, [], _, _ =>
    Decides.pure ⟨rfl, fun base => Placed.fills_replicate base _ _⟩
  | dims, start, used, item :: items, hdims, hsize => by
    rw [ItemsValid]
    refine (layItem_decides hc rule start used item hdims hsize).bind ?_
    intro _ r hr
    obtain ⟨item', here, used'⟩ := r
    obtain rfl := hr.used
    refine (layItems_decides hc rule start _ items hdims hsize).map fun _ r' hr' =>
      ⟨?_, fun base => ?_⟩
    · rw [mapAll, annotateAll, foldAll, hr.tree, hr'.tree]
    · exact (hr.fills base).append (hr'.fills base) (Nat.add_assoc _ _ _).symm

end

/-- A valid initializer gives each element of the variable its leaf. -/
theorem length_leaves {dims : List Int} (hdims : ∀ d ∈ dims, 0 < d) {init : Option (Init α)}
    (h : Init.Valid Γ Φ known dims init) : (leaves dims init).length = Shape.size dims := by
  cases init with
  | none => rw [leaves, List.length_replicate]
  | some init =>
    cases init with
    | expr e =>
      obtain ⟨rfl, -⟩ := h
      rfl
    | list items l => exact length_spreadAll items hdims (Nat.zero_le _) h.2

/-- Laying out an initializer succeeds if and only if it fits the variable and its leaves
keep the rules, and then every leaf goes to the element that it initializes. -/
theorem layOut_decides (hc : c.Agrees Γ Φ) (rule : InitRule) {dims : List Int}
    (hdims : ∀ d ∈ dims, 0 < d) (hsize : Shape.size dims ≤ Shape.maxCount)
    (init : Option (Init α)) :
    Decides (Init.Valid Γ Φ rule.constant dims init)
      (fun r => r.1.map (map ValueType.typing) = (init.map (annotate Γ Φ)).map (fold Γ) ∧
        ∀ base, Placed.Fills Γ base 0 r.2 (leaves dims init))
      (layOut c rule dims init) := by
  cases init with
  | none => exact Decides.pure ⟨rfl, fun base => Placed.fills_replicate base _ _⟩
  | some init =>
    cases init with
    | expr e =>
      cases dims with
      | cons d dims => exact Decides.report.congr (by simp [Init.Valid])
      | nil =>
        have hvalid : e.LeafValid Γ Φ rule.constant ↔
            Init.Valid Γ Φ rule.constant [] (some (.expr e)) := (and_iff_right rfl).symm
        refine Decides.congr ((checkLeaf_decides hc rule e).map fun _ e' he => ?_) hvalid
        refine ⟨?_, fun base => Placed.fills_leaf he.value? base 0⟩
        simp only [Option.map_some, map, annotate, fold, he.tree]
    | list items l =>
      cases dims with
      | nil => exact Decides.report.congr (by simp [Init.Valid])
      | cons d dims =>
        have hvalid : ItemsValid Γ Φ rule.constant (d :: dims) 0 items ↔
            Init.Valid Γ Φ rule.constant (d :: dims) (some (.list items l)) :=
          (and_iff_right (List.cons_ne_nil d dims)).symm
        refine Decides.congr ((layItems_decides hc rule 0 0 items hdims hsize).map
          fun _ r hr => ?_) hvalid
        refine ⟨?_, hr.fills⟩
        simp only [Option.map_some, map, annotate, fold, hr.tree]

end Init

end SysYFront
