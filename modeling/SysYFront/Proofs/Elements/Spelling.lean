import SysYFront.Proofs.Invariant.WellFormed
import SysYFront.Proofs.Session.Growth

/-!
# SysYFront.Proofs.Elements.Spelling

Constant arrays that are written out. The values of an array can be spelled as one flat list in
braces, in row-major order, or with a list in braces for every row of every dimension
(`Init.Spells`). Either way each value goes to its own element: a list that stands where an inner
array starts skips nothing, and takes up exactly that array. So both spellings are accepted and
make the same constant (`Decl.resolve_spelled`).
-/

namespace SysYFront

variable {α : Type} {c : Checker} {Γ : Context} {Φ : Headings}

/-! ### Numbers -/

namespace Expr

/-- Whether an expression is a number as it is written: a literal, or a minus before one. -/
inductive Writes : Expr α → Scalar → Prop
  | literal (v : Scalar) (l : Location) (n : α) : Writes (.literal v l n) v
  | negative (v : Scalar) (l k : Location) (n m : α) :
    Writes (.unary .neg (.literal v l n) k m) (UnaryOp.neg.eval v)

/-- Whether an expression is a number that stands for the integer `i`, its fraction dropped. -/
def WritesInt (e : Expr α) (i : Int) : Prop :=
  ∃ v, e.Writes v ∧ v.asInt.toInt = i

variable {e : Expr α} {v : Scalar}

/-- A written number is checked into its value, whatever the checker knows. -/
theorem Writes.check (h : e.Writes v) (c : Checker) :
    e.check c = .ok (constant v e.location) := by
  cases h with
  | literal v l n => rfl
  | negative v l k n m =>
    simp only [Expr.check, bind_eq_ok, pure_eq_ok]
    exact ⟨constant v l, rfl, (), requireScalar_constant .., rfl⟩

/-- A written number can initialize an element of a constant, and its value is known. -/
theorem Writes.leaf (h : e.Writes v) :
    e.LeafValid [] Checker.fresh.headings true ∧ e.scalar? [] = some v := by
  have hleaf : Init.checkLeaf .fresh ⟨"", true⟩ e = .ok (constant v e.location) := by
    simp only [Init.checkLeaf, bind_eq_ok, guard_eq_ok, pure_eq_ok]
    exact ⟨_, h.check _, (), requireScalar_constant .., by simp, rfl⟩
  obtain ⟨hvalid, hchecked⟩ :=
    (Init.checkLeaf_decides Program.shows_fresh.agrees ⟨"", true⟩ e).of_ok hleaf
  exact ⟨hvalid, hchecked.value?.symm⟩

/-- Positive extents that are written as numbers are accepted. -/
theorem checkExtents_written (c : Checker) {dims : List (Expr α)} {extents : List Int}
    (h : List.Forall₂ WritesInt dims extents) (hpos : ∀ n ∈ extents, 0 < n) :
    ∃ dims', checkExtents c dims = .ok (dims', extents) := by
  induction h with
  | nil => exact ⟨[], rfl⟩
  | @cons e n dims extents he _ ih =>
    obtain ⟨hn, hothers⟩ := List.forall_mem_cons.mp hpos
    obtain ⟨v, hv, rfl⟩ := he
    obtain ⟨dims', hdims'⟩ := ih hothers
    refine ⟨constant (.int v.asInt) e.location :: dims', ?_⟩
    simp only [checkExtents, checkExtent, bind_eq_ok, pure_eq_ok]
    have hle : ¬ v.asInt ≤ 0 := by
      rw [Int32.le_iff_toInt_le]
      simpa using hn
    exact ⟨(constant (.int v.asInt) e.location, v.asInt.toInt),
      ⟨_, hv.check c, by simp [hle]⟩, (dims', extents), hdims', rfl⟩

end Expr

/-! ### Lists in braces -/

/-- A boundary is its own next boundary. -/
theorem roundUp_mul (k : Nat) {step : Nat} (hstep : 0 < step) :
    roundUp (k * step) step = k * step := by
  have hlast : step - 1 < step := by omega
  rw [roundUp, Nat.add_sub_assoc hstep, Nat.add_comm, Nat.add_mul_div_right _ _ hstep,
    Nat.div_eq_of_lt hlast, Nat.zero_add]

namespace Init

/-- Whether an item of a list for an array of shape `dims`, behind `used` elements, fits and gives
the leaves `es` to the elements that follow. -/
structure Fits (Γ : Context) (Φ : Headings) (dims : List Int) (used : Nat) (item : Init α)
    (es : List (Expr α)) : Prop where
  valid : ItemValid Γ Φ true dims used item
  spread : spread dims used item = es.map some

/-- Whether the items up to the end of the array fit and give the leaves `es` to the elements that
follow, and nothing to those behind. -/
structure AllFit (Γ : Context) (Φ : Headings) (dims : List Int) (used : Nat)
    (items : List (Init α)) (es : List (Expr α)) : Prop where
  valid : ItemsValid Γ Φ true dims used items
  spread : spreadAll dims used items =
    es.map some ++ List.replicate (Shape.size dims - (used + es.length)) none

theorem AllFit.nil (dims : List Int) (used : Nat) :
    AllFit Γ Φ dims used ([] : List (Init α)) [] :=
  ⟨trivial, rfl⟩

theorem AllFit.cons {dims : List Int} {used : Nat} {item : Init α} {items : List (Init α)}
    {es es' : List (Expr α)} (h : Fits Γ Φ dims used item es)
    (h' : AllFit Γ Φ dims (used + es.length) items es') :
    AllFit Γ Φ dims used (item :: items) (es ++ es') := by
  have hlength : (Init.spread dims used item).length = es.length := by
    rw [h.spread, List.length_map]
  refine ⟨⟨h.valid, by rw [hlength]; exact h'.valid⟩, ?_⟩
  rw [spreadAll, hlength, h'.spread, h.spread, List.map_append, List.append_assoc,
    List.length_append, Nat.add_assoc]

/-- Values in one flat list go to the elements in order. -/
theorem allFit_flat (dims : List Int) (used : Nat) {es : List (Expr α)}
    (hes : ∀ e ∈ es, e.LeafValid Γ Φ true) (hroom : used + es.length ≤ Shape.size dims) :
    AllFit Γ Φ dims used (es.map .expr) es := by
  induction es generalizing used with
  | nil => exact .nil dims used
  | cons e es ih =>
    obtain ⟨he, hothers⟩ := List.forall_mem_cons.mp hes
    rw [List.length_cons] at hroom
    have hfirst : Fits Γ Φ dims used (.expr e) [e] := ⟨⟨by omega, he⟩, rfl⟩
    exact AllFit.cons hfirst (ih (used + 1) hothers (by omega))

/-- Whether an initializer spells the leaves `es` of shape `dims` with full nesting: without
dimensions one expression, otherwise a list in braces of as many rows as the outermost extent
says. -/
def Nests : List Int → Init α → List (Expr α) → Prop
  | [], init, es => ∃ e, init = .expr e ∧ es = [e]
  | d :: dims, init, es => ∃ items l rows, init = .list items l ∧ (items.length : Int) = d ∧
    List.Forall₂ (Nests dims) items rows ∧ es = rows.flatten

theorem length_flatten_of_nests {dims : List Int} {items : List (Init α)}
    {rows : List (List (Expr α))}
    (hrow : ∀ {init : Init α} {es : List (Expr α)}, Nests dims init es →
      es.length = Shape.size dims)
    (h : List.Forall₂ (Nests dims) items rows) :
    rows.flatten.length = items.length * Shape.size dims := by
  induction h with
  | nil => simp
  | cons hitem _ ih =>
    rw [List.flatten_cons, List.length_append, hrow hitem, ih, List.length_cons, Nat.succ_mul,
      Nat.add_comm]

/-- A nested initializer has a leaf for every element. -/
theorem length_of_nests : ∀ {dims : List Int} {init : Init α} {es : List (Expr α)},
    Nests dims init es → es.length = Shape.size dims
  | [], _, _, h => by
    obtain ⟨e, -, rfl⟩ := h
    rfl
  | d :: dims, _, _, h => by
    obtain ⟨items, l, rows, -, hlength, hrows, rfl⟩ := h
    rw [length_flatten_of_nests length_of_nests hrows, Shape.size_cons, ← hlength,
      Int.toNat_natCast]

/-- Leaves can be nested row by row, if those of every row can be. -/
theorem exists_nested_rows {dims : List Int}
    (hrow : ∀ {es : List (Expr α)}, es.length = Shape.size dims → ∃ init, Nests dims init es)
    (n : Nat) {es : List (Expr α)} (hlength : es.length = n * Shape.size dims) :
    ∃ items rows, items.length = n ∧ List.Forall₂ (Nests dims) items rows ∧ es = rows.flatten := by
  induction n generalizing es with
  | zero =>
    rw [Nat.zero_mul] at hlength
    exact ⟨[], [], rfl, .nil, List.eq_nil_of_length_eq_zero hlength⟩
  | succ n ih =>
    rw [Nat.succ_mul] at hlength
    have hfirst : (es.take (Shape.size dims)).length = Shape.size dims := by
      rw [List.length_take]
      omega
    have hothers : (es.drop (Shape.size dims)).length = n * Shape.size dims := by
      rw [List.length_drop]
      omega
    obtain ⟨item, hitem⟩ := hrow hfirst
    obtain ⟨items, rows, hcount, hitems, hflatten⟩ := ih hothers
    refine ⟨item :: items, _ :: rows, by rw [List.length_cons, hcount], .cons hitem hitems, ?_⟩
    rw [List.flatten_cons, ← hflatten, List.take_append_drop]

/-- Every list of as many leaves as there are elements can be nested. -/
theorem exists_nests : ∀ {dims : List Int}, (∀ n ∈ dims, 0 < n) → ∀ {es : List (Expr α)},
    es.length = Shape.size dims → ∃ init, Nests dims init es
  | [], _, es, hlength => by
    obtain ⟨e, rfl⟩ := List.length_eq_one_iff.mp hlength
    exact ⟨.expr e, e, rfl, rfl⟩
  | d :: dims, hpos, es, hlength => by
    obtain ⟨hd, hothers⟩ := List.forall_mem_cons.mp hpos
    obtain ⟨items, rows, hcount, hitems, rfl⟩ :=
      exists_nested_rows (exists_nests hothers) d.toNat hlength
    exact ⟨.list items .nowhere, items, .nowhere, rows, rfl, by omega, hitems, rfl⟩

/-- Rows that are nested stand behind each other, each at its own boundary, if every one of them
fits there. -/
theorem allFit_rows {d : Int} {dims : List Int}
    (hfit : ∀ (k : Nat) {item : Init α} {es : List (Expr α)}, Nests dims item es →
      (k : Int) < d → (∀ e ∈ es, e.LeafValid Γ Φ true) →
        Fits Γ Φ (d :: dims) (k * Shape.size dims) item es)
    {items : List (Init α)} {rows : List (List (Expr α))}
    (hrows : List.Forall₂ (Nests dims) items rows) (k : Nat) (hroom : (k + items.length : Int) ≤ d)
    (hes : ∀ e ∈ rows.flatten, e.LeafValid Γ Φ true) :
    AllFit Γ Φ (d :: dims) (k * Shape.size dims) items rows.flatten := by
  induction hrows generalizing k with
  | nil => exact .nil _ _
  | @cons item es items rows hitem _ ih =>
    rw [List.flatten_cons] at hes ⊢
    obtain ⟨hfirst, hothers⟩ := List.forall_mem_append.mp hes
    rw [List.length_cons] at hroom
    refine AllFit.cons (hfit k hitem (by omega) hfirst) ?_
    have hnext : k * Shape.size dims + es.length = (k + 1) * Shape.size dims := by
      rw [length_of_nests hitem, Nat.succ_mul]
    rw [hnext]
    exact ih (k + 1) (by omega) hothers

/-- A nested initializer of an inner array fits at the boundary of the array. -/
theorem fits_of_nests : ∀ {d : Int} {dims : List Int}, (∀ n ∈ dims, 0 < n) →
    ∀ (k : Nat) {item : Init α} {es : List (Expr α)}, Nests dims item es → (k : Int) < d →
      (∀ e ∈ es, e.LeafValid Γ Φ true) → Fits Γ Φ (d :: dims) (k * Shape.size dims) item es
  | d, [], _, k, item, es, h, hk, hes => by
    obtain ⟨e, rfl, rfl⟩ := h
    refine ⟨⟨?_, hes e List.mem_cons_self⟩, rfl⟩
    simp only [Shape.size_cons, Shape.size_nil]
    omega
  | d, n :: dims, hpos, k, item, es, h, hk, hes => by
    obtain ⟨items, l, rows, rfl, hlength, hrows, rfl⟩ := h
    obtain ⟨hn, hothers⟩ := List.forall_mem_cons.mp hpos
    have hsize : 0 < Shape.size (n :: dims) := Shape.size_pos hpos
    have hbelow : k * Shape.size (n :: dims) < Shape.size (d :: n :: dims) :=
      Nat.mul_lt_mul_of_pos_right (by omega) hsize
    have hitems : AllFit Γ Φ (n :: dims) (0 * Shape.size dims) items rows.flatten :=
      allFit_rows (fits_of_nests hothers) hrows 0 (by omega) hes
    rw [Nat.zero_mul] at hitems
    have hwhole : rows.flatten.length = Shape.size (n :: dims) := by
      rw [length_flatten_of_nests length_of_nests hrows, Shape.size_cons, ← hlength,
        Int.toNat_natCast]
    refine ⟨⟨by simp, ?_, hitems.valid⟩, ?_⟩
    · rwa [List.drop_one, List.tail_cons, roundUp_mul k hsize]
    · rw [Init.spread, List.drop_one, List.tail_cons, roundUp_mul k hsize, hitems.spread, hwhole]
      simp

/-- Whether an initializer of an array of shape `dims` spells the leaves `es`: as one flat list, or
with full nesting. -/
def Spells (dims : List Int) (init : Init α) (es : List (Expr α)) : Prop :=
  (∃ l, init = .list (es.map .expr) l) ∨ Nests dims init es

/-- Either spelling keeps the rules and gives every element its leaf. -/
theorem valid_of_spells {dims : List Int} {init : Init α} {es : List (Expr α)}
    (h : Spells dims init es) (hdims : dims ≠ []) (hpos : ∀ n ∈ dims, 0 < n)
    (hlength : es.length = Shape.size dims) (hes : ∀ e ∈ es, e.LeafValid Γ Φ true) :
    Init.Valid Γ Φ true dims (some init) ∧ leaves dims (some init) = es.map some := by
  have hlist {items : List (Init α)} {l : Location} (hitems : AllFit Γ Φ dims 0 items es) :
      Init.Valid Γ Φ true dims (some (.list items l)) ∧
        leaves dims (some (.list items l)) = es.map some := by
    refine ⟨⟨hdims, hitems.valid⟩, ?_⟩
    rw [leaves, hitems.spread, hlength]
    simp
  rcases h with ⟨l, rfl⟩ | hnests
  · exact hlist (allFit_flat dims 0 hes (by omega))
  · cases dims with
    | nil => exact absurd rfl hdims
    | cons d dims =>
      obtain ⟨items, l, rows, rfl, hrows, hitems, rfl⟩ := hnests
      obtain ⟨-, hothers⟩ := List.forall_mem_cons.mp hpos
      have hfit : AllFit Γ Φ (d :: dims) (0 * Shape.size dims) items rows.flatten :=
        allFit_rows (fits_of_nests hothers) hitems 0 (by omega) hes
      rw [Nat.zero_mul] at hfit
      exact hlist hfit

end Init

/-! ### Declarations -/

/-- The type of a constant array that owns the table of its elements. -/
def ValueType.constantArray (base : Base) (dims : List Int) (cells : List Scalar) : ValueType :=
  ⟨true, true, base, dims, some ⟨cells.toArray, 0⟩⟩

/-- Whether a declaration spells a constant array with the given extents and values. -/
structure Decl.Spells (d : Decl α) (extents : List Int) (values : List Scalar) : Prop where
  isConst : d.isConst = true
  dims : List.Forall₂ Expr.WritesInt d.dims extents
  init : ∃ init es, d.init = some init ∧ init.Spells extents es ∧ List.Forall₂ Expr.Writes es values

/-- What a fresh checker knows, every checker knows. -/
theorem Scopes.includedIn_of_fresh (s : Scopes) : Checker.fresh.scopes.IncludedIn s :=
  fun name t ht => by simp [Checker.fresh, Scopes.empty, Scopes.lookup?] at ht

/-- The initializer of a constant array that is written out is laid out, and the table that is made
of it holds the values in order, each converted to the base type. -/
theorem Init.layOut_spelled (c : Checker) (name : String) {init : Init α} {extents : List Int}
    {es : List (Expr α)} {values : List Scalar} (hspells : init.Spells extents es)
    (hwrites : List.Forall₂ Expr.Writes es values) (hdims : extents ≠ [])
    (hsmall : Shape.Small extents) (hlength : values.length = Shape.size extents) :
    ∃ r, layOut c ⟨name, true⟩ extents (some init) = .ok r ∧ ∀ base,
      Placed.cells base (Shape.size extents) r.2 = (values.map (·.convert base)).toArray := by
  have hes : es.length = Shape.size extents := hwrites.length_eq.trans hlength
  have hleaves : ∀ e ∈ es, e.LeafValid [] Checker.fresh.headings true := by
    intro e he
    obtain ⟨i, hi, rfl⟩ := List.mem_iff_getElem.mp he
    exact (hwrites.get hi (hwrites.length_eq ▸ hi)).leaf.1
  obtain ⟨hvalid, hspread⟩ := valid_of_spells hspells hdims hsmall.pos hes hleaves
  -- The layout is that of a fresh checker, since the leaves are known without names.
  have hlayout := layOut_decides Program.shows_fresh.agrees ⟨name, true⟩ hsmall.pos
    hsmall.countable (some init)
  obtain ⟨r, hr⟩ := hlayout.succeeds_iff.mpr hvalid
  obtain ⟨-, -, hfills⟩ := hlayout.of_ok hr
  refine ⟨r, layOut_mono c.scopes.includedIn_of_fresh (.inr rfl) hr, fun base => ?_⟩
  have hvalues : es.map (fun e => Decl.leafValue [] base (some e)) =
      values.map (·.convert base) := by
    rw [← List.forall₂_eq_eq_eq, List.forall₂_map_left_iff, List.forall₂_map_right_iff]
    refine hwrites.imp fun e v he => ?_
    simp [Decl.leafValue, he.leaf.2]
  have htable := Decl.toList_cells_eq (hfills base)
  rw [hspread, List.length_map, hes, List.map_map] at htable
  rw [← hvalues, ← Array.toList_inj, htable]
  rfl

/-- A constant array that is written out is accepted wherever its name is new, in either spelling,
and its table holds the values in order, each converted to the base type. -/
theorem Decl.resolve_spelled {d : Decl α} {extents : List Int} {values : List Scalar}
    (hd : d.Spells extents values) (hdims : extents ≠ []) (hsmall : Shape.Small extents)
    (hlength : values.length = Shape.size extents)
    (hnew : c.scopes.declaresHere d.name = false) :
    ∃ d', d.resolve c = .ok d' ∧ d'.name = d.name ∧
      d'.note = .constantArray d.base extents (values.map (·.convert d.base)) := by
  obtain ⟨dims', hextents⟩ := Expr.checkExtents_written c hd.dims hsmall.pos
  obtain ⟨init, es, hinit, hspells, hwrites⟩ := hd.init
  obtain ⟨r, hlaid, hcells⟩ :=
    Init.layOut_spelled c d.name hspells hwrites hdims hsmall hlength
  have hcount : Shape.count? extents = some (Shape.size extents) := by
    rw [Shape.count?_eq hsmall.pos, if_pos (Nat.mul_comm _ _ ▸ hsmall.addressable)]
  refine ⟨{ d with dims := dims', init := r.1, note := .constantArray d.base extents _ },
    ?_, rfl, rfl⟩
  simp only [resolve, guard_eq_ok, bind_eq_ok]
  refine ⟨by simp [hnew], (dims', extents), hextents, ?_⟩
  simp only [hcount, hd.isConst, hinit, Bool.true_or, bind_eq_ok, pure_eq_ok]
  exact ⟨r, hlaid, by rw [resolvedType, if_pos rfl, hcells, ValueType.constantArray]⟩

end SysYFront
