import SysYFront.Proofs.Elements.Spelling

/-!
# SysYFront.Proofs.Elements.Reading

Elements of constant arrays. Subscripts cut rows out of the table of the array, one dimension
after the other, and never copy an element: behind the subscripts `is`, the cells that are shown
start at the row-major position of `is` (`Expr.check_subscripted`). So a constant array that is
written out gives back its values, each at its own place, and an index that is not in the range of
its dimension is refused with the extent of that dimension (`Decl.reads_spelled`).
-/

namespace SysYFront

variable {α : Type} {c : Checker}

/-! ### Positions -/

namespace Shape

/-- Whether `i` is an index of a dimension of extent `d`. -/
def IsIndex (i d : Int) : Prop :=
  0 ≤ i ∧ i < d

/-- The row-major position of the first element behind the subscripts `is`. -/
def position : List Int → List Int → Nat
  | _ :: dims, i :: is => i.toNat * size dims + position dims is
  | _, _ => 0

@[simp] theorem position_nil (dims : List Int) : position dims [] = 0 := by
  cases dims <;> rfl

/-- A part of a part is a part of the whole. -/
theorem part_part {β : Type} (l : List β) (a : Nat) {b m n : Nat} (h : b + m ≤ n) :
    (((l.drop a).take n).drop b).take m = (l.drop (a + b)).take m := by
  have hmin : min m (n - b) = m := Nat.min_eq_left (by omega)
  rw [List.drop_take, List.take_take, hmin, List.drop_drop]

/-- The elements behind subscripts in range lie inside the array. -/
theorem position_add_size_le {is front : List Int} (h : List.Forall₂ IsIndex is front)
    (back : List Int) : position (front ++ back) is + size back ≤ size (front ++ back) := by
  induction h with
  | nil => simp
  | @cons i d is front hi _ ih =>
    have hrow := row_le hi (front ++ back)
    rw [List.cons_append, position]
    omega

end Shape

open Shape (IsIndex position size)

/-! ### Subscripts -/

/-- A pair of square brackets behind an array. -/
structure Subscript (α : Type) where
  index : Expr α
  location : Location
  note : α

namespace Expr

/-- An expression with subscripts behind it, the first one next to it. -/
def subscripted (e : Expr α) : List (Subscript α) → Expr α
  | [] => e
  | s :: ss => (Expr.index e s.index s.location s.note).subscripted ss

/-- The first failure ends the check. -/
theorem check_subscripted_error {e : Expr α} {x : Diagnostic} (h : e.check c = .error x)
    (ss : List (Subscript α)) : (e.subscripted ss).check c = .error x := by
  induction ss generalizing e with
  | nil => exact h
  | cons s ss ih =>
    refine ih ?_
    rw [check, h]
    rfl

/-- Whether a checked expression shows a table with these extents and cells, as a literal if it is
a single value. -/
structure ShowsTable (e : Expr ValueType) (dims : List Int) (cells : List Scalar) : Prop where
  proper : e.note.Proper
  table : e.note.table? = some ⟨dims, cells⟩
  folded : ∀ v, e.note.value? = some v → e = constant v e.location

namespace ShowsTable

variable {a : Expr ValueType} {d : Int} {dims : List Int} {cells : List Scalar} {v : Scalar}
  {l k : Location}

theorem dims_eq (h : a.ShowsTable dims cells) : a.note.dims = dims := by
  obtain ⟨cells', -, htable⟩ := Option.map_eq_some_iff.mp h.table
  exact congrArg Table.dims htable

/-- A table of a single value is a literal. -/
theorem eq_constant (h : a.ShowsTable [] (v :: cells)) : a = constant v a.location := by
  refine h.folded v ?_
  rw [ValueType.value?_eq, h.table]
  rfl

theorem window (h : a.ShowsTable dims cells) : ∃ w, a.note.window = some w := by
  cases hw : a.note.window with
  | some w => exact ⟨w, rfl⟩
  | none =>
    have htable := h.table
    rw [ValueType.table?_eq_none hw] at htable
    cases htable

theorem constant (v : Scalar) (l : Location) : (constant v l).ShowsTable [] [v] where
  proper := ValueType.proper_constant v
  table := (ValueType.proper_constant v).table?_of_value? (ValueType.value?_constant v)
  folded := by
    intro w hw
    obtain rfl := Option.some.inj hw
    rfl

/-- A subscript in range gives a row of the table. -/
theorem checkedIndex_row (h : a.ShowsTable (d :: dims) cells) (hi : IsIndex v.asInt.toInt d) :
    ∃ e, checkedIndex a (.constant v k) l = .ok e ∧ e.location = l ∧
      e.ShowsTable dims ((cells.drop (v.asInt.toInt.toNat * size dims)).take (size dims)) := by
  obtain ⟨w, hw⟩ := h.window
  have hcut : Table.row? ⟨d :: dims, cells⟩ v.asInt.toInt =
      some ⟨dims, (cells.drop (v.asInt.toInt.toNat * size dims)).take (size dims)⟩ := if_pos hi
  have hrow := h.proper.table?_at? v.asInt.toInt
  rw [h.table, Option.bind_some, hcut] at hrow
  obtain ⟨t, hat, htable⟩ := Option.bind_eq_some_iff.mp hrow
  obtain ⟨hproper, -⟩ := h.proper.at?_eq_some hat
  cases hv : t.value? with
  | some u =>
    refine ⟨.constant u l, by simp [checkedIndex, hw, hat, hv], rfl, ?_⟩
    -- A row without dimensions is the table of its one value.
    rw [hproper.table?_of_value? hv] at htable
    obtain ⟨rfl, hcells⟩ := Table.mk.inj (Option.some.inj htable)
    rw [← hcells]
    exact constant u l
  | none =>
    refine ⟨.index a (.constant (.int v.asInt) k) l t, by simp [checkedIndex, hw, hat, hv], rfl,
      hproper, htable, fun u hu => ?_⟩
    have hnone : t.value? = some u := hu
    rw [hv] at hnone
    cases hnone

/-- A subscript out of range is refused with its value and the extent. -/
theorem checkedIndex_outside (h : a.ShowsTable (d :: dims) cells)
    (hi : ¬ IsIndex v.asInt.toInt d) :
    checkedIndex a (.constant v k) l = .error ⟨.indexOutOfBounds v.asInt.toInt d, l⟩ := by
  obtain ⟨w, hw⟩ := h.window
  have hat : a.note.at? v.asInt.toInt = none := by
    rw [ValueType.at?_eq hw h.dims_eq (h.proper.covers w hw)]
    exact if_neg hi
  simp [checkedIndex, hw, hat, h.dims_eq, report]

end ShowsTable

/-! ### Reading elements -/

/-- A subscript behind an array that shows a table is checked against the outermost extent. -/
theorem check_index {a : Expr α} {a' : Expr ValueType} {d : Int} {dims : List Int}
    {cells : List Scalar} (ha : a.check c = .ok a') (h : a'.ShowsTable (d :: dims) cells)
    (s : Subscript α) {v : Scalar} (hs : s.index.Writes v) :
    (index a s.index s.location s.note).check c =
      checkedIndex a' (constant v s.index.location) s.location := by
  rw [check, ha]
  show (if !a'.note.isArray then _ else _) = _
  rw [ValueType.isArray, h.dims_eq, hs.check]
  show (requireScalar .arrayIndex (constant v _) >>= _) = _
  rw [requireScalar_constant]
  rfl

/-- Subscripts in range, as many as there are dimensions or fewer, give the part of the table that
starts at their row-major position. -/
theorem check_subscripted {ss : List (Subscript α)} {is front : List Int}
    (hss : List.Forall₂ (fun s i => s.index.WritesInt i) ss is)
    (his : List.Forall₂ IsIndex is front) :
    ∀ {a : Expr α} {a' : Expr ValueType} {back : List Int} {cells : List Scalar},
      a.check c = .ok a' → a'.location = a.location → a'.ShowsTable (front ++ back) cells →
        cells.length = size (front ++ back) →
          ∃ e, (a.subscripted ss).check c = .ok e ∧ e.location = (a.subscripted ss).location ∧
            e.ShowsTable back
              ((cells.drop (position (front ++ back) is)).take (size back)) := by
  induction hss generalizing front with
  | nil =>
    cases his
    intro a a' back cells ha hlocation h hlength
    refine ⟨a', ha, hlocation, ?_⟩
    rw [List.nil_append] at h hlength
    rw [Shape.position_nil, List.drop_zero, List.take_of_length_le (Nat.le_of_eq hlength)]
    exact h
  | @cons s i ss is hs _ ih =>
    cases his with
    | @cons _ d _ front hi his =>
      intro a a' back cells ha hlocation h hlength
      rw [List.cons_append] at h hlength ⊢
      obtain ⟨v, hv, rfl⟩ := hs
      obtain ⟨e₁, he₁, hlocation₁, h₁⟩ := h.checkedIndex_row hi
      rw [← check_index ha h s hv] at he₁
      have hrow := Shape.row_le hi (front ++ back)
      have hposition := Shape.position_add_size_le his back
      have hlength₁ : ((cells.drop (v.asInt.toInt.toNat * size (front ++ back))).take
          (size (front ++ back))).length = size (front ++ back) := by
        rw [List.length_take, List.length_drop, hlength]
        omega
      obtain ⟨e, he, hlocation', h'⟩ := ih his he₁ hlocation₁ h₁ hlength₁
      refine ⟨e, he, hlocation', ?_⟩
      rwa [Shape.part_part _ _ hposition] at h'

/-- Whether `s`, of index `i`, is the first of the subscripts behind an array of shape `dims` that
is not in the range of its dimension, which has the extent `d`. -/
inductive FirstOutside : List Int → List (Subscript α) → Subscript α → Int → Int → Prop
  | here {d i : Int} {dims : List Int} {s : Subscript α} {ss : List (Subscript α)} :
    s.index.WritesInt i → ¬ IsIndex i d → FirstOutside (d :: dims) (s :: ss) s i d
  | behind {d i e j : Int} {dims : List Int} {s t : Subscript α} {ss : List (Subscript α)} :
    s.index.WritesInt i → IsIndex i d → FirstOutside dims ss t j e →
      FirstOutside (d :: dims) (s :: ss) t j e

/-- If one of the subscripts is out of range, one of them is the first. -/
theorem FirstOutside.exists_of_not_isIndex {ss : List (Subscript α)} {is : List Int}
    (hss : List.Forall₂ (fun s i => s.index.WritesInt i) ss is) {dims : List Int} {k : Nat}
    {i d : Int} (hi : is[k]? = some i) (hd : dims[k]? = some d) (hout : ¬ IsIndex i d) :
    ∃ s j e, FirstOutside dims ss s j e := by
  induction hss generalizing dims k with
  | nil => simp at hi
  | @cons s j ss is hs _ ih =>
    cases dims with
    | nil => simp at hd
    | cons e dims =>
      by_cases hj : IsIndex j e
      · cases k with
        | zero =>
          obtain rfl := Option.some.inj hi
          obtain rfl := Option.some.inj hd
          exact absurd hj hout
        | succ k =>
          obtain ⟨t, j', e', hfirst⟩ := ih hi hd
          exact ⟨t, j', e', .behind hs hj hfirst⟩
      · exact ⟨s, j, e, .here hs hj⟩

/-- The first subscript out of range is refused with its value and the extent of its dimension. -/
theorem check_subscripted_outside {dims : List Int} {ss : List (Subscript α)} {s : Subscript α}
    {i d : Int} (hout : FirstOutside dims ss s i d) :
    ∀ {a : Expr α} {a' : Expr ValueType} {cells : List Scalar},
      a.check c = .ok a' → a'.ShowsTable dims cells →
        (a.subscripted ss).check c = .error ⟨.indexOutOfBounds i d, s.location⟩ := by
  induction hout with
  | @here d i dims s ss hs hi =>
    intro a a' cells ha h
    obtain ⟨v, hv, rfl⟩ := hs
    refine check_subscripted_error ?_ ss
    rw [check_index ha h s hv, h.checkedIndex_outside hi]
  | @behind d i e j dims s t ss hs hi _ ih =>
    intro a a' cells ha h
    obtain ⟨v, hv, rfl⟩ := hs
    obtain ⟨e₁, he₁, -, h₁⟩ := h.checkedIndex_row hi
    rw [← check_index ha h s hv] at he₁
    exact ih he₁ h₁

/-- The name of a constant array shows the whole table. -/
theorem check_var_constantArray {name : String} {base : Base} {dims : List Int}
    {cells : List Scalar}
    (hlookup : c.scopes.lookup? name = some (.constantArray base dims cells))
    (hdims : dims ≠ []) (hsmall : Shape.Small dims) (hlength : cells.length = size dims)
    (hbase : ∀ v ∈ cells, v.base = base) (l : Location) (n : α) :
    ∃ e, (var name l n).check c = .ok e ∧ e.location = l ∧ e.ShowsTable dims cells := by
  have hnone : (ValueType.constantArray base dims cells).value? = none := by
    simp [ValueType.value?, ValueType.isArray, ValueType.constantArray, hdims]
  have hcovers : Window.Covers ⟨cells.toArray, 0⟩ base dims :=
    ⟨hsmall.pos, hsmall.countable, by simp [hlength], by simpa using hbase⟩
  refine ⟨var name l (.constantArray base dims cells), ?_, rfl, ⟨rfl, ?_⟩, ?_, ?_⟩
  · rw [check, checkedVar, hlookup]
    simp only [hnone]
    rfl
  · intro w hw
    obtain rfl := Option.some.inj hw
    exact hcovers
  · show (ValueType.constantArray base dims cells).table? = _
    rw [ValueType.table?_eq rfl hcovers, List.drop_zero]
    show some (Table.mk dims (cells.take (size dims))) = _
    rw [← hlength, List.take_length]
  · intro v hv
    have hsome : (ValueType.constantArray base dims cells).value? = some v := hv
    rw [hnone] at hsome
    cases hsome

end Expr

/-! ### Declared arrays -/

/-- Whether the elements of the array `name`, of extents `dims`, read as `values`. -/
structure Checker.Reads (c : Checker) (name : String) (dims : List Int) (values : List Scalar) :
    Prop where
  /-- Subscripts in range, one for each dimension, make the literal of the value at their
  position. -/
  inside : ∀ {α : Type} (l : Location) (n : α) {ss : List (Subscript α)} {is : List Int},
    List.Forall₂ (fun s i => s.index.WritesInt i) ss is → List.Forall₂ IsIndex is dims →
      ∃ v, values[position dims is]? = some v ∧
        ((Expr.var name l n).subscripted ss).check c =
          .ok (Expr.constant v ((Expr.var name l n).subscripted ss).location)
  /-- If some subscript is out of range, the first that is gets refused. -/
  outside : ∀ {α : Type} (l : Location) (n : α) {ss : List (Subscript α)} {is : List Int}
    {k : Nat} {i d : Int}, List.Forall₂ (fun s i => s.index.WritesInt i) ss is →
      is[k]? = some i → dims[k]? = some d → ¬ IsIndex i d →
        ∃ s j e, Expr.FirstOutside dims ss s j e ∧
          ((Expr.var name l n).subscripted ss).check c =
            .error ⟨.indexOutOfBounds j e, s.location⟩

/-- A checker that knows a name as a constant array reads its cells. -/
theorem Checker.reads_constantArray {name : String} {base : Base} {dims : List Int}
    {cells : List Scalar}
    (hlookup : c.scopes.lookup? name = some (.constantArray base dims cells))
    (hdims : dims ≠ []) (hsmall : Shape.Small dims) (hlength : cells.length = size dims)
    (hbase : ∀ v ∈ cells, v.base = base) : c.Reads name dims cells where
  inside := by
    intro α l n ss is hss his
    obtain ⟨a, ha, hlocation, hshows⟩ :=
      Expr.check_var_constantArray hlookup hdims hsmall hlength hbase l n
    rw [← List.append_nil dims] at hshows hlength
    obtain ⟨e, he, hplace, h⟩ := Expr.check_subscripted hss his ha hlocation hshows hlength
    have hroom := Shape.position_add_size_le his []
    rw [List.append_nil] at h hroom
    rw [List.append_nil] at hlength
    have hinside : position dims is < cells.length := by
      rw [hlength]
      exact hroom
    rw [List.drop_eq_getElem_cons hinside] at h
    refine ⟨cells[position dims is], List.getElem?_eq_getElem hinside, ?_⟩
    rw [he, ← hplace]
    exact congrArg _ h.eq_constant
  outside := by
    intro α l n ss is k i d hss hi hd hout
    obtain ⟨a, ha, -, hshows⟩ :=
      Expr.check_var_constantArray hlookup hdims hsmall hlength hbase l n
    obtain ⟨s, j, e, hfirst⟩ := Expr.FirstOutside.exists_of_not_isIndex hss hi hd hout
    exact ⟨s, j, e, hfirst, Expr.check_subscripted_outside hfirst ha hshows⟩

/-- A constant array that is written out, in one list or with full nesting, is accepted wherever
its name is new. Its table holds the values in order, converted to the base type, and as long as
the name means this array, subscripts read the values back, each from its place. -/
theorem Decl.reads_spelled {d : Decl α} {extents : List Int} {values : List Scalar}
    (hd : d.Spells extents values) (hbase : d.base ≠ .void) (hdims : extents ≠ [])
    (hsmall : Shape.Small extents) (hlength : values.length = Shape.size extents)
    (hnew : c.scopes.declaresHere d.name = false) :
    ∃ d' c', d.check c = .ok d' c' ∧ d'.name = d.name ∧
      d'.note = .constantArray d.base extents (values.map (·.convert d.base)) ∧
      c'.scopes.lookup? d.name = some d'.note ∧
      ∀ c₁ : Checker, c₁.scopes.lookup? d.name = some d'.note →
        c₁.Reads d.name extents (values.map (·.convert d.base)) := by
  obtain ⟨d', hresolve, hname, hnote⟩ := Decl.resolve_spelled hd hdims hsmall hlength hnew
  refine ⟨d', _, Decl.check_eq_ok.mpr ⟨hresolve, rfl⟩, hname, hnote, ?_, ?_⟩
  · rw [hname, Checker.declare, Scopes.lookup?_insert, if_pos (beq_self_eq_true _)]
  · intro c₁ hlookup
    rw [hnote] at hlookup
    refine c₁.reads_constantArray hlookup hdims hsmall (by simpa using hlength) ?_
    intro v hv
    obtain ⟨u, -, rfl⟩ := List.mem_map.mp hv
    exact Scalar.base_convert u d.base hbase

/-- `const int grid[2][2] = init;` -/
def grid (init : Init Unit) : Decl Unit where
  name := "grid"
  isConst := true
  base := .int
  dims := [.literal (.int 2) .nowhere (), .literal (.int 2) .nowhere ()]
  init := some init
  location := .nowhere
  note := ()

/-- The leaves `1`, `-2`, `3` and `4`. -/
def gridLeaves : List (Expr Unit) :=
  [.literal (.int 1) .nowhere (), .unary .neg (.literal (.int 2) .nowhere ()) .nowhere (),
    .literal (.int 3) .nowhere (), .literal (.int 4) .nowhere ()]

/-- `{1, -2, 3, 4}` -/
def gridFlat : Init Unit :=
  .list (gridLeaves.map .expr) .nowhere

/-- `{{1, -2}, {3, 4}}` -/
def gridNested : Init Unit :=
  .list [.list ((gridLeaves.take 2).map .expr) .nowhere,
    .list ((gridLeaves.drop 2).map .expr) .nowhere] .nowhere

/-- Both spellings are accepted, make the same constant, and read back. -/
theorem grid_reads : ∃ flat nested c c', (grid gridFlat).check .fresh = .ok flat c ∧
    (grid gridNested).check .fresh = .ok nested c' ∧ flat.note = nested.note ∧
      c.Reads "grid" [2, 2] [.int 1, .int (-2), .int 3, .int 4] ∧
      c'.Reads "grid" [2, 2] [.int 1, .int (-2), .int 3, .int 4] := by
  have hwritten : List.Forall₂ Expr.Writes gridLeaves
      [.int 1, .int (-2), .int 3, .int 4] :=
    .cons (.literal ..) (.cons (.negative (.int 2) ..) (.cons (.literal ..)
      (.cons (.literal ..) .nil)))
  have hdims : List.Forall₂ Expr.WritesInt (grid gridFlat).dims [2, 2] :=
    .cons ⟨_, .literal .., rfl⟩ (.cons ⟨_, .literal .., rfl⟩ .nil)
  have hflat : (grid gridFlat).Spells [2, 2] _ :=
    ⟨rfl, hdims, _, _, rfl, .inl ⟨_, rfl⟩, hwritten⟩
  have hrow (e e' : Expr Unit) : Init.Nests [2] (.list [.expr e, .expr e'] .nowhere) [e, e'] :=
    ⟨_, _, [[e], [e']], rfl, rfl, .cons ⟨e, rfl, rfl⟩ (.cons ⟨e', rfl, rfl⟩ .nil), rfl⟩
  have hnests : Init.Nests [2, 2] gridNested gridLeaves :=
    ⟨_, _, [_, _], rfl, rfl, .cons (hrow _ _) (.cons (hrow _ _) .nil), rfl⟩
  have hnested : (grid gridNested).Spells [2, 2] _ :=
    ⟨rfl, hdims, _, _, rfl, .inr hnests, hwritten⟩
  have hsmall : Shape.Small [2, 2] := ⟨by decide, by decide⟩
  obtain ⟨flat, c, hc, -, hnote, hlookup, hreads⟩ :=
    Decl.reads_spelled (c := .fresh) hflat nofun nofun hsmall rfl rfl
  obtain ⟨nested, c', hc', -, hnote', hlookup', hreads'⟩ :=
    Decl.reads_spelled (c := .fresh) hnested nofun nofun hsmall rfl rfl
  exact ⟨flat, nested, c, c', hc, hc', hnote.trans hnote'.symm, hreads c hlookup,
    hreads' c' hlookup'⟩

/-- The expression `grid[i][0]`. -/
def gridAt (i : Int32) : Expr Unit :=
  .index (.index (.var "grid" .nowhere ()) (.literal (.int i) .nowhere ()) .nowhere ())
    (.literal (.int 0) .nowhere ()) .nowhere ()

example : ∃ d c, (grid gridNested).check .fresh = .ok d c ∧
    (gridAt 1).check c = .ok (.constant (.int 3) .nowhere) ∧
      (gridAt 2).check c = .error ⟨.indexOutOfBounds 2 2, .nowhere⟩ :=
  ⟨_, _, rfl, rfl, rfl⟩

end SysYFront
