import SysYFront.Decl.Check
import SysYFront.Proofs.Agreement.Layout
import SysYFront.Proofs.Meaning.Fixed

/-!
# SysYFront.Proofs.Agreement.Decl

The checker agrees with the rules on declarations. Extents come out as the integers
that they stand for, and they are positive and their object small, so that the counts of
the checker are the true ones from here on. The type that a declared name gets is what
the declaration means (`Decl.CheckedAs`), so a state of the checker that agrees with a
context agrees with the extended context behind the declaration.
-/

namespace SysYFront

variable {α : Type} {c : Checker} {Γ : Context} {Φ : Headings}

/-- Declaring a name keeps the agreement, if the type is what the name means. -/
theorem Checker.Shows.declare (hc : c.Shows Γ) (name : String) {t : ValueType}
    (ht : t.Declared) : (c.declare name t).Shows ((name, t.meaning) :: Γ) := by
  have hlookup (other : String) : (c.declare name t).scopes.lookup? other =
      if other == name then some t else c.scopes.lookup? other :=
    Scopes.lookup?_insert c.scopes name other t
  refine ⟨fun other => ?_, fun other u hu => ?_⟩
  · rw [hlookup, List.lookup_cons]
    cases other == name with
    | true => rfl
    | false => exact hc.names other
  · rw [hlookup] at hu
    split at hu
    · obtain rfl := Option.some.inj hu
      exact ht
    · exact hc.declared other u hu

/-! ### Extents -/

namespace Expr

theorem checkExtent_decides (hc : c.Agrees Γ Φ) (e : Expr α) :
    Decides (e.ExtentValid Γ Φ)
      (fun r => r.1.map ValueType.typing = ((e.annotateExtent Γ Φ).fold Γ).truncated ∧
        e.extent? Γ = some r.2)
      (e.checkExtent c) := by
  refine (check_decides hc e).bind (W := ∃ n, e.extent? Γ = some n ∧ 0 < n) fun _ e' he => ?_
  rw [he.value?, extent?]
  cases hv : e.scalar? Γ with
  | none => exact Decides.report.congr (by simp)
  | some v =>
    refine Decides.congr (Decides.guard fun _ => Decides.pure ⟨he.truncated hv, rfl⟩) ?_
    simp [Int32.le_iff_toInt_le]

/-- Valid extents are positive. -/
theorem extents_pos {dims : List (Expr α)} (h : ∀ e ∈ dims, e.ExtentValid Γ Φ) :
    ∀ d ∈ extents Γ dims, 0 < d := by
  intro d hd
  obtain ⟨e, he, rfl⟩ := List.mem_map.mp hd
  obtain ⟨-, n, hn, hpos⟩ := h e he
  rwa [hn]

theorem checkExtents_decides (hc : c.Agrees Γ Φ) (dims : List (Expr α)) :
    Decides (∀ e ∈ dims, e.ExtentValid Γ Φ)
      (fun r => r.1.map (map ValueType.typing) =
          (dims.map (annotateExtent Γ Φ)).map (fun e => (e.fold Γ).truncated) ∧
        r.2 = extents Γ dims)
      (checkExtents c dims) := by
  induction dims with
  | nil => exact Decides.congr (Decides.pure ⟨rfl, rfl⟩) (by simp)
  | cons e dims ih =>
    rw [List.forall_mem_cons]
    refine (checkExtent_decides hc e).bind fun _ r hr => ih.map fun _ r' hr' => ⟨?_, ?_⟩
    · simp only [List.map_cons, hr.1, hr'.1]
    · simp only [extents, List.map_cons, hr.2, Option.getD_some, hr'.2]

/-- Which functions are known does not matter to extents. -/
theorem checkExtents_decides_of_shows (hc : c.Shows Γ) (Φ : Headings) (dims : List (Expr α)) :
    Decides (∀ e ∈ dims, e.ExtentValid Γ Φ)
      (fun r => r.1.map (map ValueType.typing) =
          (dims.map (annotateExtent Γ Φ)).map (fun e => (e.fold Γ).truncated) ∧
        r.2 = extents Γ dims)
      (checkExtents c dims) := by
  have hvalid : (∀ e ∈ dims, e.ExtentValid Γ c.headings) ↔ ∀ e ∈ dims, e.ExtentValid Γ Φ := by
    simp only [extentValid_congr c.headings Φ]
  refine ((checkExtents_decides hc.agrees dims).congr hvalid).imp ?_
  intro hextents r hr
  have hdims : dims.map (annotateExtent Γ c.headings) = dims.map (annotateExtent Γ Φ) :=
    List.map_congr_left fun e he =>
      annotateExtent_of_valid _ _ ((extentValid_congr _ _ e).mpr (hextents e he))
  rwa [hdims] at hr

end Expr

/-! ### Declarations -/

namespace Decl

/-- Whether `d'` is what checking makes of `d`: its nodes are those of the annotated and
folded declaration, and its type is what the declaration means. -/
structure CheckedAs (Γ : Context) (Φ : Headings) (d : Decl α) (d' : Decl ValueType) : Prop where
  tree : d'.map ValueType.typing = (d.annotate Γ Φ).fold Γ
  meaning : d'.note.meaning = d.meaning Γ
  declared : d'.note.Declared

theorem CheckedAs.name {d : Decl α} {d' : Decl ValueType} (h : d.CheckedAs Γ Φ d') :
    d'.name = d.name :=
  congrArg Decl.name h.tree

/-- The value of an element has the base type of the variable. -/
theorem base_leafValue {base : Base} (h : base ≠ .void) (leaf : Option (Expr α)) :
    (leafValue Γ base leaf).base = base := by
  unfold leafValue
  cases leaf.bind (Expr.scalar? Γ) with
  | none => cases base <;> first | rfl | exact absurd rfl h
  | some v => exact Scalar.base_convert v base h

/-- The cells of a constant whose leaves fill it hold the values of its elements. -/
theorem toList_cells_eq {base : Base} {leaves : List Placed} {spread : List (Option (Expr α))}
    (h : Placed.Fills Γ base 0 leaves spread) :
    (Placed.cells base spread.length leaves).toList = spread.map (leafValue Γ base) := by
  have hfilled := h [] [] rfl
  rw [Placed.toList_cells]
  simpa using hfilled

theorem typing_resolvedType (isConst : Bool) (base : Base) (dims : List Int) (count : Nat)
    (leaves : List Placed) :
    (resolvedType isConst base dims count leaves).typing = ⟨base, dims, isConst⟩ := by
  cases isConst <;> rfl

/-- The type of a variable whose leaves fill it is what the declaration means. -/
theorem resolvedType_meaning {d : Decl α} {dims : List Int} {leaves : List Placed}
    (hbase : d.base ≠ .void) (hdims : Expr.extents Γ d.dims = dims) (hpos : ∀ n ∈ dims, 0 < n)
    (hsize : Shape.size dims ≤ Shape.maxCount)
    (hlength : (Init.leaves dims d.init).length = Shape.size dims)
    (hfills : Placed.Fills Γ d.base 0 leaves (Init.leaves dims d.init)) :
    (resolvedType d.isConst d.base dims (Shape.size dims) leaves).meaning = d.meaning Γ ∧
      (resolvedType d.isConst d.base dims (Shape.size dims) leaves).Declared := by
  cases hconst : d.isConst with
  | false =>
    -- A variable shows no values, whatever it is initialized with.
    refine ⟨?_, ValueType.proper_place _ _, rfl⟩
    simp [resolvedType, meaning, ValueType.meaning, hconst, hdims, ValueType.place,
      ValueType.elements?]
  | true =>
    -- The window of a constant starts at its first element and holds exactly its leaves.
    have hcells := toList_cells_eq hfills
    rw [hlength] at hcells
    have hcount : (Placed.cells d.base (Shape.size dims) leaves).size = Shape.size dims := by
      rw [← Array.length_toList, hcells, List.length_map, hlength]
    have hcovers : Window.Covers ⟨Placed.cells d.base (Shape.size dims) leaves, 0⟩ d.base dims := by
      refine ⟨hpos, hsize, by simp [hcount], fun v hv => ?_⟩
      rw [← Array.mem_toList_iff, hcells] at hv
      obtain ⟨leaf, -, rfl⟩ := List.mem_map.mp hv
      exact base_leafValue hbase leaf
    have helements : (resolvedType true d.base dims (Shape.size dims) leaves).elements? =
        some ((Init.leaves dims d.init).map (leafValue Γ d.base)) := by
      rw [ValueType.elements?_eq rfl hcovers]
      show some ((Array.toList _).drop 0 |>.take (Shape.size dims)) = _
      rw [List.drop_zero, hcells, List.take_of_length_le (by simp [hlength])]
    refine ⟨?_, ⟨rfl, ?_⟩, rfl⟩
    · rw [ValueType.meaning, helements, meaning, hconst, hdims]
      rfl
    · intro w hw
      obtain rfl := Option.some.inj hw
      exact hcovers

/-- Resolving a declaration succeeds if and only if its name is new in its scope and the
declaration keeps the rules. -/
theorem resolve_decides (hc : c.Agrees Γ Φ) (d : Decl α) (hbase : d.base ≠ .void) :
    Decides (c.scopes.declaresHere d.name = false ∧ d.Valid Γ Φ c.scopes.isGlobal)
      (d.CheckedAs Γ Φ) (d.resolve c) := by
  have hvalid : (¬ c.scopes.declaresHere d.name = true ∧ (∀ e ∈ d.dims, e.ExtentValid Γ Φ) ∧
      Shape.size (Expr.extents Γ d.dims) * Shape.elementSize ≤ Shape.maxObjectSize ∧
        Init.Valid Γ Φ (d.isConst || c.scopes.isGlobal) (Expr.extents Γ d.dims) d.init) ↔
      c.scopes.declaresHere d.name = false ∧ d.Valid Γ Φ c.scopes.isGlobal := by
    simp [Valid, Expr.ExtentsValid, and_assoc]
  refine Decides.congr (Decides.guard fun _ =>
    (Expr.checkExtents_decides hc d.dims).bind fun hextents r hr => ?_) hvalid
  obtain ⟨dims', dims⟩ := r
  obtain ⟨htree, rfl⟩ := hr
  -- From here on the extents are known, and with them the shape that the rules speak of.
  have hpos := Expr.extents_pos hextents
  dsimp only
  rw [Shape.count?_eq hpos]
  by_cases hsmall : Shape.size (Expr.extents Γ d.dims) * Shape.elementSize ≤ Shape.maxObjectSize
  · rw [if_pos hsmall]
    have hsize : Shape.size (Expr.extents Γ d.dims) ≤ Shape.maxCount :=
      Shape.size_le_maxCount hsmall
    refine Decides.congr ((Init.layOut_decides hc _ hpos hsize d.init).map fun hinit r hr => ?_)
      (and_iff_right hsmall).symm
    have hlength := Init.length_leaves hpos hinit
    obtain ⟨hmeaning, hdeclared⟩ := resolvedType_meaning hbase rfl hpos hsize hlength (hr.2 d.base)
    refine ⟨?_, hmeaning, hdeclared⟩
    simp only [map, annotate, fold, htree, hr.1, typing_resolvedType]
  · rw [if_neg hsmall]
    exact Decides.report.congr (by simp [hsmall])

/-- Checking a declaration also declares the name. -/
theorem check_decides (hc : c.Agrees Γ Φ) (d : Decl α) (hbase : d.base ≠ .void) :
    Checking.Decides c (c.scopes.declaresHere d.name = false ∧ d.Valid Γ Φ c.scopes.isGlobal)
      (fun d' c' => d.CheckedAs Γ Φ d' ∧ c' = c.declare d.name d'.note) d.check := by
  refine Checking.Decides.congr (V := _ ∧ True)
    ((Checking.Decides.inspect (resolve_decides hc d hbase)).bind fun _ d' c' hd' => ?_)
    (and_iff_left trivial)
  obtain ⟨hd', rfl⟩ := hd'
  have hdeclared : Checking.Decides c' True (fun _ c'' => c'' = c'.declare d'.name d'.note)
      (modify fun c => c.declare d'.name d'.note) := Checking.Decides.modified rfl
  refine hdeclared.map fun _ _ c'' hc'' => ⟨hd', ?_⟩
  rw [hc'', hd'.name]

/-- Which functions are known does not matter to a global declaration. -/
theorem check_decides_of_isGlobal (hc : c.Shows Γ) (hglobal : c.scopes.isGlobal = true)
    (Φ : Headings) (d : Decl α) (hbase : d.base ≠ .void) :
    Checking.Decides c (c.scopes.declaresHere d.name = false ∧ d.Valid Γ Φ true)
      (fun d' c' => d.CheckedAs Γ Φ d' ∧ c' = c.declare d.name d'.note) d.check := by
  have hcheck := check_decides hc.agrees d hbase
  rw [hglobal, valid_congr c.headings Φ] at hcheck
  refine hcheck.imp fun hvalid d' c' ⟨hd', hc'⟩ => ⟨⟨?_, hd'.meaning, hd'.declared⟩, hc'⟩
  rw [hd'.tree, annotate_of_valid c.headings Φ ((valid_congr _ _ d).mpr hvalid.2)]

end Decl

end SysYFront
