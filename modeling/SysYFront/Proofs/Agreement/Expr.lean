import SysYFront.Proofs.Meaning.Folding
import SysYFront.Proofs.Meaning.Rules
import SysYFront.Proofs.Outcome
import SysYFront.Proofs.Window

/-!
# SysYFront.Proofs.Agreement.Expr

The checker agrees with the rules on expressions. A state of the checker *agrees* with
a context and with headings if both tell the same of every name (`Checker.Agrees`).
From such a state, checking an expression succeeds if and only if the expression is
valid, and then the checked tree is the annotated and folded one (`Expr.CheckedAs`).

The checker tests every rule on the parts that it has folded already, while the rules
speak of the original tree. What carries the induction is therefore that the note of a
checked part shows the very table, type and place of the original part.
-/

namespace SysYFront

variable {α : Type} {c : Checker} {Γ : Context} {Φ : Headings}

/-- What callers rely on of a signature. -/
def Signature.heading (s : Signature) : Heading :=
  ⟨s.returns, s.params.map fun p => (p.name, p.type.meaning)⟩

/-- Whether a name has in a state of the checker the type that it means. -/
structure Checker.Shows (c : Checker) (Γ : Context) : Prop where
  names : ∀ name, Γ.lookup name = (c.scopes.lookup? name).map ValueType.meaning
  declared : ∀ name t, c.scopes.lookup? name = some t → t.Declared

/-- Whether a state of the checker and the meanings of names and functions are the same. -/
structure Checker.Agrees (c : Checker) (Γ : Context) (Φ : Headings) : Prop extends c.Shows Γ where
  functions : ∀ name, Φ.lookup name = (c.functions.get? name).map Signature.heading

/-- Only the names and the functions of a state count. -/
theorem Checker.Agrees.congr {c' : Checker} (hc : c.Agrees Γ Φ)
    (hscopes : ∀ name, c'.scopes.lookup? name = c.scopes.lookup? name)
    (hfunctions : c'.functions = c.functions) : c'.Agrees Γ Φ where
  names name := by rw [hscopes, hc.names]
  declared name t ht := hc.declared name t (by rw [← hscopes, ht])
  functions name := by rw [hfunctions, hc.functions]

/-- Changing all values of an association list changes the one that is found. -/
theorem lookup_map_snd {β γ : Type} (f : β → γ) (name : String) (entries : List (String × β)) :
    (entries.map fun entry => (entry.1, f entry.2)).lookup name = (entries.lookup name).map f := by
  induction entries with
  | nil => rfl
  | cons entry entries ih =>
    rw [List.map_cons, List.lookup_cons, List.lookup_cons, ih]
    cases name == entry.1 <;> rfl

/-- The functions of a state, as callers rely on them. -/
def Checker.headings (c : Checker) : Headings :=
  c.functions.entries.map fun entry => (entry.1, entry.2.heading)

theorem Checker.Shows.agrees (hc : c.Shows Γ) : c.Agrees Γ c.headings where
  toShows := hc
  functions name := lookup_map_snd Signature.heading name c.functions.entries

namespace Expr

/-- Whether `e'` is what checking makes of `e`: its nodes are those of the annotated and
folded tree, and its note shows what the rules ask of `e`. -/
structure CheckedAs (Γ : Context) (Φ : Headings) (e : Expr α) (e' : Expr ValueType) : Prop where
  tree : e'.map ValueType.typing = (e.annotate Γ Φ).fold Γ
  table : e'.note.table? = e.constant? Γ
  proper : e'.note.Proper
  place : (e'.note.isPlace && !e'.note.isConst) = e.isStorable Γ

namespace CheckedAs

variable {e : Expr α} {e' : Expr ValueType}

theorem typing (h : e.CheckedAs Γ Φ e') : e'.note.typing = e.typing Γ Φ := by
  have hnote := congrArg note h.tree
  simpa using hnote

theorem base (h : e.CheckedAs Γ Φ e') : e'.note.base = e.base Γ Φ :=
  congrArg Typing.base h.typing

theorem dims (h : e.CheckedAs Γ Φ e') : e'.note.dims = e.dims Γ :=
  congrArg Typing.dims h.typing

/-- A checked expression is a literal if and only if the expression has a value. -/
theorem value? (h : e.CheckedAs Γ Φ e') : e'.value? = e.scalar? Γ := by
  have hvalue := congrArg Expr.value? h.tree
  simpa using hvalue

/-- A value that is known has the base type of its expression, and no dimensions. -/
theorem of_scalar? (h : e.CheckedAs Γ Φ e') {v : Scalar} (hv : e.scalar? Γ = some v) :
    v.base = e.base Γ Φ ∧ e.dims Γ = [] := by
  have hvalue : e'.note.value? = some v := by
    rw [ValueType.value?_eq, h.table]
    exact hv
  rw [← h.base, ← h.dims]
  exact ⟨h.proper.base_value hvalue, ValueType.dims_eq_nil_of_value? hvalue⟩

end CheckedAs

/-! ### One node -/

/-- A literal is what an expression with that value is checked as. -/
theorem checkedAs_constant {e : Expr α} {v : Scalar} (hconst : e.constant? Γ = some (.scalar v))
    (hbase : v.base = e.base Γ Φ) (hdims : e.dims Γ = []) (hplace : e.isStorable Γ = false) :
    e.CheckedAs Γ Φ (constant v e.location) where
  tree := by
    have hscalar : (e.annotate Γ Φ).scalar? Γ = some v := by
      rw [scalar?_annotate, scalar?, hconst]
      rfl
    rw [fold_eq_literal Γ hscalar, note_annotate, location_annotate, typing, hdims, ← hbase, hconst]
    simp [constant, map, ValueType.typing, ValueType.constant]
  table := hconst.symm
  proper := ValueType.proper_constant v
  place := hplace.symm

/-- A value that only the running program knows is no place and shows no table. -/
theorem checkedAs_computed {e : Expr α} {e' : Expr ValueType} (hconst : e.constant? Γ = none)
    (htree : e'.map ValueType.typing = (e.annotate Γ Φ).fold Γ) (hplace : e.isStorable Γ = false)
    (hnote : ∃ b, e'.note = .scalar b) : e.CheckedAs Γ Φ e' := by
  obtain ⟨b, hb⟩ := hnote
  refine ⟨htree, ?_, ?_, ?_⟩
  · rw [hconst, hb]
    rfl
  · rw [hb]
    exact ValueType.proper_scalar b
  · rw [hplace, hb]
    rfl

/-- What has no value is kept when it is folded. -/
theorem collapse_annotate {e : Expr α} (h : e.scalar? Γ = none) (kept : Expr Typing) :
    collapse Γ (e.annotate Γ Φ) kept = kept := by
  rw [collapse, scalar?_annotate, h]

/-- The checker reads a proper type as its value alone: only constants have one. -/
theorem checkedVar_eq {name : String} {l : Location} {t : ValueType}
    (ht : c.scopes.lookup? name = some t) (hproper : t.Proper) :
    checkedVar c name l =
      match t.value? with
      | some v => pure (constant v l)
      | none => pure (var name l t) := by
  simp only [checkedVar, ht]
  cases hv : t.value? with
  | none => cases t.isConst <;> rfl
  | some v =>
    have hconst : t.isConst = true := by
      rw [← hproper.table?_isSome, hproper.table?_of_value? hv]
      rfl
    rw [hconst]

/-- A name is looked up where its rule looks it up. -/
theorem checkedVar_decides (hc : c.Agrees Γ Φ) (name : String) (l : Location) (n : α) :
    Decides ((var name l n).Valid Γ Φ) ((var name l n).CheckedAs Γ Φ) (checkedVar c name l) := by
  have hname := hc.names name
  cases ht : c.scopes.lookup? name with
  | none =>
    unfold checkedVar
    rw [ht] at hname ⊢
    exact Decides.report.congr (by simp [Valid, hname])
  | some t =>
    rw [ht, Option.map_some] at hname
    have hproper := (hc.declared name t ht).toProper
    have htable : (var name l n).constant? Γ = t.table? := by
      simp [constant?, Context.table?, hname, ValueType.meaning, ValueType.table?]
    have hnote : t.typing = (var name l n).typing Γ Φ := by
      rw [typing, htable, hproper.table?_isSome]
      simp [ValueType.typing, base, dims, hname, ValueType.meaning]
    have hstorable : (var name l n).isStorable Γ = !t.isConst := by
      rw [← hproper.table?_isSome]
      cases helements : t.elements? <;>
        simp [isStorable, hname, ValueType.meaning, ValueType.table?, helements]
    have hvalid : (var name l n).Valid Γ Φ := by simp [Valid, hname]
    refine Decides.congr ?_ (iff_of_true trivial hvalid)
    rw [checkedVar_eq ht hproper]
    -- Only a constant without dimensions has a value; every other name stays a name.
    cases hv : t.value? with
    | none =>
      have hscalar : (var name l n).scalar? Γ = none := by
        rw [scalar?, htable, ← ValueType.value?_eq, hv]
      refine Decides.pure ⟨?_, htable.symm, hproper, ?_⟩
      · have hkept : (var name l ((var name l n).typing Γ Φ)).scalar? Γ = none := hscalar
        simp only [annotate, fold, collapse, hkept, map, hnote]
      · show (t.isPlace && !t.isConst) = _
        rw [hstorable, (hc.declared name t ht).isPlace, Bool.true_and]
    | some v =>
      have hsome := hproper.table?_of_value? hv
      have hbase := hproper.base_value hv
      have hdims := ValueType.dims_eq_nil_of_value? hv
      refine Decides.pure (checkedAs_constant (e := var name l n) ?_ ?_ ?_ ?_)
      · rw [htable, hsome]
      · simp [base, hname, ValueType.meaning, hbase]
      · simp [dims, hname, ValueType.meaning, hdims]
      · rw [hstorable, ← hproper.table?_isSome, hsome]
        rfl

section Node

variable {e a b i : Expr α} {e' a' b' i' : Expr ValueType} (l : Location) (n : α)

theorem requireScalar_decides (he : e.CheckedAs Γ Φ e') (use : Use) :
    Decides (e.IsScalar Γ Φ) (fun _ => True) (requireScalar use e') := by
  refine Decides.congr (Decides.guard fun _ => Decides.guard fun _ => Decides.pure trivial) ?_
  simp [IsScalar, ValueType.isVoid, ValueType.isArray, he.base, he.dims]

theorem requireAssignable_decides (he : e.CheckedAs Γ Φ e') :
    Decides (e.isStorable Γ ∧ e.dims Γ = []) (fun _ => True) (requireAssignable e') := by
  refine Decides.congr (Decides.guard fun _ => Decides.guard fun _ => Decides.guard fun _ =>
    Decides.pure trivial) ?_
  rw [← he.place]
  simp [ValueType.isArray, he.dims, and_comm]

theorem requireArgument_decides (he : e.CheckedAs Γ Φ e') (function : String) (position : Nat)
    (p : Parameter) :
    Decides (e.Fits Γ Φ p.type.meaning) (fun _ => True)
      (requireArgument function position p e') := by
  refine Decides.congr (Decides.guard fun _ => Decides.guard fun _ => Decides.guard fun _ =>
    Decides.pure trivial) ?_
  simp [Fits, ValueType.isVoid, ValueType.isArray, ValueType.meaning, he.base, he.dims, and_assoc]

theorem checkedUnary_checkedAs (he : e.CheckedAs Γ Φ e') (op : UnaryOp) :
    (unary op e l n).CheckedAs Γ Φ (checkedUnary op e' l) := by
  unfold checkedUnary
  rw [he.value?]
  cases hv : e.scalar? Γ with
  | some v =>
    refine checkedAs_constant (e := unary op e l n) ?_ ?_ rfl rfl
    · rw [constant?_unary, hv]
      rfl
    · rw [UnaryOp.base_eval]
      exact (he.of_scalar? hv).1
  | none =>
    have hconst : (unary op e l n).constant? Γ = none := by
      rw [constant?_unary, hv]
      rfl
    have hscalar : (unary op e l n).scalar? Γ = none := by rw [scalar?_unary, hv, Option.map_none]
    refine checkedAs_computed hconst ?_ rfl ⟨_, rfl⟩
    show _ = collapse Γ ((unary op e l n).annotate Γ Φ)
      (unary op ((e.annotate Γ Φ).fold Γ) l ((unary op e l n).typing Γ Φ))
    rw [collapse_annotate hscalar, typing, hconst, ← he.tree]
    simp [map, ValueType.typing, ValueType.scalar, base, dims, he.base]

/-- The type in which the checker works is the one to which the operands are promoted. -/
theorem checkedBinary_decides (ha : a.CheckedAs Γ Φ a') (hb : b.CheckedAs Γ Φ b')
    (op : BinaryOp) :
    Decides (Computes Γ Φ op a b) ((binary op a b l n).CheckedAs Γ Φ)
      (checkedBinary op a' b' l) := by
  have hfolded : foldedBinary? op a' b' = (binary op a b l n).scalar? Γ := by
    rw [scalar?_binary, foldedBinary?, ha.value?, hb.value?]
    rfl
  unfold checkedBinary
  refine Decides.congr (V := _ ∧ _ ∧ _ ∧ True)
    (Decides.guard fun _ => Decides.guard fun _ => Decides.guard fun _ => ?_) ?_
  · rw [hfolded]
    cases hv : (binary op a b l n).scalar? Γ with
    | some u =>
      refine Decides.pure (checkedAs_constant (e := binary op a b l n) ?_ ?_ rfl rfl)
      · rw [constant?_binary, ← scalar?_binary, hv]
        rfl
      · rw [scalar?_binary] at hv
        obtain ⟨v, hav, hv⟩ := Option.bind_eq_some_iff.mp hv
        obtain ⟨w, hbw, hv⟩ := Option.bind_eq_some_iff.mp hv
        rw [BinaryOp.base_of_eval? hv, (ha.of_scalar? hav).1, (hb.of_scalar? hbw).1]
        rfl
    | none =>
      have hconst : (binary op a b l n).constant? Γ = none := by
        rw [constant?_binary, ← scalar?_binary, hv]
        rfl
      refine Decides.pure (checkedAs_computed hconst ?_ rfl ⟨_, rfl⟩)
      show _ = collapse Γ ((binary op a b l n).annotate Γ Φ)
        (binary op ((a.annotate Γ Φ).fold Γ) ((b.annotate Γ Φ).fold Γ) l
          ((binary op a b l n).typing Γ Φ))
      rw [collapse_annotate hv, typing, hconst, ← ha.tree, ← hb.tree]
      simp [map, ValueType.typing, ValueType.scalar, base, dims, ha.base, hb.base]
  · -- The checker looks for a zero in the folded divisor, the rule in its value.
    rw [hb.value?, ha.base, hb.base]
    unfold Computes
    cases b.scalar? Γ with
    | none => simp
    | some v => cases op <;> simp

/-- A subscript or an extent that is known becomes an integer literal in its place. -/
theorem CheckedAs.truncated (hi : i.CheckedAs Γ Φ i') {v : Scalar} (hv : i.scalar? Γ = some v) :
    (constant (.int v.asInt) i'.location).map ValueType.typing =
      ((i.annotateExtent Γ Φ).fold Γ).truncated := by
  have hscalar : (i.annotate Γ Φ).scalar? Γ = some v := by rw [scalar?_annotate, hv]
  have hextent : (i.annotateExtent Γ Φ).scalar? Γ = some v := by
    rw [annotateExtent, scalar?_withNote, hscalar]
  have hlocation : i'.location = i.location := by
    have htree := congrArg location hi.tree
    rwa [location_map, fold_eq_literal Γ hscalar, location, location_annotate] at htree
  rw [fold_eq_literal Γ hextent, truncated_literal, annotateExtent, note_withNote,
    location_withNote, location_annotate, subscriptTyping, hv, hlocation]
  rfl

/-- A subscript that is not known stays what it is. -/
theorem CheckedAs.not_truncated (hi : i.CheckedAs Γ Φ i') (hv : i.scalar? Γ = none) :
    i'.map ValueType.typing = ((i.annotateExtent Γ Φ).fold Γ).truncated := by
  have htyping : i.subscriptTyping Γ Φ = (i.annotate Γ Φ).note := by
    rw [subscriptTyping, hv, note_annotate]
    rfl
  rw [annotateExtent, htyping, withNote_note, truncated_of_value?_eq_none, hi.tree]
  rw [value?_fold, scalar?_annotate, hv]

/-- An index that has no value stays one. -/
theorem checkedAs_index (ha : a.CheckedAs Γ Φ a') {t : ValueType}
    (hi : i'.map ValueType.typing = ((i.annotateExtent Γ Φ).fold Γ).truncated)
    (hscalar : (index a i l n).scalar? Γ = none)
    (htable : t.table? = (index a i l n).constant? Γ) (hproper : t.Proper)
    (hplace : (t.isPlace && !t.isConst) = a.isStorable Γ) (hbase : t.base = a'.note.base)
    (hdims : t.dims = a'.note.dims.drop 1) :
    (index a i l n).CheckedAs Γ Φ (index a' i' l t) := by
  refine ⟨?_, htable, hproper, hplace⟩
  have htyping : t.typing = (index a i l n).typing Γ Φ := by
    rw [typing, ← htable, hproper.table?_isSome]
    simp [ValueType.typing, base, dims, hbase, hdims, ha.base, ha.dims]
  show _ = collapse Γ ((index a i l n).annotate Γ Φ)
    (index ((a.annotate Γ Φ).fold Γ) ((i.annotateExtent Γ Φ).fold Γ).truncated l
      ((index a i l n).typing Γ Φ))
  rw [collapse_annotate hscalar, ← ha.tree, ← hi, ← htyping]
  rfl

/-- An element that only the running program knows has no value. -/
theorem checkedAs_element (ha : a.CheckedAs Γ Φ a')
    (hi : i'.map ValueType.typing = ((i.annotateExtent Γ Φ).fold Γ).truncated)
    (hconst : (index a i l n).constant? Γ = none) :
    (index a i l n).CheckedAs Γ Φ (index a' i' l a'.note.element) := by
  refine checkedAs_index l n ha hi ?_ ?_ (ValueType.proper_element _) ?_ rfl rfl
  · rw [scalar?, hconst, Option.bind_none]
  · rw [hconst]
    rfl
  · simp [ValueType.element, ha.place]

/-- An array that is constant cannot be stored to, nor can a part of it. -/
theorem CheckedAs.not_storable (ha : a.CheckedAs Γ Φ a') {t : Table}
    (ht : a.constant? Γ = some t) : a.isStorable Γ = false := by
  have hconst := ha.proper.table?_isSome
  rw [ha.table, ht] at hconst
  rw [← ha.place, ← hconst, Option.isSome_some, Bool.not_true, Bool.and_false]

/-- A row of a constant array is constant, and a value if no extent is left. -/
theorem checkedAs_row (ha : a.CheckedAs Γ Φ a') (hi : i.CheckedAs Γ Φ i') {v : Scalar}
    (hv : i.scalar? Γ = some v) {u : ValueType} (hu : a'.note.at? v.asInt.toInt = some u) :
    (index a i l n).CheckedAs Γ Φ
      (match u.value? with
        | some w => constant w l
        | none => index a' (constant (.int v.asInt) i'.location) l u) := by
  obtain ⟨hproper, hconst, hplace, hbase, hdims⟩ := ha.proper.at?_eq_some hu
  have hindex : (index a i l n).constant? Γ = u.table? := by
    have hrow := ha.proper.table?_at? v.asInt.toInt
    rw [hu, Option.bind_some, ha.table] at hrow
    simp [constant?_index, hv, hrow]
  have hstorable : a.isStorable Γ = false := by
    cases ht : a.constant? Γ with
    | none =>
      -- The row would have no table either, but it is constant.
      have hsome := hproper.table?_isSome
      rw [← hindex, constant?_index, ht, hconst] at hsome
      cases hsome
    | some t => exact ha.not_storable ht
  cases hw : u.value? with
  | none =>
    refine checkedAs_index l n ha (hi.truncated hv) ?_ hindex.symm hproper ?_ hbase hdims
    · rw [scalar?, hindex, ← ValueType.value?_eq, hw]
    · rw [hconst, hstorable, Bool.not_true, Bool.and_false]
  | some w =>
    refine checkedAs_constant (e := index a i l n) ?_ ?_ ?_ hstorable
    · rw [hindex, hproper.table?_of_value? hw]
    · rw [hproper.base_value hw, hbase, ha.base]
      rfl
    · rw [dims, ← ha.dims, ← hdims, ValueType.dims_eq_nil_of_value? hw]

/-- Only a constant array has an extent to hold a known index against. -/
theorem checkedIndex_decides (ha : a.CheckedAs Γ Φ a') (hi : i.CheckedAs Γ Φ i') :
    Decides (InRange Γ a i) ((index a i l n).CheckedAs Γ Φ) (checkedIndex a' i' l) := by
  unfold checkedIndex
  rw [hi.value?]
  cases hv : i.scalar? Γ with
  | none =>
    have hconst : (index a i l n).constant? Γ = none := by simp [constant?_index, hv]
    refine Decides.congr
      (Decides.pure (checkedAs_element l n ha (hi.not_truncated hv) hconst)) ?_
    simp [InRange, hv]
  | some v =>
    by_cases hwindow : a'.note.window = none
    · -- Of a variable only the running program knows the elements, so any index will do.
      have hnone : a.constant? Γ = none := by rw [← ha.table, ValueType.table?_eq_none hwindow]
      have hconst : (index a i l n).constant? Γ = none := by simp [constant?_index, hnone]
      simp only [hwindow, Option.isNone_none, if_true]
      refine Decides.congr (Decides.pure (checkedAs_element l n ha (hi.truncated hv) hconst)) ?_
      simp [InRange, hnone]
    · -- A constant has its table at hand, and the window finds a row exactly if the table does.
      obtain ⟨t, ht⟩ : ∃ t, a.constant? Γ = some t := by
        rw [← ha.table, ← Option.isSome_iff_exists, ha.proper.table?_isSome, ha.proper.isConst_eq]
        exact Option.isSome_iff_ne_none.mpr hwindow
      have hrow := ha.proper.table?_at? v.asInt.toInt
      rw [ha.table, ht, Option.bind_some] at hrow
      simp only [Option.isNone_iff_eq_none, hwindow, if_false]
      cases hu : a'.note.at? v.asInt.toInt with
      | none =>
        refine Decides.report.congr (iff_of_false not_false fun hrange => ?_)
        have hsome := hrange t v ht hv
        rw [← hrow, hu] at hsome
        cases hsome
      | some u =>
        have hrange : InRange Γ a i := by
          intro t' v' ht' hv'
          obtain rfl := Option.some.inj (ht.symm.trans ht')
          obtain rfl := Option.some.inj (hv.symm.trans hv')
          obtain ⟨hproper, hconst, -⟩ := ha.proper.at?_eq_some hu
          rw [← hrow, hu, Option.bind_some, hproper.table?_isSome, hconst]
        have hchecked := checkedAs_row l n ha hi hv hu
        refine Decides.congr ?_ (iff_of_true trivial hrange)
        dsimp only
        cases hw : u.value? with
        | none =>
          rw [hw] at hchecked
          exact Decides.pure hchecked
        | some w =>
          rw [hw] at hchecked
          exact Decides.pure hchecked

end Node

/-! ### Whole expressions -/

/-- What checking makes of a list of expressions. -/
def AllCheckedAs (Γ : Context) (Φ : Headings) (es : List (Expr α)) (es' : List (Expr ValueType)) :
    Prop :=
  mapAll ValueType.typing es' = foldAll Γ (annotateAll Γ Φ es)

/-- Only a list with one argument for each parameter is valid. -/
theorem ArgumentsValid.length_eq {params : Context} {es : List (Expr α)}
    (h : ArgumentsValid Γ Φ params es) : es.length = params.length := by
  induction es generalizing params with
  | nil =>
    cases params with
    | nil => rfl
    | cons param params => cases h
  | cons e es ih =>
    cases params with
    | nil => cases h
    | cons param params => rw [List.length_cons, List.length_cons, ih h.2]

mutual

/-- Checking an expression succeeds if and only if the expression keeps the rules, and
then gives the annotated and folded tree. -/
theorem check_decides (hc : c.Agrees Γ Φ) : ∀ e : Expr α,
    Decides (e.Valid Γ Φ) (e.CheckedAs Γ Φ) (e.check c)
  | var name l n => checkedVar_decides hc name l n
  | literal v l n => Decides.pure (checkedAs_constant (e := literal v l n) rfl rfl rfl rfl)
  | unary op e l n => by
    rw [Valid]
    refine (check_decides hc e).bind ?_
    intro _ e' he
    exact (requireScalar_decides he _).map fun _ _ _ => checkedUnary_checkedAs l n he op
  | binary op a b l n => by
    refine ((check_decides hc a).bind fun _ a' ha =>
      (requireScalar_decides ha _).bind fun _ _ _ =>
        (check_decides hc b).bind fun _ b' hb =>
          (requireScalar_decides hb _).bind fun _ _ _ =>
            checkedBinary_decides l n ha hb op).congr ?_
    simp [Valid, and_assoc]
  | assign a b l n => by
    refine ((check_decides hc a).bind fun _ a' ha =>
      (requireAssignable_decides ha).bind fun _ _ _ =>
        (check_decides hc b).bind fun _ b' hb =>
          (requireScalar_decides hb _).map fun _ _ _ => ?_).congr ?_
    · refine checkedAs_computed rfl ?_ rfl ⟨_, rfl⟩
      rw [annotate, fold, ← ha.tree, ← hb.tree]
      simp [map, ValueType.typing, ValueType.scalar, typing, constant?, base, dims, ha.base]
    · simp [Valid, and_assoc]
  | call callee args l n => by
    cases callee with
    | var name k m =>
      have hfunction := hc.functions name
      unfold check
      dsimp only
      cases hs : c.functions.get? name with
      | none =>
        rw [hs, Option.map_none] at hfunction
        exact Decides.report.congr (by simp [Valid, hfunction])
      | some s =>
        rw [hs, Option.map_some] at hfunction
        have hvalid : (call (var name k m) args l n).Valid Γ Φ ↔
            ArgumentsValid Γ Φ s.heading.params args := by
          simp [Valid, hfunction]
        rw [hvalid]
        refine Decides.congr (V := ¬ args.length ≠ s.params.length ∧ _)
          (Decides.guard fun hlength =>
            (checkArguments_decides hc name 1 s.params args (by simpa using hlength)).map
              fun _ args' hargs => ?_) ?_
        · refine checkedAs_computed rfl ?_ rfl ⟨_, rfl⟩
          rw [annotate, fold, ← hargs]
          simp [map, ValueType.typing, Signature.result, ValueType.scalar, typing, constant?, base,
            dims, hfunction, Signature.heading]
        · -- The test for the number of arguments is part of what makes them valid.
          rw [ne_eq, Decidable.not_not]
          refine and_iff_right_of_imp fun h => ?_
          simpa [Signature.heading] using h.length_eq
    | _ => exact Decides.report.congr (by simp [Valid])
  | index a i l n => by
    -- The test for an array stands between the two parts, so it is decided with the second.
    have hguard {a' : Expr ValueType} (ha : a.CheckedAs Γ Φ a') :
        ¬ (!a'.note.isArray) = true ↔ a.dims Γ ≠ [] := by
      simp [ValueType.isArray, ha.dims]
    refine Decides.congr (V := a.Valid Γ Φ ∧ a.dims Γ ≠ [] ∧ _ ∧ _ ∧ _)
      ((check_decides hc a).bind fun _ a' ha => Decides.congr
        (Decides.guard fun _ => (check_decides hc i).bind fun _ i' hi =>
          (requireScalar_decides hi _).bind fun _ _ _ => checkedIndex_decides l n ha hi)
        (and_congr_left' (hguard ha))) ?_
    simp [Valid, and_assoc]

theorem checkArguments_decides (hc : c.Agrees Γ Φ) (function : String) :
    ∀ (position : Nat) (params : List Parameter) (es : List (Expr α)),
      es.length = params.length →
      Decides (ArgumentsValid Γ Φ (params.map fun p => (p.name, p.type.meaning)) es)
        (AllCheckedAs Γ Φ es) (checkArguments c function position params es)
  | _, [], [], _ => Decides.pure rfl
  | position, p :: params, e :: es, hlength => by
    have hlength' : es.length = params.length := by simpa using hlength
    refine ((check_decides hc e).bind fun _ e' he =>
      (requireArgument_decides he function position p).bind fun _ _ _ =>
        (checkArguments_decides hc function (position + 1) params es hlength').map
          fun _ es' hes => ?_).congr ?_
    · rw [AllCheckedAs] at hes ⊢
      rw [mapAll, annotateAll, foldAll, he.tree, hes]
    · simp [ArgumentsValid, and_assoc]

end

end Expr

end SysYFront
