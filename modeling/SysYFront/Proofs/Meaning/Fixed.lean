import SysYFront.Proofs.Meaning.Folding
import SysYFront.Proofs.Meaning.Rules

/-!
# SysYFront.Proofs.Meaning.Fixed

An expression that is constant neither calls nor assigns, and names only constants. So
functions do not matter to it: it keeps the rules, and has its types, whichever functions
there are. That is why the extents and the global declarations of a program, which have to
be constant, can be judged before any function is known.
-/

namespace SysYFront

variable {α : Type} {Γ : Context} {Φ Ψ : Headings}

namespace Expr

/-- What has a value is constant. -/
theorem constant?_isSome_of_scalar? {e : Expr α} {v : Scalar} (h : e.scalar? Γ = some v) :
    (e.constant? Γ).isSome := by
  obtain ⟨t, ht, -⟩ := Option.bind_eq_some_iff.mp h
  rw [ht]
  rfl

/-- Only fixed expressions are constant. -/
theorem isFixed_of_constant? : ∀ {e : Expr α}, (e.constant? Γ).isSome → e.isFixed Γ
  | var _ _ _, h => h
  | literal _ _ _, _ => rfl
  | unary op e l n, h => by
    rw [constant?_unary, Option.isSome_map] at h
    exact isFixed_of_constant? (e := e) (Option.isSome_of_isSome_bind h)
  | binary op a b l n, h => by
    rw [constant?_binary, Option.isSome_map] at h
    obtain ⟨u, hu⟩ := Option.isSome_iff_exists.mp h
    obtain ⟨v, hv, hu⟩ := Option.bind_eq_some_iff.mp hu
    obtain ⟨w, hw, -⟩ := Option.bind_eq_some_iff.mp hu
    have ha := isFixed_of_constant? (constant?_isSome_of_scalar? hv)
    have hb := isFixed_of_constant? (constant?_isSome_of_scalar? hw)
    rw [isFixed, ha, hb, Bool.and_self]
  | index a i l n, h => by
    rw [constant?_index] at h
    obtain ⟨r, hr⟩ := Option.isSome_iff_exists.mp h
    obtain ⟨t, ht, hr⟩ := Option.bind_eq_some_iff.mp hr
    obtain ⟨v, hv, -⟩ := Option.bind_eq_some_iff.mp hr
    have ha := isFixed_of_constant? (e := a) (by rw [ht]; rfl)
    have hi := isFixed_of_constant? (constant?_isSome_of_scalar? hv)
    rw [isFixed, ha, hi, Bool.and_self]

theorem isFixed_of_scalar? {e : Expr α} (h : (e.scalar? Γ).isSome) : e.isFixed Γ := by
  obtain ⟨v, hv⟩ := Option.isSome_iff_exists.mp h
  exact isFixed_of_constant? (constant?_isSome_of_scalar? hv)

/-- An expression that calls, assigns or names a variable is never folded into a literal. -/
theorem value?_fold_of_not_isFixed {e : Expr α} (h : e.isFixed Γ = false) :
    (e.fold Γ).value? = none := by
  rw [value?_fold, ← Option.not_isSome_iff_eq_none]
  intro hsome
  rw [isFixed_of_scalar? hsome] at h
  cases h

/-! ### Functions do not matter to what is fixed -/

section Fixed

variable (Φ Ψ)

theorem base_of_isFixed : ∀ {e : Expr α}, e.isFixed Γ → e.base Γ Φ = e.base Γ Ψ
  | var _ _ _, _ | literal _ _ _, _ => rfl
  | unary _ e _ _, h => base_of_isFixed (e := e) h
  | binary _ a b _ _, h => by
    have h' := Bool.and_eq_true_iff.mp h
    rw [base, base, base_of_isFixed h'.1, base_of_isFixed h'.2]
  | index a i _ _, h => base_of_isFixed (e := a) (Bool.and_eq_true_iff.mp h).1

theorem isScalar_of_isFixed {e : Expr α} (h : e.isFixed Γ) :
    e.IsScalar Γ Φ ↔ e.IsScalar Γ Ψ := by
  rw [IsScalar, IsScalar, base_of_isFixed Φ Ψ h]

theorem typing_of_isFixed {e : Expr α} (h : e.isFixed Γ) : e.typing Γ Φ = e.typing Γ Ψ := by
  rw [typing, typing, base_of_isFixed Φ Ψ h]

theorem valid_of_isFixed : ∀ {e : Expr α}, e.isFixed Γ → (e.Valid Γ Φ ↔ e.Valid Γ Ψ)
  | var _ _ _, _ | literal _ _ _, _ => Iff.rfl
  | unary _ e _ _, h => by
    have he : e.isFixed Γ := h
    rw [Valid, Valid, valid_of_isFixed he, isScalar_of_isFixed Φ Ψ he]
  | binary op a b _ _, h => by
    obtain ⟨ha, hb⟩ := Bool.and_eq_true_iff.mp h
    rw [Valid, Valid, valid_of_isFixed ha, valid_of_isFixed hb, isScalar_of_isFixed Φ Ψ ha,
      isScalar_of_isFixed Φ Ψ hb, Computes, Computes, base_of_isFixed Φ Ψ ha,
      base_of_isFixed Φ Ψ hb]
  | index a i _ _, h => by
    obtain ⟨ha, hi⟩ := Bool.and_eq_true_iff.mp h
    rw [Valid, Valid, valid_of_isFixed ha, valid_of_isFixed hi, isScalar_of_isFixed Φ Ψ hi]

theorem annotate_of_isFixed : ∀ {e : Expr α}, e.isFixed Γ → e.annotate Γ Φ = e.annotate Γ Ψ
  | var _ _ _, h | literal _ _ _, h => by rw [annotate, annotate, typing_of_isFixed Φ Ψ h]
  | unary op e l n, h => by
    have he : e.isFixed Γ := h
    rw [annotate, annotate, annotate_of_isFixed he, typing_of_isFixed Φ Ψ h]
  | binary op a b l n, h => by
    obtain ⟨ha, hb⟩ := Bool.and_eq_true_iff.mp h
    rw [annotate, annotate, annotate_of_isFixed ha, annotate_of_isFixed hb,
      typing_of_isFixed Φ Ψ h]
  | index a i l n, h => by
    obtain ⟨ha, hi⟩ := Bool.and_eq_true_iff.mp h
    rw [annotate, annotate, annotate_of_isFixed ha, annotate_of_isFixed hi, subscriptTyping,
      subscriptTyping, typing_of_isFixed Φ Ψ h, typing_of_isFixed Φ Ψ hi]

theorem extentValid_congr (e : Expr α) : e.ExtentValid Γ Φ ↔ e.ExtentValid Γ Ψ := by
  -- An extent has a value, and that is what makes the expression a fixed one.
  refine and_congr_left fun ⟨n, hn, _⟩ => valid_of_isFixed Φ Ψ (isFixed_of_scalar? ?_)
  rw [extent?, Option.map_eq_some_iff] at hn
  obtain ⟨v, hv, -⟩ := hn
  rw [hv]
  rfl

theorem extentsValid_congr (dims : List (Expr α)) :
    ExtentsValid Γ Φ dims ↔ ExtentsValid Γ Ψ dims := by
  simp only [ExtentsValid, extentValid_congr Φ Ψ]

theorem annotateExtent_of_valid {e : Expr α} (h : e.ExtentValid Γ Φ) :
    e.annotateExtent Γ Φ = e.annotateExtent Γ Ψ := by
  obtain ⟨-, n, hn, -⟩ := h
  rw [extent?, Option.map_eq_some_iff] at hn
  obtain ⟨v, hv, -⟩ := hn
  have hsome : (e.scalar? Γ).isSome := by
    rw [hv]
    rfl
  rw [annotateExtent, annotateExtent, annotate_of_isFixed Φ Ψ (isFixed_of_scalar? hsome),
    subscriptTyping, subscriptTyping, if_pos hsome, if_pos hsome]

theorem leafValid_congr (e : Expr α) : e.LeafValid Γ Φ true ↔ e.LeafValid Γ Ψ true := by
  refine and_congr_left fun hknown => ?_
  have hfixed := isFixed_of_scalar? (hknown rfl)
  rw [valid_of_isFixed Φ Ψ hfixed, isScalar_of_isFixed Φ Ψ hfixed]

theorem annotate_of_leafValid {e : Expr α} (h : e.LeafValid Γ Φ true) :
    e.annotate Γ Φ = e.annotate Γ Ψ :=
  annotate_of_isFixed Φ Ψ (isFixed_of_scalar? (h.2 rfl))

end Fixed

end Expr

section Init

variable (Φ Ψ)

mutual

theorem Init.itemValid_congr : ∀ (dims : List Int) (used : Nat) (item : Init α),
    ItemValid Γ Φ true dims used item ↔ ItemValid Γ Ψ true dims used item
  | dims, used, .expr e => by rw [ItemValid, ItemValid, Expr.leafValid_congr Φ Ψ]
  | dims, used, .list items l => by rw [ItemValid, ItemValid, Init.itemsValid_congr _ _ items]

theorem Init.itemsValid_congr : ∀ (dims : List Int) (used : Nat) (items : List (Init α)),
    ItemsValid Γ Φ true dims used items ↔ ItemsValid Γ Ψ true dims used items
  | _, _, [] => Iff.rfl
  | dims, used, item :: items => by
    rw [ItemsValid, ItemsValid, Init.itemValid_congr _ _ item, Init.itemsValid_congr _ _ items]

end

mutual

theorem Init.annotate_of_itemValid : ∀ {dims : List Int} {used : Nat} (item : Init α),
    ItemValid Γ Φ true dims used item → item.annotate Γ Φ = item.annotate Γ Ψ
  | dims, used, .expr e, h => by
    rw [Init.annotate, Init.annotate, Expr.annotate_of_leafValid Φ Ψ h.2]
  | dims, used, .list items l, h => by
    rw [Init.annotate, Init.annotate, Init.annotateAll_of_itemsValid items h.2.2]

theorem Init.annotateAll_of_itemsValid : ∀ {dims : List Int} {used : Nat}
    (items : List (Init α)), ItemsValid Γ Φ true dims used items →
      Init.annotateAll Γ Φ items = Init.annotateAll Γ Ψ items
  | _, _, [], _ => rfl
  | dims, used, item :: items, h => by
    rw [Init.annotateAll, Init.annotateAll, Init.annotate_of_itemValid item h.1,
      Init.annotateAll_of_itemsValid items h.2]

end

/-- Whether a global declaration keeps the rules does not depend on functions. -/
theorem Decl.valid_congr (d : Decl α) : d.Valid Γ Φ true ↔ d.Valid Γ Ψ true := by
  have hinit (dims : List Int) :
      Init.Valid Γ Φ true dims d.init ↔ Init.Valid Γ Ψ true dims d.init := by
    cases d.init with
    | none => exact Iff.rfl
    | some init =>
      cases init with
      | expr e => rw [Init.Valid, Init.Valid, Expr.leafValid_congr Φ Ψ]
      | list items l => rw [Init.Valid, Init.Valid, Init.itemsValid_congr Φ Ψ]
  rw [Decl.Valid, Decl.Valid, Expr.extentsValid_congr Φ Ψ, Bool.or_true, hinit]

/-- Neither do the types in a valid one. -/
theorem Decl.annotate_of_valid {d : Decl α} (h : d.Valid Γ Φ true) :
    d.annotate Γ Φ = d.annotate Γ Ψ := by
  obtain ⟨⟨hextents, -⟩, hinit⟩ := h
  rw [Bool.or_true] at hinit
  have hdims : d.dims.map (Expr.annotateExtent Γ Φ) = d.dims.map (Expr.annotateExtent Γ Ψ) :=
    List.map_congr_left fun e he => Expr.annotateExtent_of_valid Φ Ψ (hextents e he)
  have hinit' : d.init.map (Init.annotate Γ Φ) = d.init.map (Init.annotate Γ Ψ) := by
    cases h : d.init with
    | none => rfl
    | some init =>
      rw [h] at hinit
      cases init with
      | expr e =>
        rw [Option.map_some, Option.map_some, Init.annotate, Init.annotate,
          Expr.annotate_of_leafValid Φ Ψ hinit.2]
      | list items l =>
        rw [Option.map_some, Option.map_some, Init.annotate, Init.annotate,
          Init.annotateAll_of_itemsValid Φ Ψ items hinit.2]
  rw [Decl.annotate, Decl.annotate, hdims, hinit']

end Init

end SysYFront
