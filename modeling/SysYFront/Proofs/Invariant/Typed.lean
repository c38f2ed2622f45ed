import SysYFront.Proofs.Invariant.WellFormed
import SysYFront.Proofs.Outcome

/-!
# SysYFront.Proofs.Invariant.Typed

In a state whose types are well-formed, checking gives well-formed types only: to every node
of an expression, to every declaration, and to every parameter. Nothing else is asked of the
state, so this holds wherever an expression or a declaration stands.
-/

namespace SysYFront

variable {α : Type}

/-! ### Notes of trees -/

mutual

/-- Whether every note of an expression satisfies `P`. -/
def Expr.Every (P : α → Prop) : Expr α → Prop
  | .var _ _ n | .literal _ _ n => P n
  | .unary _ e _ n => e.Every P ∧ P n
  | .binary _ a b _ n | .assign a b _ n | .index a b _ n => a.Every P ∧ b.Every P ∧ P n
  | .call f args _ n => f.Every P ∧ Expr.All P args ∧ P n

/-- Whether every note of a list of expressions satisfies `P`. -/
def Expr.All (P : α → Prop) : List (Expr α) → Prop
  | [] => True
  | e :: es => e.Every P ∧ Expr.All P es

end

mutual

/-- Whether every note of an initializer satisfies `P`. -/
def Init.Every (P : α → Prop) : Init α → Prop
  | .expr e => e.Every P
  | .list items _ => Init.All P items

/-- Whether every note of a list of initializers satisfies `P`. -/
def Init.All (P : α → Prop) : List (Init α) → Prop
  | [] => True
  | i :: is => i.Every P ∧ Init.All P is

end

/-- Whether every note of a declaration satisfies `P`, its own among them. -/
structure Decl.Every (P : α → Prop) (d : Decl α) : Prop where
  dims : Expr.All P d.dims
  init : ∀ i, d.init = some i → i.Every P
  note : P d.note

theorem Expr.Every.note {P : α → Prop} {e : Expr α} (h : e.Every P) : P e.note := by
  cases e with
  | var _ _ n | literal _ _ n => exact h
  | unary _ e _ n => exact h.2
  | binary _ a b _ n | assign a b _ n | index a b _ n | call f args _ n => exact h.2.2

/-! ### States -/

/-- Whether every type in a frame or in the table of functions is well-formed. -/
structure Checker.WellTyped (c : Checker) : Prop where
  frames : ∀ frame ∈ c.scopes.globals :: c.scopes.inner, ∀ entry ∈ frame, entry.2.WellFormed
  params : ∀ entry ∈ c.functions.entries, ∀ p ∈ entry.2.params, p.type.WellFormed
  results : ∀ entry ∈ c.functions.entries, entry.2.result.WellFormed

variable {c : Checker}

theorem Checker.WellTyped.lookup (hc : c.WellTyped) {name : String} {t : ValueType}
    (h : c.scopes.lookup? name = some t) : t.WellFormed := by
  obtain ⟨frame, hframe, hlookup⟩ := List.exists_of_findSome?_eq_some h
  obtain ⟨before, behind, hsplit, -⟩ := List.lookup_eq_some_iff.mp hlookup
  have hentry : (name, t) ∈ frame := hsplit ▸ List.mem_append_right _ List.mem_cons_self
  refine hc.frames frame ?_ _ hentry
  rcases List.mem_append.mp hframe with hinner | hglobals
  · exact List.mem_cons_of_mem _ hinner
  · rw [List.mem_singleton.mp hglobals]
    exact List.mem_cons_self

/-! ### Expressions -/

namespace Expr

open ValueType (WellFormed wellFormed_scalar wellFormed_constant)

variable {e : Expr ValueType} {l : Location}

theorem checkedVar_every (hc : c.WellTyped) {name : String} (h : checkedVar c name l = .ok e) :
    e.Every WellFormed := by
  unfold checkedVar at h
  split at h
  · cases h
  · rename_i t ht
    split at h
    · cases h
      exact wellFormed_constant _
    · cases h
      exact hc.lookup ht

theorem checkedUnary_every (he : e.Every WellFormed) (op : UnaryOp) :
    (checkedUnary op e l).Every WellFormed := by
  unfold checkedUnary
  split
  · exact wellFormed_constant _
  · exact ⟨he, wellFormed_scalar _⟩

theorem checkedBinary_every {op : BinaryOp} {a b : Expr ValueType} (ha : a.Every WellFormed)
    (hb : b.Every WellFormed) (h : checkedBinary op a b l = .ok e) : e.Every WellFormed := by
  simp only [checkedBinary, guard_eq_ok] at h
  obtain ⟨-, -, -, h⟩ := h
  split at h
  · cases h
    exact wellFormed_constant _
  · cases h
    exact ⟨ha, hb, wellFormed_scalar _⟩

theorem checkedIndex_every {a i : Expr ValueType} (ha : a.Every WellFormed)
    (hi : i.Every WellFormed) (h : checkedIndex a i l = .ok e) : e.Every WellFormed := by
  unfold checkedIndex at h
  split at h
  · cases h
    exact ⟨ha, hi, ha.note.element⟩
  · dsimp only at h
    split at h
    · cases h
      exact ⟨ha, wellFormed_constant _, ha.note.element⟩
    · split at h
      · cases h
      · rename_i t ht
        split at h
        · cases h
          exact wellFormed_constant _
        · cases h
          exact ⟨ha, wellFormed_constant _, ha.note.at? ht⟩

mutual

/-- Every node of a checked expression has a well-formed type. -/
theorem check_every (hc : c.WellTyped) : ∀ {e : Expr α} {e' : Expr ValueType},
    e.check c = .ok e' → e'.Every WellFormed
  | .var name l _, e', h => checkedVar_every hc h
  | .literal v l _, e', h => by
    rw [check, pure_eq_ok] at h
    subst h
    exact wellFormed_constant v
  | .unary op e l _, e', h => by
    simp only [check, bind_eq_ok, pure_eq_ok] at h
    obtain ⟨e₁, he, _, _, rfl⟩ := h
    exact checkedUnary_every (check_every hc he) op
  | .binary op a b l _, e', h => by
    simp only [check, bind_eq_ok] at h
    obtain ⟨a₁, ha, _, _, b₁, hb, _, _, h⟩ := h
    exact checkedBinary_every (check_every hc ha) (check_every hc hb) h
  | .assign a b l _, e', h => by
    simp only [check, bind_eq_ok, pure_eq_ok] at h
    obtain ⟨a₁, ha, _, _, b₁, hb, _, _, rfl⟩ := h
    exact ⟨check_every hc ha, check_every hc hb, wellFormed_scalar _⟩
  | .call callee args l _, e', h => by
    cases callee with
    | var name k _ =>
      simp only [check] at h
      split at h
      · cases h
      · rename_i s _
        simp only [guard_eq_ok, bind_eq_ok, pure_eq_ok] at h
        obtain ⟨-, args', hargs, rfl⟩ := h
        exact ⟨wellFormed_scalar _, checkArguments_every hc hargs, wellFormed_scalar _⟩
    | _ => cases h
  | .index a i l _, e', h => by
    simp only [check, bind_eq_ok, guard_eq_ok] at h
    obtain ⟨a₁, ha, -, i₁, hi, _, _, h⟩ := h
    exact checkedIndex_every (check_every hc ha) (check_every hc hi) h

theorem checkArguments_every (hc : c.WellTyped) {f : String} : ∀ {position : Nat}
    {params : List Parameter} {args : List (Expr α)} {args' : List (Expr ValueType)},
    checkArguments c f position params args = .ok args' → Expr.All WellFormed args'
  | _, [], [], args', h | _, [], _ :: _, args', h | _, _ :: _, [], args', h => by
    obtain rfl : [] = args' := by simpa [checkArguments] using h
    exact True.intro
  | _, p :: params, e :: args, args', h => by
    simp only [checkArguments, bind_eq_ok, pure_eq_ok] at h
    obtain ⟨e₁, he, _, _, rest, hrest, rfl⟩ := h
    exact ⟨check_every hc he, checkArguments_every hc hrest⟩

end

theorem checkExtent_every {e : Expr α} {r : Expr ValueType × Int}
    (h : e.checkExtent c = .ok r) : r.1.Every WellFormed ∧ 0 < r.2 := by
  simp only [checkExtent, bind_eq_ok] at h
  obtain ⟨e', -, h⟩ := h
  split at h
  · cases h
  · rename_i v _
    rw [guard_eq_ok, pure_eq_ok] at h
    obtain ⟨hpos, rfl⟩ := h
    refine ⟨wellFormed_constant _, ?_⟩
    rw [Int32.not_le] at hpos
    exact Int32.lt_iff_toInt_lt.mp hpos

theorem checkExtents_every {es : List (Expr α)} {r : List (Expr ValueType) × List Int}
    (h : checkExtents c es = .ok r) : Expr.All WellFormed r.1 ∧ ∀ d ∈ r.2, 0 < d := by
  induction es generalizing r with
  | nil =>
    rw [checkExtents, pure_eq_ok] at h
    subst h
    exact ⟨True.intro, nofun⟩
  | cons e es ih =>
    simp only [checkExtents, bind_eq_ok, pure_eq_ok, Prod.exists] at h
    obtain ⟨e', n, he, es', ns, hes, rfl⟩ := h
    obtain ⟨hfirst, hpos⟩ := checkExtent_every he
    obtain ⟨hothers, hallpos⟩ := ih hes
    exact ⟨⟨hfirst, hothers⟩, List.forall_mem_cons.mpr ⟨hpos, hallpos⟩⟩

end Expr

/-! ### Declarations and parameters -/

open ValueType (WellFormed)

namespace Init

theorem checkLeaf_every (hc : c.WellTyped) {rule : InitRule} {e : Expr α} {e' : Expr ValueType}
    (h : checkLeaf c rule e = .ok e') : e'.Every WellFormed := by
  simp only [checkLeaf, bind_eq_ok, guard_eq_ok, pure_eq_ok] at h
  obtain ⟨e₁, he, _, _, _, rfl⟩ := h
  exact Expr.check_every hc he

mutual

theorem layItem_every (hc : c.WellTyped) {rule : InitRule} {dims : List Int} {start used : Nat} :
    ∀ {item : Init α} {r : Init ValueType × List Placed × Nat},
    layItem c rule dims start used item = .ok r → r.1.Every WellFormed
  | .expr e, r, h => by
    simp only [layItem, guard_eq_ok, bind_eq_ok, pure_eq_ok] at h
    obtain ⟨_, e', he, rfl⟩ := h
    exact checkLeaf_every hc he
  | .list items l, r, h => by
    simp only [layItem, guard_eq_ok, bind_eq_ok, pure_eq_ok, Prod.exists] at h
    obtain ⟨_, _, items', leaves, hitems, rfl⟩ := h
    exact layItems_every hc hitems

theorem layItems_every (hc : c.WellTyped) {rule : InitRule} {dims : List Int}
    {start used : Nat} : ∀ {items : List (Init α)} {r : List (Init ValueType) × List Placed},
    layItems c rule dims start used items = .ok r → Init.All WellFormed r.1
  | [], r, h => by
    rw [layItems, pure_eq_ok] at h
    subst h
    exact True.intro
  | item :: items, r, h => by
    simp only [layItems, bind_eq_ok, pure_eq_ok, Prod.exists] at h
    obtain ⟨item', _, _, hitem, items', _, hitems, rfl⟩ := h
    exact ⟨layItem_every hc hitem, layItems_every hc hitems⟩

end

theorem layOut_every (hc : c.WellTyped) {rule : InitRule} {dims : List Int}
    {init : Option (Init α)} {r : Option (Init ValueType) × List Placed}
    (h : layOut c rule dims init = .ok r) : ∀ i, r.1 = some i → i.Every WellFormed := by
  unfold layOut at h
  split at h
  · cases h
    exact nofun
  · simp only [bind_eq_ok, pure_eq_ok] at h
    obtain ⟨e', he, rfl⟩ := h
    rintro _ ⟨⟩
    exact checkLeaf_every hc he
  · cases h
  · cases h
  · simp only [bind_eq_ok, pure_eq_ok, Prod.exists] at h
    obtain ⟨items', _, hitems, rfl⟩ := h
    rintro _ ⟨⟩
    exact layItems_every hc hitems

end Init

/-- Every note of a checked declaration is well-formed, its own type too. -/
theorem Decl.resolve_every (hc : c.WellTyped) {d : Decl α} (hbase : d.base ≠ .void)
    {d' : Decl ValueType} (h : d.resolve c = .ok d') : d'.Every WellFormed := by
  simp only [resolve, guard_eq_ok, bind_eq_ok, Prod.exists] at h
  obtain ⟨-, dims, extents, hdims, h⟩ := h
  obtain ⟨hall, hpos⟩ := Expr.checkExtents_every hdims
  split at h
  · cases h
  · rename_i count hcount
    simp only [bind_eq_ok, pure_eq_ok, Prod.exists] at h
    obtain ⟨init, leaves, hinit, rfl⟩ := h
    obtain ⟨hsmall, rfl⟩ := Shape.small_of_count? hpos hcount
    exact ⟨hall, Init.layOut_every hc hinit, wellFormed_resolvedType d.isConst hbase hsmall leaves⟩

/-- The extents of a checked parameter are well-formed, and so is the type that callers see. -/
theorem Param.resolve_every {p : Param α} {r : Param ValueType × Parameter}
    (h : p.resolve c = .ok r) : Expr.All WellFormed r.1.dims ∧ r.2.type.WellFormed := by
  simp only [resolve, bind_eq_ok, guard_eq_ok, pure_eq_ok, Prod.exists] at h
  obtain ⟨dims, extents, hdims, hcount, rfl⟩ := h
  obtain ⟨hall, hpos⟩ := Expr.checkExtents_every hdims
  refine ⟨hall, ?_⟩
  rw [Bool.not_eq_true, Option.isNone_eq_false_iff, Option.isSome_iff_exists] at hcount
  obtain ⟨n, hn⟩ := hcount
  obtain ⟨hsmall, -⟩ := Shape.small_of_count? hpos hn
  cases p.isOpen with
  | false => exact ValueType.wellFormed_place p.base hsmall
  | true => exact ValueType.wellFormed_place_open p.base hsmall

theorem Param.resolveAll_every {f : String} {seen : List String} {ps : List (Param α)}
    {rs : List (Param ValueType × Parameter)} (h : resolveAll c f seen ps = .ok rs) :
    ∀ r ∈ rs, Expr.All WellFormed r.1.dims ∧ r.2.type.WellFormed := by
  induction ps generalizing seen rs with
  | nil =>
    rw [resolveAll, pure_eq_ok] at h
    subst h
    exact nofun
  | cons p ps ih =>
    simp only [resolveAll, guard_eq_ok, bind_eq_ok, pure_eq_ok] at h
    obtain ⟨_, r, hr, rs, hrs, rfl⟩ := h
    exact List.forall_mem_cons.mpr ⟨Param.resolve_every hr, ih hrs⟩

end SysYFront
