import SysYFront.Proofs.Readable
import SysYFront.Proofs.Storage.Refusal
import SysYFront.Proofs.Storage.Valid

/-!
# SysYFront.Proofs.Storage.Assign

**Assignments reach mutable scalars only, and each of these can be assigned to**
(`assigns_to_mutable_scalars`). Whatever subscripts a target has, known or not, what decides is the
declaration that its root refers to: it has to be a parameter or a variable that is not constant,
and the target has to have as many subscripts as the declaration has dimensions.

The rules speak of the place and the dimensions of the target instead (`Expr.IsTarget`). Both can
be told from the root, since a subscript keeps the place and drops one dimension.
-/

namespace SysYFront

variable {α : Type} {Γ : Context} {Φ : Headings} {B : Bindings α}

namespace Expr

/-! ### Targets and their roots -/

theorem isStorable_root (Γ : Context) (e : Expr α) : e.root.isStorable Γ = e.isStorable Γ := by
  fun_induction root e with
  | case1 a i l n ih => exact ih
  | case2 e _ => rfl

theorem dims_eq_drop (Γ : Context) (e : Expr α) :
    e.dims Γ = (e.root.dims Γ).drop e.subscripts := by
  fun_induction root e with
  | case1 a i l n ih => rw [dims, ih, List.drop_drop, subscripts]
  | case2 e hindex => cases e <;> first | rfl | exact absurd rfl (hindex _ _ _ _)

/-- In a valid expression every subscript drops a dimension of the root. -/
theorem subscripts_le {e : Expr α} (h : e.Valid Γ Φ) :
    e.subscripts ≤ (e.root.dims Γ).length := by
  induction e using root.induct with
  | case1 a i l n ih =>
    obtain ⟨⟨ha, hdims⟩, -⟩ := h
    rw [dims_eq_drop, Ne, List.drop_eq_nil_iff, Nat.not_le] at hdims
    exact hdims
  | case2 e hindex => cases e <;> first | exact Nat.zero_le _ | exact absurd rfl (hindex _ _ _ _)

/-- What has no name as its root is neither a place nor an array. -/
theorem exists_root_or (Γ : Context) : ∀ e : Expr α,
    (∃ name l n, e.root = var name l n) ∨ e.isStorable Γ = false ∧ e.dims Γ = []
  | var name l n => .inl ⟨name, l, n, rfl⟩
  | index a _ _ _ => by
    rcases exists_root_or Γ a with hroot | ⟨hstorable, hdims⟩
    · exact .inl hroot
    · refine .inr ⟨hstorable, ?_⟩
      rw [dims, hdims]
      rfl
  | literal _ _ _ | unary _ _ _ _ | binary _ _ _ _ _ | assign _ _ _ _ | call _ _ _ _ =>
    .inr ⟨rfl, rfl⟩

/-- What can be stored to is a name under subscripts, and the name is that of a variable. -/
theorem exists_root_of_isStorable {e : Expr α} (h : e.isStorable Γ = true) :
    ∃ name l n m, e.root = var name l n ∧ Γ.lookup name = some m ∧ m.cells = none := by
  rcases exists_root_or Γ e with ⟨name, l, n, hroot⟩ | ⟨hstorable, -⟩
  · rw [← isStorable_root, hroot, isStorable, Option.any_eq_true_iff_get] at h
    obtain ⟨hsome, hcells⟩ := h
    obtain ⟨m, hm⟩ := Option.isSome_iff_exists.mp hsome
    refine ⟨name, l, n, m, hroot, hm, ?_⟩
    simpa [hm] using hcells
  · rw [hstorable] at h
    cases h

theorem IsMutableScalar.isTarget {e : Expr α} (hB : B.Matches Γ) (h : e.IsMutableScalar B) :
    e.IsTarget Γ := by
  obtain ⟨b, ⟨name, l, n, hroot, hb⟩, hconst, hrank⟩ := h
  obtain ⟨m, hm, hcells, hdims⟩ := hB.lookup_eq_some hb
  constructor
  · rw [← isStorable_root, hroot, isStorable, hm]
    simpa [hconst] using hcells
  · rw [dims_eq_drop, hroot, dims, hm, hrank, hdims]
    exact List.drop_length

theorem IsTarget.isMutableScalar {e : Expr α} (hB : B.Matches Γ) (hvalid : e.Valid Γ Φ)
    (h : e.IsTarget Γ) : e.IsMutableScalar B := by
  obtain ⟨hstorable, hdims⟩ := h
  obtain ⟨name, l, n, m, hroot, hm, hcells⟩ := exists_root_of_isStorable hstorable
  obtain ⟨b, hb, hconst, hrank⟩ := hB.exists_lookup hm
  refine ⟨b, ⟨name, l, n, hroot, hb⟩, by rw [hconst, hcells]; rfl, ?_⟩
  have hle := subscripts_le hvalid
  have hroots : e.root.dims Γ = m.dims := by
    rw [hroot, dims, hm]
    rfl
  rw [dims_eq_drop, List.drop_eq_nil_iff] at hdims
  rw [hrank, ← hroots]
  exact Nat.le_antisymm hle hdims

end Expr

/-! ### Programs -/

/-- In a program that keeps the rules, every assignment is to a mutable scalar. -/
theorem Program.Contains.isMutableScalar {p : Program α} {a b : Expr α} {l : Location} {n : α}
    (h : p.Contains B (.assign a b l n)) (hp : p.Valid) : a.IsMutableScalar B := by
  obtain ⟨Γ, hB, ⟨ha, htarget⟩, -⟩ := h.valid hp (by simp [Expr.IsName])
  exact Expr.IsTarget.isMutableScalar hB ha htarget

/-- **Assignments reach mutable scalars only, and all of them.** In a program that was read and is
accepted, the target of every assignment is a name under subscripts, the name refers to a parameter
or to a variable that is not constant, and there are as many subscripts as its declaration has
dimensions. And where a program is refused for the target of an assignment, some assignment in it
has at that place a target that is not one of these. -/
theorem assigns_to_mutable_scalars {p : Program Unit} (hp : p.Readable) :
    (∀ r, checkFresh p = .ok r →
      ∀ B a b l n, p.Contains B (.assign a b l n) → a.IsMutableScalar B) ∧
    (∀ d, checkFresh p = .error d → d.problem.isOfTarget = true →
      ∃ B a b l n, p.Contains B (.assign a b l n) ∧ a.location = d.location ∧
        ¬ a.IsMutableScalar B) := by
  constructor
  · intro r hr B a b l n hcontains
    have hvalid : p.Valid := ((checkFresh_decides p hp.voidFree).of_ok hr).1
    exact hcontains.isMutableScalar hvalid
  · intro d hd htarget
    obtain ⟨site, hsite, Γ, hB, hrefuses⟩ :=
      (p.check_refusesAt hp.voidFree).of_checkFresh hd htarget
    obtain ⟨a, b, l, n, hpart, hlocation, hnot⟩ := hrefuses htarget
    exact ⟨site.1, a, b, l, n, ⟨site.2, hsite, hpart⟩, hlocation, fun h => hnot (h.isTarget hB)⟩

/-! ### A program that assigns to an element

    const int a[1] = {1};
    void f(int v[]) { v[0] = 2; }

and the same program with another name in the place of the assigned `v`. -/

/-- The tokens of the program above, all at one place. -/
def fillTokens (target : String) : TokenStream where
  tokens := List.map (fun kind => ⟨kind, .nowhere⟩) [
    .keyword .constKw, .keyword .intKw, .name "a", .symbol .leftBracket, .intLiteral 1,
    .symbol .rightBracket, .symbol .equal, .symbol .leftBrace, .intLiteral 1, .symbol .rightBrace,
    .symbol .semicolon, .keyword .voidKw, .name "f", .symbol .leftParen, .keyword .intKw,
    .name "v", .symbol .leftBracket, .symbol .rightBracket, .symbol .rightParen,
    .symbol .leftBrace, .name target, .symbol .leftBracket, .intLiteral 0, .symbol .rightBracket,
    .symbol .equal, .intLiteral 2, .symbol .semicolon, .symbol .rightBrace]
  finish := .nowhere

/-- The constant array of the program above. -/
def filledArray : Decl Unit where
  name := "a"
  isConst := true
  base := .int
  dims := [.literal (.int 1) .nowhere ()]
  init := some (.list [.expr (.literal (.int 1) .nowhere ())] .nowhere)
  location := .nowhere
  note := ()

/-- The first element of the array that is assigned to. -/
def firstElement (target : String) : Expr Unit :=
  .index (.var target .nowhere ()) (.literal (.int 0) .nowhere ()) .nowhere ()

/-- The function of the program above. -/
def filler (target : String) : Function Unit where
  name := "f"
  returns := .void
  params := [⟨"v", .int, [], true, .nowhere⟩]
  body := ⟨[.stmt (.expr (.assign (firstElement target) (.literal (.int 2) .nowhere ())
    .nowhere ()) .nowhere)], .nowhere⟩
  location := .nowhere

/-- The tree of the program above. -/
def fill (target : String) : Program Unit :=
  [.global filledArray, .function (filler target)]

theorem fill_readable (target : String) : (fill target).Readable :=
  ⟨fillTokens target, rfl⟩

/-- An element of the parameter may be assigned to, an element of the constant array may not, and
the checker tells so at an assignment that is to blame. -/
theorem fill_assigns : (fill "v").Readable ∧ (fill "a").Readable ∧
    (∃ r B b l n, checkFresh (fill "v") = .ok r ∧
      (fill "v").Contains B (.assign (firstElement "v") b l n) ∧
      (firstElement "v").IsMutableScalar B) ∧
    checkFresh (fill "a") = .error ⟨.assignToConst, .nowhere⟩ ∧
    ∃ B a b l n, (fill "a").Contains B (.assign a b l n) ∧ a.location = .nowhere ∧
      ¬ a.IsMutableScalar B := by
  have hcontains : (fill "v").Contains ((filler "v").bindings ++ (fill "v").bindings)
      (.assign (firstElement "v") (.literal (.int 2) .nowhere ()) .nowhere ()) :=
    ⟨_, List.mem_cons_of_mem _ (List.mem_cons_of_mem _ List.mem_cons_self), List.mem_cons_self⟩
  have herror : checkFresh (fill "a") = .error ⟨.assignToConst, .nowhere⟩ := rfl
  have haccepted := (assigns_to_mutable_scalars (fill_readable "v")).1 _ rfl _ _ _ _ _ hcontains
  have hrefused := (assigns_to_mutable_scalars (fill_readable "a")).2 _ herror rfl
  exact ⟨fill_readable "v", fill_readable "a", ⟨_, _, _, _, _, rfl, hcontains, haccepted⟩,
    herror, hrefused⟩

end SysYFront
