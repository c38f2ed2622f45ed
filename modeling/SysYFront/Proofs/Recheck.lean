import SysYFront.Compile
import SysYFront.Proofs.Outcome
import SysYFront.Proofs.Readable

/-!
# SysYFront.Proofs.Recheck

**Checking again changes nothing.** A checked program is accepted by a fresh checker,
which gives the same tree, note by note, and the same functions
(`checkFresh_program`).

A checked tree is a normal form of checking: every rule that rewrites a node gives a
node that the same rule leaves alone, and every rule that accepts a node accepts what
it made of it. The two runs also declare the same types in the same order, so they go
through the same states. For programs this has to be put together from three passes,
of which the second and the third each see only what the one before has left.
-/

namespace SysYFront

variable {α : Type}

/-! ### Expressions -/

namespace Expr

@[simp] theorem check_constant (c : Checker) (v : Scalar) (l : Location) :
    (constant v l).check c = .ok (constant v l) := rfl

@[simp] theorem requireScalar_constant (use : Use) (v : Scalar) (l : Location) :
    requireScalar use (constant v l) = .ok () := by
  cases v <;> rfl

theorem checkedVar_recheck {c : Checker} {name : String} {l : Location} {e : Expr ValueType}
    (h : checkedVar c name l = .ok e) : e.check c = .ok e := by
  have h₀ := h
  unfold checkedVar at h
  split at h
  · simp at h
  · split at h
    · rw [pure_eq_ok] at h
      subst h
      rfl
    · rw [pure_eq_ok] at h
      subst h
      exact h₀

theorem checkedUnary_recheck {c : Checker} {op : UnaryOp} {e : Expr ValueType} {l : Location}
    (he : e.check c = .ok e) (hs : requireScalar .unaryOperator e = .ok ()) :
    (checkedUnary op e l).check c = .ok (checkedUnary op e l) := by
  cases hv : e.value? with
  | some v => simp [checkedUnary, hv]
  | none =>
    have hu : checkedUnary op e l = unary op e l (.scalar e.note.base) := by simp [checkedUnary, hv]
    rw [hu, check, bind_eq_ok]
    refine ⟨e, he, ?_⟩
    rw [bind_eq_ok]
    exact ⟨(), hs, by rw [hu]; rfl⟩

theorem checkedBinary_recheck {c : Checker} {op : BinaryOp} {a b e : Expr ValueType} {l : Location}
    (ha : a.check c = .ok a) (hsa : requireScalar .binaryOperator a = .ok ())
    (hb : b.check c = .ok b) (hsb : requireScalar .binaryOperator b = .ok ())
    (h : checkedBinary op a b l = .ok e) : e.check c = .ok e := by
  have h₀ := h
  simp only [checkedBinary] at h
  repeat' split at h
  all_goals first
    | exact absurd h report_ne_ok
    | (rw [pure_eq_ok] at h; subst h)
  · rfl
  · simp only [check, bind_eq_ok]
    exact ⟨a, ha, (), hsa, b, hb, (), hsb, h₀⟩

/-- Of as many arguments as parameters none is lost. -/
theorem checkArguments_length {c : Checker} {f : String} : ∀ {position : Nat}
    {params : List Parameter} {args : List (Expr α)} {args' : List (Expr ValueType)},
    args.length = params.length → checkArguments c f position params args = .ok args' →
      args'.length = params.length
  | _, [], [], args', _, h => by
    obtain rfl : [] = args' := by simpa [checkArguments] using h
    rfl
  | _, p :: params, e :: args, args', hn, h => by
    simp only [checkArguments, bind_eq_ok, pure_eq_ok] at h
    obtain ⟨e₁, he, u, hp, rest, hrest, rfl⟩ := h
    simp [checkArguments_length (by simpa using hn) hrest]

theorem checkedIndex_recheck {c : Checker} {a i e : Expr ValueType} {l : Location}
    (ha : a.check c = .ok a) (hd : a.note.isArray = true)
    (hi : i.check c = .ok i) (hs : requireScalar .arrayIndex i = .ok ())
    (h : checkedIndex a i l = .ok e) : e.check c = .ok e := by
  have recheck {i' : Expr ValueType} {t : ValueType} (hi' : i'.check c = .ok i')
      (hs' : requireScalar .arrayIndex i' = .ok ())
      (h' : checkedIndex a i' l = .ok (index a i' l t)) :
      (index a i' l t).check c = .ok (index a i' l t) := by
    simp only [check, bind_eq_ok, guard_eq_ok]
    exact ⟨a, ha, by simp [hd], i', hi', (), hs', h'⟩
  unfold checkedIndex at h
  split at h
  · rename_i hv
    rw [pure_eq_ok] at h
    subst h
    exact recheck hi hs (by simp [checkedIndex, hv])
  · -- A known index has become an integer literal, which the rule treats as it did the old one.
    dsimp only at h
    split at h
    · rename_i hw
      rw [pure_eq_ok] at h
      subst h
      exact recheck rfl (requireScalar_constant ..) (by simp [checkedIndex, hw])
    · rename_i hw
      split at h
      · simp at h
      · rename_i t ht
        split at h
        · rw [pure_eq_ok] at h
          subst h
          rfl
        · rename_i hn
          rw [pure_eq_ok] at h
          subst h
          exact recheck rfl (requireScalar_constant ..)
            (by simp [checkedIndex, hw, ht, hn])

mutual

/-- A checked expression is accepted again and not changed. -/
theorem check_recheck {c : Checker} : ∀ {e : Expr α} {e' : Expr ValueType},
    e.check c = .ok e' → e'.check c = .ok e'
  | .var name l _, e', h => checkedVar_recheck h
  | .literal v l _, e', h => by
    rw [check, pure_eq_ok] at h
    subst h
    rfl
  | .unary op e l _, e', h => by
    simp only [check, bind_eq_ok, pure_eq_ok] at h
    obtain ⟨e₁, he, u, hs, rfl⟩ := h
    exact checkedUnary_recheck (check_recheck he) hs
  | .binary op a b l _, e', h => by
    simp only [check, bind_eq_ok] at h
    obtain ⟨a₁, ha, u, hsa, b₁, hb, w, hsb, h⟩ := h
    exact checkedBinary_recheck (check_recheck ha) hsa (check_recheck hb) hsb h
  | .assign a b l _, e', h => by
    simp only [check, bind_eq_ok, pure_eq_ok] at h
    obtain ⟨a₁, ha, u, hp, b₁, hb, w, hs, rfl⟩ := h
    simp only [check, bind_eq_ok, pure_eq_ok]
    exact ⟨a₁, check_recheck ha, u, hp, b₁, check_recheck hb, w, hs, rfl⟩
  | .call callee args l _, e', h => by
    cases callee with
    | var name k _ =>
      simp only [check] at h
      split at h
      · simp at h
      · rename_i s hf
        simp only [guard_eq_ok, bind_eq_ok, pure_eq_ok, ne_eq, Decidable.not_not] at h
        obtain ⟨hn, args', hargs, rfl⟩ := h
        have hlen := checkArguments_length hn hargs
        simp only [check, hf, guard_eq_ok, bind_eq_ok, pure_eq_ok, ne_eq, Decidable.not_not]
        exact ⟨hlen, args', checkArguments_recheck hargs, rfl⟩
    | _ => simp [check] at h
  | .index a i l _, e', h => by
    simp only [check, bind_eq_ok, guard_eq_ok] at h
    obtain ⟨a₁, ha, hd, i₁, hi, u, hs, h⟩ := h
    exact checkedIndex_recheck (check_recheck ha) (by simpa using hd) (check_recheck hi) hs h

/-- Checked arguments are accepted again and not changed. -/
theorem checkArguments_recheck {c : Checker} {f : String} : ∀ {position : Nat}
    {params : List Parameter} {args : List (Expr α)} {args' : List (Expr ValueType)},
    checkArguments c f position params args = .ok args' →
      checkArguments c f position params args' = .ok args'
  | _, [], [], args', h | _, [], _ :: _, args', h | _, _ :: _, [], args', h => by
    obtain rfl : [] = args' := by simpa [checkArguments] using h
    simp [checkArguments]
  | _, p :: params, e :: args, args', h => by
    simp only [checkArguments, bind_eq_ok, pure_eq_ok] at h
    obtain ⟨e₁, he, u, hp, rest, hrest, rfl⟩ := h
    simp only [checkArguments, bind_eq_ok, pure_eq_ok]
    exact ⟨e₁, check_recheck he, u, hp, rest, checkArguments_recheck hrest, rfl⟩

end

/-! ### Declarations -/

theorem checkExtent_recheck {c : Checker} {e : Expr α} {r : Expr ValueType × Int}
    (h : e.checkExtent c = .ok r) : r.1.checkExtent c = .ok r := by
  simp only [checkExtent, bind_eq_ok] at h
  obtain ⟨e', -, h⟩ := h
  split at h
  · simp at h
  · rename_i v hv
    rw [guard_eq_ok, pure_eq_ok] at h
    obtain ⟨hpos, rfl⟩ := h
    -- The extent is an integer literal now, which is its own value.
    rw [checkExtent, bind_eq_ok]
    refine ⟨_, check_constant .., ?_⟩
    simp only [value?_constant]
    rw [guard_eq_ok]
    exact ⟨hpos, rfl⟩

theorem checkExtents_recheck {c : Checker} {es : List (Expr α)}
    {r : List (Expr ValueType) × List Int} (h : checkExtents c es = .ok r) :
    checkExtents c r.1 = .ok r := by
  induction es generalizing r with
  | nil =>
    rw [checkExtents, pure_eq_ok] at h
    subst h
    rfl
  | cons e es ih =>
    simp only [checkExtents, bind_eq_ok, pure_eq_ok, Prod.exists] at h
    obtain ⟨e', n, he, es', ns, hes, rfl⟩ := h
    simp only [checkExtents, bind_eq_ok, pure_eq_ok, Prod.exists]
    exact ⟨e', n, checkExtent_recheck he, es', ns, ih hes, rfl⟩

end Expr

namespace Init

theorem checkLeaf_recheck {c : Checker} {rule : InitRule} {e : Expr α} {e' : Expr ValueType}
    (h : checkLeaf c rule e = .ok e') : checkLeaf c rule e' = .ok e' := by
  simp only [checkLeaf, bind_eq_ok, guard_eq_ok, pure_eq_ok] at h
  obtain ⟨e₁, he, u, hs, hk, rfl⟩ := h
  simp only [checkLeaf, bind_eq_ok, guard_eq_ok, pure_eq_ok]
  exact ⟨e₁, Expr.check_recheck he, u, hs, hk, rfl⟩

mutual

/-- A checked item has the same leaves at the same elements as the item before. -/
theorem layItem_recheck {c : Checker} {rule : InitRule} {dims : List Int} {start used : Nat} :
    ∀ {item : Init α} {r : Init ValueType × List Placed × Nat},
    layItem c rule dims start used item = .ok r → layItem c rule dims start used r.1 = .ok r
  | .expr e, r, h => by
    simp only [layItem, guard_eq_ok, bind_eq_ok, pure_eq_ok] at h
    obtain ⟨hu, e', he, rfl⟩ := h
    simp only [layItem, guard_eq_ok, bind_eq_ok, pure_eq_ok]
    exact ⟨hu, e', checkLeaf_recheck he, rfl⟩
  | .list items l, r, h => by
    simp only [layItem, guard_eq_ok, bind_eq_ok, pure_eq_ok, Prod.exists] at h
    obtain ⟨hd, hb, items', leaves, hi, rfl⟩ := h
    simp only [layItem, guard_eq_ok, bind_eq_ok, pure_eq_ok, Prod.exists]
    exact ⟨hd, hb, items', leaves, layItems_recheck hi, rfl⟩

theorem layItems_recheck {c : Checker} {rule : InitRule} {dims : List Int} {start used : Nat} :
    ∀ {items : List (Init α)} {r : List (Init ValueType) × List Placed},
    layItems c rule dims start used items = .ok r → layItems c rule dims start used r.1 = .ok r
  | [], r, h => by
    rw [layItems, pure_eq_ok] at h
    subst h
    rfl
  | item :: items, r, h => by
    simp only [layItems, bind_eq_ok, pure_eq_ok, Prod.exists] at h
    obtain ⟨item', here, used', hi, items', leaves, his, rfl⟩ := h
    simp only [layItems, bind_eq_ok, pure_eq_ok, Prod.exists]
    exact ⟨item', here, used', layItem_recheck hi, items', leaves, layItems_recheck his, rfl⟩

end

theorem layOut_recheck {c : Checker} {rule : InitRule} {dims : List Int} {init : Option (Init α)}
    {r : Option (Init ValueType) × List Placed} (h : layOut c rule dims init = .ok r) :
    layOut c rule dims r.1 = .ok r := by
  unfold layOut at h
  split at h
  · rw [pure_eq_ok] at h
    subst h
    rfl
  · simp only [bind_eq_ok, pure_eq_ok] at h
    obtain ⟨e', he, rfl⟩ := h
    simp only [layOut, bind_eq_ok, pure_eq_ok]
    exact ⟨e', checkLeaf_recheck he, rfl⟩
  · simp at h
  · simp at h
  · simp only [bind_eq_ok, pure_eq_ok, Prod.exists] at h
    obtain ⟨items', leaves, hi, rfl⟩ := h
    simp only [layOut, bind_eq_ok, pure_eq_ok, Prod.exists]
    exact ⟨items', leaves, layItems_recheck hi, rfl⟩

end Init

namespace Decl

theorem resolve_recheck {c : Checker} {d : Decl α} {d' : Decl ValueType}
    (h : d.resolve c = .ok d') : d'.resolve c = .ok d' := by
  simp only [resolve, guard_eq_ok, bind_eq_ok, Prod.exists] at h
  obtain ⟨hn, dims, extents, hd, h⟩ := h
  split at h
  · simp at h
  · rename_i count hc
    simp only [bind_eq_ok, pure_eq_ok, Prod.exists] at h
    obtain ⟨init, leaves, hi, rfl⟩ := h
    simp only [resolve, guard_eq_ok, bind_eq_ok, Prod.exists]
    refine ⟨hn, dims, extents, Expr.checkExtents_recheck hd, ?_⟩
    simp only [hc, bind_eq_ok, pure_eq_ok, Prod.exists]
    exact ⟨init, leaves, Init.layOut_recheck hi, rfl⟩

/-- A checked declaration is accepted in the state of the first check and declares the
same type. -/
theorem check_recheck {c c' : Checker} {d : Decl α} {d' : Decl ValueType}
    (h : d.check c = .ok d' c') : d'.check c = .ok d' c' := by
  simp only [check, Checking.bind_eq_ok, Checking.inspect_eq_ok, Checking.modify_eq_ok,
    Checking.pure_eq_ok] at h ⊢
  obtain ⟨d₁, c₁, ⟨hr, hc⟩, u, c₂, hm, rfl, hc'⟩ := h
  exact ⟨d₁, c₁, ⟨resolve_recheck hr, hc⟩, u, c₂, hm, rfl, hc'⟩

end Decl

/-! ### Statements -/

namespace Stmt

theorem checkCondition_recheck {c c' : Checker} {e : Expr α} {e' : Expr ValueType}
    (h : checkCondition e c = .ok e' c') : checkCondition e' c = .ok e' c' := by
  simp only [checkCondition, Checking.inspect_eq_ok, bind_eq_ok, guard_eq_ok, pure_eq_ok] at h ⊢
  obtain ⟨⟨e₁, he, hs, rfl⟩, hc⟩ := h
  exact ⟨⟨e₁, Expr.check_recheck he, hs, rfl⟩, hc⟩

theorem checkReturned_recheck {c c' : Checker} {e : Expr α} {e' : Expr ValueType} {l : Location}
    (h : checkReturned e l c = .ok e' c') : checkReturned e' l c = .ok e' c' := by
  simp only [checkReturned, Checking.inspect_eq_ok, bind_eq_ok, guard_eq_ok] at h ⊢
  obtain ⟨⟨e₁, he, ha, h⟩, hc⟩ := h
  refine ⟨⟨e₁, ?_, ha, h⟩, hc⟩
  -- Whether a function is running or not, the tests behind the check give back what it gave.
  have hk : e₁ = e' := by
    split at h
    · simpa using h
    · simp only [guard_eq_ok, pure_eq_ok] at h
      exact h.2.2
  rw [← hk]
  exact Expr.check_recheck he

mutual

/-- A checked statement is accepted in the state of the first check, is not changed and
leaves the same state. -/
theorem check_recheck : ∀ {s : Stmt α} {s' : Stmt ValueType} {c c' : Checker},
    check s c = .ok s' c' → check s' c = .ok s' c'
  | .empty l, s', c, c', h | .returnNothing l, s', c, c', h => by
    rw [check, Checking.pure_eq_ok] at h
    obtain ⟨rfl, rfl⟩ := h
    rfl
  | .expr e l, s', c, c', h => by
    rw [check, Checking.map_eq_ok] at h
    obtain ⟨e', hhere, rfl⟩ := h
    obtain ⟨he, hc⟩ := Checking.inspect_eq_ok.mp hhere
    rw [check, Checking.map_eq_ok]
    exact ⟨e', Checking.inspect_eq_ok.mpr ⟨Expr.check_recheck he, hc⟩, rfl⟩
  | .block items l, s', c, c', h => by
    rw [check, Checking.map_eq_ok] at h
    obtain ⟨items', hblock, rfl⟩ := h
    obtain ⟨c₁, hitems, hleave⟩ := Checking.within_eq_ok.mp hblock
    rw [check, Checking.map_eq_ok]
    exact ⟨items', Checking.within_eq_ok.mpr ⟨c₁, checkItems_recheck hitems, hleave⟩, rfl⟩
  | .ifThen e body l, s', c, c', h => by
    rw [check, Checking.bind_eq_ok] at h
    obtain ⟨e', c₁, he, h⟩ := h
    obtain ⟨body', hbody, rfl⟩ := Checking.map_eq_ok.mp h
    rw [check, Checking.bind_eq_ok]
    refine ⟨e', c₁, checkCondition_recheck he, ?_⟩
    exact Checking.map_eq_ok.mpr ⟨body', check_recheck hbody, rfl⟩
  | .ifElse e body otherwise l, s', c, c', h => by
    rw [check, Checking.bind_eq_ok] at h
    obtain ⟨e', c₁, he, h⟩ := h
    obtain ⟨body', c₂, hbody, h⟩ := Checking.bind_eq_ok.mp h
    obtain ⟨other', hother, rfl⟩ := Checking.map_eq_ok.mp h
    rw [check, Checking.bind_eq_ok]
    refine ⟨e', c₁, checkCondition_recheck he, ?_⟩
    rw [Checking.bind_eq_ok]
    refine ⟨body', c₂, check_recheck hbody, ?_⟩
    exact Checking.map_eq_ok.mpr ⟨other', check_recheck hother, rfl⟩
  | .whileLoop e body l, s', c, c', h => by
    rw [check, Checking.bind_eq_ok] at h
    obtain ⟨e', c₁, he, h⟩ := h
    obtain ⟨body', hloop, rfl⟩ := Checking.map_eq_ok.mp h
    obtain ⟨c₂, hbody, hleave⟩ := Checking.within_eq_ok.mp hloop
    rw [check, Checking.bind_eq_ok]
    refine ⟨e', c₁, checkCondition_recheck he, ?_⟩
    rw [Checking.map_eq_ok]
    exact ⟨body', Checking.within_eq_ok.mpr ⟨c₂, check_recheck hbody, hleave⟩, rfl⟩
  | .breakLoop l, s', c, c', h | .continueLoop l, s', c, c', h => by
    rw [check, Checking.map_eq_ok] at h
    obtain ⟨u, hloop, rfl⟩ := h
    rw [check, Checking.map_eq_ok]
    exact ⟨u, hloop, rfl⟩
  | .returnValue e l, s', c, c', h => by
    rw [check, Checking.map_eq_ok] at h
    obtain ⟨e', he, rfl⟩ := h
    rw [check, Checking.map_eq_ok]
    exact ⟨e', checkReturned_recheck he, rfl⟩

theorem checkItem_recheck : ∀ {item : Item α} {item' : Item ValueType} {c c' : Checker},
    checkItem item c = .ok item' c' → checkItem item' c = .ok item' c'
  | .decl d, item', c, c', h => by
    rw [checkItem, Checking.map_eq_ok] at h
    obtain ⟨d', hd, rfl⟩ := h
    rw [checkItem, Checking.map_eq_ok]
    exact ⟨d', Decl.check_recheck hd, rfl⟩
  | .stmt s, item', c, c', h => by
    rw [checkItem, Checking.map_eq_ok] at h
    obtain ⟨s', hs, rfl⟩ := h
    rw [checkItem, Checking.map_eq_ok]
    exact ⟨s', check_recheck hs, rfl⟩

theorem checkItems_recheck : ∀ {items : List (Item α)} {items' : List (Item ValueType)}
    {c c' : Checker}, checkItems items c = .ok items' c' → checkItems items' c = .ok items' c'
  | [], items', c, c', h => by
    rw [checkItems, Checking.pure_eq_ok] at h
    obtain ⟨rfl, rfl⟩ := h
    rfl
  | item :: items, items', c, c', h => by
    rw [checkItems, Checking.bind_eq_ok] at h
    obtain ⟨item', c₁, hitem, h⟩ := h
    obtain ⟨rest', hrest, rfl⟩ := Checking.map_eq_ok.mp h
    rw [checkItems, Checking.bind_eq_ok]
    refine ⟨item', c₁, checkItem_recheck hitem, ?_⟩
    exact Checking.map_eq_ok.mpr ⟨rest', checkItems_recheck hrest, rfl⟩

end

end Stmt

/-! ### Functions and programs -/

theorem Param.resolve_recheck {c : Checker} {p : Param α} {r : Param ValueType × Parameter}
    (h : p.resolve c = .ok r) : r.1.resolve c = .ok r := by
  simp only [resolve, bind_eq_ok, guard_eq_ok, pure_eq_ok, Prod.exists] at h
  obtain ⟨dims, extents, hd, hs, rfl⟩ := h
  simp only [resolve, bind_eq_ok, guard_eq_ok, pure_eq_ok, Prod.exists]
  exact ⟨dims, extents, Expr.checkExtents_recheck hd, hs, rfl⟩

theorem Param.resolveAll_recheck {c : Checker} {f : String} {seen : List String}
    {ps : List (Param α)} {rs : List (Param ValueType × Parameter)}
    (h : resolveAll c f seen ps = .ok rs) : resolveAll c f seen (rs.map Prod.fst) = .ok rs := by
  induction ps generalizing seen rs with
  | nil =>
    rw [resolveAll, pure_eq_ok] at h
    subst h
    rfl
  | cons p ps ih =>
    simp only [resolveAll, guard_eq_ok, bind_eq_ok, pure_eq_ok] at h
    obtain ⟨hn, r, hr, rs, hrs, rfl⟩ := h
    -- The second run tests the same name against the names before it.
    have hname : r.1.name = p.name := by
      simp only [resolve, bind_eq_ok, guard_eq_ok, pure_eq_ok, Prod.exists] at hr
      obtain ⟨_, _, _, _, rfl⟩ := hr
      rfl
    simp only [List.map_cons, resolveAll, guard_eq_ok, bind_eq_ok, pure_eq_ok, hname]
    exact ⟨hn, r, resolve_recheck hr, rs, ih hrs, rfl⟩

/-- Registering a function and checking its body gives a function that is registered
with the same signature and whose body is not changed. The body is checked later than
the head, in another state. -/
theorem Function.recheck {c c' d d' : Checker} {f : Function α} {r : Registered α}
    {f' : Function ValueType} (hr : f.register c = .ok r c') (hb : r.checkBody d = .ok f' d') :
    ∃ r' : Registered ValueType, f'.register c = .ok r' c' ∧ r'.checkBody d = .ok f' d' := by
  simp only [register, resolve, Checking.bind_eq_ok, Checking.inspect_eq_ok, guard_eq_ok,
    bind_eq_ok, pure_eq_ok, Checking.modify_eq_ok, Checking.pure_eq_ok] at hr
  obtain ⟨_, _, ⟨⟨hn, params, hp, rfl⟩, rfl⟩, _, _, rfl, rfl, rfl⟩ := hr
  simp only [Registered.checkBody, Checking.bind_eq_ok, Checking.within_eq_ok,
    Checking.pure_eq_ok] at hb
  obtain ⟨items, _, ⟨d₁, hi, rfl⟩, rfl, rfl⟩ := hb
  -- The second registering has the checked body in hand, and else what the first one had.
  refine ⟨⟨f.name, ⟨f.returns, params.map Prod.snd⟩, params.map Prod.fst, ⟨items, f.body.location⟩,
    f.location⟩, ?_, ?_⟩
  · simp only [register, resolve, Checking.bind_eq_ok, Checking.inspect_eq_ok, guard_eq_ok,
      bind_eq_ok, pure_eq_ok, Checking.modify_eq_ok, Checking.pure_eq_ok]
    exact ⟨_, _, ⟨⟨hn, params, Param.resolveAll_recheck hp, rfl⟩, rfl⟩, (), _, rfl, rfl, rfl⟩
  · simp only [Registered.checkBody, Checking.bind_eq_ok, Checking.within_eq_ok,
      Checking.pure_eq_ok]
    exact ⟨items, _, ⟨d₁, Stmt.checkItems_recheck hi, rfl⟩, rfl, rfl⟩

/-! ### Passes

What one pass over the units of a program did, told by its first unit. -/

namespace TopLevel

variable {δ δ' φ φ' : Type} {c c' : Checker}

theorem mapGlobals_nil_eq_ok {f : δ → Checking δ'} {q : List (TopLevel δ' φ)} :
    mapGlobals f [] c = .ok q c' ↔ [] = q ∧ c = c' := by
  rw [mapGlobals, Checking.pure_eq_ok]

theorem mapGlobals_global_eq_ok {f : δ → Checking δ'} {d : δ} {units : List (TopLevel δ φ)}
    {q : List (TopLevel δ' φ)} :
    mapGlobals f (.global d :: units) c = .ok q c' ↔
      ∃ d' c₁, f d c = .ok d' c₁ ∧
        ∃ units', mapGlobals f units c₁ = .ok units' c' ∧ .global d' :: units' = q := by
  simp only [← Checking.map_eq_ok]
  rw [mapGlobals, Checking.bind_eq_ok]

theorem mapGlobals_function_eq_ok {f : δ → Checking δ'} {g : φ} {units : List (TopLevel δ φ)}
    {q : List (TopLevel δ' φ)} :
    mapGlobals f (.function g :: units) c = .ok q c' ↔
      ∃ units', mapGlobals f units c = .ok units' c' ∧ .function g :: units' = q := by
  rw [mapGlobals, Checking.map_eq_ok]

theorem mapFunctions_nil_eq_ok {f : φ → Checking φ'} {q : List (TopLevel δ φ')} :
    mapFunctions f [] c = .ok q c' ↔ [] = q ∧ c = c' := by
  rw [mapFunctions, Checking.pure_eq_ok]

theorem mapFunctions_global_eq_ok {f : φ → Checking φ'} {d : δ} {units : List (TopLevel δ φ)}
    {q : List (TopLevel δ φ')} :
    mapFunctions f (.global d :: units) c = .ok q c' ↔
      ∃ units', mapFunctions f units c = .ok units' c' ∧ .global d :: units' = q := by
  rw [mapFunctions, Checking.map_eq_ok]

theorem mapFunctions_function_eq_ok {f : φ → Checking φ'} {g : φ} {units : List (TopLevel δ φ)}
    {q : List (TopLevel δ φ')} :
    mapFunctions f (.function g :: units) c = .ok q c' ↔
      ∃ g' c₁, f g c = .ok g' c₁ ∧
        ∃ units', mapFunctions f units c₁ = .ok units' c' ∧ .function g' :: units' = q := by
  simp only [← Checking.map_eq_ok]
  rw [mapFunctions, Checking.bind_eq_ok]

end TopLevel

namespace Program

open TopLevel

/-- The second and the third pass on what they made of a program. -/
theorem functions_recheck {p₁ : List (TopLevel (Decl ValueType) (Function α))}
    {p₂ : List (TopLevel (Decl ValueType) (Registered α))} {p₃ : Program ValueType}
    {c c' d d' : Checker} (h₂ : mapFunctions Function.register p₁ c = .ok p₂ c')
    (h₃ : mapFunctions Registered.checkBody p₂ d = .ok p₃ d') :
    ∃ p₂' : List (TopLevel (Decl ValueType) (Registered ValueType)),
      mapFunctions Function.register p₃ c = .ok p₂' c' ∧
        mapFunctions Registered.checkBody p₂' d = .ok p₃ d' := by
  induction p₁ generalizing p₂ p₃ c d with
  | nil =>
    obtain ⟨rfl, rfl⟩ := mapFunctions_nil_eq_ok.mp h₂
    obtain ⟨rfl, rfl⟩ := mapFunctions_nil_eq_ok.mp h₃
    exact ⟨[], mapFunctions_nil_eq_ok.mpr ⟨rfl, rfl⟩, mapFunctions_nil_eq_ok.mpr ⟨rfl, rfl⟩⟩
  | cons unit units ih =>
    cases unit with
    | global e =>
      obtain ⟨units₂, hu₂, rfl⟩ := mapFunctions_global_eq_ok.mp h₂
      obtain ⟨units₃, hu₃, rfl⟩ := mapFunctions_global_eq_ok.mp h₃
      obtain ⟨units₂', hu₂', hu₃'⟩ := ih hu₂ hu₃
      refine ⟨.global e :: units₂', ?_, ?_⟩
      · exact mapFunctions_global_eq_ok.mpr ⟨units₂', hu₂', rfl⟩
      · exact mapFunctions_global_eq_ok.mpr ⟨units₃, hu₃', rfl⟩
    | function f =>
      obtain ⟨r, c₁, hr, units₂, hu₂, rfl⟩ := mapFunctions_function_eq_ok.mp h₂
      obtain ⟨f', d₁, hf, units₃, hu₃, rfl⟩ := mapFunctions_function_eq_ok.mp h₃
      -- Head and body are checked in different states, each the one of the first run.
      obtain ⟨r', hr', hf'⟩ := Function.recheck hr hf
      obtain ⟨units₂', hu₂', hu₃'⟩ := ih hu₂ hu₃
      refine ⟨.function r' :: units₂', ?_, ?_⟩
      · exact mapFunctions_function_eq_ok.mpr ⟨r', c₁, hr', units₂', hu₂', rfl⟩
      · exact mapFunctions_function_eq_ok.mpr ⟨f', d₁, hf', units₃, hu₃', rfl⟩

/-- The first pass on what all three passes made of a program: the later two do not
touch the declarations. -/
theorem globals_recheck {p : Program α} {p₁ : List (TopLevel (Decl ValueType) (Function α))}
    {p₂ : List (TopLevel (Decl ValueType) (Registered α))} {p₃ : Program ValueType}
    {c c' d d' e e' : Checker} (h₁ : mapGlobals Decl.check p c = .ok p₁ c')
    (h₂ : mapFunctions Function.register p₁ d = .ok p₂ d')
    (h₃ : mapFunctions Registered.checkBody p₂ e = .ok p₃ e') :
    mapGlobals Decl.check p₃ c = .ok p₃ c' := by
  induction p generalizing p₁ p₂ p₃ c d e with
  | nil =>
    obtain ⟨rfl, rfl⟩ := mapGlobals_nil_eq_ok.mp h₁
    obtain ⟨rfl, rfl⟩ := mapFunctions_nil_eq_ok.mp h₂
    obtain ⟨rfl, rfl⟩ := mapFunctions_nil_eq_ok.mp h₃
    exact mapGlobals_nil_eq_ok.mpr ⟨rfl, rfl⟩
  | cons unit units ih =>
    cases unit with
    | global g =>
      obtain ⟨g', c₁, hg, units₁, hu₁, rfl⟩ := mapGlobals_global_eq_ok.mp h₁
      obtain ⟨units₂, hu₂, rfl⟩ := mapFunctions_global_eq_ok.mp h₂
      obtain ⟨units₃, hu₃, rfl⟩ := mapFunctions_global_eq_ok.mp h₃
      exact mapGlobals_global_eq_ok.mpr
        ⟨g', c₁, Decl.check_recheck hg, units₃, ih hu₁ hu₂ hu₃, rfl⟩
    | function f =>
      obtain ⟨units₁, hu₁, rfl⟩ := mapGlobals_function_eq_ok.mp h₁
      obtain ⟨r, d₁, -, units₂, hu₂, rfl⟩ := mapFunctions_function_eq_ok.mp h₂
      obtain ⟨f', e₁, -, units₃, hu₃, rfl⟩ := mapFunctions_function_eq_ok.mp h₃
      exact mapGlobals_function_eq_ok.mpr ⟨units₃, ih hu₁ hu₂ hu₃, rfl⟩

/-- A checked program is accepted in the state of the first check, is not changed and
leaves the same state. -/
theorem check_recheck {p : Program α} {p' : Program ValueType} {c c' : Checker}
    (h : p.check c = .ok p' c') : p'.check c = .ok p' c' := by
  simp only [check, Checking.bind_eq_ok] at h ⊢
  obtain ⟨p₁, c₁, h₁, p₂, c₂, h₂, h₃⟩ := h
  obtain ⟨p₂', h₂', h₃'⟩ := functions_recheck h₂ h₃
  exact ⟨p', c₁, globals_recheck h₁ h₂ h₃, p₂', c₂, h₂', h₃'⟩

end Program

theorem checkFresh_eq_ok {p : Program α} {r : CheckedProgram} :
    checkFresh p = .ok r ↔
      ∃ c, p.check .fresh = .ok r.program c ∧ c.functions = r.functions := by
  unfold checkFresh Checker.checkProgram
  cases p.check .fresh with
  | error d c => simp
  | ok p' c =>
    obtain ⟨q, F⟩ := r
    simp [and_assoc]

/-- **Checking again changes nothing**: the tree with its notes and the table of
functions are exactly those of the first check. -/
theorem checkFresh_program {p : Program Unit} {r : CheckedProgram} (h : checkFresh p = .ok r) :
    checkFresh r.program = .ok r := by
  rw [checkFresh_eq_ok] at h ⊢
  obtain ⟨c, hc, hf⟩ := h
  exact ⟨c, Program.check_recheck hc, hf⟩

/-- The sample, in which folding changes much, is not changed by a second check. -/
theorem sample_rechecked : ∃ r, checkFresh sample = .ok r ∧ checkFresh r.program = .ok r :=
  ⟨_, rfl, checkFresh_program (p := sample) rfl⟩

end SysYFront
