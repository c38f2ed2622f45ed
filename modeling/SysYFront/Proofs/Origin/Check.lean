import SysYFront.Proofs.Blame
import SysYFront.Proofs.Origin.Mark

/-!
# SysYFront.Proofs.Origin.Check

A diagnostic stands at a part of the program. What the checker blames is always a mark of the tree
that it checks, and where the problem tells what was written there, the mark tells the same
(`Diagnostic.IsAt`). Literals that replace names, operators and elements, and indices that are cut
to integers, take over the place of what they replace, so a checked expression stands where the
unchecked one stood, however deep values were known; that is all an operator asks of its operands.

The marks of the whole program stay fixed on the way down: of a part it is known that its marks
are among them.
-/

namespace SysYFront

variable {α β γ : Type}

/-- What is written where a problem is reported, if the problem tells. -/
def Problem.sign? : Problem → Option Sign
  | undefinedVariable name | undefinedFunction name | redefinition name => some (.name name)
  | divisionByZero => some (.symbol "/")
  | moduloByZero | floatModulo => some (.symbol "%")
  | indexedScalar | indexOutOfBounds _ _ => some (.symbol "[")
  | notCallable | argumentCount _ _ _ => some (.symbol "(")
  | outsideLoop word => some (.loopControl word)
  | _ => none

/-- Whether a diagnostic is at one of the marks, and at one that its problem tells. -/
def Diagnostic.IsAt (marks : Marks) (d : Diagnostic) : Prop :=
  ∃ sign, (sign, d.location) ∈ marks ∧ ∀ s ∈ d.problem.sign?, s = sign

open Diagnostic (IsAt)

variable {marks : Marks}

theorem Diagnostic.IsAt.told {sign : Sign} {p : Problem} {l : Location}
    (hmark : (sign, l) ∈ marks) (h : p.sign? = some sign) : IsAt marks ⟨p, l⟩ := by
  refine ⟨sign, hmark, fun s hs => ?_⟩
  rw [h] at hs
  exact (Option.some.inj hs).symm

/-- A problem that tells nothing of its token may be at every mark. -/
theorem Diagnostic.IsAt.untold {p : Problem} {l : Location} (h : p.sign? = none)
    (hmark : ∃ sign, (sign, l) ∈ marks) : IsAt marks ⟨p, l⟩ := by
  obtain ⟨sign, hmark⟩ := hmark
  refine ⟨sign, hmark, fun s hs => ?_⟩
  rw [h] at hs
  cases hs

/-! ### Expressions -/

namespace Expr

variable {c : Checker}

theorem exists_mem_marks {e : Expr α} (h : e.marks ⊆ marks) :
    ∃ sign, (sign, e.location) ∈ marks := by
  obtain ⟨sign, hmark⟩ := e.exists_mark
  exact ⟨sign, h hmark⟩

theorem requireScalar_blames (use : Use) {e : Expr ValueType}
    (he : ∃ sign, (sign, e.location) ∈ marks) :
    Blames (IsAt marks) (fun _ => True) (requireScalar use e) := by
  refine Blames.guard (fun _ => .untold rfl he) fun _ => ?_
  exact Blames.guard (fun _ => .untold rfl he) fun _ => Blames.pure trivial

theorem requireAssignable_blames {e : Expr ValueType}
    (he : ∃ sign, (sign, e.location) ∈ marks) :
    Blames (IsAt marks) (fun _ => True) (requireAssignable e) := by
  refine Blames.guard (fun _ => .untold rfl he) fun _ => ?_
  refine Blames.guard (fun _ => .untold rfl he) fun _ => ?_
  exact Blames.guard (fun _ => .untold rfl he) fun _ => Blames.pure trivial

theorem requireArgument_blames (function : String) (position : Nat) (p : Parameter)
    {e : Expr ValueType} (he : ∃ sign, (sign, e.location) ∈ marks) :
    Blames (IsAt marks) (fun _ => True) (requireArgument function position p e) := by
  refine Blames.guard (fun _ => .untold rfl he) fun _ => ?_
  refine Blames.guard (fun _ => .untold rfl he) fun _ => ?_
  exact Blames.guard (fun _ => .untold rfl he) fun _ => Blames.pure trivial

theorem checkedVar_blames {name : String} {l : Location} (h : (.name name, l) ∈ marks) :
    Blames (IsAt marks) (fun e' => e'.location = l) (checkedVar c name l) := by
  unfold checkedVar
  split
  · exact Blames.report (.told h rfl)
  · split
    · exact Blames.pure rfl
    · exact Blames.pure rfl

theorem location_checkedUnary (op : UnaryOp) (e : Expr ValueType) (l : Location) :
    (checkedUnary op e l).location = l := by
  unfold checkedUnary
  split
  · rfl
  · rfl

/-- Each rule names the operator for which it is broken. -/
theorem checkedBinary_blames {op : BinaryOp} {l : Location} (h : (.symbol op.symbol, l) ∈ marks)
    (a b : Expr ValueType) :
    Blames (IsAt marks) (fun e' => e'.location = l) (checkedBinary op a b l) := by
  refine Blames.guard (fun hrule => ?_) fun _ => ?_
  · rw [hrule.1] at h
    exact .told h rfl
  refine Blames.guard (fun hrule => ?_) fun _ => ?_
  · rw [hrule.1] at h
    exact .told h rfl
  refine Blames.guard (fun hrule => ?_) fun _ => ?_
  · rw [hrule.1] at h
    exact .told h rfl
  split
  · exact Blames.pure rfl
  · exact Blames.pure rfl

theorem checkedIndex_blames {l : Location} (h : (.symbol "[", l) ∈ marks)
    (array i : Expr ValueType) :
    Blames (IsAt marks) (fun e' => e'.location = l) (checkedIndex array i l) := by
  unfold checkedIndex
  split
  · exact Blames.pure rfl
  · simp only
    split
    · exact Blames.pure rfl
    · split
      · exact Blames.report (.told h rfl)
      · split
        · exact Blames.pure rfl
        · exact Blames.pure rfl

mutual

/-- Checking blames a part of the expression and keeps its place. -/
theorem check_blames : ∀ e : Expr α, e.marks ⊆ marks →
    Blames (IsAt marks) (fun e' => e'.location = e.location) (check c e)
  | var name l _, h => checkedVar_blames (h List.mem_cons_self)
  | literal v l _, _ => Blames.pure rfl
  | unary op e l _, h => by
    obtain ⟨-, he⟩ : _ ∧ e.marks ⊆ marks := List.cons_subset.mp h
    refine (check_blames e he).bind fun e' heq => ?_
    refine (requireScalar_blames _ (heq ▸ exists_mem_marks he)).map fun _ _ => ?_
    exact location_checkedUnary op e' l
  | binary op a b l _, h => by
    obtain ⟨hop, ha, hb⟩ : _ ∧ a.marks ⊆ marks ∧ b.marks ⊆ marks := by simpa [Expr.marks] using h
    refine (check_blames a ha).bind fun a' haeq => ?_
    refine (requireScalar_blames _ (haeq ▸ exists_mem_marks ha)).bind fun _ _ => ?_
    refine (check_blames b hb).bind fun b' hbeq => ?_
    refine (requireScalar_blames _ (hbeq ▸ exists_mem_marks hb)).bind fun _ _ => ?_
    exact checkedBinary_blames hop a' b'
  | assign a b l _, h => by
    obtain ⟨-, ha, hb⟩ : _ ∧ a.marks ⊆ marks ∧ b.marks ⊆ marks := by simpa [Expr.marks] using h
    refine (check_blames a ha).bind fun a' haeq => ?_
    refine (requireAssignable_blames (haeq ▸ exists_mem_marks ha)).bind fun _ _ => ?_
    refine (check_blames b hb).bind fun b' hbeq => ?_
    exact (requireScalar_blames _ (hbeq ▸ exists_mem_marks hb)).map fun _ _ => rfl
  | call callee args l _, h => by
    obtain ⟨hparen, hcallee, hargs⟩ : _ ∧ callee.marks ⊆ marks ∧ marksAll args ⊆ marks := by
      simpa [Expr.marks] using h
    cases callee with
    | var name k _ =>
      unfold check
      simp only
      split
      · exact Blames.report (.told (hcallee List.mem_cons_self) rfl)
      · refine Blames.guard (fun _ => .told hparen rfl) fun _ => ?_
        exact (checkArguments_blames name 1 _ args hargs).map fun _ _ => rfl
    | _ => exact Blames.report (.told hparen rfl)
  | index a i l _, h => by
    obtain ⟨hbracket, ha, hi⟩ : _ ∧ a.marks ⊆ marks ∧ i.marks ⊆ marks := by
      simpa [Expr.marks] using h
    refine (check_blames a ha).bind fun a' haeq => ?_
    refine Blames.guard (fun _ => .told hbracket rfl) fun _ => ?_
    refine (check_blames i hi).bind fun i' hieq => ?_
    refine (requireScalar_blames _ (hieq ▸ exists_mem_marks hi)).bind fun _ _ => ?_
    exact checkedIndex_blames hbracket a' i'

theorem checkArguments_blames (function : String) : ∀ (position : Nat) (params : List Parameter)
    (args : List (Expr α)), marksAll args ⊆ marks →
    Blames (IsAt marks) (fun _ => True) (checkArguments c function position params args)
  | _, [], [], _ => Blames.pure trivial
  | _, [], _ :: _, _ => Blames.pure trivial
  | _, _ :: _, [], _ => Blames.pure trivial
  | position, p :: params, e :: args, h => by
    obtain ⟨he, hargs⟩ := List.append_subset.mp h
    refine (check_blames e he).bind fun e' heq => ?_
    refine (requireArgument_blames _ _ p (heq ▸ exists_mem_marks he)).bind fun _ _ => ?_
    exact (checkArguments_blames function (position + 1) params args hargs).map fun _ _ => trivial

end

/-- A checked expression stands where the expression stood. -/
theorem location_check {e : Expr α} {e' : Expr ValueType} (h : check c e = .ok e') :
    e'.location = e.location := by
  have hblames : Blames (IsAt e.marks) _ (check c e) := check_blames e (List.Subset.refl _)
  exact hblames.of_ok h

theorem checkExtent_blames {e : Expr α} (h : e.marks ⊆ marks) :
    Blames (IsAt marks) (fun _ => True) (e.checkExtent c) := by
  refine (check_blames e h).bind fun e' heq => ?_
  have hmark : ∃ sign, (sign, e'.location) ∈ marks := heq ▸ exists_mem_marks h
  split
  · exact Blames.report (.untold rfl hmark)
  · exact Blames.guard (fun _ => .untold rfl hmark) fun _ => Blames.pure trivial

theorem checkExtents_blames {es : List (Expr α)} (h : marksAll es ⊆ marks) :
    Blames (IsAt marks) (fun _ => True) (checkExtents c es) := by
  induction es with
  | nil => exact Blames.pure trivial
  | cons e es ih =>
    obtain ⟨he, hes⟩ := List.append_subset.mp h
    exact (checkExtent_blames he).bind fun _ _ => (ih hes).map fun _ _ => trivial

end Expr

/-! ### Initializers and declarations -/

namespace Init

variable {c : Checker} {rule : InitRule}

theorem exists_mem_marks {i : Init α} (h : i.marks ⊆ marks) :
    ∃ sign, (sign, i.location) ∈ marks := by
  obtain ⟨sign, hmark⟩ := i.exists_mark
  exact ⟨sign, h hmark⟩

theorem checkLeaf_blames {e : Expr α} (h : e.marks ⊆ marks) :
    Blames (IsAt marks) (fun _ => True) (checkLeaf c rule e) := by
  refine (Expr.check_blames e h).bind fun e' heq => ?_
  have hmark : ∃ sign, (sign, e'.location) ∈ marks := heq ▸ Expr.exists_mem_marks h
  refine (Expr.requireScalar_blames _ hmark).bind fun _ _ => ?_
  exact Blames.guard (fun _ => .untold rfl hmark) fun _ => Blames.pure trivial

mutual

theorem layItem_blames (dims : List Int) (start used : Nat) : ∀ i : Init α, i.marks ⊆ marks →
    Blames (IsAt marks) (fun _ => True) (layItem c rule dims start used i)
  | .expr e, h => by
    unfold layItem
    refine Blames.guard (fun _ => .untold rfl (Expr.exists_mem_marks h)) fun _ => ?_
    exact (checkLeaf_blames h).map fun _ _ => trivial
  | .list items l, h => by
    obtain ⟨hl, hitems⟩ := List.cons_subset.mp h
    unfold layItem
    refine Blames.guard (fun _ => .untold rfl ⟨_, hl⟩) fun _ => ?_
    refine Blames.guard (fun _ => .untold rfl ⟨_, hl⟩) fun _ => ?_
    exact (layItems_blames (dims.drop 1) _ 0 items hitems).map fun _ _ => trivial

theorem layItems_blames (dims : List Int) (start used : Nat) : ∀ items : List (Init α),
    marksAll items ⊆ marks →
    Blames (IsAt marks) (fun _ => True) (layItems c rule dims start used items)
  | [], _ => by
    unfold layItems
    exact Blames.pure trivial
  | item :: items, h => by
    obtain ⟨hitem, hitems⟩ := List.append_subset.mp h
    unfold layItems
    refine (layItem_blames dims start used item hitem).bind fun r _ => ?_
    exact (layItems_blames dims start r.2.2 items hitems).map fun _ _ => trivial

end

theorem layOut_blames (dims : List Int) {init : Option (Init α)}
    (h : ∀ i ∈ init, i.marks ⊆ marks) :
    Blames (IsAt marks) (fun _ => True) (layOut c rule dims init) := by
  unfold layOut
  split
  · exact Blames.pure trivial
  · exact (checkLeaf_blames (h _ rfl)).map fun _ _ => trivial
  · exact Blames.report (.untold rfl (exists_mem_marks (h _ rfl)))
  · exact Blames.report (.untold rfl (exists_mem_marks (h _ rfl)))
  · obtain ⟨-, hitems⟩ := List.cons_subset.mp (h _ rfl)
    exact (layItems_blames _ 0 0 _ hitems).map fun _ _ => trivial

end Init

namespace Decl

theorem resolve_blames {c : Checker} {d : Decl α} (h : d.marks ⊆ marks) :
    Blames (IsAt marks) (fun _ => True) (d.resolve c) := by
  obtain ⟨hname, hrest⟩ := List.cons_subset.mp h
  obtain ⟨hdims, hinit⟩ := List.append_subset.mp hrest
  refine Blames.guard (fun _ => .told hname rfl) fun _ => ?_
  refine (Expr.checkExtents_blames hdims).bind fun r _ => ?_
  obtain ⟨dims, extents⟩ := r
  simp only
  split
  · exact Blames.report (.untold rfl ⟨_, hname⟩)
  · refine (Init.layOut_blames extents fun i hi => ?_).map fun _ _ => trivial
    rwa [hi] at hinit

theorem check_blames {d : Decl α} (h : d.marks ⊆ marks) (c : Checker) :
    Checking.Blames c (IsAt marks) (fun _ _ => True) d.check :=
  .recorded (resolve_blames h) fun _ _ => trivial

end Decl

/-! ### Statements -/

theorem Expr.checkHere_blames {e : Expr α} (h : e.marks ⊆ marks) (c : Checker) :
    Checking.Blames c (IsAt marks) (fun _ _ => True) e.checkHere :=
  .inspect (check_blames e h) fun _ _ => trivial

namespace Stmt

theorem checkCondition_blames {e : Expr α} (h : e.marks ⊆ marks) (c : Checker) :
    Checking.Blames c (IsAt marks) (fun _ _ => True) (checkCondition e) := by
  refine .inspect (P := fun _ => True) ?_ fun _ _ => trivial
  refine (Expr.check_blames e h).bind fun e' heq => ?_
  have hmark : ∃ sign, (sign, e'.location) ∈ marks := heq ▸ Expr.exists_mem_marks h
  exact Blames.guard (fun _ => .untold rfl hmark) fun _ => Blames.pure trivial

theorem requireLoop_blames {word : Keyword} {l : Location}
    (h : (.loopControl word, l) ∈ marks) (c : Checker) :
    Checking.Blames c (IsAt marks) (fun _ _ => True) (requireLoop word l) := by
  refine .inspect (P := fun _ => True) ?_ fun _ _ => trivial
  exact Blames.guard (fun _ => .told h rfl) fun _ => Blames.pure trivial

theorem checkReturned_blames {e : Expr α} {l : Location} (h : e.marks ⊆ marks)
    (hl : ∃ sign, (sign, l) ∈ marks) (c : Checker) :
    Checking.Blames c (IsAt marks) (fun _ _ => True) (checkReturned e l) := by
  refine .inspect (P := fun _ => True) ?_ fun _ _ => trivial
  refine (Expr.check_blames e h).bind fun e' heq => ?_
  have hmark : ∃ sign, (sign, e'.location) ∈ marks := heq ▸ Expr.exists_mem_marks h
  refine Blames.guard (fun _ => .untold rfl hmark) fun _ => ?_
  split
  · exact Blames.pure trivial
  · refine Blames.guard (fun _ => .untold rfl hl) fun _ => ?_
    exact Blames.guard (fun _ => .untold rfl hmark) fun _ => Blames.pure trivial

mutual

theorem check_blames : ∀ s : Stmt α, s.marks ⊆ marks → ∀ c : Checker,
    Checking.Blames c (IsAt marks) (fun _ _ => True) (check s)
  | .empty _, _, _ | .returnNothing _, _, _ => .pure trivial
  | .expr e l, h, c => by
    obtain ⟨-, he⟩ : _ ∧ e.marks ⊆ marks := List.cons_subset.mp h
    exact (Expr.checkHere_blames he c).map fun _ _ _ => trivial
  | .block items l, h, c => by
    obtain ⟨-, hitems⟩ : _ ∧ Item.marksAll items ⊆ marks := List.cons_subset.mp h
    have hinside := checkItems_blames items hitems c.enterBlock
    exact (Checking.Blames.within (Q := fun _ _ => True) hinside).map fun _ _ _ => trivial
  | .ifThen e body l, h, c => by
    obtain ⟨-, he, hbody⟩ : _ ∧ e.marks ⊆ marks ∧ body.marks ⊆ marks := by
      simpa [Stmt.marks] using h
    refine (checkCondition_blames he c).bind fun _ c' _ => ?_
    exact (check_blames body hbody c').map fun _ _ _ => trivial
  | .ifElse e body otherwise l, h, c => by
    obtain ⟨-, he, hbody, hotherwise⟩ :
        _ ∧ e.marks ⊆ marks ∧ body.marks ⊆ marks ∧ otherwise.marks ⊆ marks := by
      simpa [Stmt.marks] using h
    refine (checkCondition_blames he c).bind fun _ c' _ => ?_
    refine (check_blames body hbody c').bind fun _ c'' _ => ?_
    exact (check_blames otherwise hotherwise c'').map fun _ _ _ => trivial
  | .whileLoop e body l, h, c => by
    obtain ⟨-, he, hbody⟩ : _ ∧ e.marks ⊆ marks ∧ body.marks ⊆ marks := by
      simpa [Stmt.marks] using h
    refine (checkCondition_blames he c).bind fun _ c' _ => ?_
    have hinside := check_blames body hbody c'.enterLoop
    exact (Checking.Blames.within (Q := fun _ _ => True) hinside).map fun _ _ _ => trivial
  | .breakLoop l, h, c | .continueLoop l, h, c =>
    (requireLoop_blames (h List.mem_cons_self) c).map fun _ _ _ => trivial
  | .returnValue e l, h, c => by
    obtain ⟨hl, he⟩ : _ ∧ e.marks ⊆ marks := List.cons_subset.mp h
    exact (checkReturned_blames he ⟨_, hl⟩ c).map fun _ _ _ => trivial

theorem checkItem_blames : ∀ i : Item α, i.marks ⊆ marks → ∀ c : Checker,
    Checking.Blames c (IsAt marks) (fun _ _ => True) (checkItem i)
  | .decl _, h, c => (Decl.check_blames h c).map fun _ _ _ => trivial
  | .stmt s, h, c => (check_blames s h c).map fun _ _ _ => trivial

theorem checkItems_blames : ∀ items : List (Item α), Item.marksAll items ⊆ marks →
    ∀ c : Checker, Checking.Blames c (IsAt marks) (fun _ _ => True) (checkItems items)
  | [], _, _ => .pure trivial
  | item :: items, h, c => by
    obtain ⟨hitem, hitems⟩ := List.append_subset.mp h
    refine (checkItem_blames item hitem c).bind fun _ c' _ => ?_
    exact (checkItems_blames items hitems c').map fun _ _ _ => trivial

end

end Stmt

/-! ### Functions and programs -/

theorem Param.resolve_blames {c : Checker} {p : Param α} (h : p.marks ⊆ marks) :
    Blames (IsAt marks) (fun _ => True) (p.resolve c) := by
  obtain ⟨hl, hdims⟩ := List.cons_subset.mp h
  refine (Expr.checkExtents_blames hdims).bind fun r _ => ?_
  exact Blames.guard (fun _ => .untold rfl ⟨_, hl⟩) fun _ => Blames.pure trivial

theorem Param.resolveAll_blames {c : Checker} (function : String) (seen : List String)
    {params : List (Param α)} (h : ∀ p ∈ params, p.marks ⊆ marks) :
    Blames (IsAt marks) (fun _ => True) (resolveAll c function seen params) := by
  induction params generalizing seen with
  | nil => exact Blames.pure trivial
  | cons p params ih =>
    obtain ⟨hp, hparams⟩ := List.forall_mem_cons.mp h
    refine Blames.guard (fun _ => .untold rfl ⟨_, hp List.mem_cons_self⟩) fun _ => ?_
    exact (resolve_blames hp).bind fun _ _ => (ih (p.name :: seen) hparams).map fun _ _ => trivial

namespace Function

theorem resolve_blames {c : Checker} {f : Function α} (h : f.marks ⊆ marks) :
    Blames (IsAt marks) (fun r => r.body = f.body) (f.resolve c) := by
  obtain ⟨hl, hrest⟩ := List.cons_subset.mp h
  obtain ⟨hparams, -⟩ := List.append_subset.mp hrest
  refine Blames.guard (fun _ => .untold rfl ⟨_, hl⟩) fun _ => ?_
  refine (Param.resolveAll_blames f.name [] fun p hp => ?_).map fun _ _ => rfl
  exact fun mark hmark => hparams (List.mem_flatMap.mpr ⟨p, hp, hmark⟩)

theorem register_blames {f : Function α} (h : f.marks ⊆ marks) (c : Checker) :
    Checking.Blames c (IsAt marks) (fun r _ => Item.marksAll r.body.items ⊆ marks)
      f.register := by
  obtain ⟨-, hrest⟩ := List.cons_subset.mp h
  obtain ⟨-, hbody⟩ := List.append_subset.mp hrest
  refine Checking.Blames.recorded (resolve_blames h) fun r hr => ?_
  rwa [hr]

end Function

theorem Registered.checkBody_blames {r : Registered α} (h : Item.marksAll r.body.items ⊆ marks)
    (c : Checker) : Checking.Blames c (IsAt marks) (fun _ _ => True) r.checkBody := by
  have hinside := Stmt.checkItems_blames _ h (c.enterFunction r.name r.signature)
  exact (Checking.Blames.within (Q := fun _ _ => True) hinside).map fun _ _ _ => trivial

namespace TopLevel

variable {δ δ' φ φ' : Type} {E : Diagnostic → Prop}

theorem mapGlobals_blames {k : δ → Checking δ'} {units : List (TopLevel δ φ)}
    (h : ∀ d, .global d ∈ units → ∀ c, Checking.Blames c E (fun _ _ => True) (k d))
    (c : Checker) :
    Checking.Blames c E (fun units' _ => ∀ g, .function g ∈ units' → .function g ∈ units)
      (mapGlobals k units) := by
  induction units generalizing c with
  | nil => exact .pure fun g hg => by cases hg
  | cons unit units ih =>
    have hrest := ih fun d hd => h d (List.mem_cons_of_mem _ hd)
    cases unit with
    | global d =>
      refine (h d List.mem_cons_self c).bind fun d' c' _ => ?_
      refine (hrest c').map fun units' _ hunits g hg => ?_
      cases hg with
      | tail _ hg => exact List.mem_cons_of_mem _ (hunits g hg)
    | function f =>
      refine (hrest c).map fun units' _ hunits g hg => ?_
      cases hg with
      | head => exact List.mem_cons_self
      | tail _ hg => exact List.mem_cons_of_mem _ (hunits g hg)

theorem mapFunctions_blames {R : φ' → Prop} {k : φ → Checking φ'} {units : List (TopLevel δ φ)}
    (h : ∀ g, .function g ∈ units → ∀ c, Checking.Blames c E (fun g' _ => R g') (k g))
    (c : Checker) :
    Checking.Blames c E (fun units' _ => ∀ g, .function g ∈ units' → R g)
      (mapFunctions k units) := by
  induction units generalizing c with
  | nil => exact .pure fun g hg => by cases hg
  | cons unit units ih =>
    have hrest := ih fun g hg => h g (List.mem_cons_of_mem _ hg)
    cases unit with
    | global d =>
      refine (hrest c).map fun units' _ hunits g hg => ?_
      cases hg with
      | tail _ hg => exact hunits g hg
    | function f =>
      refine (h f List.mem_cons_self c).bind fun f' c' hf' => ?_
      refine (hrest c').map fun units' _ hunits g hg => ?_
      cases hg with
      | head => exact hf'
      | tail _ hg => exact hunits g hg

end TopLevel

/-- **What the checker blames is a mark of the program.** -/
theorem Program.check_blames (p : Program α) (c : Checker) :
    Checking.Blames c (IsAt p.marks) (fun _ _ => True) p.check := by
  have hglobal (d : Decl α) (hd : .global d ∈ p) : d.marks ⊆ p.marks :=
    fun mark hmark => List.mem_flatMap.mpr ⟨.global d, hd, hmark⟩
  have hfunction (f : Function α) (hf : .function f ∈ p) : f.marks ⊆ p.marks :=
    fun mark hmark => List.mem_flatMap.mpr ⟨.function f, hf, hmark⟩
  have hglobals := TopLevel.mapGlobals_blames (fun d hd => Decl.check_blames (hglobal d hd)) c
  refine hglobals.bind fun declared c₁ hdeclared => ?_
  have hheads := TopLevel.mapFunctions_blames
    (fun f hf => Function.register_blames (hfunction f (hdeclared f hf))) c₁
  refine hheads.bind fun registered c₂ hregistered => ?_
  have hbodies := TopLevel.mapFunctions_blames (R := fun _ => True)
    (fun r hr => Registered.checkBody_blames (hregistered r hr)) c₂
  exact hbodies.imp (fun _ hd => hd) fun _ _ _ => trivial

end SysYFront
