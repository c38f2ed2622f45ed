import SysYFront.Proofs.Agreement.Program
import SysYFront.Proofs.Origin.Check
import SysYFront.Proofs.Storage.Sites

/-!
# SysYFront.Proofs.Storage.Refusal

What a refused assignment is refused for. The checker never looks at the root of a target: it asks
the note of the checked target for dimensions, constness and place. These are what the rules ask of
the target as it was written, so wherever the checker refuses a target, some assignment of the
program has at that place a target that the rules refuse (`Diagnostic.RefusesIn`).

The state of the checker is followed through the whole run: at every site it shows a context that
matches the bindings there.
-/

namespace SysYFront

variable {α : Type} {c : Checker} {Γ : Context} {Φ : Headings} {B : Bindings α}

/-- Whether a problem is one with the target of an assignment. -/
def Problem.isOfTarget : Problem → Bool
  | assignToConst | assignToArray | assignToValue => true
  | _ => false

/-- Whether the rules let an expression be assigned to. -/
def Expr.IsTarget (Γ : Context) (e : Expr α) : Prop :=
  e.isStorable Γ ∧ e.dims Γ = []

/-- Whether a diagnostic satisfies `P` if it is about a target. -/
def Diagnostic.OfTarget (P : Diagnostic → Prop) (d : Diagnostic) : Prop :=
  d.problem.isOfTarget = true → P d

/-- Whether a diagnostic that is about a target is at one that the rules refuse. -/
def Diagnostic.RefusesIn (Γ : Context) (parts : List (Expr α)) : Diagnostic → Prop :=
  OfTarget fun d =>
    ∃ a b l n, .assign a b l n ∈ parts ∧ a.location = d.location ∧ ¬ a.IsTarget Γ

/-- The same for the sites of a program, each in a context that matches its bindings. -/
def Diagnostic.RefusesAt (sites : List (Site α)) : Diagnostic → Prop :=
  OfTarget fun d => ∃ site ∈ sites, ∃ Γ, site.1.Matches Γ ∧ d.RefusesIn Γ site.2.parts

open Diagnostic (OfTarget RefusesIn RefusesAt)

theorem Diagnostic.OfTarget.other {P : Diagnostic → Prop} {p : Problem} {l : Location}
    (h : p.isOfTarget = false) : OfTarget P ⟨p, l⟩ := by
  intro htarget
  rw [show p.isOfTarget = true from htarget] at h
  cases h

/-- What has to be a scalar need not be a target. -/
theorem Expr.requireScalar_ofTarget {P : Diagnostic → Prop} (use : Use) (e' : Expr ValueType) :
    Blames (OfTarget P) (fun _ => True) (requireScalar use e') := by
  refine Blames.guard (fun _ => .other rfl) fun _ => ?_
  exact Blames.guard (fun _ => .other rfl) fun _ => Blames.pure trivial

/-! ### Expressions -/

section Expressions

variable {parts : List (Expr α)}

namespace Expr

theorem requireArgument_refuses (function : String) (position : Nat) (p : Parameter)
    (e' : Expr ValueType) :
    Blames (RefusesIn Γ parts) (fun _ => True) (requireArgument function position p e') := by
  refine Blames.guard (fun _ => .other rfl) fun _ => ?_
  refine Blames.guard (fun _ => .other rfl) fun _ => ?_
  exact Blames.guard (fun _ => .other rfl) fun _ => Blames.pure trivial

/-- The rules for operators and subscripts are not about targets. -/
theorem checkedBinary_refuses (op : BinaryOp) (a' b' : Expr ValueType) (l : Location) :
    Blames (RefusesIn Γ parts) (fun _ => True) (checkedBinary op a' b' l) := by
  refine Blames.guard (fun _ => .other rfl) fun _ => ?_
  refine Blames.guard (fun _ => .other rfl) fun _ => ?_
  refine Blames.guard (fun _ => .other rfl) fun _ => ?_
  split
  · exact Blames.pure trivial
  · exact Blames.pure trivial

theorem checkedIndex_refuses (array i : Expr ValueType) (l : Location) :
    Blames (RefusesIn Γ parts) (fun _ => True) (checkedIndex array i l) := by
  unfold checkedIndex
  split
  · exact Blames.pure trivial
  · simp only
    split
    · exact Blames.pure trivial
    · split
      · exact Blames.report (.other rfl)
      · split
        · exact Blames.pure trivial
        · exact Blames.pure trivial

theorem requireAssignable_location (e' : Expr ValueType) :
    Blames (fun d => d.location = e'.location) (fun _ => True) (requireAssignable e') := by
  refine Blames.guard (fun _ => rfl) fun _ => ?_
  refine Blames.guard (fun _ => rfl) fun _ => ?_
  exact Blames.guard (fun _ => rfl) fun _ => Blames.pure trivial

/-- The note of a checked target tells what the rules ask of the target, and the checked target
stands where the target stood. -/
theorem requireAssignable_refuses {a b : Expr α} {a' : Expr ValueType} {l : Location} {n : α}
    (ha : a.CheckedAs Γ Φ a') (hlocation : a'.location = a.location)
    (hmem : assign a b l n ∈ parts) :
    Blames (RefusesIn Γ parts) (fun _ => True) (requireAssignable a') := by
  have hdecides := requireAssignable_decides ha
  cases hm : requireAssignable a' with
  | ok u => exact Blames.pure trivial
  | error d =>
    have hat : d.location = a.location :=
      ((requireAssignable_location a').of_error hm).trans hlocation
    rw [hm] at hdecides
    exact Blames.report fun _ => ⟨a, b, l, n, hmem, hat.symm, hdecides⟩

mutual

theorem check_refuses (hc : c.Shows Γ) : ∀ e : Expr α, e.parts ⊆ parts →
    Blames (RefusesIn Γ parts) (fun _ => True) (check c e)
  | var name l _, _ => by
    show Blames _ _ (checkedVar c name l)
    unfold checkedVar
    split
    · exact Blames.report (.other rfl)
    · split
      · exact Blames.pure trivial
      · exact Blames.pure trivial
  | literal v l _, _ => Blames.pure trivial
  | unary op e l _, h => by
    obtain ⟨-, he⟩ : _ ∧ e.parts ⊆ parts := List.cons_subset.mp h
    refine (check_refuses hc e he).bind fun e' _ => ?_
    exact (requireScalar_ofTarget _ e').map fun _ _ => trivial
  | binary op a b l _, h => by
    obtain ⟨-, ha, hb⟩ : _ ∧ a.parts ⊆ parts ∧ b.parts ⊆ parts := by simpa [Expr.parts] using h
    refine (check_refuses hc a ha).bind fun a' _ => ?_
    refine (requireScalar_ofTarget _ a').bind fun _ _ => ?_
    refine (check_refuses hc b hb).bind fun b' _ => ?_
    refine (requireScalar_ofTarget _ b').bind fun _ _ => ?_
    exact checkedBinary_refuses op a' b' l
  | assign a b l n, h => by
    obtain ⟨hself, ha, hb⟩ : _ ∧ a.parts ⊆ parts ∧ b.parts ⊆ parts := by
      simpa [Expr.parts] using h
    have htarget := ((check_refuses hc a ha).decided (check_decides hc.agrees a)).known
      fun _ => location_check
    refine htarget.bind fun a' ha' => ?_
    obtain ⟨⟨-, -, hchecked⟩, hlocation⟩ := ha'
    refine (requireAssignable_refuses hchecked hlocation hself).bind fun _ _ => ?_
    refine (check_refuses hc b hb).bind fun b' _ => ?_
    exact (requireScalar_ofTarget _ b').map fun _ _ => trivial
  | call callee args l _, h => by
    obtain ⟨-, -, hargs⟩ : _ ∧ callee.parts ⊆ parts ∧ partsAll args ⊆ parts := by
      simpa [Expr.parts] using h
    cases callee with
    | var name k _ =>
      unfold check
      simp only
      split
      · exact Blames.report (.other rfl)
      · refine Blames.guard (fun _ => .other rfl) fun _ => ?_
        exact (checkArguments_refuses hc name 1 _ args hargs).map fun _ _ => trivial
    | _ => exact Blames.report (.other rfl)
  | index a i l _, h => by
    obtain ⟨-, ha, hi⟩ : _ ∧ a.parts ⊆ parts ∧ i.parts ⊆ parts := by simpa [Expr.parts] using h
    refine (check_refuses hc a ha).bind fun a' _ => ?_
    refine Blames.guard (fun _ => .other rfl) fun _ => ?_
    refine (check_refuses hc i hi).bind fun i' _ => ?_
    refine (requireScalar_ofTarget _ i').bind fun _ _ => ?_
    exact checkedIndex_refuses a' i' l

theorem checkArguments_refuses (hc : c.Shows Γ) (function : String) : ∀ (position : Nat)
    (params : List Parameter) (args : List (Expr α)), partsAll args ⊆ parts →
    Blames (RefusesIn Γ parts) (fun _ => True) (checkArguments c function position params args)
  | _, [], [], _ => Blames.pure trivial
  | _, [], _ :: _, _ => Blames.pure trivial
  | _, _ :: _, [], _ => Blames.pure trivial
  | position, p :: params, e :: args, h => by
    obtain ⟨he, hargs⟩ := List.append_subset.mp h
    refine (check_refuses hc e he).bind fun e' _ => ?_
    refine (requireArgument_refuses _ _ p e').bind fun _ _ => ?_
    exact (checkArguments_refuses hc function (position + 1) params args hargs).map
      fun _ _ => trivial

end

end Expr

end Expressions

/-! ### Declarations -/

section Sites

variable {sites : List (Site α)}

namespace Expr

/-- An expression at a site is refused at that site. -/
theorem check_refusesAt (hc : c.Shows Γ) (hB : B.Matches Γ) {e : Expr α}
    (h : (B, e) ∈ sites) : Blames (RefusesAt sites) (fun _ => True) (check c e) := by
  have hrefuses : Blames (RefusesIn Γ e.parts) (fun _ => True) (check c e) :=
    check_refuses hc e (List.Subset.refl _)
  exact hrefuses.mono fun d hd _ => ⟨_, h, Γ, hB, hd⟩

theorem checkExtents_refusesAt (hc : c.Shows Γ) (hB : B.Matches Γ) {es : List (Expr α)}
    (h : ∀ e ∈ es, (B, e) ∈ sites) :
    Blames (RefusesAt sites) (fun _ => True) (checkExtents c es) := by
  induction es with
  | nil => exact Blames.pure trivial
  | cons e es ih =>
    obtain ⟨he, hes⟩ := List.forall_mem_cons.mp h
    have hextent : Blames (RefusesAt sites) (fun _ => True) (e.checkExtent c) := by
      refine (check_refusesAt hc hB he).bind fun e' _ => ?_
      split
      · exact Blames.report (.other rfl)
      · exact Blames.guard (fun _ => .other rfl) fun _ => Blames.pure trivial
    exact hextent.bind fun _ _ => (ih hes).map fun _ _ => trivial

end Expr

namespace Init

variable {rule : InitRule}

theorem checkLeaf_refusesAt (hc : c.Shows Γ) (hB : B.Matches Γ) {e : Expr α}
    (h : (B, e) ∈ sites) : Blames (RefusesAt sites) (fun _ => True) (checkLeaf c rule e) := by
  refine (Expr.check_refusesAt hc hB h).bind fun e' _ => ?_
  refine (Expr.requireScalar_ofTarget _ e').bind fun _ _ => ?_
  exact Blames.guard (fun _ => .other rfl) fun _ => Blames.pure trivial

mutual

theorem layItem_refusesAt (hc : c.Shows Γ) (hB : B.Matches Γ) (dims : List Int)
    (start used : Nat) : ∀ i : Init α, (∀ e ∈ i.exprs, (B, e) ∈ sites) →
    Blames (RefusesAt sites) (fun _ => True) (layItem c rule dims start used i)
  | .expr e, h => by
    unfold layItem
    refine Blames.guard (fun _ => .other rfl) fun _ => ?_
    exact (checkLeaf_refusesAt hc hB (h e List.mem_cons_self)).map fun _ _ => trivial
  | .list items l, h => by
    unfold layItem
    refine Blames.guard (fun _ => .other rfl) fun _ => ?_
    refine Blames.guard (fun _ => .other rfl) fun _ => ?_
    exact (layItems_refusesAt hc hB (dims.drop 1) _ 0 items h).map fun _ _ => trivial

theorem layItems_refusesAt (hc : c.Shows Γ) (hB : B.Matches Γ) (dims : List Int)
    (start used : Nat) : ∀ items : List (Init α), (∀ e ∈ exprsAll items, (B, e) ∈ sites) →
    Blames (RefusesAt sites) (fun _ => True) (layItems c rule dims start used items)
  | [], _ => by
    unfold layItems
    exact Blames.pure trivial
  | item :: items, h => by
    obtain ⟨hitem, hitems⟩ := List.forall_mem_append.mp h
    unfold layItems
    refine (layItem_refusesAt hc hB dims start used item hitem).bind fun r _ => ?_
    exact (layItems_refusesAt hc hB dims start r.2.2 items hitems).map fun _ _ => trivial

end

theorem layOut_refusesAt (hc : c.Shows Γ) (hB : B.Matches Γ) (dims : List Int)
    {init : Option (Init α)} (h : ∀ i ∈ init, ∀ e ∈ i.exprs, (B, e) ∈ sites) :
    Blames (RefusesAt sites) (fun _ => True) (layOut c rule dims init) := by
  unfold layOut
  split
  · exact Blames.pure trivial
  · exact (checkLeaf_refusesAt hc hB (h _ rfl _ List.mem_cons_self)).map fun _ _ => trivial
  · exact Blames.report (.other rfl)
  · exact Blames.report (.other rfl)
  · exact (layItems_refusesAt hc hB _ 0 0 _ (h _ rfl)).map fun _ _ => trivial

end Init

namespace Decl

theorem resolve_refusesAt (hc : c.Shows Γ) (hB : B.Matches Γ) {d : Decl α}
    (h : d.sites B ⊆ sites) : Blames (RefusesAt sites) (fun _ => True) (d.resolve c) := by
  have hmem (e : Expr α) (he : e ∈ d.dims ++ (d.init.map Init.exprs).getD []) :
      (B, e) ∈ sites := h (List.mem_map.mpr ⟨e, he, rfl⟩)
  obtain ⟨hdims, hinit⟩ := List.forall_mem_append.mp hmem
  refine Blames.guard (fun _ => .other rfl) fun _ => ?_
  refine (Expr.checkExtents_refusesAt hc hB hdims).bind fun r _ => ?_
  obtain ⟨dims, extents⟩ := r
  simp only
  split
  · exact Blames.report (.other rfl)
  · refine (Init.layOut_refusesAt hc hB extents fun i hi => ?_).map fun _ _ => trivial
    rwa [hi] at hinit

theorem check_refusesAt (hc : c.Shows Γ) (hB : B.Matches Γ) {d : Decl α}
    (h : d.sites B ⊆ sites) :
    Checking.Blames c (RefusesAt sites) (fun _ _ => True) d.check :=
  .recorded (resolve_refusesAt hc hB h) fun _ _ => trivial

end Decl

/-! ### Statements -/

namespace Stmt

variable {returns : Base}

/-- A condition leaves the state as it was. -/
theorem checkCondition_refusesAt (hc : c.Shows Γ) (hB : B.Matches Γ) {e : Expr α}
    (h : (B, e) ∈ sites) :
    Checking.Blames c (RefusesAt sites) (fun _ c' => c' = c) (checkCondition e) := by
  refine .inspect (P := fun _ => True) ?_ fun _ _ => rfl
  refine (Expr.check_refusesAt hc hB h).bind fun e' _ => ?_
  exact Blames.guard (fun _ => .other rfl) fun _ => Blames.pure trivial

theorem checkReturned_refusesAt (hc : c.Shows Γ) (hB : B.Matches Γ) {e : Expr α}
    (l : Location) (h : (B, e) ∈ sites) :
    Checking.Blames c (RefusesAt sites) (fun _ _ => True) (checkReturned e l) := by
  refine .inspect (P := fun _ => True) ?_ fun _ _ => trivial
  refine (Expr.check_refusesAt hc hB h).bind fun e' _ => ?_
  refine Blames.guard (fun _ => .other rfl) fun _ => ?_
  split
  · exact Blames.pure trivial
  · refine Blames.guard (fun _ => .other rfl) fun _ => ?_
    exact Blames.guard (fun _ => .other rfl) fun _ => Blames.pure trivial

theorem requireLoop_refusesAt (word : Keyword) (l : Location) :
    Checking.Blames c (RefusesAt sites) (fun _ _ => True) (requireLoop word l) := by
  refine .inspect (P := fun _ => True) ?_ fun _ _ => trivial
  exact Blames.guard (fun _ => .other rfl) fun _ => Blames.pure trivial

mutual

/-- A statement leaves the state as it was, so the statements behind it are checked in a state
that still shows the context. -/
theorem check_refusesAt : ∀ (s : Stmt α) {c : Checker} {Γ : Context} {B : Bindings α}
    {inLoop : Bool}, c.InBody Γ Φ returns inLoop → s.VoidFree → B.Matches Γ →
    s.sites B ⊆ sites → Checking.Blames c (RefusesAt sites) (fun _ _ => True) s.check
  | .empty _, _, _, _, _, _, _, _, _ | .returnNothing _, _, _, _, _, _, _, _, _ => .pure trivial
  | .expr e _, c, Γ, B, _, hc, _, hB, h => by
    have he := Expr.check_refusesAt hc.toShows hB (h List.mem_cons_self)
    exact (Checking.Blames.inspect (Q := fun _ _ => True) he fun _ _ => trivial).map
      fun _ _ _ => trivial
  | .block items _, c, Γ, B, _, hc, hvoid, hB, h => by
    have hinside := checkItems_refusesAt items hc.enterBlock hvoid hB h
    exact (Checking.Blames.within (Q := fun _ _ => True) hinside).map fun _ _ _ => trivial
  | .ifThen e body _, c, Γ, B, inLoop, hc, hvoid, hB, h => by
    obtain ⟨he, hbody⟩ := List.cons_subset.mp h
    refine (checkCondition_refusesAt hc.toShows hB he).bind fun e' c' hc' => ?_
    subst hc'
    exact (check_refusesAt body hc hvoid hB hbody).map fun _ _ _ => trivial
  | .ifElse e body otherwise _, c, Γ, B, inLoop, hc, hvoid, hB, h => by
    obtain ⟨he, hbranches⟩ := List.cons_subset.mp h
    obtain ⟨hbody, hotherwise⟩ := List.append_subset.mp hbranches
    refine (checkCondition_refusesAt hc.toShows hB he).bind fun e' c' hc' => ?_
    subst hc'
    have hfirst := (check_refusesAt body hc hvoid.1 hB hbody).decided
      (check_decides body hc hvoid.1)
    refine hfirst.bind fun body' c'' hbody' => ?_
    obtain ⟨-, -, -, rfl⟩ := hbody'
    exact (check_refusesAt otherwise hc hvoid.2 hB hotherwise).map fun _ _ _ => trivial
  | .whileLoop e body _, c, Γ, B, inLoop, hc, hvoid, hB, h => by
    obtain ⟨he, hbody⟩ := List.cons_subset.mp h
    refine (checkCondition_refusesAt hc.toShows hB he).bind fun e' c' hc' => ?_
    subst hc'
    have hinside := check_refusesAt body hc.enterLoop hvoid hB hbody
    exact (Checking.Blames.within (Q := fun _ _ => True) hinside).map fun _ _ _ => trivial
  | .breakLoop l, _, _, _, _, _, _, _, _ | .continueLoop l, _, _, _, _, _, _, _, _ =>
    (requireLoop_refusesAt _ l).map fun _ _ _ => trivial
  | .returnValue e l, c, Γ, B, _, hc, _, hB, h =>
    (checkReturned_refusesAt hc.toShows hB l (h List.mem_cons_self)).map fun _ _ _ => trivial

theorem checkItem_refusesAt : ∀ (item : Item α) {c : Checker} {Γ : Context} {B : Bindings α}
    {inLoop : Bool}, c.InBody Γ Φ returns inLoop → item.VoidFree → B.Matches Γ →
    item.sites B ⊆ sites → Checking.Blames c (RefusesAt sites) (fun _ _ => True) (checkItem item)
  | .decl _, _, _, _, _, hc, _, hB, h =>
    (Decl.check_refusesAt hc.toShows hB h).map fun _ _ _ => trivial
  | .stmt s, _, _, _, _, hc, hvoid, hB, h =>
    (check_refusesAt s hc hvoid hB h).map fun _ _ _ => trivial

theorem checkItems_refusesAt : ∀ (items : List (Item α)) {c : Checker} {Γ : Context}
    {B : Bindings α} {inLoop : Bool}, c.InBody Γ Φ returns inLoop → Item.AllVoidFree items →
    B.Matches Γ → Item.allSites B items ⊆ sites →
    Checking.Blames c (RefusesAt sites) (fun _ _ => True) (checkItems items)
  | [], _, _, _, _, _, _, _, _ => .pure trivial
  | item :: items, c, Γ, B, inLoop, hc, hvoid, hB, h => by
    obtain ⟨hitem, hitems⟩ := List.append_subset.mp h
    have hfirst := (checkItem_refusesAt item hc hvoid.1 hB hitem).decided
      (checkItem_decides item hc hvoid.1)
    refine hfirst.bind fun item' c' hitem' => ?_
    obtain ⟨-, -, hitem'⟩ := hitem'
    exact (checkItems_refusesAt items hitem'.inBody hvoid.2 (hB.bindItem item) hitems).map
      fun _ _ _ => trivial

end

end Stmt

/-! ### Functions and programs -/

theorem Param.resolveAll_refusesAt (hc : c.Shows Γ) (hB : B.Matches Γ) (function : String)
    (seen : List String) {params : List (Param α)}
    (h : ∀ p ∈ params, ∀ e ∈ p.dims, (B, e) ∈ sites) :
    Blames (RefusesAt sites) (fun _ => True) (resolveAll c function seen params) := by
  induction params generalizing seen with
  | nil => exact Blames.pure trivial
  | cons p params ih =>
    obtain ⟨hp, hparams⟩ := List.forall_mem_cons.mp h
    have hparam : Blames (RefusesAt sites) (fun _ => True) (p.resolve c) :=
      (Expr.checkExtents_refusesAt hc hB hp).bind fun _ _ =>
        Blames.guard (fun _ => .other rfl) fun _ => Blames.pure trivial
    refine Blames.guard (fun _ => .other rfl) fun _ => ?_
    exact hparam.bind fun _ _ => (ih (p.name :: seen) hparams).map fun _ _ => trivial

theorem Function.register_refusesAt (hc : c.Shows Γ) (hB : B.Matches Γ) {f : Function α}
    (h : f.sites B ⊆ sites) :
    Checking.Blames c (RefusesAt sites) (fun _ _ => True) f.register := by
  have hparams (p : Param α) (hp : p ∈ f.params) (e : Expr α) (he : e ∈ p.dims) :
      (B, e) ∈ sites :=
    h (List.mem_append_left _ (List.mem_flatMap.mpr ⟨p, hp, List.mem_map.mpr ⟨e, he, rfl⟩⟩))
  have hresolve : Blames (RefusesAt sites) (fun _ => True) (f.resolve c) :=
    Blames.guard (fun _ => .other rfl) fun _ =>
      (Param.resolveAll_refusesAt hc hB f.name [] hparams).map fun _ _ => trivial
  exact .recorded hresolve fun _ _ => trivial

theorem Function.checkBody_refusesAt (hc : c.Agrees Γ Φ) (hB : B.Matches Γ) {f : Function α}
    {r : Registered α} (hr : f.RegisteredAs Γ Φ r) (hvoid : Item.AllVoidFree f.body.items)
    (h : f.sites B ⊆ sites) :
    Checking.Blames c (RefusesAt sites) (fun _ _ => True) r.checkBody := by
  have hinside := Stmt.checkItems_refusesAt f.body.items (hr.inBody hc) hvoid
    ((Bindings.Matches.parameters Γ f).append hB) (List.append_subset.mp h).2
  rw [← hr.body] at hinside
  exact (Checking.Blames.within (Q := fun _ _ => True) hinside).map fun _ _ _ => trivial

namespace TopLevel

theorem mapGlobals_refusesAt (p : Program α) {c : Checker} {Γ : Context} {B : Bindings α}
    (hc : c.Shows Γ) (hidle : c.Idle) (hvoid : ∀ d ∈ p.globals, d.base ≠ .void)
    (hB : B.Matches Γ) (h : Decl.allSites B p.globals ⊆ sites) :
    Checking.Blames c (RefusesAt sites) (fun _ _ => True) (mapGlobals Decl.check p) := by
  induction p generalizing c Γ B with
  | nil => exact .pure trivial
  | cons unit p ih =>
    cases unit with
    | function f =>
      rw [Program.globals_function] at hvoid h
      exact (ih hc hidle hvoid hB h).map fun _ _ _ => trivial
    | global d =>
      rw [Program.globals_global] at hvoid h
      obtain ⟨hd, hrest⟩ := List.append_subset.mp h
      have hglobal : c.scopes.isGlobal = true := by
        rw [Scopes.isGlobal, hidle.inner]
        rfl
      have hdecl := (Decl.check_refusesAt hc hB hd).decided
        (Decl.check_decides_of_isGlobal hc hglobal [] d (hvoid d List.mem_cons_self))
      refine hdecl.bind fun d' c' hd' => ?_
      obtain ⟨-, -, hd', rfl⟩ := hd'
      have hshows := hc.declare d.name hd'.declared
      rw [hd'.meaning] at hshows
      have hothers := ih hshows (hidle.declare _ _)
        (fun e he => hvoid e (List.mem_cons_of_mem _ he)) (hB.bind d) hrest
      exact hothers.map fun _ _ _ => trivial

theorem mapFunctions_register_refusesAt {δ : Type} {R : Context → Decl α → δ → Prop}
    {Γ Γ' : Context} {p : Program α} {q : List (TopLevel δ (Function α))}
    (hpairs : Program.Pairs R Eq Γ' p q) {c : Checker} (hc : c.Shows Γ) (hB : B.Matches Γ)
    (h : ∀ f ∈ p.functions, f.sites B ⊆ sites) :
    Checking.Blames c (RefusesAt sites) (fun _ _ => True) (mapFunctions Function.register q) := by
  induction hpairs generalizing c with
  | nil => exact .pure trivial
  | global _ _ ih =>
    rw [Program.functions_global] at h
    exact (ih hc h).map fun _ _ _ => trivial
  | @function _ f g p q hf _ ih =>
    obtain rfl := hf
    rw [Program.functions_function] at h
    obtain ⟨hfirst, hothers⟩ := List.forall_mem_cons.mp h
    have hregister := (Function.register_refusesAt hc hB hfirst).decided
      (register_decides hc [] f)
    refine hregister.bind fun r c' hr => ?_
    obtain ⟨-, -, -, rfl⟩ := hr
    have hshows : (c.addFunction f.name r.signature).Shows Γ := ⟨hc.names, hc.declared⟩
    exact (ih hshows hothers).map fun _ _ _ => trivial

theorem mapFunctions_checkBody_refusesAt {δ : Type} {R : Context → Decl α → δ → Prop}
    {Γ Γ' : Context} {p : Program α} {q : List (TopLevel δ (Registered α))}
    (hpairs : Program.Pairs R (Function.RegisteredAs Γ Φ) Γ' p q) (hc : c.Agrees Γ Φ)
    (hidle : c.Idle) (hvoid : ∀ f ∈ p.functions, Item.AllVoidFree f.body.items)
    (hB : B.Matches Γ) (h : ∀ f ∈ p.functions, f.sites B ⊆ sites) :
    Checking.Blames c (RefusesAt sites) (fun _ _ => True)
      (mapFunctions Registered.checkBody q) := by
  induction hpairs with
  | nil => exact .pure trivial
  | global _ _ ih =>
    rw [Program.functions_global] at h hvoid
    exact (ih hvoid h).map fun _ _ _ => trivial
  | @function _ f r p q hr _ ih =>
    rw [Program.functions_function] at h hvoid
    obtain ⟨hfirst, hothers⟩ := List.forall_mem_cons.mp h
    obtain ⟨hvoidFirst, hvoidOthers⟩ := List.forall_mem_cons.mp hvoid
    have hbody := (Function.checkBody_refusesAt hc hB hr hvoidFirst hfirst).decided
      (Function.checkBody_decides hr hc hidle.running hidle.loops hvoidFirst)
    refine hbody.bind fun f' c' hf' => ?_
    obtain ⟨-, -, -, rfl⟩ := hf'
    exact (ih hvoidOthers hothers).map fun _ _ _ => trivial

end TopLevel

end Sites

/-- **What the checker refuses as a target, the rules refuse**: where a diagnostic is about the
target of an assignment, some assignment of the program has there a target that the rules do not
let be assigned to. -/
theorem Program.check_refusesAt (p : Program α) (hvoid : p.VoidFree) :
    Checking.Blames .fresh (RefusesAt p.sites) (fun _ _ => True) p.check := by
  obtain ⟨hglobals, hfunctions⟩ := List.append_subset.mp (List.Subset.refl p.sites)
  have hfunction (f : Function α) (hf : f ∈ p.functions) : f.sites p.bindings ⊆ p.sites :=
    fun site hsite => hfunctions (List.mem_flatMap.mpr ⟨f, hf, hsite⟩)
  have hB := Bindings.Matches.globals p
  have hfirst := (TopLevel.mapGlobals_refusesAt p shows_fresh ⟨rfl, rfl, rfl⟩ hvoid.globals
    .nil hglobals).decided (TopLevel.mapGlobals_decides (Φ := p.headings) p shows_fresh
      ⟨rfl, rfl, rfl⟩ hvoid.globals)
  refine hfirst.bind fun q₁ c₁ hdeclared => ?_
  obtain ⟨-, -, hpairs₁, hc₁⟩ := hdeclared
  have hsecond := (TopLevel.mapFunctions_register_refusesAt hpairs₁ hc₁.shows hB
    hfunction).decided (TopLevel.mapFunctions_register_decides p.headings hpairs₁ hc₁.shows)
  refine hsecond.bind fun q₂ c₂ hheads => ?_
  obtain ⟨-, -, hpairs₂, t, rfl, hlookup⟩ := hheads
  exact TopLevel.mapFunctions_checkBody_refusesAt hpairs₂ (agrees_of_declared hc₁ hlookup)
    ⟨hc₁.idle.inner, hc₁.idle.running, hc₁.idle.loops⟩ hvoid.functions hB hfunction

end SysYFront
