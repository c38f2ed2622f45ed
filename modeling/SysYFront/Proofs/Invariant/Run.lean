import SysYFront.Program.Check
import SysYFront.Proofs.Invariant.Typed
import SysYFront.Proofs.Meaning.Rules

/-!
# SysYFront.Proofs.Invariant.Run

What a whole run of the checker keeps, whether it succeeds or not. A check *keeps* a property
of states (`Checking.Keeps`) if it ends in such a state from every such state, also when it
fails on the way; and what it gives, when it succeeds, satisfies a property of its own. Both
are put together from the links of the check.

With this, a checker whose types are well-formed stays so through every program in which no
variable is `void`, and annotates it with well-formed types only (`Program.check_keeps`).
-/

namespace SysYFront

variable {α β γ : Type}

/-! ### Checks that keep a property of states -/

/-- Whether a check keeps `P`, whatever its outcome, and gives only results with `Q`. -/
def Checking.Keeps (P : Checker → Prop) (Q : β → Prop) (m : Checking β) : Prop :=
  ∀ c, P c → match m c with
    | .ok b c' => Q b ∧ P c'
    | .error _ c' => P c'

namespace Checking.Keeps

variable {P : Checker → Prop} {Q : β → Prop} {R : γ → Prop} {m : Checking β}

theorem of_ok (h : Keeps P Q m) {c c' : Checker} {b : β} (hc : P c) (hm : m c = .ok b c') :
    Q b ∧ P c' := by
  have hkept := h c hc
  rw [hm] at hkept
  exact hkept

theorem pure {b : β} (h : Q b) : Keeps P Q (Pure.pure b) :=
  fun _ hc => ⟨h, hc⟩

theorem bind {f : β → Checking γ} (h : Keeps P Q m) (hf : ∀ b, Q b → Keeps P R (f b)) :
    Keeps P R (m >>= f) := by
  intro c hc
  have hkept := h c hc
  change match EStateM.bind m f c with | .ok b c' => R b ∧ P c' | .error _ c' => P c'
  unfold EStateM.bind
  cases hm : m c with
  | error d c' =>
    rw [hm] at hkept
    exact hkept
  | ok b c' =>
    rw [hm] at hkept
    exact hf b hkept.1 c' hkept.2

theorem inspect {f : Checker → Except Diagnostic β}
    (h : ∀ c, P c → ∀ b, f c = .ok b → Q b) : Keeps P Q (Checking.inspect f) := by
  intro c hc
  unfold Checking.inspect
  cases hf : f c with
  | error d => exact hc
  | ok b => exact ⟨h c hc b hf, hc⟩

theorem modified {f : Checker → Checker} (h : ∀ c, P c → P (f c)) :
    Keeps P (fun _ => True) (modify f : Checking Unit) :=
  fun c hc => ⟨trivial, h c hc⟩

/-- Inside a scope another property may be kept than outside. -/
theorem bracketed {I : Checker → Prop} {enter leave : Checker → Checker}
    (henter : ∀ c, P c → I (enter c)) (hleave : ∀ c, I c → P (leave c)) (h : Keeps I Q m) :
    Keeps P Q (Checking.within enter leave m) := by
  intro c hc
  have hkept := h (enter c) (henter c hc)
  unfold Checking.within
  cases hm : m (enter c) with
  | error d c' =>
    rw [hm] at hkept
    exact hleave c' hkept
  | ok b c' =>
    rw [hm] at hkept
    exact ⟨hkept.1, hleave c' hkept.2⟩

theorem within {enter leave : Checker → Checker} (henter : ∀ c, P c → P (enter c))
    (hleave : ∀ c, P c → P (leave c)) (h : Keeps P Q m) :
    Keeps P Q (Checking.within enter leave m) :=
  bracketed henter hleave h

end Checking.Keeps

/-! ### Notes of statements and programs -/

mutual

/-- Whether every note of a statement satisfies `P`. -/
def Stmt.Every (P : α → Prop) : Stmt α → Prop
  | .empty _ | .breakLoop _ | .continueLoop _ | .returnNothing _ => True
  | .expr e _ | .returnValue e _ => e.Every P
  | .block items _ => Item.All P items
  | .ifThen e body _ | .whileLoop e body _ => e.Every P ∧ Stmt.Every P body
  | .ifElse e body otherwise _ => e.Every P ∧ Stmt.Every P body ∧ Stmt.Every P otherwise

/-- Whether every note of a block item satisfies `P`. -/
def Item.Every (P : α → Prop) : Item α → Prop
  | .decl d => d.Every P
  | .stmt s => Stmt.Every P s

/-- Whether every note of a list of block items satisfies `P`. -/
def Item.All (P : α → Prop) : List (Item α) → Prop
  | [] => True
  | item :: items => Item.Every P item ∧ Item.All P items

end

/-- Whether every note of a function satisfies `P`. -/
structure Function.Every (P : α → Prop) (f : Function α) : Prop where
  params : ∀ p ∈ f.params, Expr.All P p.dims
  body : Item.All P f.body.items

/-- Whether a unit satisfies `Q` if it is a declaration and `R` if it is a function. -/
def TopLevel.Satisfies {δ φ : Type} (Q : δ → Prop) (R : φ → Prop) : TopLevel δ φ → Prop
  | .global d => Q d
  | .function f => R f

/-- Whether every note of a program satisfies `P`. -/
def Program.Every (P : α → Prop) (p : Program α) : Prop :=
  ∀ unit ∈ p, unit.Satisfies (Decl.Every P) (Function.Every P)

/-! ### States -/

open ValueType (WellFormed)
open Checking (Keeps)

namespace Checker.WellTyped

variable {c : Checker}

theorem fresh : Checker.fresh.WellTyped where
  frames := by simp [Checker.fresh, Scopes.empty]
  params entry hentry p hp := by
    obtain rfl := List.mem_singleton.mp hentry
    obtain rfl := List.mem_singleton.mp hp
    exact ValueType.wellFormed_place .int Shape.small_nil
  results entry _ := ValueType.wellFormed_scalar _

/-- Only the frames and the functions of a state matter. -/
theorem congr {c' : Checker} (hc : c.WellTyped) (hscopes : c'.scopes = c.scopes)
    (hfunctions : c'.functions = c.functions) : c'.WellTyped :=
  ⟨hscopes ▸ hc.frames, hfunctions ▸ hc.params, hfunctions ▸ hc.results⟩

theorem declare (hc : c.WellTyped) (name : String) {t : ValueType} (ht : t.WellFormed) :
    (c.declare name t).WellTyped := by
  refine ⟨?_, hc.params, hc.results⟩
  have hframes := hc.frames
  obtain ⟨⟨inner, globals⟩, functions, running, depth⟩ := c
  intro frame hframe
  cases inner with
  | nil =>
    obtain rfl := List.mem_singleton.mp hframe
    exact List.forall_mem_cons.mpr ⟨ht, hframes globals List.mem_cons_self⟩
  | cons innermost outer =>
    obtain ⟨hglobals, hinnermost, houter⟩ :
        (∀ entry ∈ globals, entry.2.WellFormed) ∧ (∀ entry ∈ innermost, entry.2.WellFormed) ∧
          ∀ frame ∈ outer, ∀ entry ∈ frame, entry.2.WellFormed := by
      simpa using hframes
    change frame ∈ globals :: ((name, t) :: innermost) :: outer at hframe
    rcases List.mem_cons.mp hframe with rfl | hframe
    · exact hglobals
    · rcases List.mem_cons.mp hframe with rfl | hframe
      · exact List.forall_mem_cons.mpr ⟨ht, hinnermost⟩
      · exact houter frame hframe

theorem addFunction (hc : c.WellTyped) (name : String) {s : Signature}
    (hs : ∀ p ∈ s.params, p.type.WellFormed) : (c.addFunction name s).WellTyped := by
  have hentry {entry : String × Signature}
      (h : entry ∈ (c.addFunction name s).functions.entries) :
      entry = (name, s) ∨ entry ∈ c.functions.entries := by
    rcases List.mem_cons.mp h with h | h
    · exact .inl h
    · exact .inr (List.mem_filter.mp h).1
  refine ⟨hc.frames, fun entry h => ?_, fun entry h => ValueType.wellFormed_scalar _⟩
  rcases hentry h with rfl | h
  · exact hs
  · exact hc.params entry h

/-- A scope may be entered with well-formed types. -/
theorem enter (hc : c.WellTyped) {frame : Frame} (hframe : ∀ entry ∈ frame, entry.2.WellFormed) :
    ({ c with scopes := c.scopes.enter frame }).WellTyped := by
  refine ⟨fun other hother => ?_, hc.params, hc.results⟩
  rcases List.mem_cons.mp hother with rfl | hother
  · exact hc.frames _ List.mem_cons_self
  · rcases List.mem_cons.mp hother with rfl | hother
    · exact hframe
    · exact hc.frames other (List.mem_cons_of_mem _ hother)

theorem enterBlock (hc : c.WellTyped) : c.enterBlock.WellTyped :=
  hc.enter nofun

theorem enterFunction (hc : c.WellTyped) (name : String) {s : Signature}
    (hs : ∀ p ∈ s.params, p.type.WellFormed) : (c.enterFunction name s).WellTyped := by
  refine (hc.enter fun entry hentry => ?_).congr rfl rfl
  obtain ⟨p, hp, rfl⟩ := List.mem_map.mp hentry
  exact hs p hp

theorem leaveBlock (hc : c.WellTyped) : c.leaveBlock.WellTyped := by
  refine ⟨fun frame hframe => hc.frames frame ?_, hc.params, hc.results⟩
  rcases List.mem_cons.mp hframe with rfl | hframe
  · exact List.mem_cons_self
  · exact List.mem_cons_of_mem _ (List.mem_of_mem_tail hframe)

end Checker.WellTyped

/-! ### Declarations and statements -/

theorem Decl.check_keeps {d : Decl α} (hbase : d.base ≠ .void) :
    Keeps Checker.WellTyped (Decl.Every WellFormed) d.check := by
  have hresolve : Keeps Checker.WellTyped (Decl.Every WellFormed) (Checking.inspect d.resolve) :=
    .inspect fun c hc d' h => Decl.resolve_every hc hbase h
  refine hresolve.bind fun d' hd' => ?_
  refine (Keeps.modified fun c hc => hc.declare d'.name hd'.note).bind fun _ _ => ?_
  exact .pure hd'

theorem Expr.checkHere_keeps (e : Expr α) :
    Keeps Checker.WellTyped (Expr.Every WellFormed) e.checkHere :=
  .inspect fun _ hc _ h => Expr.check_every hc h

namespace Stmt

theorem checkCondition_keeps (e : Expr α) :
    Keeps Checker.WellTyped (Expr.Every WellFormed) (checkCondition e) := by
  refine .inspect fun c hc e' h => ?_
  simp only [bind_eq_ok, guard_eq_ok, pure_eq_ok] at h
  obtain ⟨e₁, he, -, rfl⟩ := h
  exact Expr.check_every hc he

theorem checkReturned_keeps (e : Expr α) (l : Location) :
    Keeps Checker.WellTyped (Expr.Every WellFormed) (checkReturned e l) := by
  refine .inspect fun c hc e' h => ?_
  simp only [bind_eq_ok, guard_eq_ok] at h
  obtain ⟨e₁, he, -, h⟩ := h
  have hsame : e₁ = e' := by
    split at h
    · exact pure_eq_ok.mp h
    · simp only [guard_eq_ok, pure_eq_ok] at h
      exact h.2.2
  subst hsame
  exact Expr.check_every hc he

theorem requireLoop_keeps (word : Keyword) (l : Location) :
    Keeps Checker.WellTyped (fun _ => True) (requireLoop word l) :=
  .inspect fun _ _ _ _ => trivial

mutual

/-- Checking a statement keeps the types of the state well-formed, on every outcome. -/
theorem check_keeps : ∀ {s : Stmt α}, s.VoidFree →
    Keeps Checker.WellTyped (Stmt.Every WellFormed) (check s)
  | .empty l, _ | .returnNothing l, _ => .pure trivial
  | .expr e l, _ => (Expr.checkHere_keeps e).bind fun _ he => .pure he
  | .block items l, h => by
    have hitems := checkItems_keeps h
    exact (Keeps.within (fun c hc => hc.enterBlock) (fun c hc => hc.leaveBlock) hitems).bind
      fun items' hitems' => .pure hitems'
  | .ifThen e body l, h => by
    have hbody : Keeps Checker.WellTyped (Stmt.Every WellFormed) (check body) := check_keeps h
    exact (checkCondition_keeps e).bind fun _ he => hbody.bind fun _ hbody => .pure ⟨he, hbody⟩
  | .ifElse e body otherwise l, h =>
    (checkCondition_keeps e).bind fun _ he => (check_keeps h.1).bind fun _ hbody =>
      (check_keeps h.2).bind fun _ hotherwise => .pure ⟨he, hbody, hotherwise⟩
  | .whileLoop e body l, h => by
    have hbody : Keeps Checker.WellTyped (Stmt.Every WellFormed) (check body) := check_keeps h
    have hloop : Keeps Checker.WellTyped (Stmt.Every WellFormed)
        (Checking.within .enterLoop .leaveLoop (check body)) :=
      .within (fun c hc => hc.congr rfl rfl) (fun c hc => hc.congr rfl rfl) hbody
    exact (checkCondition_keeps e).bind fun _ he => hloop.bind fun _ hbody => .pure ⟨he, hbody⟩
  | .breakLoop l, _ | .continueLoop l, _ => (requireLoop_keeps _ l).bind fun _ _ => .pure trivial
  | .returnValue e l, _ => (checkReturned_keeps e l).bind fun _ he => .pure he

theorem checkItem_keeps : ∀ {item : Item α}, item.VoidFree →
    Keeps Checker.WellTyped (Item.Every WellFormed) (checkItem item)
  | .decl _, h => (Decl.check_keeps h).bind fun _ hd => .pure hd
  | .stmt _, h => (check_keeps h).bind fun _ hs => .pure hs

theorem checkItems_keeps : ∀ {items : List (Item α)}, Item.AllVoidFree items →
    Keeps Checker.WellTyped (Item.All WellFormed) (checkItems items)
  | [], _ => .pure trivial
  | _ :: _, h => (checkItem_keeps h.1).bind fun _ hitem =>
    (checkItems_keeps h.2).bind fun _ hitems => .pure ⟨hitem, hitems⟩

end

end Stmt

/-! ### Functions -/

/-- What is known of a function whose head was checked. -/
structure Registered.WellTyped (r : Registered α) : Prop where
  types : ∀ p ∈ r.signature.params, p.type.WellFormed
  params : ∀ p ∈ r.params, Expr.All WellFormed p.dims
  body : Item.AllVoidFree r.body.items

theorem Function.resolve_wellTyped {f : Function α} (hf : Item.AllVoidFree f.body.items)
    {c : Checker} {r : Registered α} (h : f.resolve c = .ok r) : r.WellTyped := by
  simp only [resolve, guard_eq_ok, bind_eq_ok, pure_eq_ok] at h
  obtain ⟨-, params, hparams, rfl⟩ := h
  have hall := Param.resolveAll_every hparams
  refine ⟨fun p hp => ?_, fun p hp => ?_, hf⟩
  · obtain ⟨r, hr, rfl⟩ := List.mem_map.mp hp
    exact (hall r hr).2
  · obtain ⟨r, hr, rfl⟩ := List.mem_map.mp hp
    exact (hall r hr).1

theorem Function.register_keeps {f : Function α} (hf : Item.AllVoidFree f.body.items) :
    Keeps Checker.WellTyped Registered.WellTyped f.register := by
  have hresolve : Keeps Checker.WellTyped Registered.WellTyped (Checking.inspect f.resolve) :=
    .inspect fun _ _ _ h => Function.resolve_wellTyped hf h
  refine hresolve.bind fun r hr => ?_
  exact (Keeps.modified fun c hc => hc.addFunction r.name hr.types).bind fun _ _ => .pure hr

theorem Registered.checkBody_keeps {r : Registered α} (hr : r.WellTyped) :
    Keeps Checker.WellTyped (Function.Every WellFormed) r.checkBody := by
  have hitems := Stmt.checkItems_keeps hr.body
  refine (Keeps.within (fun c hc => hc.enterFunction r.name hr.types) (fun c hc => ?_) hitems).bind
    fun items hitems => .pure ⟨hr.params, hitems⟩
  exact hc.leaveBlock.congr rfl rfl

/-! ### Programs -/

namespace TopLevel

variable {δ δ' φ φ' : Type} {P : Checker → Prop} {Q : δ → Prop} {Q' : δ' → Prop} {R : φ → Prop}
  {R' : φ' → Prop}

theorem mapGlobals_keeps {f : δ → Checking δ'} (hf : ∀ d, Q d → Keeps P Q' (f d))
    {units : List (TopLevel δ φ)} (hunits : ∀ unit ∈ units, unit.Satisfies Q R) :
    Keeps P (fun units' => ∀ unit ∈ units', unit.Satisfies Q' R) (mapGlobals f units) := by
  induction units with
  | nil => exact .pure nofun
  | cons unit units ih =>
    obtain ⟨hunit, hothers⟩ := List.forall_mem_cons.mp hunits
    cases unit with
    | global d =>
      refine (hf d hunit).bind fun d' hd' => (ih hothers).bind fun units' hunits' => .pure ?_
      exact List.forall_mem_cons.mpr ⟨hd', hunits'⟩
    | function g =>
      refine (ih hothers).bind fun units' hunits' => .pure ?_
      exact List.forall_mem_cons.mpr ⟨hunit, hunits'⟩

theorem mapFunctions_keeps {f : φ → Checking φ'} (hf : ∀ g, R g → Keeps P R' (f g))
    {units : List (TopLevel δ φ)} (hunits : ∀ unit ∈ units, unit.Satisfies Q R) :
    Keeps P (fun units' => ∀ unit ∈ units', unit.Satisfies Q R') (mapFunctions f units) := by
  induction units with
  | nil => exact .pure nofun
  | cons unit units ih =>
    obtain ⟨hunit, hothers⟩ := List.forall_mem_cons.mp hunits
    cases unit with
    | global d =>
      refine (ih hothers).bind fun units' hunits' => .pure ?_
      exact List.forall_mem_cons.mpr ⟨hunit, hunits'⟩
    | function g =>
      refine (hf g hunit).bind fun g' hg' => (ih hothers).bind fun units' hunits' => .pure ?_
      exact List.forall_mem_cons.mpr ⟨hg', hunits'⟩

end TopLevel

theorem Program.VoidFree.units {p : Program α} (h : p.VoidFree) : ∀ unit ∈ p,
    unit.Satisfies (fun d => d.base ≠ .void) (fun f => Item.AllVoidFree f.body.items) := by
  intro unit hunit
  cases unit with
  | global d => exact h.globals d (List.mem_filterMap.mpr ⟨_, hunit, rfl⟩)
  | function f => exact h.functions f (List.mem_filterMap.mpr ⟨_, hunit, rfl⟩)

/-- Checking a program keeps the types of the state well-formed, on every outcome, and
annotates the program with well-formed types. -/
theorem Program.check_keeps {p : Program α} (h : p.VoidFree) :
    Keeps Checker.WellTyped (Program.Every WellFormed) p.check := by
  refine (TopLevel.mapGlobals_keeps (fun d hd => Decl.check_keeps hd) h.units).bind ?_
  intro declared hdeclared
  refine (TopLevel.mapFunctions_keeps (fun f hf => Function.register_keeps hf) hdeclared).bind ?_
  intro registered hregistered
  exact TopLevel.mapFunctions_keeps (fun r hr => Registered.checkBody_keeps hr) hregistered

end SysYFront
