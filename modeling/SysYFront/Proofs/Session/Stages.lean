import SysYFront.Proofs.Session.Growth

/-!
# SysYFront.Proofs.Session.Stages

Which programs are accepted, said without the order in which their functions are treated. The
second pass looks at the table of functions only to see whether a name is taken, so every head is
checked as if it were the first one (`Function.mapM_register_iff`); the third pass checks every
body in one and the same state. What is left of the order is that of the global declarations
(`Program.check_iff_passes`).
-/

namespace SysYFront

variable {α : Type} {c c' : Checker}

/-- A function of an accepted program as it is read, as it is registered and as it is checked. -/
structure FunctionStages (α : Type) where
  source : Function α
  head : Registered α
  checked : Function ValueType

/-- The checker behind a program with the checked declarations `ds` and the registered functions
`rs`. -/
def Checker.extend (c : Checker) (ds : List (Decl ValueType)) (rs : List (Registered α)) :
    Checker :=
  (c.declareAll ds).registerAll rs

/-! ### Heads in any order -/

namespace Function

/-- Behind the registration of another function, a head is checked as before it. -/
theorem resolve_addFunction_eq_ok {f : Function α} {r : Registered α} {name : String}
    {s : Signature} :
    f.resolve (c.addFunction name s) = .ok r ↔ f.name ≠ name ∧ f.resolve c = .ok r := by
  have hcontains := TopLevel.contains_addFunction c name f.name s
  have hless : (c.addFunction name s).scopes.IncludedIn c.scopes := fun _ _ ht => ht
  have hmore : c.scopes.IncludedIn (c.addFunction name s).scopes := fun _ _ ht => ht
  constructor
  · intro h
    obtain ⟨hname, hnew, hglobal⟩ := resolve_name h
    rw [hname, hcontains, Bool.or_eq_false_iff, beq_eq_false_iff_ne] at hnew
    rw [hname] at hglobal
    exact ⟨hnew.1, resolve_mono hless hnew.2 hglobal h⟩
  · intro h
    obtain ⟨hne, h⟩ := h
    obtain ⟨hname, hnew, hglobal⟩ := resolve_name h
    rw [hname] at hnew hglobal
    refine resolve_mono hmore ?_ hglobal h
    rw [hcontains, hnew, Bool.or_false]
    exact beq_eq_false_iff_ne.mpr hne

/-- The heads behind that of another function find one more name taken, and nothing else changed. -/
theorem forall₂_resolve_addFunction {fs : List (Function α)} {rs : List (Registered α)}
    {name : String} {s : Signature} :
    List.Forall₂ (fun f r => f.resolve (c.addFunction name s) = .ok r) fs rs ↔
      (∀ f ∈ fs, f.name ≠ name) ∧ List.Forall₂ (fun f r => f.resolve c = .ok r) fs rs := by
  rw [← List.forall₂_and_left]
  simp only [resolve_addFunction_eq_ok]

/-- Functions are registered if their names are distinct and each of their heads is accepted by
the checker that knows none of them yet. -/
theorem mapM_register_iff {fs : List (Function α)} {rs : List (Registered α)} :
    fs.mapM register c = .ok rs c' ↔
      (List.Forall₂ (fun f r => f.resolve c = .ok r) fs rs ∧ (fs.map name).Nodup) ∧
        c' = c.registerAll rs := by
  induction fs generalizing c rs with
  | nil =>
    rw [Checking.mapM_nil_eq_ok, List.forall₂_nil_left_iff]
    constructor
    · intro h
      obtain ⟨rfl, rfl⟩ := h
      exact ⟨⟨rfl, List.nodup_nil⟩, rfl⟩
    · intro h
      obtain ⟨⟨rfl, -⟩, rfl⟩ := h
      exact ⟨rfl, rfl⟩
  | cons f fs ih =>
    rw [Checking.mapM_cons_eq_ok, List.forall₂_cons_left_iff, List.map_cons, List.nodup_cons]
    constructor
    · intro h
      obtain ⟨r, c₁, hr, rs, hrs, rfl⟩ := h
      obtain ⟨hresolve, rfl⟩ := register_eq_ok.mp hr
      obtain ⟨⟨hheads, hnodup⟩, rfl⟩ := ih.mp hrs
      obtain ⟨hothers, hheads⟩ := forall₂_resolve_addFunction.mp hheads
      rw [(resolve_name hresolve).1] at hothers
      refine ⟨⟨⟨r, rs, hresolve, hheads, rfl⟩, ?_, hnodup⟩, rfl⟩
      intro hmem
      obtain ⟨g, hg, hname⟩ := List.mem_map.mp hmem
      exact hothers g hg hname
    · intro h
      obtain ⟨⟨⟨r, rs, hresolve, hheads, rfl⟩, hfirst, hnodup⟩, rfl⟩ := h
      refine ⟨r, _, register_eq_ok.mpr ⟨hresolve, rfl⟩, rs, ih.mpr ⟨⟨?_, hnodup⟩, rfl⟩, rfl⟩
      refine forall₂_resolve_addFunction.mpr ⟨fun g hg hname => hfirst ?_, hheads⟩
      rw [(resolve_name hresolve).1] at hname
      exact List.mem_map.mpr ⟨g, hg, hname⟩

end Function

/-! ### Programs -/

/-- Whether a program passes up to the bodies of its functions, with the checked declarations `ds`
and with its functions at their stages: the declarations one behind the other, the heads each
behind all declarations. -/
structure Program.HeadsPass (c : Checker) (p : Program α) (ds : List (Decl ValueType))
    (stages : List (FunctionStages α)) : Prop where
  globals : p.globals.mapM Decl.check c = .ok ds (c.declareAll ds)
  sources : stages.map FunctionStages.source = p.functions
  names : (p.functions.map Function.name).Nodup
  heads : ∀ s ∈ stages, s.source.resolve (c.declareAll ds) = .ok s.head

/-- Whether a program passes as a whole: the bodies each behind all declarations and all heads. -/
structure Program.Passes (c : Checker) (p : Program α) (ds : List (Decl ValueType))
    (stages : List (FunctionStages α)) : Prop extends p.HeadsPass c ds stages where
  bodies : ∀ s ∈ stages, s.head.checkBody (c.extend ds (stages.map FunctionStages.head)) =
    .ok s.checked (c.extend ds (stages.map FunctionStages.head))

/-- Functions that are related to their heads, and these to checked functions, are at stages. -/
theorem FunctionStages.exists_of_forall₂ {R : Function α → Registered α → Prop}
    {S : Registered α → Function ValueType → Prop} {fs : List (Function α)}
    {rs : List (Registered α)} {gs : List (Function ValueType)} (hR : List.Forall₂ R fs rs)
    (hS : List.Forall₂ S rs gs) : ∃ stages : List (FunctionStages α),
      stages.map source = fs ∧ stages.map head = rs ∧ stages.map checked = gs ∧
        ∀ s ∈ stages, R s.source s.head ∧ S s.head s.checked := by
  induction hR generalizing gs with
  | nil =>
    cases hS
    exact ⟨[], rfl, rfl, rfl, nofun⟩
  | @cons f r fs rs hfr _ ih =>
    cases hS with
    | @cons _ g _ gs hrg hS =>
      obtain ⟨stages, rfl, rfl, rfl, hall⟩ := ih hS
      exact ⟨⟨f, r, g⟩ :: stages, rfl, rfl, rfl, List.forall_mem_cons.mpr ⟨⟨hfr, hrg⟩, hall⟩⟩

namespace Program.HeadsPass

variable {p : Program α} {ds : List (Decl ValueType)} {stages : List (FunctionStages α)}

/-- The functions are registered one after the other. -/
theorem registers (hp : p.HeadsPass c ds stages) :
    p.functions.mapM Function.register (c.declareAll ds) =
      .ok (stages.map FunctionStages.head) (c.extend ds (stages.map FunctionStages.head)) := by
  refine Function.mapM_register_iff.mpr ⟨⟨?_, hp.names⟩, rfl⟩
  rw [← hp.sources, List.forall₂_map_left_iff, List.forall₂_map_right_iff]
  exact List.forall₂_same.mpr hp.heads

/-- Registered functions stand before those that were known. -/
theorem entries_extend (hp : p.HeadsPass c ds stages) :
    (c.extend ds (stages.map FunctionStages.head)).functions.entries =
      (stages.map fun s => (s.head.name, s.head.signature)).reverse ++ c.functions.entries := by
  have hentries := (Function.mapM_register_entries hp.registers).1
  rwa [Checker.functions_declareAll, List.map_map] at hentries

end Program.HeadsPass

theorem Checker.Idle.extend (hc : c.Idle) (ds : List (Decl ValueType))
    (rs : List (Registered α)) : (c.extend ds rs).Idle :=
  (hc.declareAll ds).registerAll rs

@[simp] theorem Checker.scopes_extend (c : Checker) (ds : List (Decl ValueType))
    (rs : List (Registered α)) : (c.extend ds rs).scopes = (c.declareAll ds).scopes :=
  scopes_registerAll _ rs

/-- Between two others, a program is accepted if and only if it passes, and then the checker has
grown by its declarations and its functions. -/
theorem Program.check_iff_passes (hc : c.Idle) {p : Program α} {q : Program ValueType} :
    p.check c = .ok q c' ↔ ∃ ds stages, p.Passes c ds stages ∧
      c' = c.extend ds (stages.map FunctionStages.head) ∧
        q = TopLevel.refill p ds (stages.map FunctionStages.checked) := by
  rw [check_eq_ok]
  constructor
  · intro h
    obtain ⟨ds, c₁, hds, rs, c₂, hrs, fs, hfs, rfl⟩ := h
    obtain rfl := Decl.mapM_check_eq_ok hds
    obtain ⟨⟨hheads, hnames⟩, rfl⟩ := Function.mapM_register_iff.mp hrs
    obtain ⟨hbodies, rfl⟩ := (Registered.mapM_checkBody_eq_ok (hc.extend ds rs)).mp hfs
    obtain ⟨stages, hsources, rfl, rfl, hall⟩ := FunctionStages.exists_of_forall₂ hheads hbodies
    exact ⟨ds, stages, ⟨⟨hds, hsources, hnames, fun s hs => (hall s hs).1⟩,
      fun s hs => (hall s hs).2⟩, rfl, rfl⟩
  · intro h
    obtain ⟨ds, stages, hp, rfl, rfl⟩ := h
    refine ⟨ds, _, hp.globals, _, _, hp.registers, _,
      (Registered.mapM_checkBody_eq_ok (hc.extend ds _)).mpr ⟨?_, rfl⟩, rfl⟩
    rw [List.forall₂_map_left_iff, List.forall₂_map_right_iff]
    exact List.forall₂_same.mpr hp.bodies

end SysYFront
