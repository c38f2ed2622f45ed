import SysYFront.Proofs.Invariant.Points
import SysYFront.Proofs.Session.Reorder

/-!
# SysYFront.Proofs.Session.Batch

**Checking programs one after the other agrees with checking them at once.** If one checker accepts
some programs in turn, and no global variable bears the name of a function of an earlier program,
then the single program that is made of all their units is accepted, every unit has the form that
it had in its own program, and the table of functions is the same (`checkFresh_flatten`).

In the single program the later global variables are declared before the first function is
registered, and every body sees all global variables and all functions. Both only add to what a
check knows, and what is added has new names.
-/

namespace SysYFront

variable {α : Type} {c c' c'' : Checker}

/-- What a checker answers to some programs, one after the other. -/
def Checker.results (c : Checker) :
    List (Program α) → List (Except Diagnostic (Program ValueType))
  | [] => []
  | p :: ps => (c.checkProgram p).1 :: results (c.checkProgram p).2 ps

/-- An accepted program is checked, and the state behind it is the one that is left. -/
theorem Checker.checkProgram_eq_ok {p : Program α} {q : Program ValueType}
    (h : (c.checkProgram p).1 = .ok q) : p.check c = .ok q (c.checkProgram p).2 := by
  unfold checkProgram at h ⊢
  cases hp : p.check c with
  | error e c' => simp [hp] at h
  | ok q' c' =>
    rw [hp] at h
    obtain rfl := Except.ok.inj h
    rfl

/-! ### Two programs -/

/-- What two programs add in turn is what their declarations and then their functions add. -/
theorem Checker.extend_extend (c : Checker) (ds ds' : List (Decl ValueType))
    (rs rs' : List (Registered α)) :
    (c.extend ds rs).extend ds' rs' = c.extend (ds ++ ds') (rs ++ rs') := by
  simp only [extend, declareAll_registerAll, declareAll_append, registerAll_append]

/-- Between two units, behind some declarations exactly their names are taken as well. -/
theorem Checker.Idle.declaresGlobally_declareAll (hc : c.Idle) (ds : List (Decl ValueType))
    (name : String) : (c.declareAll ds).scopes.declaresGlobally name = true ↔
      name ∈ ds.map Decl.name ∨ c.scopes.declaresGlobally name = true := by
  induction ds generalizing c with
  | nil => simp
  | cons d ds ih =>
    rw [declareAll_cons, ih (hc.declare _ _), hc.declaresGlobally_declare, List.map_cons,
      List.mem_cons, Bool.or_eq_true, beq_iff_eq]
    tauto

namespace Decl

theorem mapM_check_names {ds : List (Decl α)} {ds' : List (Decl ValueType)}
    (h : ds.mapM check c = .ok ds' c') : ds'.map name = ds.map name := by
  induction ds generalizing c ds' with
  | nil =>
    obtain ⟨rfl, -⟩ := Checking.mapM_nil_eq_ok.mp h
    rfl
  | cons d ds ih =>
    obtain ⟨d', c₁, hd, ds', hrest, rfl⟩ := Checking.mapM_cons_eq_ok.mp h
    rw [List.map_cons, List.map_cons, ih hrest, (resolve_name (check_eq_ok.mp hd).1).1]

/-- Global declarations are checked alike whatever functions the checker knows. -/
theorem mapM_check_of_scopes_eq (hc : c.Idle) (hc' : c'.Idle) (hscopes : c'.scopes = c.scopes)
    {ds : List (Decl α)} {ds' : List (Decl ValueType)}
    (h : ds.mapM check c = .ok ds' c'') : ds.mapM check c' = .ok ds' (c'.declareAll ds') := by
  induction ds generalizing c c' ds' with
  | nil =>
    obtain ⟨rfl, -⟩ := Checking.mapM_nil_eq_ok.mp h
    rfl
  | cons d ds ih =>
    obtain ⟨d', c₁, hd, ds', hrest, rfl⟩ := Checking.mapM_cons_eq_ok.mp h
    obtain ⟨hresolve, rfl⟩ := check_eq_ok.mp hd
    have hnames : c.scopes.IncludedIn c'.scopes := fun _ _ ht => hscopes ▸ ht
    have hglobal : c.scopes.isGlobal = true := by rw [Scopes.isGlobal, hc.inner]; rfl
    obtain ⟨hname, hnew⟩ := resolve_name hresolve
    have hresolve' : d.resolve c' = .ok d' := resolve_mono hnames (by rw [hscopes])
      (.inr hglobal) (by rwa [hscopes, ← hname]) hresolve
    refine Checking.mapM_cons_eq_ok.mpr
      ⟨d', _, check_eq_ok.mpr ⟨hresolve', rfl⟩, ds', ?_, rfl⟩
    refine ih (hc.declare _ _) (hc'.declare _ _) ?_ hrest
    rw [Checker.declare, Checker.declare, hscopes]

end Decl

/-- A head that is accepted behind other functions is accepted without them. -/
theorem Function.resolve_of_registerAll {f : Function α} {r : Registered α}
    {rs : List (Registered α)} (h : f.resolve (c.registerAll rs) = .ok r) :
    f.resolve c = .ok r := by
  induction rs generalizing c with
  | nil => exact h
  | cons r' rs ih => exact (resolve_addFunction_eq_ok.mp (ih h)).2

namespace Program

variable {p p' : Program α} {ds ds' : List (Decl ValueType)}
  {stages stages' : List (FunctionStages α)}

/-- What a program adds hides nothing and replaces nothing. -/
theorem HeadsPass.includedIn (hc : c.Idle) (hp : p.HeadsPass c ds stages) :
    c.scopes.IncludedIn (c.extend ds (stages.map FunctionStages.head)).scopes ∧
      c.functions.IncludedIn (c.extend ds (stages.map FunctionStages.head)).functions := by
  refine ⟨?_, ?_⟩
  · rw [Checker.scopes_extend]
    exact Decl.mapM_check_includedIn hc hp.globals
  · have hincluded := (Function.mapM_register_entries hp.registers).2
    rwa [Checker.functions_declareAll] at hincluded

/-- The functions of a program are known behind it. -/
theorem HeadsPass.contains (hp : p.HeadsPass c ds stages) {f : Function α}
    (hf : f ∈ p.functions) :
    (c.extend ds (stages.map FunctionStages.head)).functions.contains f.name = true := by
  rw [← hp.sources] at hf
  obtain ⟨s, hs, rfl⟩ := List.mem_map.mp hf
  have hentry : (s.source.name, s.head.signature) ∈
      (c.extend ds (stages.map FunctionStages.head)).functions.entries := by
    rw [hp.entries_extend, ← (Function.resolve_name (hp.heads s hs)).1]
    exact List.mem_append_left _ (List.mem_reverse.mpr (List.mem_map.mpr ⟨s, hs, rfl⟩))
  rw [SignatureTable.contains, SignatureTable.get?_eq_some_iff.mpr hentry]
  rfl

/-- The functions of two programs in turn have distinct names: those of the first one are taken
when a function of the second one is registered. -/
theorem HeadsPass.nodup_append (hp : p.HeadsPass c ds stages)
    (hp' : p'.HeadsPass (c.extend ds (stages.map FunctionStages.head)) ds' stages') :
    (functions (p ++ p') |>.map Function.name).Nodup := by
  rw [functions_append, List.map_append, List.nodup_append]
  refine ⟨hp.names, hp'.names, ?_⟩
  intro name hname other hother hsame
  obtain ⟨f, hf, rfl⟩ := List.mem_map.mp hname
  obtain ⟨g, hg, rfl⟩ := List.mem_map.mp hother
  rw [← hp'.sources] at hg
  obtain ⟨s, hs, rfl⟩ := List.mem_map.mp hg
  obtain ⟨hname, hnew, -⟩ := Function.resolve_name (hp'.heads s hs)
  rw [Checker.functions_declareAll, hname, ← hsame, hp.contains hf] at hnew
  cases hnew

/-- The heads of a program are accepted behind more declarations that do not bear the names of its
functions. -/
theorem HeadsPass.heads_behind (hc : c.Idle) (hp : p.HeadsPass c ds stages)
    {globals : List (Decl α)}
    (hglobals : globals.mapM Decl.check (c.declareAll ds) = .ok ds' c')
    (hnames : ∀ d ∈ globals, ∀ f ∈ p.functions, d.name ≠ f.name) {s : FunctionStages α}
    (hs : s ∈ stages) : s.source.resolve ((c.declareAll ds).declareAll ds') = .ok s.head := by
  have hidle : (c.declareAll ds).Idle := hc.declareAll ds
  obtain ⟨hname, hnew, hglobal⟩ := Function.resolve_name (hp.heads s hs)
  rw [hname] at hnew hglobal
  have hmore := Decl.mapM_check_includedIn hidle hglobals
  have hdistinct := Decl.mapM_check_names hglobals
  obtain rfl := Decl.mapM_check_eq_ok hglobals
  refine Function.resolve_mono hmore ?_ ?_ (hp.heads s hs)
  · rwa [Checker.functions_declareAll]
  · rw [← Bool.not_eq_true, hidle.declaresGlobally_declareAll, hglobal, hdistinct]
    simp only [Bool.false_eq_true, or_false]
    intro hmem
    obtain ⟨d, hd, hsame⟩ := List.mem_map.mp hmem
    exact hnames d hd _ (hp.sources ▸ List.mem_map.mpr ⟨s, hs, rfl⟩) hsame

/-- If the heads of two programs pass in turn and no declaration of the second one bears the name
of a function of the first one, they pass as the heads of one program. -/
theorem HeadsPass.append (hc : c.Idle) (hp : p.HeadsPass c ds stages)
    (hp' : p'.HeadsPass (c.extend ds (stages.map FunctionStages.head)) ds' stages')
    (hnames : ∀ d ∈ p'.globals, ∀ f ∈ p.functions, d.name ≠ f.name) :
    HeadsPass c (p ++ p') (ds ++ ds') (stages ++ stages') := by
  have hglobals' : p'.globals.mapM Decl.check (c.declareAll ds) =
      .ok ds' ((c.declareAll ds).declareAll ds') :=
    Decl.mapM_check_of_scopes_eq (hc.extend ds _) (hc.declareAll ds)
      (Checker.scopes_extend ..).symm hp'.globals
  refine ⟨?_, ?_, hp.nodup_append hp', ?_⟩
  · rw [globals_append, Checker.declareAll_append]
    exact Checking.mapM_append_eq_ok.mpr ⟨ds, _, hp.globals, ds', hglobals', rfl⟩
  · rw [List.map_append, hp.sources, hp'.sources, functions_append]
  · intro s hs
    rw [Checker.declareAll_append]
    rcases List.mem_append.mp hs with hs | hs
    · exact hp.heads_behind hc hglobals' hnames hs
    · -- A head of the second program finds the same names and fewer functions.
      have hhead := hp'.heads s hs
      rw [Checker.extend, Checker.declareAll_registerAll] at hhead
      exact Function.resolve_of_registerAll hhead

/-- If two programs pass in turn and no declaration of the second one bears the name of a function
of the first one, they pass as one. -/
theorem Passes.append (hc : c.Idle) (hp : p.Passes c ds stages)
    (hp' : p'.Passes (c.extend ds (stages.map FunctionStages.head)) ds' stages')
    (hnames : ∀ d ∈ p'.globals, ∀ f ∈ p.functions, d.name ≠ f.name) :
    Passes c (p ++ p') (ds ++ ds') (stages ++ stages') := by
  have hidle : (c.extend ds (stages.map FunctionStages.head)).Idle := hc.extend ds _
  have hmore := hp'.includedIn hidle
  refine ⟨hp.toHeadsPass.append hc hp'.toHeadsPass hnames, fun s hs => ?_⟩
  rw [List.map_append, ← Checker.extend_extend]
  rcases List.mem_append.mp hs with hs | hs
  · exact Registered.checkBody_mono hidle (hidle.extend ds' _) hmore.1 hmore.2 (hp.bodies s hs)
  · exact hp'.bodies s hs

/-- If two programs are accepted in turn, and no declaration of the second one bears the name of a
function of the first one, they are accepted as one, which leaves the same state. -/
theorem check_append (hc : c.Idle) {q q' : Program ValueType} (h : p.check c = .ok q c')
    (h' : p'.check c' = .ok q' c'')
    (hnames : ∀ d ∈ p'.globals, ∀ f ∈ p.functions, d.name ≠ f.name) :
    check (p ++ p') c = .ok (q ++ q') c'' := by
  obtain ⟨ds, stages, hp, rfl, rfl⟩ := (check_iff_passes hc).mp h
  obtain ⟨ds', stages', hp', rfl, rfl⟩ := (check_iff_passes (hc.extend ds _)).mp h'
  refine (check_iff_passes hc).mpr ⟨ds ++ ds', stages ++ stages', hp.append hc hp' hnames, ?_, ?_⟩
  · rw [Checker.extend_extend, List.map_append]
  · have hds : ds.length = p.globals.length := Checking.length_of_mapM_eq_ok hp.globals
    have hfs : (stages.map FunctionStages.checked).length = p.functions.length := by
      rw [← hp.sources, List.length_map, List.length_map]
    rw [List.map_append]
    exact (TopLevel.refill_append hds hfs).symm

/-! ### Many programs -/

/-- If programs are accepted in turn, and no declaration bears the name of a function of an earlier
program, they are accepted as one, which leaves the same state. -/
theorem check_flatten (hc : c.Idle) {ps : List (Program α)} {qs : List (Program ValueType)}
    (haccepted : c.results ps = qs.map .ok)
    (hnames : ps.Pairwise fun p p' => ∀ d ∈ p'.globals, ∀ f ∈ p.functions, d.name ≠ f.name) :
    check ps.flatten c = .ok qs.flatten (c.after ps) := by
  induction ps generalizing c qs with
  | nil =>
    obtain rfl := List.map_eq_nil_iff.mp haccepted.symm
    exact (check_iff_passes hc).mpr ⟨[], [], ⟨⟨rfl, rfl, List.nodup_nil, nofun⟩, nofun⟩, rfl, rfl⟩
  | cons p ps ih =>
    cases qs with
    | nil => cases haccepted
    | cons q qs =>
      obtain ⟨hfirst, hothers⟩ := List.pairwise_cons.mp hnames
      obtain ⟨hq, hqs⟩ := List.cons.inj haccepted
      have hcheck := Checker.checkProgram_eq_ok hq
      obtain ⟨ds, stages, -, hstate, -⟩ := (check_iff_passes hc).mp hcheck
      have hidle : (c.checkProgram p).2.Idle := hstate ▸ hc.extend ds _
      refine check_append hc hcheck (ih hidle hqs hothers) fun d hd f hf => ?_
      -- A declaration of the rest stands in one of its programs.
      obtain ⟨unit, hunit, hglobal⟩ := List.mem_filterMap.mp hd
      obtain ⟨p', hp', hunit⟩ := List.mem_flatten.mp hunit
      exact hfirst p' hp' d (List.mem_filterMap.mpr ⟨unit, hunit, hglobal⟩) f hf

end Program

/-- **Checking programs one after the other agrees with checking them at once.** If one checker
accepts some programs in turn, and no global variable bears the name of a function of an earlier
program, then a fresh checker accepts the program of all their units in order, with the forms that
the units had before and with the same table of functions. -/
theorem checkFresh_flatten {ps : List (Program α)} {qs : List (Program ValueType)}
    (haccepted : Checker.fresh.results ps = qs.map .ok)
    (hnames : ps.Pairwise fun p p' => ∀ d ∈ p'.globals, ∀ f ∈ p.functions, d.name ≠ f.name) :
    checkFresh ps.flatten = .ok ⟨qs.flatten, (Checker.fresh.after ps).functions⟩ :=
  checkFresh_eq_ok.mpr ⟨_, Program.check_flatten Checker.Idle.fresh haccepted hnames, rfl⟩

/-- A program with a constant and a function, and one that uses both. -/
def constantThenUse : List (Program Unit) :=
  [[.global sizeTwo, .function (forwarding "f" "f")],
    [.function (forwarding "g" "f"),
      .global { sizeTwo with name := "count", init := some (.expr (.var "size" .nowhere ())) }]]

/-- The two programs are accepted in turn, and at once. -/
theorem constantThenUse_at_once : ∃ qs : List (Program ValueType),
    Checker.fresh.results constantThenUse = qs.map .ok ∧
      checkFresh constantThenUse.flatten =
        .ok ⟨qs.flatten, (Checker.fresh.after constantThenUse).functions⟩ := by
  have hnames : constantThenUse.Pairwise fun p p' =>
      ∀ d ∈ p'.globals, ∀ f ∈ p.functions, d.name ≠ f.name := by decide
  refine ⟨[_, _], rfl, ?_⟩
  exact checkFresh_flatten rfl hnames

end SysYFront
