import SysYFront.Compile
import SysYFront.Proofs.Agreement.Function

/-!
# SysYFront.Proofs.Agreement.Program

The checker agrees with the rules on programs. The rules know all functions from the
start; the checker collects them in three passes. The first pass takes the global
declarations, to which functions do not matter; the second adds the heads of the functions
one by one and ends with the headings of the whole program; the third checks the bodies
against these and leaves the state alone. Every pass goes over the units with one kind of
them done (`Program.Pairs`), so the program keeps its order.
-/

namespace SysYFront

variable {α δ φ φ' : Type} {c : Checker} {Γ bodies : Context} {Φ : Headings}

/-- Whether the units of `q` are made of those of `p`, one by one: a declaration as `R` says
in the context behind the declarations before it, a function as `S` says. -/
inductive Program.Pairs (R : Context → Decl α → δ → Prop) (S : Function α → φ → Prop) :
    Context → Program α → List (TopLevel δ φ) → Prop
  | nil (Γ : Context) : Pairs R S Γ [] []
  | global {Γ : Context} {d : Decl α} {d' : δ} {p : Program α} {q : List (TopLevel δ φ)} :
    R Γ d d' → Pairs R S (d.extend Γ) p q → Pairs R S Γ (.global d :: p) (.global d' :: q)
  | function {Γ : Context} {f : Function α} {f' : φ} {p : Program α} {q : List (TopLevel δ φ)} :
    S f f' → Pairs R S Γ p q → Pairs R S Γ (.function f :: p) (.function f' :: q)

namespace Program

variable (d : Decl α) (f : Function α) (p : Program α)

@[simp] theorem globals_nil : globals ([] : Program α) = [] := rfl

@[simp] theorem globals_global : globals (.global d :: p) = d :: globals p := rfl

@[simp] theorem globals_function : globals (.function f :: p) = globals p := rfl

@[simp] theorem functions_nil : functions ([] : Program α) = [] := rfl

@[simp] theorem functions_global : functions (.global d :: p) = functions p := rfl

@[simp] theorem functions_function : functions (.function f :: p) = f :: functions p := rfl

end Program

namespace Checker

/-- Whether the checker is between two units of a program. -/
structure Idle (c : Checker) : Prop where
  inner : c.scopes.inner = []
  running : c.running = none
  loops : c.loopDepth = 0

namespace Idle

theorem declare (hc : c.Idle) (name : String) (t : ValueType) : (c.declare name t).Idle where
  inner := by simp [Checker.declare, Scopes.insert, hc.inner]
  running := hc.running
  loops := hc.loops

theorem declaresHere (hc : c.Idle) (name : String) :
    c.scopes.declaresHere name = c.scopes.declaresGlobally name := by
  simp [Scopes.declaresHere, Scopes.innermost, Scopes.declaresGlobally, hc.inner]

/-- Between two units, a declaration adds its name to the global scope. -/
theorem declaresGlobally_declare (hc : c.Idle) (name other : String) (t : ValueType) :
    (c.declare name t).scopes.declaresGlobally other =
      (other == name || c.scopes.declaresGlobally other) := by
  simp only [Checker.declare, Scopes.insert, hc.inner, Scopes.declaresGlobally,
    List.lookup_cons]
  cases other == name <;> rfl

end Idle

end Checker

/-! ### Global declarations -/

/-- What the first pass leaves behind: the names of all global declarations. -/
structure Checker.Declared (c : Checker) (Γ : Context) (ds : List (Decl α)) (c' : Checker) :
    Prop where
  shows : c'.Shows (ds.foldl Decl.extend Γ)
  idle : c'.Idle
  functions : c'.functions = c.functions
  names : ∀ name, c'.scopes.declaresGlobally name = true ↔
    name ∈ ds.map Decl.name ∨ c.scopes.declaresGlobally name = true

namespace TopLevel

/-- The first pass succeeds if and only if the global declarations keep the rules, each
behind those before it, and their names are new. -/
theorem mapGlobals_decides (p : Program α) {c : Checker} {Γ : Context} (hc : c.Shows Γ)
    (hidle : c.Idle) (hvoid : ∀ d ∈ p.globals, d.base ≠ .void) :
    Checking.Decides c
      (Decl.AllValid Φ Γ p.globals ∧ (p.globals.map Decl.name).Nodup ∧
        ∀ d ∈ p.globals, c.scopes.declaresGlobally d.name = false)
      (fun q c' => Program.Pairs (Decl.CheckedAs · Φ) Eq Γ p q ∧ c.Declared Γ p.globals c')
      (mapGlobals Decl.check p) := by
  induction p generalizing c Γ with
  | nil =>
    rw [Program.globals_nil]
    have hnames (name : String) : c.scopes.declaresGlobally name = true ↔
        name ∈ List.map Decl.name ([] : List (Decl α)) ∨ c.scopes.declaresGlobally name = true := by
      simp
    exact Checking.Decides.congr
      (Checking.Decides.pure ⟨.nil Γ, hc, hidle, rfl, hnames⟩)
      (iff_of_true trivial ⟨trivial, List.nodup_nil, nofun⟩)
  | cons unit p ih =>
    cases unit with
    | function f =>
      rw [Program.globals_function] at hvoid ⊢
      refine (ih hc hidle hvoid).map ?_
      intro _ q c' hq
      exact ⟨.function rfl hq.1, hq.2⟩
    | global d =>
      rw [Program.globals_global] at hvoid ⊢
      have hglobal : c.scopes.isGlobal = true := by rw [Scopes.isGlobal, hidle.inner]; rfl
      have hdecl := Decl.check_decides_of_isGlobal hc hglobal Φ d (hvoid d List.mem_cons_self)
      rw [hidle.declaresHere] at hdecl
      refine Checking.Decides.congr (V := _ ∧ Decl.AllValid Φ (d.extend Γ) (Program.globals p) ∧
          ((Program.globals p).map Decl.name).Nodup ∧ ∀ e ∈ Program.globals p,
            e.name ≠ d.name ∧ c.scopes.declaresGlobally e.name = false)
        (hdecl.bind fun _ d' c' hd' => ?_) ?_
      · obtain ⟨hd', rfl⟩ := hd'
        have hshows := hc.declare d.name hd'.declared
        rw [hd'.meaning] at hshows
        -- The other names are tested in a scope that has the name of `d` already.
        have hrest := ih hshows (hidle.declare _ _) fun e he => hvoid e (List.mem_cons_of_mem _ he)
        simp only [hidle.declaresGlobally_declare, Bool.or_eq_false_iff,
          beq_eq_false_iff_ne] at hrest
        refine hrest.map ?_
        intro _ q c'' hpassed
        obtain ⟨hpairs, hq⟩ := hpassed
        refine ⟨.global hd' hpairs, hq.shows, hq.idle, hq.functions, fun name => ?_⟩
        rw [hq.names, hidle.declaresGlobally_declare, List.map_cons, List.mem_cons]
        simp only [Bool.or_eq_true, beq_iff_eq]
        tauto
      · simp only [Decl.AllValid, List.map_cons, List.nodup_cons, List.mem_map, not_exists,
          not_and, List.mem_cons, forall_eq_or_imp]
        constructor
        · intro h
          rcases h with ⟨⟨hnew, hvalid⟩, hall, hnodup, hothers⟩
          exact ⟨⟨hvalid, hall⟩, ⟨fun e he => (hothers e he).1, hnodup⟩, hnew,
            fun e he => (hothers e he).2⟩
        · intro h
          rcases h with ⟨⟨hvalid, hall⟩, ⟨hfirst, hnodup⟩, hnew, hothers⟩
          exact ⟨⟨hnew, hvalid⟩, hall, hnodup, fun e he => ⟨hfirst e he, hothers e he⟩⟩

/-! ### Heads of functions -/

theorem register_decides (hc : c.Shows bodies) (Φ : Headings) (f : Function α) :
    Checking.Decides c
      ((c.functions.contains f.name = false ∧ c.scopes.declaresGlobally f.name = false) ∧
        f.HeadValid bodies Φ)
      (fun r c' => f.RegisteredAs bodies Φ r ∧ c' = c.addFunction f.name r.signature)
      f.register := by
  refine Checking.Decides.congr (V := _ ∧ True)
    ((Checking.Decides.inspect (Function.resolve_decides hc Φ f)).bind fun _ r c' hr => ?_)
    (and_iff_left trivial)
  obtain ⟨hr, rfl⟩ := hr
  have hadded : Checking.Decides c' True (fun _ c'' => c'' = c'.addFunction r.name r.signature)
      (modify fun c => c.addFunction r.name r.signature) := Checking.Decides.modified rfl
  refine hadded.map fun _ _ c'' hc'' => ⟨hr, ?_⟩
  rw [hc'', hr.name]

/-- Behind a registration one more name is taken. -/
theorem contains_addFunction (c : Checker) (name other : String) (s : Signature) :
    (c.addFunction name s).functions.contains other =
      (other == name || c.functions.contains other) := by
  rw [Checker.addFunction, SignatureTable.contains, SignatureTable.get?_insert]
  by_cases h : other = name <;> simp [h, SignatureTable.contains]

/-- The second pass succeeds if and only if the heads of the functions keep the rules and
their names are new; it adds their headings to those that the checker knows. -/
theorem mapFunctions_register_decides {R : Context → Decl α → δ → Prop} (Φ : Headings)
    {Γ : Context} {p : Program α} {q : List (TopLevel δ (Function α))}
    (hpairs : Program.Pairs R Eq Γ p q) {c : Checker} (hc : c.Shows bodies) :
    Checking.Decides c
      ((p.functions.map Function.name).Nodup ∧ ∀ f ∈ p.functions,
        (c.functions.contains f.name = false ∧ c.scopes.declaresGlobally f.name = false) ∧
          f.HeadValid bodies Φ)
      (fun q' c' => Program.Pairs R (Function.RegisteredAs bodies Φ) Γ p q' ∧
        ∃ t, c' = { c with functions := t } ∧ ∀ name, (t.get? name).map Signature.heading =
          ((p.functions.map fun f => (f.name, f.heading bodies)).lookup name).or
            ((c.functions.get? name).map Signature.heading))
      (mapFunctions Function.register q) := by
  induction hpairs generalizing c with
  | nil Γ =>
    rw [Program.functions_nil]
    exact Checking.Decides.congr (Checking.Decides.pure ⟨.nil Γ, c.functions, rfl, fun _ => rfl⟩)
      (iff_of_true trivial ⟨List.nodup_nil, nofun⟩)
  | global hd _ ih =>
    rw [Program.functions_global]
    refine (ih hc).map ?_
    intro _ q c' hq
    exact ⟨.global hd hq.1, hq.2⟩
  | @function Γ f g p q hf _ ih =>
    obtain rfl := hf
    rw [Program.functions_function]
    refine Checking.Decides.congr (V := _ ∧ (p.functions.map Function.name).Nodup ∧
        ∀ g ∈ p.functions, ((g.name ≠ f.name ∧ c.functions.contains g.name = false) ∧
          c.scopes.declaresGlobally g.name = false) ∧ g.HeadValid bodies Φ)
      ((register_decides hc Φ f).bind fun _ r c' hr => ?_) ?_
    · obtain ⟨hr, rfl⟩ := hr
      have hshows : (c.addFunction f.name r.signature).Shows bodies := ⟨hc.names, hc.declared⟩
      have hrest := ih hshows
      simp only [contains_addFunction, Bool.or_eq_false_iff, beq_eq_false_iff_ne] at hrest
      refine hrest.map ?_
      intro hvalid q' c' hpassed
      obtain ⟨hpairs', t, hc', hlookup⟩ := hpassed
      refine ⟨.function hr hpairs', t, hc', fun name => ?_⟩
      rw [hlookup, Checker.addFunction, SignatureTable.get?_insert, List.map_cons, List.lookup_cons]
      by_cases hname : name = f.name
      · -- The names of the functions behind this one are others, so none of them hides it.
        subst hname
        have hother : (p.functions.map fun g => (g.name, g.heading bodies)).lookup f.name =
            none := by
          rw [List.lookup_eq_none_iff]
          intro entry hentry
          obtain ⟨g, hg, rfl⟩ := List.mem_map.mp hentry
          simpa using (hvalid.2 g hg).1.1.1.symm
        simp [hother, hr.heading]
      · have hbeq : (name == f.name) = false := by simpa using hname
        rw [hbeq]
        rfl
    · simp only [List.map_cons, List.nodup_cons, List.mem_map, not_exists, not_and,
        List.mem_cons, forall_eq_or_imp]
      constructor
      · intro h
        rcases h with ⟨hf, hnodup, hothers⟩
        exact ⟨⟨fun g hg => (hothers g hg).1.1.1, hnodup⟩, hf,
          fun g hg => ⟨⟨(hothers g hg).1.1.2, (hothers g hg).1.2⟩, (hothers g hg).2⟩⟩
      · intro h
        rcases h with ⟨⟨hfirst, hnodup⟩, hf, hothers⟩
        exact ⟨hf, hnodup,
          fun g hg => ⟨⟨⟨hfirst g hg, (hothers g hg).1.1⟩, (hothers g hg).1.2⟩, (hothers g hg).2⟩⟩

/-! ### Bodies of functions -/

/-- The third pass succeeds if and only if the bodies of the functions keep the rules. -/
theorem mapFunctions_checkBody_decides {R : Context → Decl α → δ → Prop}
    (hc : c.Agrees bodies Φ) (hidle : c.Idle) {Γ : Context} {p : Program α}
    {q : List (TopLevel δ (Registered α))}
    (hpairs : Program.Pairs R (Function.RegisteredAs bodies Φ) Γ p q)
    (hvoid : ∀ f ∈ p.functions, Item.AllVoidFree f.body.items) :
    Checking.Decides c (∀ f ∈ p.functions, f.BodyValid bodies Φ)
      (fun q' c' => Program.Pairs R
        (fun f f' => f'.map ValueType.typing = (f.annotate bodies Φ).fold bodies) Γ p q' ∧ c' = c)
      (mapFunctions Registered.checkBody q) := by
  induction hpairs with
  | nil Γ =>
    rw [Program.functions_nil]
    exact Checking.Decides.congr (Checking.Decides.pure ⟨.nil Γ, rfl⟩) (iff_of_true trivial nofun)
  | global hd _ ih =>
    rw [Program.functions_global] at hvoid ⊢
    refine (ih hvoid).map ?_
    intro _ q c' hq
    exact ⟨.global hd hq.1, hq.2⟩
  | @function Γ f f' p q hr _ ih =>
    rw [Program.functions_function] at hvoid ⊢
    obtain ⟨hfirst, hothers⟩ := List.forall_mem_cons.mp hvoid
    rw [List.forall_mem_cons]
    have hbody := Function.checkBody_decides hr hc hidle.running hidle.loops hfirst
    refine hbody.bind ?_
    intro _ f' c' hchecked
    obtain ⟨hf, rfl⟩ := hchecked
    exact (ih hothers).map fun _ q c'' hq => ⟨.function hf hq.1, hq.2⟩

end TopLevel

/-! ### Programs -/

namespace Program

/-- Units that are pairwise the annotated and folded ones are the annotated and folded units. -/
theorem Pairs.mapNotes_typing {p : Program α} {q : Program ValueType} {Γ : Context}
    (h : Pairs (Decl.CheckedAs · Φ)
      (fun f f' => f'.map ValueType.typing = (f.annotate bodies Φ).fold bodies) Γ p q) :
    q.mapNotes ValueType.typing = foldUnits bodies Γ (annotateUnits bodies Φ Γ p) := by
  induction h with
  | nil Γ => rfl
  | global hd _ ih =>
    rw [annotateUnits, foldUnits, Decl.extend_annotate, ← ih, ← hd.tree]
    rfl
  | function hf _ ih =>
    rw [annotateUnits, foldUnits, ← ih, ← hf]
    rfl

theorem shows_fresh : Checker.fresh.Shows [] :=
  ⟨fun _ => rfl, nofun⟩

/-- A fresh checker knows `putint`. -/
theorem get?_builtins (name : String) :
    (SignatureTable.builtins.get? name).map Signature.heading =
      List.lookup name [("putint", ⟨.void, [("value", ⟨.int, [], none⟩)]⟩)] := by
  rw [SignatureTable.builtins, SignatureTable.get?_insert, List.lookup_cons]
  cases name == "putint" <;> rfl

/-- Behind the second pass the table of functions is the headings of the whole program. -/
theorem agrees_of_declared {p : Program α} (hc : Checker.fresh.Declared [] p.globals c)
    {t : SignatureTable} (ht : ∀ name, (t.get? name).map Signature.heading =
      ((p.functions.map fun f => (f.name, f.heading p.context)).lookup name).or
        ((c.functions.get? name).map Signature.heading)) :
    Checker.Agrees { c with functions := t } p.context p.headings := by
  refine ⟨⟨hc.shows.names, hc.shows.declared⟩, fun name => ?_⟩
  show p.headings.lookup name = (t.get? name).map Signature.heading
  rw [ht, hc.functions, headings, List.lookup_append]
  exact congrArg _ (get?_builtins name).symm

theorem contains_builtins (name : String) :
    SignatureTable.builtins.contains name = false ↔ name ≠ "putint" := by
  rw [SignatureTable.contains, SignatureTable.builtins, SignatureTable.get?_insert]
  by_cases h : name = "putint" <;> simp [h]

/-- Checking a program with a fresh checker succeeds if and only if the program keeps the
rules, and then gives the annotated and folded program. -/
theorem check_decides (p : Program α) (hvoid : p.VoidFree) :
    Checking.Decides .fresh p.Valid
      (fun p' c' => p'.mapNotes ValueType.typing = p.annotate.fold ∧
        ∀ name, (c'.functions.get? name).map Signature.heading = p.headings.lookup name)
      p.check := by
  have hfirst := TopLevel.mapGlobals_decides (Φ := p.headings) p shows_fresh ⟨rfl, rfl, rfl⟩
    hvoid.globals
  refine Checking.Decides.congr (V := _ ∧ ((p.functions.map Function.name).Nodup ∧
      ∀ f ∈ p.functions, (f.name ≠ "putint" ∧ f.name ∉ p.globals.map Decl.name) ∧
        f.HeadValid p.context p.headings) ∧ ∀ f ∈ p.functions, f.BodyValid p.context p.headings)
    (hfirst.bind fun _ q₁ c₁ hglobals => ?_) ?_
  · obtain ⟨hpairs₁, hc₁⟩ := hglobals
    -- Behind the first pass the taken names are `putint` and those of the globals.
    have hfree (f : Function α) : c₁.functions.contains f.name = false ∧
        c₁.scopes.declaresGlobally f.name = false ↔
          f.name ≠ "putint" ∧ f.name ∉ p.globals.map Decl.name := by
      rw [hc₁.functions, ← Bool.not_eq_true (c₁.scopes.declaresGlobally _), hc₁.names]
      refine and_congr (contains_builtins f.name) (not_congr (or_iff_left ?_))
      rintro ⟨⟩
    have hsecond := TopLevel.mapFunctions_register_decides p.headings hpairs₁ hc₁.shows
    simp only [hfree] at hsecond
    refine hsecond.bind ?_
    intro _ q₂ c₂ hheads
    obtain ⟨hpairs₂, t, rfl, hlookup⟩ := hheads
    have hagrees := agrees_of_declared hc₁ hlookup
    have hidle : Checker.Idle { c₁ with functions := t } :=
      ⟨hc₁.idle.inner, hc₁.idle.running, hc₁.idle.loops⟩
    refine (TopLevel.mapFunctions_checkBody_decides hagrees hidle hpairs₂ hvoid.functions).imp
      fun _ p' c₃ hbodies => ?_
    obtain ⟨hpairs₃, rfl⟩ := hbodies
    refine ⟨?_, fun name => (hagrees.functions name).symm⟩
    rw [fold, context_annotate]
    exact hpairs₃.mapNotes_typing
  · -- The passes together test the rules, each of them a part of those for a function.
    constructor
    · intro h
      rcases h with ⟨⟨hglobals, hnodup, -⟩, ⟨hfunctions, hheads⟩, hbodies⟩
      exact ⟨hnodup, hglobals, hfunctions, fun f hf => (hheads f hf).1,
        fun f hf => f.valid_iff.mpr ⟨(hheads f hf).2, hbodies f hf⟩⟩
    · intro h
      rcases h with ⟨hnodup, hglobals, hfunctions, hnames, hvalid⟩
      exact ⟨⟨hglobals, hnodup, fun _ _ => rfl⟩,
        ⟨hfunctions, fun f hf => ⟨hnames f hf, (f.valid_iff.mp (hvalid f hf)).1⟩⟩,
        fun f hf => (f.valid_iff.mp (hvalid f hf)).2⟩

end Program

/-- Checking with a fresh checker decides the rules of a program without `void` variables. -/
theorem checkFresh_decides (p : Program α) (hvoid : p.VoidFree) :
    Decides p.Valid
      (fun r => r.program.mapNotes ValueType.typing = p.annotate.fold ∧
        ∀ name, (r.functions.get? name).map Signature.heading = p.headings.lookup name)
      (checkFresh p) := by
  have hcheck := p.check_decides hvoid
  unfold Checking.Decides at hcheck
  unfold checkFresh Checker.checkProgram
  cases hm : p.check Checker.fresh with
  | error d c' =>
    rw [hm] at hcheck
    exact hcheck
  | ok p' c' =>
    rw [hm] at hcheck
    exact hcheck

end SysYFront
