import Mathlib.Data.List.Induction
import SysYFront.Proofs.Readable
import SysYFront.Proofs.Session.Batch
import SysYFront.Proofs.Session.Survival

/-!
# SysYFront.Proofs.Session.Names

The global variables and the functions of one checker, over any sequence of programs. The head of
a function is refused where a global variable has its name, so no registration makes a name mean
both. A global declaration is held against the variables of its scope only, and this is the one
way in which a name comes to mean both: it was a function already, built in or left by an earlier
program, when a program declared it as a variable (`clashes_after_iff`).
-/

namespace SysYFront

variable {α : Type}

/-- Whether a name is a global variable and a function at once. -/
def Checker.Clashes (c : Checker) (name : String) : Prop :=
  c.scopes.declaresGlobally name = true ∧ c.functions.contains name = true

variable {c c' : Checker} {name : String}

/-! ### One program -/

/-- Functions are registered under names that no global variable has. -/
theorem Function.mapM_register_free {fs : List (Function α)} {rs : List (Registered α)}
    (h : fs.mapM Function.register c = .ok rs c') :
    ∀ r ∈ rs, c.scopes.declaresGlobally r.name = false := by
  induction fs generalizing c rs with
  | nil =>
    obtain ⟨rfl, -⟩ := Checking.mapM_nil_eq_ok.mp h
    exact nofun
  | cons f fs ih =>
    obtain ⟨r, c₁, hr, rs, hrest, rfl⟩ := Checking.mapM_cons_eq_ok.mp h
    obtain ⟨hresolve, rfl⟩ := Function.register_eq_ok.mp hr
    intro r' hr'
    rcases List.mem_cons.mp hr' with rfl | hr'
    · exact (Function.resolve_name hresolve).2.2
    · -- A registration leaves the scopes as they are.
      show (c.addFunction r.name r.signature).scopes.declaresGlobally r'.name = false
      exact ih hrest r' hr'

/-- Wherever the check of a program stops, it has declared global variables of the program and
registered functions whose names none of the variables has. -/
theorem Program.Reaches.names {p : Program α} {ds : List (Decl ValueType)}
    {rs : List (Registered α)} {answer : Except Diagnostic (Program ValueType)}
    (h : p.Reaches c ds rs answer) :
    (∀ name ∈ ds.map Decl.name, name ∈ p.globals.map Decl.name) ∧
      ∀ r ∈ rs, (c.declareAll ds).scopes.declaresGlobally r.name = false := by
  have hall {c₁ : Checker} (hds : p.globals.mapM Decl.check c = .ok ds c₁) :
      (∀ name ∈ ds.map Decl.name, name ∈ p.globals.map Decl.name) ∧ c₁ = c.declareAll ds := by
    rw [Decl.mapM_check_names hds]
    exact ⟨fun _ hname => hname, Decl.mapM_check_eq_ok hds⟩
  cases h with
  | global hsplit hdone _ =>
    refine ⟨?_, nofun⟩
    intro name hname
    rw [Decl.mapM_check_names hdone] at hname
    rw [hsplit, List.map_append]
    exact List.mem_append_left _ hname
  | head hds _ hdone _ =>
    obtain ⟨hnames, rfl⟩ := hall hds
    exact ⟨hnames, Function.mapM_register_free hdone⟩
  | body hds hrs _ _ | accepted hds hrs _ =>
    obtain ⟨hnames, rfl⟩ := hall hds
    exact ⟨hnames, Function.mapM_register_free hrs⟩

namespace Checker

variable {ds : List (Decl ValueType)} {rs : List (Registered α)}

/-- The global variables behind a program are those before it and those that it has declared. -/
theorem GrownBy.declaresGlobally_iff (h : c.GrownBy ds rs c') (hc : c.Idle) :
    c'.scopes.declaresGlobally name = true ↔
      name ∈ ds.map Decl.name ∨ c.scopes.declaresGlobally name = true := by
  rw [← hc.declaresGlobally_declareAll, Scopes.declaresGlobally, Scopes.declaresGlobally,
    h.globals, hc.globals_declareAll]

/-- The functions behind a program are those before it and those that it has registered. -/
theorem GrownBy.contains_iff (h : c.GrownBy ds rs c') :
    c'.functions.contains name = true ↔
      (∃ r ∈ rs, r.name = name) ∨ c.functions.contains name = true := by
  simp only [SignatureTable.contains, Option.isSome_iff_exists, SignatureTable.get?_eq_some_iff,
    h.functions, List.mem_append, List.mem_reverse, List.mem_map, Prod.mk.injEq]
  constructor
  · intro hentry
    obtain ⟨s, ⟨r, hr, hname, -⟩ | hs⟩ := hentry
    · exact .inl ⟨r, hr, hname⟩
    · exact .inr ⟨s, hs⟩
  · intro hentry
    obtain ⟨r, hr, hname⟩ | ⟨s, hs⟩ := hentry
    · exact ⟨r.signature, .inl ⟨r, hr, hname, rfl⟩⟩
    · exact ⟨s, .inr hs⟩

/-- Behind a program, accepted or refused, a name means both a variable and a function if it is a
variable there and was a function before the program. -/
theorem Idle.clashes_checkProgram_iff (hc : c.Idle) (p : Program α) (name : String) :
    (c.checkProgram p).2.Clashes name ↔
      (c.checkProgram p).2.scopes.declaresGlobally name = true ∧
        c.functions.contains name = true := by
  obtain ⟨ds, rs, hreaches, hgrown⟩ := hc.checkProgram p
  refine and_congr_right fun hglobal => ?_
  rw [hgrown.contains_iff]
  refine or_iff_right fun hregistered => ?_
  -- A function that the program has registered bears no name of a variable.
  obtain ⟨r, hr, rfl⟩ := hregistered
  have hfree : (c.declareAll ds).scopes.declaresGlobally r.name = false := hreaches.names.2 r hr
  have htaken : (c.declareAll ds).scopes.declaresGlobally r.name = true := by
    rw [hc.declaresGlobally_declareAll, ← hgrown.declaresGlobally_iff hc]
    exact hglobal
  rw [hfree] at htaken
  cases htaken

/-- The names of the global variables that a program has added are names that it declares. -/
theorem Idle.declared_checkProgram (hc : c.Idle) {p : Program α}
    (hold : c.scopes.declaresGlobally name = false)
    (hnew : (c.checkProgram p).2.scopes.declaresGlobally name = true) :
    name ∈ p.globals.map Decl.name := by
  obtain ⟨ds, rs, hreaches, hgrown⟩ := hc.checkProgram p
  rcases (hgrown.declaresGlobally_iff hc).mp hnew with hname | hname
  · exact hreaches.names.1 name hname
  · rw [hold] at hname
    cases hname

/-! ### Sequences of programs -/

theorem after_append (c : Checker) (ps qs : List (Program α)) :
    c.after (ps ++ qs) = (c.after ps).after qs :=
  List.foldl_append

theorem after_concat (c : Checker) (ps : List (Program α)) (p : Program α) :
    c.after (ps ++ [p]) = ((c.after ps).checkProgram p).2 :=
  c.after_append ps [p]

/-- A name that means a variable and a function means both whatever programs follow. -/
theorem Idle.clashes_after (hc : c.Idle) (h : c.Clashes name) (ps : List (Program α)) :
    (c.after ps).Clashes name := by
  induction ps generalizing c with
  | nil => exact h
  | cons p ps ih =>
    obtain ⟨ds, rs, -, hgrown⟩ := hc.checkProgram p
    have hglobal := (hgrown.declaresGlobally_iff hc).mpr (.inr h.1)
    have hfunction := hgrown.contains_iff.mpr (.inr h.2)
    exact ih hgrown.idle ⟨hglobal, hfunction⟩

end Checker

/-- **How a name comes to mean a variable and a function.** Over any sequence of programs, each
accepted or refused, a name means both exactly if one of the programs declares it as a global
variable, it was a function before that program and no variable, and the declaration passes. So
only a declaration that comes behind a function of its name, which is built in or belongs to an
earlier program, makes a name mean both: never a function, and never the units of one program. -/
theorem clashes_after_iff (ps : List (Program α)) (name : String) :
    (Checker.fresh.after ps).Clashes name ↔ ∃ qs p rs, ps = qs ++ p :: rs ∧
      name ∈ p.globals.map Decl.name ∧
      (Checker.fresh.after qs).functions.contains name = true ∧
      (Checker.fresh.after qs).scopes.declaresGlobally name = false ∧
      (Checker.fresh.after (qs ++ [p])).scopes.declaresGlobally name = true := by
  constructor
  · intro h
    induction ps using List.reverseRecOn with
    | nil => cases h.1
    | append_singleton ps p ih =>
      have hidle : (Checker.fresh.after ps).Idle := Checker.Idle.fresh.after ps
      rw [Checker.after_concat, hidle.clashes_checkProgram_iff] at h
      obtain ⟨hglobal, hfunction⟩ := h
      by_cases hold : (Checker.fresh.after ps).scopes.declaresGlobally name = true
      · -- It meant both before the last program.
        obtain ⟨qs, q, rs, rfl, hsplit⟩ := ih ⟨hold, hfunction⟩
        exact ⟨qs, q, rs ++ [p], by simp, hsplit⟩
      · rw [Bool.not_eq_true] at hold
        have hdeclared := hidle.declared_checkProgram hold hglobal
        rw [← Checker.after_concat] at hglobal
        exact ⟨ps, p, [], rfl, hdeclared, hfunction, hold, hglobal⟩
  · intro h
    obtain ⟨qs, p, rs, rfl, -, hfunction, -, hglobal⟩ := h
    have hidle : (Checker.fresh.after qs).Idle := Checker.Idle.fresh.after qs
    have hclash : (Checker.fresh.after (qs ++ [p])).Clashes name := by
      rw [Checker.after_concat] at hglobal ⊢
      exact (hidle.clashes_checkProgram_iff p name).mpr ⟨hglobal, hfunction⟩
    have hsplit : qs ++ p :: rs = (qs ++ [p]) ++ rs := by simp
    rw [hsplit, Checker.after_append]
    exact (Checker.Idle.fresh.after (qs ++ [p])).clashes_after hclash rs

/-- The program `int putint;`. -/
def builtinShadow : Program Unit :=
  [.global {
    name := "putint", isConst := false, base := .int, dims := [], location := .nowhere
    init := none, note := () }]

/-- The program `int putint;` can be read and is accepted, and then `putint` means both. -/
theorem builtinShadow_clashes : builtinShadow.Readable ∧
    (Checker.fresh.checkProgram builtinShadow).1.isOk = true ∧
    (Checker.fresh.after [builtinShadow]).Clashes "putint" := by
  have hread : builtinShadow.Readable :=
    ⟨⟨List.map (fun kind => ⟨kind, .nowhere⟩)
      [.keyword .intKw, .name "putint", .symbol .semicolon], .nowhere⟩, rfl⟩
  exact ⟨hread, rfl, rfl, rfl⟩

end SysYFront
