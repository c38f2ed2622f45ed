import SysYFront.Proofs.Invariant.Points
import SysYFront.Proofs.Session.Passes

/-!
# SysYFront.Proofs.Session.Survival

One checker checks many programs, and some of them break a rule. Wherever that happens, in a
dimension of a global array or deep inside the blocks and loops of a body, the checker is ready
for the next program: no scope, no loop and no function is left open, and it has grown by exactly
what it had declared and registered before the failing point (`checkProgram_survives`).
-/

namespace SysYFront

variable {α : Type}

/-- How far a checker in state `c` comes with a program: which declarations it has checked and
which functions it has registered when it stops, and what it then answers. -/
inductive Program.Reaches (c : Checker) (p : Program α) :
    List (Decl ValueType) → List (Registered α) → Except Diagnostic (Program ValueType) → Prop
  /-- A global declaration breaks a rule, those before it do not. -/
  | global {done rest : List (Decl α)} {d : Decl α} {ds : List (Decl ValueType)} {c₁ : Checker}
    {e : Diagnostic} : p.globals = done ++ d :: rest → done.mapM Decl.check c = .ok ds c₁ →
    d.resolve c₁ = .error e → Reaches c p ds [] (.error e)
  /-- The head of a function breaks a rule, those before it do not. -/
  | head {ds : List (Decl ValueType)} {done rest : List (Function α)} {f : Function α}
    {rs : List (Registered α)} {c₁ c₂ : Checker} {e : Diagnostic} :
    p.globals.mapM Decl.check c = .ok ds c₁ → p.functions = done ++ f :: rest →
    done.mapM Function.register c₁ = .ok rs c₂ → f.resolve c₂ = .error e →
    Reaches c p ds rs (.error e)
  /-- The body of a function breaks a rule, those before it do not. -/
  | body {ds : List (Decl ValueType)} {done rest : List (Registered α)} {r : Registered α}
    {fs : List (Function ValueType)} {c₁ c₂ c₃ c₄ : Checker} {e : Diagnostic} :
    p.globals.mapM Decl.check c = .ok ds c₁ →
    p.functions.mapM Function.register c₁ = .ok (done ++ r :: rest) c₂ →
    done.mapM Registered.checkBody c₂ = .ok fs c₃ → r.checkBody c₃ = .error e c₄ →
    Reaches c p ds (done ++ r :: rest) (.error e)
  /-- No rule is broken. -/
  | accepted {ds : List (Decl ValueType)} {rs : List (Registered α)}
    {fs : List (Function ValueType)} {c₁ c₂ c₃ : Checker} :
    p.globals.mapM Decl.check c = .ok ds c₁ → p.functions.mapM Function.register c₁ = .ok rs c₂ →
    rs.mapM Registered.checkBody c₂ = .ok fs c₃ → Reaches c p ds rs (.ok (TopLevel.refill p ds fs))

namespace Checker

variable {c c₁ c₂ : Checker} {ds : List (Decl ValueType)} {rs : List (Registered α)}

/-- Whether `c'` stands between two programs and is `c` with some declarations and some functions
more. -/
structure GrownBy (c : Checker) (ds : List (Decl ValueType)) (rs : List (Registered α))
    (c' : Checker) : Prop where
  idle : c'.Idle
  globals : c'.scopes.globals = (ds.map fun d => (d.name, d.note)).reverse ++ c.scopes.globals
  functions : c'.functions.entries =
    (rs.map fun r => (r.name, r.signature)).reverse ++ c.functions.entries
  globals_kept : c.scopes.IncludedIn c'.scopes
  functions_kept : c.functions.IncludedIn c'.functions

/-- The checker grows by what it declares and then registers. -/
theorem Idle.grownBy (hc : c.Idle) {globals : List (Decl α)} {functions : List (Function α)}
    (hds : globals.mapM Decl.check c = .ok ds c₁)
    (hrs : functions.mapM Function.register c₁ = .ok rs c₂) : c.GrownBy ds rs c₂ := by
  obtain ⟨hentries, hfunctions⟩ := Function.mapM_register_entries hrs
  have hnames := Decl.mapM_check_includedIn hc hds
  obtain rfl := Decl.mapM_check_eq_ok hds
  obtain rfl := Function.mapM_register_eq_ok hrs
  rw [functions_declareAll] at hentries hfunctions
  refine ⟨(hc.declareAll ds).registerAll rs, ?_, hentries, ?_, hfunctions⟩
  · rw [scopes_registerAll, hc.globals_declareAll]
  · rwa [scopes_registerAll]

/-- A checker between two programs comes to some point of the next one, and has then grown by
what it has come across. -/
theorem Idle.checkProgram (hc : c.Idle) (p : Program α) : ∃ ds rs,
    p.Reaches c ds rs (c.checkProgram p).1 ∧ c.GrownBy ds rs (c.checkProgram p).2 := by
  unfold Checker.checkProgram
  cases hcheck : p.check c with
  | ok q c' =>
    obtain ⟨ds, c₁, hds, rs, c₂, hrs, fs, hfs, rfl⟩ := Program.check_eq_ok.mp hcheck
    have hgrown : c.GrownBy ds rs c₂ := hc.grownBy hds hrs
    obtain ⟨-, rfl⟩ := (Registered.mapM_checkBody_eq_ok hgrown.idle).mp hfs
    exact ⟨ds, rs, .accepted hds hrs hfs, hgrown⟩
  | error e c' =>
    rcases Program.check_eq_error.mp hcheck with hglobals | ⟨ds, c₁, hds, hfunctions⟩
    · obtain ⟨done, d, rest, ds, c₁, hsplit, hdone, hd⟩ := Checking.mapM_eq_error.mp hglobals
      obtain ⟨hresolve, rfl⟩ := Decl.check_eq_error.mp hd
      have hnone : ([] : List (Function α)).mapM Function.register c' = .ok [] c' := rfl
      exact ⟨ds, [], .global hsplit hdone hresolve, hc.grownBy hdone hnone⟩
    · rcases hfunctions with hheads | ⟨rs, c₂, hrs, hbodies⟩
      · obtain ⟨done, f, rest, rs, c₂, hsplit, hdone, hf⟩ := Checking.mapM_eq_error.mp hheads
        obtain ⟨hresolve, rfl⟩ := Function.register_eq_error.mp hf
        exact ⟨ds, rs, .head hds hsplit hdone hresolve, hc.grownBy hds hdone⟩
      · -- Nothing that was checked in a body is left, wherever the body broke off.
        obtain ⟨done, r, rest, fs, c₃, rfl, hdone, hr⟩ := Checking.mapM_eq_error.mp hbodies
        have hgrown : c.GrownBy ds (done ++ r :: rest) c₂ := hc.grownBy hds hrs
        obtain ⟨-, rfl⟩ := (Registered.mapM_checkBody_eq_ok hgrown.idle).mp hdone
        obtain rfl := Registered.checkBody_eq_error hgrown.idle hr
        exact ⟨ds, done ++ r :: rest, .body hds hrs hdone hr, hgrown⟩

/-- No program leaves anything open, so no sequence of programs does. -/
theorem Idle.after (hc : c.Idle) (ps : List (Program α)) : (c.after ps).Idle := by
  induction ps generalizing c with
  | nil => exact hc
  | cons p ps ih =>
    obtain ⟨ds, rs, -, hgrown⟩ := hc.checkProgram p
    exact ih hgrown.idle

end Checker

/-- **A checker survives every program.** Whatever programs it was given before, and whether it
accepts the next one or stops at any point of it: behind it no scope but the global one is open,
no loop and no function. The global scope holds what it held and, on top of it, exactly the
declarations that were checked; the table of functions holds what it held and exactly the
functions that were registered; and no name and no function means anything else than before. -/
theorem checkProgram_survives (ps : List (Program α)) (p : Program α) :
    ∃ ds rs, p.Reaches (Checker.fresh.after ps) ds rs ((Checker.fresh.after ps).checkProgram p).1 ∧
      (Checker.fresh.after ps).GrownBy ds rs ((Checker.fresh.after ps).checkProgram p).2 :=
  (Checker.Idle.fresh.after ps).checkProgram p

end SysYFront
