import Mathlib.Data.List.Perm.Basic
import SysYFront.Proofs.Session.Stages

/-!
# SysYFront.Proofs.Session.Reorder

**The order of functions does not matter.** Functions may be moved anywhere in a program, between
and around the global declarations too: as long as these keep their order, the program is accepted
or refused as before, every unit has the same checked form, and the table of functions tells the
same of every name (`checkFresh_reorder`).
-/

namespace SysYFront

variable {α : Type} {c c' : Checker}

/-! ### Programs with the same units -/

namespace TopLevel

variable {δ δ' φ φ' : Type} {units : List (TopLevel δ φ)} {ds : List δ'} {fs : List φ'}

theorem length_refill (hds : ds.length = (units.filterMap global?).length)
    (hfs : fs.length = (units.filterMap function?).length) :
    (refill units ds fs).length = units.length := by
  induction units generalizing ds fs with
  | nil => rfl
  | cons unit units ih =>
    cases unit with
    | global d =>
      cases ds with
      | nil => cases hds
      | cons d' ds => exact congrArg (· + 1) (ih (Nat.succ.inj hds) hfs)
    | function f =>
      cases fs with
      | nil => cases hfs
      | cons f' fs => exact congrArg (· + 1) (ih hds (Nat.succ.inj hfs))

/-- Units with what was put in their places are the declarations with theirs and the functions
with theirs. -/
theorem zip_refill_perm (hds : ds.length = (units.filterMap global?).length)
    (hfs : fs.length = (units.filterMap function?).length) :
    (units.zip (refill units ds fs)).Perm
      (((units.filterMap global?).zip ds).map (Prod.map global global) ++
        ((units.filterMap function?).zip fs).map (Prod.map function function)) := by
  induction units generalizing ds fs with
  | nil => exact .nil
  | cons unit units ih =>
    cases unit with
    | global d =>
      cases ds with
      | nil => cases hds
      | cons d' ds => exact (ih (Nat.succ.inj hds) hfs).cons _
    | function f =>
      cases fs with
      | nil => cases hfs
      | cons f' fs =>
        exact ((ih hds (Nat.succ.inj hfs)).cons _).trans List.perm_middle.symm

end TopLevel

namespace Program

variable {p p' : Program α} {ds : List (Decl ValueType)} {stages : List (FunctionStages α)}

/-- If the functions of a program that passes are taken in another order, it passes with the same
stages in that order. -/
theorem Passes.reorder (hp : p.Passes c ds stages) (hc : c.Idle) (hglobals : p.globals = p'.globals)
    (hfunctions : p'.functions.Perm p.functions) :
    ∃ stages' : List (FunctionStages α), stages'.Perm stages ∧ p'.Passes c ds stages' ∧
      ∀ name, (c.extend ds (stages'.map FunctionStages.head)).functions.get? name =
        (c.extend ds (stages.map FunctionStages.head)).functions.get? name := by
  have hsources :
      List.Forall₂ (fun f (s : FunctionStages α) => s.source = f) p.functions stages := by
    rw [← hp.sources, List.forall₂_map_left_iff]
    exact List.forall₂_same.mpr fun _ _ => rfl
  obtain ⟨stages', hsources', hperm⟩ := List.perm_comp_forall₂ hfunctions hsources
  have hsources' : stages'.map FunctionStages.source = p'.functions := by
    rw [← List.forall₂_eq_eq_eq, List.forall₂_map_left_iff]
    exact hsources'.flip
  have hheads : p'.HeadsPass c ds stages' :=
    ⟨hglobals ▸ hp.globals, hsources', ((hfunctions.map Function.name).nodup_iff).mpr hp.names,
      fun s hs => hp.heads s (hperm.mem_iff.mp hs)⟩
  -- The same functions are known behind all heads, so the bodies are checked as before.
  have hentries : (c.extend ds (stages'.map FunctionStages.head)).functions.entries.Perm
      (c.extend ds (stages.map FunctionStages.head)).functions.entries := by
    rw [hheads.entries_extend, hp.entries_extend]
    refine List.Perm.append_right _ ?_
    exact (List.reverse_perm _).trans ((hperm.map _).trans (List.reverse_perm _).symm)
  have htable := SignatureTable.get?_eq_of_perm hentries
  refine ⟨stages', hperm, ⟨hheads, fun s hs => ?_⟩, htable⟩
  refine Registered.checkBody_mono (hc.extend ds _) (hc.extend ds _) ?_ ?_
    (hp.bodies s (hperm.mem_iff.mp hs))
  · intro name t ht
    simpa using ht
  · intro name s hs
    rw [htable, hs]

/-- A program that is accepted between two others is accepted with its functions in another
order. Its units have the same checked forms then, and its functions the same signatures. -/
theorem check_reorder (hc : c.Idle) (hunits : p.Perm p') (hglobals : p.globals = p'.globals)
    {q : Program ValueType} (h : p.check c = .ok q c') :
    ∃ q' c'', p'.check c = .ok q' c'' ∧ q'.length = p'.length ∧
      (p.zip q).Perm (p'.zip q') ∧ ∀ name, c'.functions.get? name = c''.functions.get? name := by
  obtain ⟨ds, stages, hp, rfl, rfl⟩ := (check_iff_passes hc).mp h
  have hfunctions : p'.functions.Perm p.functions := (hunits.filterMap TopLevel.function?).symm
  obtain ⟨stages', hperm, hp', htable⟩ := hp.reorder hc hglobals hfunctions
  have hzip {p : Program α} {stages : List (FunctionStages α)} (hp : p.Passes c ds stages) :
      (TopLevel.refill p ds (stages.map FunctionStages.checked)).length = p.length ∧
        (p.zip (TopLevel.refill p ds (stages.map FunctionStages.checked))).Perm
          ((p.globals.zip ds).map (Prod.map TopLevel.global TopLevel.global) ++
            stages.map fun s => (.function s.source, .function s.checked)) := by
    have hds : ds.length = p.globals.length := Checking.length_of_mapM_eq_ok hp.globals
    have hfs : (stages.map FunctionStages.checked).length = p.functions.length := by
      rw [← hp.sources, List.length_map, List.length_map]
    have hunits := TopLevel.zip_refill_perm hds hfs
    refine ⟨TopLevel.length_refill hds hfs, ?_⟩
    change List.Perm _ (_ ++ (p.functions.zip _).map _) at hunits
    rw [← hp.sources, List.zip_map', List.map_map] at hunits
    exact hunits
  refine ⟨_, _, (check_iff_passes hc).mpr ⟨ds, stages', hp', rfl, rfl⟩, (hzip hp').1, ?_,
    fun name => (htable name).symm⟩
  have hsame := (hzip hp').2
  rw [← hglobals] at hsame
  exact (hzip hp).2.trans (((hperm.symm.map _).append_left _).trans hsame.symm)

end Program

/-- **The order of functions does not matter.** If two programs have the same units, and the global
declarations stand in the same order, a fresh checker accepts one if and only if it accepts the
other. It then gives every unit the same checked form in both, and both tables of functions tell
the same of every name. -/
theorem checkFresh_reorder {p p' : Program α} (hunits : p.Perm p')
    (hglobals : p.globals = p'.globals) :
    ((∃ r, checkFresh p = .ok r) ↔ ∃ r', checkFresh p' = .ok r') ∧
      ∀ r r', checkFresh p = .ok r → checkFresh p' = .ok r' →
        r.program.length = p.length ∧ r'.program.length = p'.length ∧
          (p.zip r.program).Perm (p'.zip r'.program) ∧
            ∀ name, r.functions.get? name = r'.functions.get? name := by
  have haccepted {p p' : Program α} (hunits : p.Perm p') (hglobals : p.globals = p'.globals)
      {r : CheckedProgram} (h : checkFresh p = .ok r) : ∃ r', checkFresh p' = .ok r' ∧
        r'.program.length = p'.length ∧ (p.zip r.program).Perm (p'.zip r'.program) ∧
          ∀ name, r.functions.get? name = r'.functions.get? name := by
    obtain ⟨c, hcheck, hfunctions⟩ := checkFresh_eq_ok.mp h
    obtain ⟨q', c', hcheck', hlength, hforms, htable⟩ :=
      Program.check_reorder Checker.Idle.fresh hunits hglobals hcheck
    rw [hfunctions] at htable
    exact ⟨⟨q', c'.functions⟩, checkFresh_eq_ok.mpr ⟨c', hcheck', rfl⟩, hlength, hforms, htable⟩
  refine ⟨⟨fun ⟨r, h⟩ => ?_, fun ⟨r', h'⟩ => ?_⟩, fun r r' h h' => ?_⟩
  · obtain ⟨r', h', -⟩ := haccepted hunits hglobals h
    exact ⟨r', h'⟩
  · obtain ⟨r, h, -⟩ := haccepted hunits.symm hglobals.symm h'
    exact ⟨r, h⟩
  · obtain ⟨r₁, h₁, hlength', hforms, htable⟩ := haccepted hunits hglobals h
    obtain rfl := Except.ok.inj (h₁.symm.trans h')
    obtain ⟨r₂, h₂, hlength, -⟩ := haccepted hunits.symm hglobals.symm h'
    obtain rfl := Except.ok.inj (h₂.symm.trans h)
    exact ⟨hlength, hlength', hforms, htable⟩

/-- `const int size = 2;` -/
def sizeTwo : Decl Unit where
  name := "size"
  isConst := true
  base := .int
  dims := []
  init := some (.expr (.literal (.int 2) .nowhere ()))
  location := .nowhere
  note := ()

/-- `int name(int a[][size]) { return other(a); }` -/
def forwarding (name other : String) : Function Unit where
  name := name
  returns := .int
  params := [⟨"a", .int, [.var "size" .nowhere ()], true, .nowhere⟩]
  body := ⟨[.stmt (.returnValue (.call (.var other .nowhere ()) [.var "a" .nowhere ()] .nowhere ())
    .nowhere)], .nowhere⟩
  location := .nowhere

/-- Two functions that call each other, around the constant that both need for their parameters. -/
def constantBetween : Program Unit :=
  [.function (forwarding "f" "g"), .global sizeTwo, .function (forwarding "g" "f")]

/-- The same units with the constant behind the functions. -/
def constantLast : Program Unit :=
  [.function (forwarding "g" "f"), .function (forwarding "f" "g"), .global sizeTwo]

/-- Both orders are accepted, with the same forms of the units and the same functions. -/
theorem constantBetween_reordered : ∃ r r', checkFresh constantBetween = .ok r ∧
    checkFresh constantLast = .ok r' ∧
      (constantBetween.zip r.program).Perm (constantLast.zip r'.program) ∧
        ∀ name, r.functions.get? name = r'.functions.get? name := by
  have hunits : constantBetween.Perm constantLast := @List.perm_append_comm _ [_, _] [_]
  obtain ⟨-, -, hforms, htable⟩ := (checkFresh_reorder hunits rfl).2 _ _ rfl rfl
  exact ⟨_, _, rfl, rfl, hforms, htable⟩

end SysYFront
