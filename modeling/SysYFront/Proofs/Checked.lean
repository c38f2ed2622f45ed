import SysYFront.Proofs.Agreement.Program
import SysYFront.Proofs.Readable

/-!
# SysYFront.Proofs.Checked

What a fresh checker makes of a program that was read, in terms of the program alone:

* it accepts the program if and only if the program keeps the rules (`Program.Valid`);
* the tree that it gives is the program with its constants propagated (`Program.fold`);
* the types in that tree are those of the program itself, nothing of it folded
  (`Program.annotate`).

All three follow from the agreement of the checker with the rules
(`checkFresh_decides`), where they are proved in one induction.
-/

namespace SysYFront

variable {p : Program Unit} {r : CheckedProgram}

/-! ### The rules -/

/-- **The checker decides the rules.** A program that was read is accepted if and only if
it keeps the rules, with names, types and constant values taken from the program as it was
written. -/
theorem checkFresh_succeeds_iff (hp : p.Readable) : (∃ r, checkFresh p = .ok r) ↔ p.Valid :=
  (checkFresh_decides p hp.voidFree).succeeds_iff

/-- The sample keeps the rules, since the checker accepts it. -/
theorem sample_valid : sample.Readable ∧ sample.Valid := by
  have haccepted : ∃ r, checkFresh sample = .ok r := ⟨_, rfl⟩
  exact ⟨sample_readable, (checkFresh_succeeds_iff sample_readable).mp haccepted⟩

/-! ### Constant propagation -/

/-- The tree that the checker gives, its types apart, is the annotated and folded one. -/
theorem program_forget (htree : r.program.mapNotes ValueType.typing = p.annotate.fold) :
    r.program.mapNotes forget = p.fold := by
  have hunit : p.mapNotes forget = p := Program.mapNotes_id p
  calc r.program.mapNotes forget
      = (r.program.mapNotes ValueType.typing).mapNotes forget :=
        (Program.mapNotes_mapNotes ValueType.typing forget r.program).symm
    _ = p.annotate.fold.mapNotes forget := by rw [htree]
    _ = (p.annotate.mapNotes forget).fold := (Program.fold_mapNotes _ _).symm
    _ = p.fold := by rw [Program.annotate_forget, hunit]

/-- **Folding is constant propagation.** The checked tree of a program that was read is the
program with every constant scalar in it replaced by the literal of its value, and with
known subscripts and extents as integers. No expression that calls, assigns or names a
variable becomes a literal. -/
theorem checkFresh_program_eq_fold (hp : p.Readable) (h : checkFresh p = .ok r) :
    r.program.mapNotes forget = p.fold ∧
      ∀ (Γ : Context) (e : Expr Unit), e.isFixed Γ = false → (e.fold Γ).value? = none := by
  obtain ⟨-, htree, -⟩ := (checkFresh_decides p hp.voidFree).of_ok h
  exact ⟨program_forget htree, fun _ _ => Expr.value?_fold_of_not_isFixed⟩

/-- The sample is checked into its folding. -/
theorem sample_folded : sample.Readable ∧ ∃ r, checkFresh sample = .ok r ∧
    r.program.mapNotes forget = sample.fold :=
  ⟨sample_readable, _, rfl, (checkFresh_program_eq_fold sample_readable rfl).1⟩

/-! ### Types -/

/-- **Types are those of the written program.** Every node of a checked tree and every
declaration in it has the base type, the extents and the constness that the program itself
gives it, nothing of it folded; only a known subscript or extent is typed as the integer
that it counts for. -/
theorem checkFresh_typing (hp : p.Readable) (h : checkFresh p = .ok r) :
    r.program.mapNotes ValueType.typing = p.annotate.fold := by
  obtain ⟨-, htree, -⟩ := (checkFresh_decides p hp.voidFree).of_ok h
  exact htree

/-- The types of the sample are those of the program itself. -/
theorem sample_typed : sample.Readable ∧ ∃ r, checkFresh sample = .ok r ∧
    r.program.mapNotes ValueType.typing = sample.annotate.fold :=
  ⟨sample_readable, _, rfl, checkFresh_typing sample_readable rfl⟩

/-- The program `int a[2.5];`. -/
def halfExtent : Program Unit :=
  [.global {
    name := "a", isConst := false, base := .int, dims := [.literal (.float 2.5) .nowhere ()]
    init := none, location := .nowhere, note := () }]

/-- An extent that is written as a float is typed as an integer, not as it is written. -/
theorem halfExtent_typed : halfExtent.Readable ∧ ∃ r, checkFresh halfExtent = .ok r ∧
    (r.program.globals.map fun d => d.dims.map fun e => e.note.base) = [[.int]] ∧
    (halfExtent.globals.map fun d => d.dims.map (Expr.base [] halfExtent.headings)) =
      [[.float]] := by
  have hread : halfExtent.Readable := by
    refine ⟨⟨List.map (fun kind => ⟨kind, .nowhere⟩) [.keyword .intKw, .name "a",
      .symbol .leftBracket, .floatLiteral 2.5, .symbol .rightBracket, .symbol .semicolon],
      .nowhere⟩, rfl⟩
  exact ⟨hread, _, rfl, rfl, rfl⟩

end SysYFront
