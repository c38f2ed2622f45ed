import SysYFront.Proofs.Relocation.Check
import SysYFront.Proofs.Relocation.Read

/-!
# SysYFront.Proofs.Relocation.Compile

**Layout does not decide anything.** Reading and checking both keep to the kinds of tokens, so the
outcome for relocated tokens is the relocated outcome (`compileTokens_relocate`): a program is
accepted wherever its tokens stand, with the same tree, types and signatures, and a program that
is not accepted fails at the same stage, for the same reason, with the same message and at the
moved place. In particular two tokens may come to stand at one place and their order may be lost.
-/

namespace SysYFront

/-- Reads and checks a list of tokens. -/
def compileTokens (tokens : List Token) : Except CompileError CheckedProgram := do
  let p ← (Program.ofTokens tokens).mapError .unreadable
  (checkFresh p).mapError .rejected

theorem compile_eq_compileTokens (source : String) :
    compile source = compileTokens (Token.ofSource source) := rfl

/-- What a message says besides the place stays. -/
@[simp] theorem SyntaxError.detail_relocate (f : Location → Location) (e : SyntaxError) :
    (e.relocate f).detail = e.detail := rfl

@[simp] theorem Diagnostic.message_relocate (f : Location → Location) (d : Diagnostic) :
    (d.relocate f).message = d.message := rfl

/-- **The outcome for relocated tokens is the relocated outcome.** Only a list without tokens is
left out: it ends at no token's place. -/
theorem compileTokens_relocate (f : Location → Location) {tokens : List Token}
    (h : tokens ≠ []) :
    compileTokens (tokens.map (Token.relocate f)) =
      relocateOutcome (CompileError.relocate f) (CheckedProgram.relocate f)
        (compileTokens tokens) := by
  unfold compileTokens
  rw [Program.ofTokens_relocate f h]
  cases Program.ofTokens tokens with
  | error e => rfl
  | ok p =>
    show (checkFresh (p.relocate f)).mapError CompileError.rejected =
      relocateOutcome _ _ ((checkFresh p).mapError CompileError.rejected)
    rw [checkFresh_relocate f p]
    cases checkFresh p <;> rfl

/-- With all tokens of `int a = b;` at one place, the unknown name is still reported as unknown. -/
theorem unknown_name_relocated :
    let tokens : List Token := [⟨.keyword .intKw, ⟨1, 1⟩⟩, ⟨.name "a", ⟨1, 5⟩⟩,
      ⟨.symbol .equal, ⟨1, 7⟩⟩, ⟨.name "b", ⟨1, 9⟩⟩, ⟨.symbol .semicolon, ⟨1, 10⟩⟩,
      ⟨.endOfFile, ⟨1, 11⟩⟩]
    tokens ≠ [] ∧
      compileTokens tokens = .error (.rejected ⟨.undefinedVariable "b", ⟨1, 9⟩⟩) ∧
      compileTokens (tokens.map (Token.relocate fun _ => ⟨7, 7⟩)) =
        .error (.rejected ⟨.undefinedVariable "b", ⟨7, 7⟩⟩) := by
  intro tokens
  have hnonempty : tokens ≠ [] := List.cons_ne_nil _ _
  have herror : compileTokens tokens = .error (.rejected ⟨.undefinedVariable "b", ⟨1, 9⟩⟩) := rfl
  refine ⟨hnonempty, herror, ?_⟩
  rw [compileTokens_relocate (fun _ => ⟨7, 7⟩) hnonempty, herror]
  rfl

end SysYFront
