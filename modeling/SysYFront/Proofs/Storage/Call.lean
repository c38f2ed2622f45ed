import SysYFront.Proofs.Checked
import SysYFront.Proofs.Session.Stages
import SysYFront.Proofs.Storage.Assign

/-!
# SysYFront.Proofs.Storage.Call

Which storage an assignment can reach through calls. A parameter that is an array has no storage
of its own: it stands for the array that is passed to it, whole or in part. So a name can stand for
the storage of a variable or a constant that is declared elsewhere, through a chain of calls of
which each passes on what the one before has passed (`Program.Aliases`).

The rules for calls compare shapes and base types. They do not ask whether an argument is
constant, and there are no constant parameters, so a constant array can be handed to a function
that assigns to its elements (`handedOver_accepted`), while its elements are read as they were
initialized. What the rules do guarantee is that **this is the only way**: no assignment reaches
the storage of a constant unless some call passes this very constant, or a part of it
(`writes_to_constants_through_calls`).
-/

namespace SysYFront

variable {α : Type} {Γ : Context} {Φ : Headings} {B : Bindings α} {p : Program α}

/-! ### Arguments -/

namespace Expr

/-- What is left of an array has a name as its root. -/
theorem exists_root_of_dims_ne_nil {e : Expr α} (h : e.dims Γ ≠ []) :
    ∃ name l n m, e.root = var name l n ∧ Γ.lookup name = some m := by
  rcases exists_root_or Γ e with ⟨name, l, n, hroot⟩ | ⟨-, hdims⟩
  · cases hm : Γ.lookup name with
    | none =>
      rw [dims_eq_drop, hroot, dims, hm] at h
      exact absurd List.drop_nil h
    | some m => exact ⟨name, l, n, m, hroot, hm⟩
  · exact absurd hdims h

/-- An array is a declared one, under fewer subscripts than its declaration has dimensions. -/
theorem rootedAt_of_dims_ne_nil {e : Expr α} (hB : B.Matches Γ) (h : e.dims Γ ≠ []) :
    ∃ b, e.RootedAt B b ∧ e.subscripts < b.rank := by
  obtain ⟨name, l, n, m, hroot, hm⟩ := exists_root_of_dims_ne_nil h
  obtain ⟨b, hb, -, hrank⟩ := hB.exists_lookup hm
  refine ⟨b, ⟨name, l, n, hroot, hb⟩, ?_⟩
  have hdims : e.root.dims Γ = m.dims := by
    rw [hroot, dims, hm]
    rfl
  rw [dims_eq_drop, hdims, Ne, List.drop_eq_nil_iff, Nat.not_le] at h
  rw [hrank]
  exact h

/-- A root refers to one declaration. -/
theorem RootedAt.unique {b b' : Binder α} {e : Expr α} (h : e.RootedAt B b)
    (h' : e.RootedAt B b') : b = b' := by
  obtain ⟨name, l, n, hroot, hb⟩ := h
  obtain ⟨name', l', n', hroot', hb'⟩ := h'
  obtain ⟨rfl, -, -⟩ := Expr.var.inj (hroot.symm.trans hroot')
  exact Option.some.inj (hb.symm.trans hb')

/-- Every argument of a valid call fits the parameter at its position. -/
theorem ArgumentsValid.fits : ∀ {params : Context} {args : List (Expr α)} {position : Nat}
    {m : String × Meaning} {e : Expr α}, ArgumentsValid Γ Φ params args →
      params[position]? = some m → args[position]? = some e → e.Fits Γ Φ m.2
  | _ :: _, _ :: _, 0, _, _, h, hm, he => by
    obtain rfl := Option.some.inj hm
    obtain rfl := Option.some.inj he
    exact h.1.2
  | _ :: _, _ :: _, position + 1, _, _, h, hm, he => fits h.2 hm he

end Expr

namespace Program

/-- The functions of a valid program are called by their own headings. -/
theorem Valid.lookup_headings (hp : p.Valid) {f : Function α} (hf : f ∈ p.functions) :
    p.headings.lookup f.name = some (f.heading p.context) := by
  obtain ⟨fs, gs, hsplit⟩ := List.append_of_mem hf
  have hnodup := hp.functions_nodup
  rw [hsplit, List.map_append, List.nodup_append] at hnodup
  obtain ⟨-, -, hdistinct⟩ := hnodup
  rw [headings, hsplit, List.lookup_append, Option.or_eq_some_iff, List.lookup_eq_some_iff]
  -- the names in front of this one are others, so none of them hides it
  refine .inl ⟨fs.map fun g => (g.name, g.heading p.context), gs.map fun g => (g.name,
    g.heading p.context), by simp, ?_⟩
  intro entry hentry
  obtain ⟨g, hg, rfl⟩ := List.mem_map.mp hentry
  have hne := hdistinct g.name (List.mem_map_of_mem hg) f.name (by simp)
  simpa using hne.symm

/-- Whether `e` is passed to the parameter `q` of `f`, the one at `position`, by a call in the
program where `B` is visible. -/
def PassesTo (p : Program α) (B : Bindings α) (e : Expr α) (f : Function α) (position : Nat)
    (q : Param α) : Prop :=
  f ∈ p.functions ∧ f.params[position]? = some q ∧ ∃ args k m l n,
    p.Contains B (.call (.var f.name k m) args l n) ∧ args[position]? = some e

/-- **What is passed to an array parameter is an array of the program**: a name under fewer
subscripts than its declaration has dimensions. -/
theorem PassesTo.rootedAt {e : Expr α} {f : Function α} {position : Nat} {q : Param α}
    (h : p.PassesTo B e f position q) (hp : p.Valid) (hq : q.rank ≠ 0) :
    ∃ b, e.RootedAt B b ∧ e.subscripts < b.rank := by
  obtain ⟨hf, hparam, args, k, m, l, n, hcall, harg⟩ := h
  obtain ⟨Γ, hB, heading, hheading, hargs⟩ := hcall.valid hp (by simp [Expr.IsName])
  rw [hp.lookup_headings hf] at hheading
  obtain rfl := Option.some.inj hheading
  have hmeaning : (f.heading p.context).params[position]? =
      some (q.name, q.meaning p.context) := by
    rw [Function.heading, Function.context, List.getElem?_map, hparam]
    rfl
  obtain ⟨-, hlength, -⟩ := hargs.fits hmeaning harg
  rw [q.length_dims_meaning] at hlength
  apply Expr.rootedAt_of_dims_ne_nil hB
  intro hnil
  rw [hnil] at hlength
  exact hq hlength.symm

/-! ### Chains of calls -/

/-- Whether a name can stand for the storage of the declaration `d`: the name of `d` itself, or a
parameter that an array under such a name is passed to. Which of the calls are made at run time
plays no part. -/
inductive Aliases (p : Program α) (d : Decl α) : Binder α → Prop
  | own : Aliases p d (.declared d)
  | passed {B : Bindings α} {e : Expr α} {b : Binder α} {f : Function α} {position : Nat}
    {q : Param α} : p.PassesTo B e f position q → q.rank ≠ 0 → e.RootedAt B b → Aliases p d b →
      Aliases p d (.parameter f.name position q)

/-- Whether an assignment of the program can reach the storage of `d`, at once or through calls. -/
def Writes (p : Program α) (d : Decl α) : Prop :=
  ∃ B a v l n b, p.Contains B (.assign a v l n) ∧ a.RootedAt B b ∧ p.Aliases d b

/-- Whether some call hands the storage of `d`, whole or in part, to an array parameter. -/
def HandsOver (p : Program α) (d : Decl α) : Prop :=
  ∃ B e f position q, p.PassesTo B e f position q ∧ q.rank ≠ 0 ∧ e.RootedAt B (.declared d)

/-- At the start of every chain of calls stands one that passes the declaration itself. -/
theorem Aliases.eq_or_handsOver {d : Decl α} {b : Binder α} (h : p.Aliases d b) :
    b = .declared d ∨ p.HandsOver d := by
  induction h with
  | own => exact .inl rfl
  | @passed B e b f position q hpasses hq hroot _ ih =>
    rcases ih with rfl | hhands
    · exact .inr ⟨B, e, f, position, q, hpasses, hq, hroot⟩
    · exact .inr hhands

/-- A constant is not assigned to under its own name, so it has to be handed over first. -/
theorem Writes.handsOver {d : Decl α} (h : p.Writes d) (hp : p.Valid) (hd : d.isConst = true) :
    p.HandsOver d := by
  obtain ⟨B, a, v, l, n, b, hcontains, hroot, haliases⟩ := h
  rcases haliases.eq_or_handsOver with rfl | hhands
  · obtain ⟨b, hroot', hconst, -⟩ := hcontains.isMutableScalar hp
    obtain rfl := hroot.unique hroot'
    rw [Binder.isConst, hd] at hconst
    cases hconst
  · exact hhands

end Program

/-! ### Parameters -/

/-- Whether a type is that of a variable: a place whose values are not known. -/
def ValueType.IsVariable (t : ValueType) : Prop :=
  t = .place t.base t.dims

theorem Param.resolveAll_isVariable {c : Checker} {function : String} {seen : List String}
    {params : List (Param α)} {rs : List (Param ValueType × Parameter)}
    (h : resolveAll c function seen params = .ok rs) : ∀ r ∈ rs, r.2.type.IsVariable := by
  induction params generalizing seen rs with
  | nil =>
    rw [resolveAll, pure_eq_ok] at h
    subst h
    intro r hr
    cases hr
  | cons p params ih =>
    simp only [resolveAll, resolve, guard_eq_ok, bind_eq_ok, pure_eq_ok] at h
    obtain ⟨-, r, ⟨extents, -, -, rfl⟩, rs, hrs, rfl⟩ := h
    exact List.forall_mem_cons.mpr ⟨rfl, ih hrs⟩

theorem Function.resolve_isVariable {c : Checker} {f : Function α} {r : Registered α}
    (h : f.resolve c = .ok r) : ∀ q ∈ r.signature.params, q.type.IsVariable := by
  simp only [resolve, guard_eq_ok, bind_eq_ok, pure_eq_ok] at h
  obtain ⟨-, params, hparams, rfl⟩ := h
  intro q hq
  obtain ⟨s, hs, rfl⟩ := List.mem_map.mp hq
  exact Param.resolveAll_isVariable hparams s hs

/-- Inside a function every parameter is a variable, whatever is passed to it. -/
theorem checkFresh_params_isVariable {r : CheckedProgram} (h : checkFresh p = .ok r) :
    ∀ entry ∈ r.functions.entries, ∀ q ∈ entry.2.params, q.type.IsVariable := by
  obtain ⟨c, hcheck, hfunctions⟩ := checkFresh_eq_ok.mp h
  obtain ⟨ds, stages, hpasses, rfl, -⟩ := (Program.check_iff_passes .fresh).mp hcheck
  rw [← hfunctions, hpasses.entries_extend]
  intro entry hentry
  rcases List.mem_append.mp hentry with hentry | hentry
  · obtain ⟨s, hs, rfl⟩ := List.mem_map.mp (List.mem_reverse.mp hentry)
    exact Function.resolve_isVariable (hpasses.heads s hs)
  · obtain rfl := List.mem_singleton.mp hentry
    exact List.forall_mem_singleton.mpr rfl

/-! ### Programs -/

/-- **Only calls that pass a constant let it be assigned to.** In a program that was read and is
accepted,

* what is passed to an array parameter is a declared array, constant or not, or a part of one;
* every parameter is a variable in its function, so its elements may be assigned to;
* what is read elsewhere of a constant at known subscripts has been replaced by its initial value;
* an assignment reaches the storage of a constant, at once or through any chain of calls, only if
  some call passes this constant to an array parameter, whole or in part. -/
theorem writes_to_constants_through_calls {p : Program Unit} {r : CheckedProgram}
    (hp : p.Readable) (h : checkFresh p = .ok r) :
    (∀ B e f position q, p.PassesTo B e f position q → q.rank ≠ 0 →
      ∃ b, e.RootedAt B b ∧ e.subscripts < b.rank) ∧
    (∀ entry ∈ r.functions.entries, ∀ q ∈ entry.2.params, q.type.IsVariable) ∧
    r.program.mapNotes forget = p.fold ∧
    ∀ d, d.isConst = true → p.Writes d → p.HandsOver d := by
  obtain ⟨hvalid, htree, -⟩ := (checkFresh_decides p hp.voidFree).of_ok h
  refine ⟨?_, checkFresh_params_isVariable h, program_forget htree, ?_⟩
  · intro B e f position q hpasses hq
    exact hpasses.rootedAt hvalid hq
  · intro d hd hwrites
    exact hwrites.handsOver hvalid hd

/-! ### A program that hands over a constant

    const int a[1] = {1};
    void f(int v[]) { v[0] = 2; }
    int main() { f(a); return a[0]; } -/

/-- The tokens of the program above, all at one place. -/
def handedOverTokens : TokenStream where
  tokens := (fillTokens "v").tokens ++ List.map (fun kind => ⟨kind, .nowhere⟩) [
    .keyword .intKw, .name "main", .symbol .leftParen, .symbol .rightParen, .symbol .leftBrace,
    .name "f", .symbol .leftParen, .name "a", .symbol .rightParen, .symbol .semicolon,
    .keyword .returnKw, .name "a", .symbol .leftBracket, .intLiteral 0, .symbol .rightBracket,
    .symbol .semicolon, .symbol .rightBrace]
  finish := .nowhere

/-- The constant array where it is passed. -/
def passedArray : Expr Unit :=
  .var "a" .nowhere ()

/-- The call that passes it. -/
def passingCall : Expr Unit :=
  .call (.var "f" .nowhere ()) [passedArray] .nowhere ()

/-- The assignment in the function that is called. -/
def passedWrite : Expr Unit :=
  .assign (firstElement "v") (.literal (.int 2) .nowhere ()) .nowhere ()

/-- A function that calls `f` on the constant array and then returns `e`. -/
def caller (e : Expr Unit) : Function Unit where
  name := "main"
  returns := .int
  params := []
  body := ⟨[.stmt (.expr passingCall .nowhere), .stmt (.returnValue e .nowhere)], .nowhere⟩
  location := .nowhere

/-- The tree of the program above, with `e` as what is returned. -/
def handingOver (e : Expr Unit) : Program Unit :=
  fill "v" ++ [.function (caller e)]

/-- The tree of the program above. -/
def handedOver : Program Unit :=
  handingOver (firstElement "a")

theorem handedOver_readable : handedOver.Readable :=
  ⟨handedOverTokens, rfl⟩

/-- The parameter that the array is passed to. -/
def filledParam : Param Unit :=
  ⟨"v", .int, [], true, .nowhere⟩

theorem handedOver_passesTo :
    handedOver.PassesTo handedOver.bindings passedArray (filler "v") 0 filledParam := by
  have hsite : (handedOver.bindings, passingCall) ∈
      (caller (firstElement "a")).sites handedOver.bindings := List.mem_cons_self
  have hcontains : handedOver.Contains handedOver.bindings passingCall :=
    ⟨passingCall, List.mem_append_right _ (List.mem_append_right _ (List.mem_append_left _ hsite)),
      List.mem_cons_self⟩
  exact ⟨List.mem_cons_self, rfl, [passedArray], _, _, _, _, hcontains, rfl⟩

/-- The assignment in the function reaches the array through the parameter. -/
theorem handedOver_writes : handedOver.Writes filledArray := by
  have hsite : ((filler "v").bindings ++ handedOver.bindings, passedWrite) ∈
      (filler "v").sites handedOver.bindings := List.mem_cons_self
  have hcontains : handedOver.Contains ((filler "v").bindings ++ handedOver.bindings) passedWrite :=
    ⟨passedWrite, List.mem_append_right _ (List.mem_append_left _ hsite), List.mem_cons_self⟩
  have haliases : handedOver.Aliases filledArray (.parameter "f" 0 filledParam) :=
    .passed handedOver_passesTo (by decide) ⟨"a", .nowhere, (), rfl, rfl⟩ .own
  exact ⟨_, _, _, _, _, _, hcontains, ⟨"v", .nowhere, (), rfl, rfl⟩, haliases⟩

/-- The constant array is passed to a parameter and is assigned to there, and the checker accepts
it, while the element that is read behind the call is the initial one. -/
theorem handedOver_accepted : handedOver.Readable ∧ filledArray.isConst = true ∧
    (∃ r, checkFresh handedOver = .ok r ∧
      r.program.mapNotes forget = handingOver (.literal (.int 1) .nowhere ())) ∧
    handedOver.PassesTo handedOver.bindings passedArray (filler "v") 0 filledParam ∧
    filledParam.rank ≠ 0 ∧ passedArray.RootedAt handedOver.bindings (.declared filledArray) ∧
    handedOver.Writes filledArray :=
  ⟨handedOver_readable, rfl, ⟨_, rfl, rfl⟩, handedOver_passesTo, by decide,
    ⟨"a", .nowhere, (), rfl, rfl⟩, handedOver_writes⟩

/-- The assignment reaches the array because a call passes the array. -/
theorem handedOver_handsOver : handedOver.Readable ∧ (∃ r, checkFresh handedOver = .ok r) ∧
    filledArray.isConst = true ∧ handedOver.Writes filledArray ∧
      handedOver.HandsOver filledArray := by
  have hthrough := writes_to_constants_through_calls handedOver_readable rfl
  exact ⟨handedOver_readable, ⟨_, rfl⟩, rfl, handedOver_writes,
    hthrough.2.2.2 filledArray rfl handedOver_writes⟩

end SysYFront
