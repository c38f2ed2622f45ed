import SysYFront.Compile
import SysYFront.Proofs.Arithmetic.Read
import SysYFront.Proofs.Recheck

/-!
# SysYFront.Proofs.Arithmetic.Compile

Constants have their exact value. What checking folds the tree of an integer expression to is
what the expression evaluates to (`Computes`), operator by operator: arithmetic on words of
thirty-two bits is the arithmetic of integers, wrapped, and a division by zero is reported where
the evaluation meets it.

**Compiling the declaration of a constant succeeds if and only if the evaluation of its
initializer meets no division by zero; the constant then has the value of the evaluation, and
else the first division by zero is what is reported** (`IntExpr.compile_gives_exact_value`).
-/

namespace SysYFront

namespace IntExpr

variable {l k : Location} {v : Except Diagnostic Int} {m : Except Diagnostic (Expr ValueType)}

/-! ### Arithmetic -/

theorem toInt_truth {p q : Prop} [Decidable p] [Decidable q] (h : p ↔ q) :
    (if p then 1 else 0 : Int32).toInt = truth q := by
  unfold truth
  by_cases hp : p
  · rw [if_pos hp, if_pos (h.mp hp), Int32.toInt_one]
  · rw [if_neg hp, if_neg (fun hq => hp (h.mpr hq)), Int32.toInt_zero]

theorem toInt_eq_zero {n : Int32} : n.toInt = 0 ↔ n = 0 := by
  rw [← Int32.toInt_zero, Int32.toInt_inj]

/-- A negative number is the negation of its magnitude, also the least one. -/
theorem neg_ofNat_natAbs {n : Int32} (h : n < 0) : -Int32.ofNat n.toInt.natAbs = n := by
  rw [Int32.lt_iff_toInt_lt, Int32.toInt_zero] at h
  rw [← Int32.ofInt_eq_ofNat, ← Int32.ofInt_neg, Int.ofNat_natAbs_of_nonpos (Int.le_of_lt h),
    Int.neg_neg, Int32.ofInt_toInt]

theorem ofNat_natAbs {n : Int32} (h : ¬ n < 0) : Int32.ofNat n.toInt.natAbs = n := by
  rw [Int32.lt_iff_toInt_lt, Int32.toInt_zero, Int.not_lt] at h
  rw [← Int32.ofInt_eq_ofNat, Int.natAbs_of_nonneg h, Int32.ofInt_toInt]

theorem unary_eval_int (op : UnaryOp) (n : Int32) :
    ∃ r : Int32, op.eval (.int n) = .int r ∧ r.toInt = unaryValue op n.toInt := by
  cases op with
  | plus => exact ⟨n, rfl, rfl⟩
  | neg => exact ⟨-n, rfl, Int32.toInt_neg n⟩
  | not =>
    refine ⟨if n = 0 then 1 else 0, ?_, toInt_truth toInt_eq_zero.symm⟩
    by_cases h : n = 0
    · subst h
      rfl
    · simp [UnaryOp.eval, Scalar.ofBool, Scalar.isZero, Scalar.base, Scalar.convert, h]

/-- What stands for the missing value of an operator: it divides by zero. -/
def zeroDivisor (op : BinaryOp) : Problem :=
  if op = .div then .divisionByZero else .moduloByZero

/-- Arithmetic on words is the arithmetic of their integers, wrapped. -/
theorem binaryValue_toInt (op : BinaryOp) (a b : Int32) (l : Location) :
    binaryValue op a.toInt b.toInt l =
      match op.evalInt? a b with
      | some n => pure n.toInt
      | none => report (zeroDivisor op) l := by
  cases op with
  | add => exact congrArg Except.ok (Int32.toInt_add a b).symm
  | sub => exact congrArg Except.ok (Int32.toInt_sub a b).symm
  | mul => exact congrArg Except.ok (Int32.toInt_mul a b).symm
  | div =>
    by_cases hb : b = 0
    · subst hb
      rfl
    · have hne := mt toInt_eq_zero.mp hb
      simp only [binaryValue, BinaryOp.evalInt?, if_neg hb, if_neg hne, Int32.toInt_div, wrap]
  | mod =>
    by_cases hb : b = 0
    · subst hb
      rfl
    · have hne := mt toInt_eq_zero.mp hb
      simp only [binaryValue, BinaryOp.evalInt?, if_neg hb, if_neg hne, Int32.toInt_mod]
  | eq => exact congrArg Except.ok (toInt_truth Int32.toInt_inj.symm).symm
  | ne => exact congrArg Except.ok (toInt_truth (not_congr Int32.toInt_inj.symm)).symm
  | lt => exact congrArg Except.ok (toInt_truth Int32.lt_iff_toInt_lt).symm
  | le => exact congrArg Except.ok (toInt_truth Int32.le_iff_toInt_le).symm
  | gt => exact congrArg Except.ok (toInt_truth Int32.lt_iff_toInt_lt).symm
  | ge => exact congrArg Except.ok (toInt_truth Int32.le_iff_toInt_le).symm
  | and =>
    have hne (n : Int32) : n ≠ 0 ↔ n.toInt ≠ 0 := not_congr toInt_eq_zero.symm
    exact congrArg Except.ok (toInt_truth (and_congr (hne a) (hne b))).symm
  | or =>
    have hne (n : Int32) : n ≠ 0 ↔ n.toInt ≠ 0 := not_congr toInt_eq_zero.symm
    exact congrArg Except.ok (toInt_truth (or_congr (hne a) (hne b))).symm

/-- An operator on two literals is folded, or its zero divisor is reported. -/
theorem checkedBinary_constant (op : BinaryOp) (a b : Int32) (l k : Location) {i : Location} :
    Expr.checkedBinary op (.constant (.int a) i) (.constant (.int b) k) l =
      match op.evalInt? a b with
      | some n => pure (.constant (.int n) l)
      | none => report (zeroDivisor op) l := by
  cases op with
  | div =>
    by_cases hb : b = 0
    · subst hb
      rfl
    · simp [Expr.checkedBinary, Expr.foldedBinary?, BinaryOp.eval?, BinaryOp.evalInt?,
        Scalar.isZero, hb]
  | mod =>
    by_cases hb : b = 0
    · subst hb
      rfl
    · simp [Expr.checkedBinary, Expr.foldedBinary?, BinaryOp.eval?, BinaryOp.evalInt?,
        Scalar.isZero, Scalar.base, ValueType.constant, Base.promote, hb]
  | _ => rfl

/-! ### Folding -/

/-- Whether checking gives the literal of a value, or the diagnostic that there is instead. -/
def Computes (l : Location) (v : Except Diagnostic Int) (m : Except Diagnostic (Expr ValueType)) :
    Prop :=
  match v with
  | .ok x => ∃ n : Int32, n.toInt = x ∧ m = .ok (.constant (.int n) l)
  | .error d => m = .error d

theorem Computes.pure (n : Int32) :
    Computes l (Pure.pure n.toInt) (Pure.pure (.constant (.int n) l)) :=
  ⟨n, rfl, rfl⟩

theorem Computes.bind {f : Int → Except Diagnostic Int}
    {g : Expr ValueType → Except Diagnostic (Expr ValueType)} (h : Computes k v m)
    (hf : ∀ n : Int32, Computes l (f n.toInt) (g (.constant (.int n) k))) :
    Computes l (v >>= f) (m >>= g) := by
  cases v with
  | ok x =>
    obtain ⟨n, rfl, rfl⟩ := h
    exact hf n
  | error d =>
    obtain rfl := h
    rfl

theorem computes_binary (op : BinaryOp) (a b : Int32) (i j : Location) :
    Computes l (binaryValue op a.toInt b.toInt l)
      (Expr.checkedBinary op (.constant (.int a) i) (.constant (.int b) j) l) := by
  rw [binaryValue_toInt, checkedBinary_constant]
  cases op.evalInt? a b with
  | some n => exact .pure n
  | none => rfl

/-- Checking computes what an expression evaluates to. -/
theorem computes_check (s : Layout) (c : Checker) : ∀ (e : IntExpr) (l : Location),
    Computes (e.tree s l).location (e.eval s l) ((e.tree s l).check c)
  | literal n, l => by
    unfold tree
    split
    · rename_i hn
      refine ⟨n, rfl, ?_⟩
      change Except.ok (Expr.constant (.int (-Int32.ofNat n.toInt.natAbs)) l) = _
      rw [neg_ofNat_natAbs hn]
      rfl
    · rename_i hn
      rw [ofNat_natAbs hn]
      exact .pure n
  | unary op e, l => by
    refine (computes_check s c e _).bind fun n => ?_
    obtain ⟨r, hr, hvalue⟩ := unary_eval_int op n
    change Computes l (pure (unaryValue op n.toInt)) (pure (.constant (op.eval (.int n)) l))
    rw [hr, ← hvalue]
    exact .pure r
  | binary op a b, l => by
    refine (computes_check s c a _).bind fun x => ?_
    refine (computes_check s c b _).bind fun y => ?_
    exact computes_binary op x y _ _

/-! ### The declaration -/

/-- The checked declaration of the constant `x` with the value `n`. -/
def checkedDeclaration (n : Int32) (l : Location) : Decl ValueType :=
  ⟨"x", true, .int, [], some (.expr (.constant (.int n) l)), ⟨1, 11⟩,
    ⟨true, true, .int, [], some ⟨#[.int n], 0⟩⟩⟩

/-- The declaration has no extents, so its initializer is all that is checked. -/
theorem resolve_eq_ok {s : Layout} {e : IntExpr} {n : Int32}
    (h : (e.tree s (start s e)).check Checker.fresh = .ok (.constant (.int n) l)) :
    (declaration s e).resolve Checker.fresh = .ok (checkedDeclaration n l) := by
  change (Init.layOut Checker.fresh ⟨"x", true⟩ [] (some (.expr (e.tree s (start s e)))) >>= _) = _
  rw [Init.layOut, Init.checkLeaf, h]
  rfl

theorem resolve_eq_error {s : Layout} {e : IntExpr} {d : Diagnostic}
    (h : (e.tree s (start s e)).check Checker.fresh = .error d) :
    (declaration s e).resolve Checker.fresh = .error d := by
  change (Init.layOut Checker.fresh ⟨"x", true⟩ [] (some (.expr (e.tree s (start s e)))) >>= _) = _
  rw [Init.layOut, Init.checkLeaf, h]
  rfl

theorem checkFresh_eq_ok {d : Decl Unit} {d' : Decl ValueType}
    (h : d.resolve Checker.fresh = .ok d') :
    checkFresh [.global d] = .ok ⟨[.global d'], .builtins⟩ := by
  have hcheck : d.check Checker.fresh = .ok d' (Checker.fresh.declare d'.name d'.note) := by
    change (Checking.inspect d.resolve >>= _) Checker.fresh = _
    exact Checking.bind_eq_ok.mpr ⟨d', _, Checking.inspect_eq_ok.mpr ⟨h, rfl⟩, rfl⟩
  have hprogram : Program.check [.global d] Checker.fresh =
      .ok [.global d'] (Checker.fresh.declare d'.name d'.note) := by
    refine Checking.bind_eq_ok.mpr ⟨[.global d'], _, ?_, rfl⟩
    exact Checking.bind_eq_ok.mpr ⟨d', _, hcheck, rfl⟩
  rw [checkFresh, Checker.checkProgram, hprogram]
  rfl

theorem checkFresh_eq_error {d : Decl Unit} {p : Diagnostic}
    (h : d.resolve Checker.fresh = .error p) : checkFresh [.global d] = .error p := by
  have hbind {α β : Type} {f : Checking α} {g : α → Checking β} {c c' : Checker}
      (hf : f c = .error p c') : (f >>= g) c = .error p c' := by
    change EStateM.bind f g c = _
    rw [EStateM.bind, hf]
  have hinspect : Checking.inspect d.resolve Checker.fresh = .error p Checker.fresh := by
    rw [Checking.inspect, h]
  have hprogram : Program.check [.global d] Checker.fresh = .error p Checker.fresh :=
    hbind (hbind (hbind hinspect))
  rw [checkFresh, Checker.checkProgram, hprogram]

/-! ### Compiling -/

/-- **A constant has its exact value.** For every integer expression, compiling the declaration
of a constant with it succeeds if and only if the evaluation of the expression meets no division
by zero. The declared constant then has the value of the evaluation, and its initializer is the
literal of this value; else the first division by zero is reported, at its operator. -/
theorem compile_gives_exact_value (s : Layout) (e : IntExpr) :
    ((∃ r, compile (source s e) = .ok r) ↔ ∃ x, e.eval s (start s e) = .ok x) ∧
      (∀ x, e.eval s (start s e) = .ok x → ∃ (r : CheckedProgram) (d : Decl ValueType) (n : Int32)
        (l : Location), compile (source s e) = .ok r ∧ r.program = [.global d] ∧ d.name = "x" ∧
          n.toInt = x ∧ d.note.value? = some (.int n) ∧
          d.init = some (.expr (.constant (.int n) l))) ∧
      ∀ p l, e.eval s (start s e) = .error ⟨p, l⟩ →
        compile (source s e) = .error (.rejected ⟨p, l⟩) ∧
          (p = .divisionByZero ∧ ⟨.symbol .slash, l⟩ ∈ Token.ofSource (source s e) ∨
            p = .moduloByZero ∧ ⟨.symbol .percent, l⟩ ∈ Token.ofSource (source s e)) := by
  have hcompile : compile (source s e) =
      (checkFresh [.global (declaration s e)]).mapError .rejected := by
    rw [compile, program_ofSource]
    rfl
  have hcomputes := computes_check s Checker.fresh e (start s e)
  obtain ⟨ts, finish, htokens, -, -, hfails⟩ := ofSource_source s e
  cases heval : e.eval s (start s e) with
  | ok x =>
    rw [heval] at hcomputes
    obtain ⟨n, rfl, hcheck⟩ := hcomputes
    rw [checkFresh_eq_ok (resolve_eq_ok hcheck)] at hcompile
    refine ⟨iff_of_true ⟨_, hcompile⟩ ⟨_, rfl⟩, ?_, nofun⟩
    rintro _ ⟨⟩
    exact ⟨_, _, n, _, hcompile, rfl, rfl, rfl, rfl, rfl⟩
  | error d =>
    rw [heval] at hcomputes hfails
    rw [checkFresh_eq_error (resolve_eq_error hcomputes)] at hcompile
    refine ⟨iff_of_false ?_ nofun, nofun, ?_⟩
    · rintro ⟨r, hr⟩
      rw [hcompile] at hr
      cases hr
    · rintro p l ⟨⟩
      refine ⟨hcompile, ?_⟩
      rw [htokens]
      exact (hfails p l rfl).imp (And.imp_right (List.mem_append_left _))
        (And.imp_right (List.mem_append_left _))

/-- The least integer divided by minus one is the least integer. -/
theorem least_quotient_compiles :
    let s : Layout := ⟨[' '], true, by simp [Token.isBlank]⟩
    let e : IntExpr := .binary .div (.literal (-2147483648)) (.literal (-1))
    e.eval s (start s e) = .ok (-2147483648) ∧ ∃ (r : CheckedProgram) (d : Decl ValueType)
      (n : Int32), compile "const int x = (-2147483648 / -1);" = .ok r ∧ r.program = [.global d] ∧
        n.toInt = -2147483648 ∧ d.note.value? = some (.int n) := by
  intro s e
  have heval : e.eval s (start s e) = .ok (-2147483648) := rfl
  have hsource : source s e = "const int x = (-2147483648 / -1);" := by decide
  obtain ⟨r, d, n, l, hr, hprogram, -, hn, hvalue, -⟩ :=
    (compile_gives_exact_value s e).2.1 _ heval
  rw [hsource] at hr
  exact ⟨heval, r, d, n, hr, hprogram, hn, hvalue⟩

/-- Both operands of a conjunction are evaluated, so here the second division is reported. -/
example : eval ⟨[], false, nofun⟩
    (.binary .and (.literal 0) (.binary .mod (.literal 1) (.literal 0))) ⟨1, 15⟩ =
      .error ⟨.moduloByZero, ⟨1, 20⟩⟩ := by rfl

end IntExpr

end SysYFront
