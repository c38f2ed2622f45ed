import SysYFront.Program.Read
import SysYFront.Proofs.Grammar.Position
import SysYFront.Proofs.Grammar.Stmt

/-!
# SysYFront.Proofs.Grammar.Program

The grammar of functions and programs,

    program     ::=  (";" | declaration-list | function)*
    function    ::=  ("int" | "float" | "void") name "(" parameters ")" block
    parameters  ::=  "void" | (parameter ("," parameter)*)?
    parameter   ::=  ("int" | "float") name ("[" "]")? dimension*

and **the reader of programs accepts exactly the lists of tokens that derive a program**
(`program_read_iff`), with the one tree that they derive. A stray semicolon leaves nothing in
the tree.
-/

namespace SysYFront.Grammar

open Reading
open TokenStream (visible)

/-- The keyword of a return type. -/
inductive ReturnWord : Token.Kind → Base → Prop
  | scalar {kind : Token.Kind} {base : Base} : ScalarWord kind base → ReturnWord kind base
  | void : ReturnWord (.keyword .voidKw) .void

/-- The tokens of the brackets of a parameter: whether the first pair is empty, and the extents
in the others. -/
inductive Brackets : List Token → Bool → List (Expr Unit) → Prop
  | written {ts : List Token} {dims : List (Expr Unit)} : Repeated Dimension ts dims →
    Brackets ts false dims
  | decaying {ts : List Token} {dims : List (Expr Unit)} (l k : Location) :
    Repeated Dimension ts dims →
      Brackets (⟨.symbol .leftBracket, l⟩ :: ⟨.symbol .rightBracket, k⟩ :: ts) true dims

/-- The tokens of a parameter. -/
inductive Formal : List Token → Param Unit → Prop
  | mk {kind : Token.Kind} {base : Base} {ts : List Token} {isOpen : Bool}
    {dims : List (Expr Unit)} (s : String) (l k : Location) : ScalarWord kind base →
    Brackets ts isOpen dims →
      Formal (⟨kind, l⟩ :: ⟨.name s, k⟩ :: ts) ⟨s, base, dims, isOpen, l⟩

/-- The tokens of the parameters of a function. -/
inductive Formals : List Token → List (Param Unit) → Prop
  | none : Formals [] []
  | void (l : Location) : Formals [⟨.keyword .voidKw, l⟩] []
  | some {ts : List Token} {ps : List (Param Unit)} : Separated (.symbol .comma) Formal ts ps →
    Formals ts ps

/-- The tokens of a function definition. -/
inductive Definition : List Token → Function Unit → Prop
  | mk {kind : Token.Kind} {returns : Base} {ts us : List Token} {ps : List (Param Unit)}
    {body : Block Unit} (s : String) (l k m m' : Location) : ReturnWord kind returns →
    Formals ts ps → Braced us body →
      Definition
        (⟨kind, l⟩ :: ⟨.name s, k⟩ :: ⟨.symbol .leftParen, m⟩ :: ts ++
          ⟨.symbol .rightParen, m'⟩ :: us)
        ⟨s, returns, ps, body, l⟩

/-- The tokens of a unit of a program. -/
inductive ProgramUnit : List Token → Program Unit → Prop
  | stray (l : Location) : ProgramUnit [⟨.symbol .semicolon, l⟩] []
  | declarations {ts : List Token} {ds : List (Decl Unit)} : DeclarationList ts ds →
    ProgramUnit ts (ds.map .global)
  | function {ts : List Token} {f : Function Unit} : Definition ts f →
    ProgramUnit ts [.function f]

/-- The tokens of a program. -/
inductive DerivesProgram : List Token → Program Unit → Prop
  | mk {ts : List Token} {parts : List (Program Unit)} : Repeated ProgramUnit ts parts →
    DerivesProgram ts parts.flatten

variable {n : Nat} {tokens rest : List Token}

/-! ### Parameters -/

/-- What stands behind a parameter: a comma or the end of the parameters. -/
def EndsFormal (rest : List Token) : Prop :=
  ∃ t us, rest = t :: us ∧ (t.kind = .symbol .comma ∨ t.kind = .symbol .rightParen)

theorem EndsFormal.notNext (h : EndsFormal rest) {k : Token.Kind}
    (hcomma : k ≠ .symbol .comma) (hparen : k ≠ .symbol .rightParen) : NotNext k rest := by
  obtain ⟨t, us, rfl, ht | ht⟩ := h
  · rw [notNext_cons, ht]
    exact hcomma.symm
  · rw [notNext_cons, ht]
    exact hparen.symm

theorem readBrackets_sound {isOpen : Bool} {dims : List (Expr Unit)}
    (h : Param.readBrackets tokens = .ok (isOpen, dims) rest) :
    ∃ taken, tokens = taken ++ rest ∧ Brackets taken isOpen dims := by
  rw [Param.readBrackets, Reading.bind_eq_ok] at h
  obtain ⟨some, mid, hsome, h⟩ := h
  cases some with
  | false =>
    obtain ⟨-, rfl⟩ := accept_eq_false.mp hsome
    cases h
    exact ⟨[], rfl, .written .nil⟩
  | true =>
    obtain ⟨l, rfl⟩ := accept_eq_true.mp hsome
    rw [if_pos rfl, Reading.bind_eq_ok] at h
    obtain ⟨empty, mid, hempty, h⟩ := h
    cases empty with
    | true =>
      obtain ⟨k, rfl⟩ := accept_eq_true.mp hempty
      simp only [if_true, Reading.bind_eq_ok, Reading.pure_eq_ok, Prod.mk.injEq] at h
      obtain ⟨dims, _, hdims, ⟨rfl, rfl⟩, rfl⟩ := h
      obtain ⟨ts, rfl, hts⟩ := readDimensions_recognizes.sound (Nat.lt_succ_self _) hdims
      exact ⟨_, rfl, .decaying l k hts⟩
    | false =>
      obtain ⟨-, rfl⟩ := accept_eq_false.mp hempty
      simp only [Bool.false_eq_true, if_false, Reading.bind_eq_ok, expect_eq_ok, Reading.pure_eq_ok,
        read_eq_ok_iff, Prod.mk.injEq] at h
      obtain ⟨first, _, ⟨ts, rfl, hfirst, -⟩, k, mid, rfl, dims, _, hdims, ⟨rfl, rfl⟩, rfl⟩ := h
      obtain ⟨us, rfl, hus⟩ := readDimensions_recognizes.sound (Nat.lt_succ_self _) hdims
      exact ⟨_, by simp, .written (.cons (.mk l k hfirst) hus)⟩

theorem readBrackets_complete {taken : List Token} {isOpen : Bool} {dims : List (Expr Unit)}
    (h : Brackets taken isOpen dims) (hrest : NotNext (.symbol .leftBracket) rest) :
    Param.readBrackets (taken ++ rest) = .ok (isOpen, dims) rest := by
  have hdimensions {ts : List Token} {dims : List (Expr Unit)} (hts : Repeated Dimension ts dims) :
      Decl.readDimensions (ts ++ rest) = .ok dims rest :=
    readDimensions_recognizes.complete (Nat.lt_succ_self _) hts hrest
  rw [Param.readBrackets, Reading.bind_eq_ok]
  cases h with
  | @decaying ts dims l k hts =>
    refine ⟨true, _, accept_eq_true.mpr ⟨l, rfl⟩, ?_⟩
    rw [if_pos rfl, Reading.bind_eq_ok]
    refine ⟨true, _, accept_eq_true.mpr ⟨k, rfl⟩, ?_⟩
    simp only [if_true, Reading.bind_eq_ok, Reading.pure_eq_ok]
    exact ⟨dims, rest, hdimensions hts, rfl, rfl⟩
  | written hts =>
    cases hts with
    | nil => exact ⟨false, rest, accept_eq_false.mpr ⟨hrest, rfl⟩, rfl⟩
    | @cons _ us e dims he hus =>
      obtain @⟨ts, e, l, k, he⟩ := he
      refine ⟨true, _, accept_eq_true.mpr ⟨l, rfl⟩, ?_⟩
      rw [if_pos rfl, Reading.bind_eq_ok]
      have hassoc : ts ++ [⟨.symbol .rightBracket, k⟩] ++ us ++ rest =
          ts ++ ⟨.symbol .rightBracket, k⟩ :: (us ++ rest) := by simp
      refine ⟨false, ts ++ ⟨.symbol .rightBracket, k⟩ :: (us ++ rest),
        accept_eq_false.mpr ⟨?_, hassoc⟩, ?_⟩
      · obtain ⟨t, ts, rfl, ht⟩ := he.starts
        intro t' ht' hkind
        obtain rfl := Option.some.inj ht'
        rw [hkind] at ht
        cases ht
      · simp only [Bool.false_eq_true, if_false, Reading.bind_eq_ok, expect_eq_ok,
          Reading.pure_eq_ok, read_eq_ok_iff]
        have hfollows : Follows 0 (⟨.symbol .rightBracket, k⟩ :: (us ++ rest)) :=
          follows_symbol (by decide)
        exact ⟨e, _, ⟨ts, rfl, he, hfollows⟩, k, _, rfl, dims, rest, hdimensions hus, rfl, rfl⟩

theorem param_read_recognizes : Recognizes n Formal (fun _ rest => EndsFormal rest) Param.read where
  sound {tokens rest p} _ h := by
    simp only [Param.read, Reading.bind_eq_ok, readScalar_eq_ok, expectName_eq_ok,
      Reading.pure_eq_ok] at h
    obtain ⟨⟨base, l⟩, _, ⟨kind, hkind, rfl⟩, ⟨s, k⟩, mid, rfl, ⟨isOpen, dims⟩, mid', hbrackets,
      rfl, rfl⟩ := h
    obtain ⟨ts, rfl, hts⟩ := readBrackets_sound hbrackets
    exact ⟨_, rfl, .mk s l k hkind hts⟩
  complete {taken rest p} _ hD hrest := by
    simp only [Param.read, Reading.bind_eq_ok, readScalar_eq_ok, expectName_eq_ok,
      Reading.pure_eq_ok]
    obtain @⟨kind, base, ts, isOpen, dims, s, l, k, hkind, hts⟩ := hD
    have hbrackets := readBrackets_complete hts (hrest.notNext (by decide) (by decide))
    exact ⟨(base, l), _, ⟨kind, hkind, rfl⟩, (s, k), _, rfl, (isOpen, dims), _, hbrackets, rfl, rfl⟩

theorem readFormals_recognizes :
    Recognizes n (Separated (.symbol .comma) Formal)
      (fun _ rest => ∃ k us, rest = ⟨.symbol .rightParen, k⟩ :: us)
      (separated (.symbol .comma) Param.read) := by
  refine (param_read_recognizes.separated fun _ l us => ⟨_, us, rfl, .inl rfl⟩).before ?_
  rintro _ _ ⟨k, us, rfl⟩
  exact ⟨by simp, fun _ => ⟨_, us, rfl, .inr rfl⟩⟩

/-- No list of parameters starts as an empty one does. -/
theorem Separated.formal_starts {ts : List Token} {ps : List (Param Unit)}
    (h : Separated (.symbol .comma) Formal ts ps) :
    ∃ t us base, ts = t :: us ∧ ScalarWord t.kind base := by
  cases h with
  | one hp =>
    obtain ⟨s, l, k, hkind, _⟩ := hp
    exact ⟨_, _, _, rfl, hkind⟩
  | more _ hp _ =>
    obtain ⟨s, l, k, hkind, _⟩ := hp
    exact ⟨_, _, _, rfl, hkind⟩

theorem ScalarWord.ne_rightParen {kind : Token.Kind} {base : Base} (h : ScalarWord kind base) :
    kind ≠ .symbol .rightParen := by
  rintro rfl
  cases h

theorem ScalarWord.ne_void {kind : Token.Kind} {base : Base} (h : ScalarWord kind base) :
    kind ≠ .keyword .voidKw := by
  rintro rfl
  cases h

/-- What starts with neither a closing bracket nor `void` is read as a list of parameters. -/
theorem readAll_eq_separated {t : Token} (hparen : t.kind ≠ .symbol .rightParen)
    (hvoid : t.kind ≠ .keyword .voidKw) :
    Param.readAll (t :: tokens) = separated (.symbol .comma) Param.read (t :: tokens) := by
  unfold Param.readAll
  split
  · rename_i hkinds
    exact absurd (List.cons.inj hkinds).1 hparen
  · rename_i hkinds
    exact absurd (List.cons.inj hkinds).1 hvoid
  · rfl

theorem readAll_recognizes :
    Recognizes n Formals (fun _ rest => ∃ k us, rest = ⟨.symbol .rightParen, k⟩ :: us)
      Param.readAll where
  sound {tokens rest ps} hlength h := by
    unfold Param.readAll at h
    split at h
    · cases h
      exact ⟨[], rfl, .none⟩
    · rename_i hkinds
      cases h
      obtain ⟨t, ts, rfl⟩ : ∃ t ts, tokens = t :: ts := by
        cases tokens with
        | nil => cases hkinds
        | cons t ts => exact ⟨t, ts, rfl⟩
      obtain ⟨kind, l⟩ := t
      obtain rfl : kind = .keyword .voidKw := (List.cons.inj hkinds).1
      exact ⟨_, rfl, .void l⟩
    · obtain ⟨ts, htokens, hts⟩ := readFormals_recognizes.sound hlength h
      exact ⟨ts, htokens, .some hts⟩
  complete {taken rest ps} hlength hD hrest := by
    cases hD with
    | none =>
      obtain ⟨k, us, rfl⟩ := hrest
      rfl
    | void l =>
      obtain ⟨k, us, rfl⟩ := hrest
      rfl
    | some hts =>
      have hread := readFormals_recognizes.complete hlength hts hrest
      obtain ⟨t, us, base, rfl, ht⟩ := Separated.formal_starts hts
      rw [List.cons_append] at hread ⊢
      rwa [readAll_eq_separated ht.ne_rightParen ht.ne_void]

/-! ### Functions -/

theorem ofKind?_eq_some {kind : Token.Kind} {base : Base} :
    Base.ofKind? kind = some base ↔ ReturnWord kind base := by
  constructor
  · intro h
    unfold Base.ofKind? at h
    split at h
    · cases h
      exact .void
    · exact .scalar (ofScalarKind?_eq_some.mp h)
  · rintro (h | _)
    · cases h with
      | int => rfl
      | float => rfl
    · rfl

theorem function_read_recognizes : Recognizes n Definition (fun _ _ => True) Function.read where
  sound {tokens rest f} _ h := by
    simp only [Function.read, Reading.bind_eq_ok, next?_eq_ok] at h
    obtain ⟨_, _, ⟨rfl, rfl⟩, h⟩ := h
    cases tokens with
    | nil => cases h
    | cons t tokens =>
      obtain ⟨kind, l⟩ := t
      cases hkind : Base.ofKind? kind with
      | none =>
        simp only [List.head?_cons, hkind] at h
        cases h
      | some returns =>
        simp only [List.head?_cons, hkind, Reading.bind_eq_ok, advance_eq_ok, expectName_eq_ok,
          expect_eq_ok, Reading.pure_eq_ok] at h
        obtain ⟨_, _, rfl, ⟨s, k⟩, mid, htail, m, _, rfl, ps, mid', hps, m', _, rfl, body, _, hbody,
          rfl, rfl⟩ := h
        obtain ⟨ts, rfl, hts⟩ := readAll_recognizes.sound (Nat.lt_succ_self _) hps
        obtain ⟨us, rfl, hus⟩ := block_read_recognizes.sound (Nat.lt_succ_self _) hbody
        rw [List.tail_cons] at htail
        refine ⟨⟨kind, l⟩ :: ⟨.name s, k⟩ :: ⟨.symbol .leftParen, m⟩ :: ts ++
          ⟨.symbol .rightParen, m'⟩ :: us, by simp [htail], ?_⟩
        exact .mk s l k m m' (ofKind?_eq_some.mp hkind) hts hus
  complete {taken rest f} _ hD _ := by
    obtain @⟨kind, returns, ts, us, ps, body, s, l, k, m, m', hkind, hts, hus⟩ := hD
    have hassoc : (⟨kind, l⟩ :: ⟨.name s, k⟩ :: ⟨.symbol .leftParen, m⟩ :: ts ++
        ⟨.symbol .rightParen, m'⟩ :: us) ++ rest =
        ⟨kind, l⟩ :: ⟨.name s, k⟩ :: ⟨.symbol .leftParen, m⟩ ::
          (ts ++ ⟨.symbol .rightParen, m'⟩ :: (us ++ rest)) := by simp
    rw [hassoc]
    have hps : Param.readAll (ts ++ ⟨.symbol .rightParen, m'⟩ :: (us ++ rest)) = .ok ps _ :=
      readAll_recognizes.complete (Nat.lt_succ_self _) hts ⟨m', us ++ rest, rfl⟩
    have hbody : Block.read (us ++ rest) = .ok body rest :=
      block_read_recognizes.complete (Nat.lt_succ_self _) hus trivial
    simp only [Function.read, Reading.bind_eq_ok, next?_eq_ok]
    refine ⟨_, _, ⟨rfl, rfl⟩, ?_⟩
    simp only [List.head?_cons, ofKind?_eq_some.mpr hkind, Reading.bind_eq_ok, advance_eq_ok,
      expectName_eq_ok, expect_eq_ok, Reading.pure_eq_ok]
    exact ⟨(), _, rfl, (s, k), _, rfl, m, _, rfl, ps, _, hps, m', _, rfl, body, rest, hbody, rfl,
      rfl⟩

/-! ### Units -/

/-- The shape of the unit that starts with some tokens. -/
def shape (tokens : List Token) : UnitShape :=
  UnitShape.ofKinds ((tokens.take 3).map Token.kind)

theorem shape_eq_stray (h : shape tokens = .stray) :
    ∃ l us, tokens = ⟨.symbol .semicolon, l⟩ :: us := by
  cases tokens with
  | nil => cases h
  | cons t ts =>
    obtain ⟨kind, l⟩ := t
    refine ⟨l, ts, ?_⟩
    simp only [shape, List.take_succ_cons, List.map_cons] at h
    unfold UnitShape.ofKinds at h
    split at h
    · rename_i hkinds
      rw [(List.cons.inj hkinds).1]
    · cases h
    · cases h
    · split at h <;> cases h
    · split at h <;> cases h
    · cases h

theorem shape_function {kind : Token.Kind} {base : Base} {t : Token} {l m : Location}
    (h : ReturnWord kind base) :
    shape (⟨kind, l⟩ :: t :: ⟨.symbol .leftParen, m⟩ :: tokens) = .function := by
  cases h with
  | scalar h => cases h <;> rfl
  | void => rfl

/-- A list of declarations is told from a function by its third token. -/
theorem shape_variables {kind : Token.Kind} {base : Base} {t : Token} {l : Location}
    (h : ScalarWord kind base) (hnext : NotNext (.symbol .leftParen) tokens) :
    shape (⟨kind, l⟩ :: t :: tokens) = .declaration := by
  cases tokens with
  | nil => cases h <;> rfl
  | cons t' tokens =>
    rw [notNext_cons] at hnext
    cases h with
    | int => simp [shape, UnitShape.ofKinds, hnext]
    | float => simp [shape, UnitShape.ofKinds, hnext]

theorem Declarator.starts {isConst : Bool} {base : Base} {ts : List Token} {d : Decl Unit}
    (h : Declarator isConst base ts d) :
    ∃ t us, ts = t :: us ∧ NotNext (.symbol .leftParen) us := by
  have hdims {ts us : List Token} {dims : List (Expr Unit)} (hts : Repeated Dimension ts dims)
      (hus : NotNext (.symbol .leftParen) us) : NotNext (.symbol .leftParen) (ts ++ us) := by
    cases hts with
    | nil => exact hus
    | cons he _ =>
      obtain ⟨l, k, _⟩ := he
      simp
  cases h with
  | @plain ts dims s l hts =>
    refine ⟨_, ts, rfl, ?_⟩
    have hnext := hdims hts (notNext_nil _)
    rwa [List.append_nil] at hnext
  | initialized s l k hts _ => exact ⟨_, _, rfl, hdims hts (by simp)⟩

theorem DeclarationList.shape_eq {ts : List Token} {ds : List (Decl Unit)}
    (h : DeclarationList ts ds) : shape (ts ++ rest) = .declaration := by
  cases h with
  | const c l k _ _ => rfl
  | @plain kind base ts _ l k hkind hts =>
    have hsecond : ∃ t us, ts = t :: us ∧
        NotNext (.symbol .leftParen) (us ++ ⟨.symbol .semicolon, k⟩ :: rest) := by
      cases hts with
      | one hd =>
        obtain ⟨t, us, rfl, hus⟩ := hd.starts
        exact ⟨t, us, rfl, by cases us <;> simp_all⟩
      | more m hd _ =>
        obtain ⟨t, us, rfl, hus⟩ := hd.starts
        exact ⟨t, _, rfl, by cases us <;> simp_all⟩
    obtain ⟨t, us, rfl, hnext⟩ := hsecond
    simp only [List.cons_append, List.append_assoc, List.nil_append]
    exact shape_variables hkind hnext

/-- What is read from a unit of a shape. -/
def readShape : UnitShape → Reading (Program Unit)
  | .stray => do
    Reading.advance
    pure []
  | .declaration => do
    let decls ← Decl.readList
    pure (decls.map .global)
  | .function => do
    let f ← Function.read
    pure [.function f]
  | .other => throw .topLevel

theorem readSome_eq {s : UnitShape} (h : shape tokens = s) :
    TopLevel.readSome tokens = readShape s tokens :=
  h ▸ rfl

theorem unit_readSome_recognizes :
    Recognizes n ProgramUnit (fun _ _ => True) TopLevel.readSome where
  sound {tokens rest p} _ h := by
    cases hshape : shape tokens with
    | stray =>
      obtain ⟨l, us, rfl⟩ := shape_eq_stray hshape
      cases h
      exact ⟨_, rfl, .stray l⟩
    | declaration =>
      rw [readSome_eq hshape] at h
      simp only [readShape, Reading.bind_eq_ok, Reading.pure_eq_ok] at h
      obtain ⟨ds, _, hds, rfl, rfl⟩ := h
      obtain ⟨ts, htokens, hts⟩ := readList_recognizes.sound (Nat.lt_succ_self _) hds
      exact ⟨ts, htokens, .declarations hts⟩
    | function =>
      rw [readSome_eq hshape] at h
      simp only [readShape, Reading.bind_eq_ok, Reading.pure_eq_ok] at h
      obtain ⟨f, _, hf, rfl, rfl⟩ := h
      obtain ⟨ts, htokens, hts⟩ := function_read_recognizes.sound (Nat.lt_succ_self _) hf
      exact ⟨ts, htokens, .function hts⟩
    | other =>
      rw [readSome_eq hshape] at h
      cases h
  complete {taken rest p} _ hD _ := by
    cases hD with
    | stray l => rfl
    | @declarations _ ds hts =>
      rw [readSome_eq hts.shape_eq]
      simp only [readShape, Reading.bind_eq_ok, Reading.pure_eq_ok]
      exact ⟨ds, rest, readList_recognizes.complete (Nat.lt_succ_self _) hts trivial, rfl, rfl⟩
    | @function _ f hf =>
      have hread : Function.read (taken ++ rest) = .ok f rest :=
        function_read_recognizes.complete (Nat.lt_succ_self _) hf trivial
      have hshape : shape (taken ++ rest) = .function := by
        obtain ⟨s, l, k, m, m', hkind, _, _⟩ := hf
        exact shape_function hkind
      rw [readSome_eq hshape]
      simp only [readShape, Reading.bind_eq_ok, Reading.pure_eq_ok]
      exact ⟨f, rest, hread, rfl, rfl⟩

/-! ### Programs -/

theorem ProgramUnit.starts {ts : List Token} {p : Program Unit} (h : ProgramUnit ts p) :
    ∃ t us, ts = t :: us := by
  cases h with
  | stray l => exact ⟨_, _, rfl⟩
  | declarations hts =>
    obtain ⟨t, us, rfl, -⟩ := hts.starts
    exact ⟨t, us, rfl⟩
  | function hf =>
    obtain ⟨s, l, k, m, m', _, _, _⟩ := hf
    exact ⟨_, _, rfl⟩

theorem readUnits_recognizes :
    Recognizes n (Repeated ProgramUnit) (fun _ rest => rest = [])
      (many (fun _ => true) TopLevel.readSome) := by
  refine (unit_readSome_recognizes.many (Q := fun _ => True) ?_ fun _ _ _ => trivial).before ?_
  · intro ts p hD us _
    obtain ⟨t, ts, rfl⟩ := hD.starts
    exact ⟨trivial, t, ts, rfl, rfl⟩
  · rintro _ _ rfl
    exact ⟨trivial, nofun⟩

/-- The reader of programs goes on to the end of the tokens. -/
theorem program_read_eq_ok {p : Program Unit} :
    Program.read tokens = .ok p rest ↔ rest = [] ∧ DerivesProgram tokens p := by
  have hlength : tokens.length < tokens.length + 1 := Nat.lt_succ_self _
  simp only [Program.read, Reading.bind_eq_ok, Reading.pure_eq_ok]
  constructor
  · rintro ⟨parts, _, hparts, rfl, rfl⟩
    obtain ⟨taken, rfl, hts⟩ := readUnits_recognizes.sound hlength hparts
    have hne {ts : List Token} {p : Program Unit} (hD : ProgramUnit ts p) : ts ≠ [] := by
      obtain ⟨t, us, rfl⟩ := hD.starts
      exact List.cons_ne_nil _ _
    have hstops := unit_readSome_recognizes.manyWithin_stops hne (Nat.le_refl _) hlength hparts
    rename_i rest
    cases rest with
    | nil =>
      rw [List.append_nil]
      exact ⟨rfl, .mk hts⟩
    | cons t ts => exact absurd (hstops t rfl) Bool.noConfusion
  · rintro ⟨rfl, hp⟩
    obtain @⟨parts, hts⟩ := hp
    have hparts := readUnits_recognizes.complete (Nat.lt_succ_self _) hts rfl
    rw [List.append_nil] at hparts
    exact ⟨parts, [], hparts, rfl, rfl⟩

/-- The grammar is unambiguous: tokens derive at most one program. -/
theorem DerivesProgram.unique {p p' : Program Unit} (h : DerivesProgram tokens p)
    (h' : DerivesProgram tokens p') : p = p' := by
  have hread := program_read_eq_ok.mpr ⟨rfl, h⟩
  have hread' := program_read_eq_ok.mpr ⟨rfl, h'⟩
  cases hread.symm.trans hread'
  rfl

/-- Only a token that is no word of the language keeps tokens from being a stream. -/
theorem firstInvalid?_eq_none (h : ∀ t ∈ tokens, ∀ reason, t.kind ≠ .invalid reason) :
    TokenStream.firstInvalid? tokens = none := by
  rw [TokenStream.firstInvalid?, List.findSome?_eq_none_iff]
  intro t ht
  split
  · rename_i reason hkind
    exact absurd hkind (h t ht reason)
  · rfl

/-- **A program is read exactly from the tokens that derive it.** Where every token is a word
of the language, reading gives `p` if and only if the tokens before the first `endOfFile`
derive `p`; and they derive no other program. -/
theorem program_read_iff (h : ∀ t ∈ tokens, ∀ reason, t.kind ≠ .invalid reason)
    (p : Program Unit) :
    ((TokenStream.ofTokens tokens >>= fun stream => (stream.run Program.read).1) = .ok p ↔
      DerivesProgram (visible tokens 0) p) ∧
      ∀ p', DerivesProgram (visible tokens 0) p → DerivesProgram (visible tokens 0) p' →
        p = p' := by
  refine ⟨?_, fun p' => DerivesProgram.unique⟩
  obtain ⟨stream, hstream⟩ : ∃ stream, TokenStream.ofTokens tokens = .ok stream := by
    rw [TokenStream.ofTokens, firstInvalid?_eq_none h]
    exact ⟨_, rfl⟩
  rw [hstream, ← TokenStream.ofTokens_visible hstream]
  change (stream.run Program.read).1 = .ok p ↔ _
  rw [TokenStream.run]
  constructor
  · intro hread
    split at hread
    · rename_i p' rest hp
      cases hread
      exact (program_read_eq_ok.mp hp).2
    · cases hread
  · intro hp
    rw [program_read_eq_ok.mpr ⟨rfl, hp⟩]

/-- In `;void f(){if(a)if(b);else;}` the `else` belongs to the second `if`. -/
theorem nested_if_derives :
    let tokens : List Token := [⟨.symbol .semicolon, ⟨1, 1⟩⟩, ⟨.keyword .voidKw, ⟨1, 2⟩⟩,
      ⟨.name "f", ⟨1, 7⟩⟩, ⟨.symbol .leftParen, ⟨1, 8⟩⟩, ⟨.symbol .rightParen, ⟨1, 9⟩⟩,
      ⟨.symbol .leftBrace, ⟨1, 10⟩⟩, ⟨.keyword .ifKw, ⟨1, 11⟩⟩, ⟨.symbol .leftParen, ⟨1, 13⟩⟩,
      ⟨.name "a", ⟨1, 14⟩⟩, ⟨.symbol .rightParen, ⟨1, 15⟩⟩, ⟨.keyword .ifKw, ⟨1, 16⟩⟩,
      ⟨.symbol .leftParen, ⟨1, 18⟩⟩, ⟨.name "b", ⟨1, 19⟩⟩, ⟨.symbol .rightParen, ⟨1, 20⟩⟩,
      ⟨.symbol .semicolon, ⟨1, 21⟩⟩, ⟨.keyword .elseKw, ⟨1, 22⟩⟩, ⟨.symbol .semicolon, ⟨1, 26⟩⟩,
      ⟨.symbol .rightBrace, ⟨1, 27⟩⟩, ⟨.endOfFile, ⟨1, 28⟩⟩]
    let inner : Stmt Unit :=
      .ifElse (.var "b" ⟨1, 19⟩ ()) (.empty ⟨1, 21⟩) (.empty ⟨1, 26⟩) ⟨1, 16⟩
    (∀ t ∈ tokens, ∀ reason, t.kind ≠ .invalid reason) ∧
      DerivesProgram (visible tokens 0)
        [.function ⟨"f", .void, [], ⟨[.stmt (.ifThen (.var "a" ⟨1, 14⟩ ()) inner ⟨1, 11⟩)],
          ⟨1, 10⟩⟩, ⟨1, 2⟩⟩] := by
  intro tokens inner
  have hwords : ∀ t ∈ tokens, ∀ reason, t.kind ≠ .invalid reason := by
    simp [tokens]
  exact ⟨hwords, (program_read_iff hwords _).1.mp rfl⟩

end SysYFront.Grammar
