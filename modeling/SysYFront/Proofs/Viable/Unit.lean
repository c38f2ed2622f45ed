import SysYFront.Proofs.Grammar.Program
import SysYFront.Proofs.Viable.Stmt

/-!
# SysYFront.Proofs.Viable.Unit

Readers of functions and of units of a program are settled, except for one place: of `void`
behind the opening bracket of a function's parameters they see only with the next token
whether it stands for no parameters (`VoidParameter`).

A unit that starts with `int` or `float` is told by its third token. Where the second is a name
both readers take two tokens before they differ (`unit_readSome_settled`), and where it is not
both of them stop at it.
-/

namespace SysYFront.Grammar

open Reading

variable {ι : Type} {bound : ι → Nat} {tokens : List Token}

/-! ### Parameters -/

theorem readBrackets_settled (tokens : List Token) :
    Settled bound (fun us r => Brackets us r.1 r.2) (fun _ => Param.readBrackets) tokens := by
  refine .acceptIf (fun l ts _ => .acceptIf (fun k ts' _ => ?_) fun _ => ?_) fun _ => .pure ?_
  · exact (readDimensions_settled ts').map fun us dims hus => .decaying l k hus
  · refine (read_settled ts).bind fun us e rest he _ => .expect fun k ts' _ => ?_
    refine (readDimensions_settled ts').map fun vs dims hvs => ?_
    have hwhole := Brackets.written (.cons (.mk l k he) hvs)
    rwa [List.append_assoc] at hwhole
  · exact .written .nil

theorem param_read_settled (tokens : List Token) :
    Settled bound Formal (fun _ => Param.read) tokens := by
  refine readScalar_settled.bind ?_
  rintro _ ⟨base, l⟩ rest ⟨kind, hkind, rfl⟩ -
  exact .expectName fun s k ts _ => (readBrackets_settled ts).map fun us r hus =>
    .mk s l k hkind hus

/-- The parameters are settled unless `void` comes first and not the closing bracket behind it. -/
theorem readAll_settled (h : ∀ l ts, tokens = ⟨.keyword .voidKw, l⟩ :: ts →
    ¬ NotNext (.symbol .rightParen) ts) :
    Settled bound Formals (fun _ => Param.readAll) tokens := by
  have hformals : Settled bound Formals (fun _ => separated (.symbol .comma) Param.read) tokens :=
    (Settled.separated fun ts _ => param_read_settled ts).imp fun _ _ => .some
  cases tokens with
  | nil => exact hformals.congr_nil fun _ => rfl
  | cons t ts =>
    obtain ⟨kind, l⟩ := t
    by_cases hparen : kind = .symbol .rightParen
    · subst hparen
      have hnone : Settled bound Formals (fun _ => pure []) (⟨.symbol .rightParen, l⟩ :: ts) :=
        .pure .none
      exact hnone.congr_cons fun _ _ => rfl
    · by_cases hvoid : kind = .keyword .voidKw
      · subst hvoid
        rcases notNext_or (.symbol .rightParen) ts with hnext | ⟨k, ts, rfl⟩
        · exact absurd hnext (h l ts rfl)
        · refine ⟨[⟨.keyword .voidKw, l⟩], _, .ok [], rfl, .void l, fun i us hhead _ => ?_⟩
          obtain ⟨us, rfl⟩ := List.head?_eq_some_iff.mp hhead
          rfl
      · exact hformals.congr_cons fun i us => readAll_eq_separated hparen hvoid

/-! ### Functions -/

/-- Whether a function starts whose first parameter starts with `void`, but does not end there. -/
def VoidParameter (tokens : List Token) : Prop :=
  ∃ kind base s l k m v rest, ReturnWord kind base ∧
    tokens = ⟨kind, l⟩ :: ⟨.name s, k⟩ :: ⟨.symbol .leftParen, m⟩ :: ⟨.keyword .voidKw, v⟩ :: rest ∧
      NotNext (.symbol .rightParen) rest

/-- What is read of a function behind the word of its return type. -/
def readSignature (returns : Base) (location : Location) : Reading (Function Unit) := do
  let (name, _) ← Reading.expectName
  let _ ← Reading.expect (.symbol .leftParen) .openingParameters
  let params ← Param.readAll
  let _ ← Reading.expect (.symbol .rightParen) .closingParameters
  let body ← Block.read
  pure { name, returns, params, body, location }

theorem function_read_word {kind : Token.Kind} {returns : Base} {l : Location}
    (h : ReturnWord kind returns) :
    Function.read (⟨kind, l⟩ :: tokens) = readSignature returns l tokens := by
  simp only [Function.read, bind, EStateM.bind, next?, List.head?_cons, ofKind?_eq_some.mpr h]
  rfl

/-- The shortest function with some parameters. -/
theorem definition_nothing {kind : Token.Kind} {returns : Base} {ps : List Token}
    {qs : List (Param Unit)} (h : ReturnWord kind returns) (s : String) (l k m : Location)
    (hps : Formals ps qs) :
    Definition (⟨kind, l⟩ :: ⟨.name s, k⟩ :: ⟨.symbol .leftParen, m⟩ :: ps ++
        [⟨.symbol .rightParen, .start⟩, ⟨.symbol .leftBrace, .start⟩,
          ⟨.symbol .rightBrace, .start⟩])
      ⟨s, returns, qs, ⟨[], .start⟩, l⟩ :=
  .mk s l k m .start h hps (.mk .start .start .nil)

theorem readSignature_settled {kind : Token.Kind} {returns : Base} {l : Location}
    (h : ReturnWord kind returns) (hvoid : ¬ VoidParameter (⟨kind, l⟩ :: tokens)) :
    Settled bound (fun us => Definition (⟨kind, l⟩ :: us)) (fun _ => readSignature returns l)
      tokens := by
  refine .expectNameRun ⟨_, _, ?_, definition_nothing h "" l .start .start .none⟩
    fun s k ts hts => ?_
  · simp [isWord]
  refine .expectRun ⟨_, _, ?_, definition_nothing h s l k .start .none⟩ fun m ts' hts' => ?_
  · simp [isWord]
  have hparams : Settled bound Formals (fun _ => Param.readAll) ts' := by
    refine readAll_settled fun v rest hrest hnext => hvoid ?_
    exact ⟨kind, returns, s, l, k, m, v, rest, h, by rw [hts, hts', hrest], hnext⟩
  exact hparams.bind fun us ps rest hus _ => .expect fun m' ts _ =>
    (block_read_settled ts).map fun vs body hvs => .mk s l k m m' h hus hvs

theorem function_read_settled (hvoid : ¬ VoidParameter tokens) :
    Settled bound Definition (fun _ => Function.read) tokens := by
  have hsome : Completes Definition [] :=
    ⟨_, _, by simp [isWord], definition_nothing .void "" .start .start .start .none⟩
  cases tokens with
  | nil => exact .stop_nil .topLevel hsome fun _ => rfl
  | cons t ts =>
    obtain ⟨kind, l⟩ := t
    cases hkind : Base.ofKind? kind with
    | none =>
      refine .stop_cons .topLevel hsome fun i us => ?_
      simp only [Function.read, bind, EStateM.bind, next?, List.head?_cons, hkind]
      rfl
    | some returns =>
      have hword := ofKind?_eq_some.mp hkind
      exact (readSignature_settled hword hvoid).take fun i us => function_read_word hword

/-! ### Units -/

/-- Whether the word `int` or `float` comes first. -/
def StartsScalar (tokens : List Token) : Prop :=
  ∃ kind base l ts, ScalarWord kind base ∧ tokens = ⟨kind, l⟩ :: ts

/-- By any other word the shape of a unit is decided. -/
theorem shape_congr {us : List Token} (h : us.head? = tokens.head?)
    (hword : ¬ StartsScalar tokens) : shape us = shape tokens := by
  cases tokens with
  | nil =>
    obtain rfl := List.head?_eq_none_iff.mp h
    rfl
  | cons t ts =>
    obtain ⟨us, rfl⟩ := List.head?_eq_some_iff.mp h
    obtain ⟨kind, l⟩ := t
    cases kind with
    | keyword word =>
      cases word with
      | intKw => exact absurd ⟨_, _, l, ts, .int, rfl⟩ hword
      | floatKw => exact absurd ⟨_, _, l, ts, .float, rfl⟩ hword
      | _ => rfl
    | symbol s => cases s <;> rfl
    | _ => rfl

theorem readShape_settled (hvoid : ¬ VoidParameter tokens) :
    Settled bound ProgramUnit (fun _ => readShape (shape tokens)) tokens := by
  cases hshape : shape tokens with
  | stray =>
    obtain ⟨l, ts, rfl⟩ := shape_eq_stray hshape
    have hnothing : Settled bound (fun us => ProgramUnit (⟨.symbol .semicolon, l⟩ :: us))
        (fun _ => pure []) ts := .pure (.stray l)
    exact hnothing.take fun _ _ => rfl
  | declaration => exact (readList_settled tokens).map fun us ds hus => .declarations hus
  | function => exact (function_read_settled hvoid).map fun us f hus => .function hus
  | other =>
    exact .throw ⟨[⟨.symbol .semicolon, .start⟩], _, by simp [isWord], .stray .start⟩

section Scalar

variable {kind : Token.Kind} {base : Base} {l : Location}

/-- The shortest list of declarations. -/
theorem declarations_nothing (h : ScalarWord kind base) (s : String) (l k : Location) :
    DeclarationList [⟨kind, l⟩, ⟨.name s, k⟩, ⟨.symbol .semicolon, .start⟩]
      [⟨s, false, base, [], none, k, ()⟩] :=
  .plain l .start h (.one (.plain s k .nil))

/-- Whether no name comes first. -/
def NoName (tokens : List Token) : Prop :=
  ∀ t ∈ tokens.head?, ∀ s, t.kind ≠ .name s

theorem NoName.expectName_eq (h : NoName tokens) : expectName tokens = .error .name tokens := by
  unfold expectName
  split
  · exact absurd rfl (h _ rfl _)
  · rfl

theorem NoName.readList_eq (h : NoName tokens) (hkind : ScalarWord kind base) :
    Decl.readList (⟨kind, l⟩ :: tokens) = .error .name tokens := by
  have haccept : accept (.keyword .constKw) (⟨kind, l⟩ :: tokens) = .ok false _ :=
    accept_eq_false.mpr ⟨by cases hkind <;> simp, rfl⟩
  have hscalar : Base.readScalar .baseAfterConst (⟨kind, l⟩ :: tokens) = .ok (base, l) tokens :=
    readScalar_eq_ok.mpr ⟨kind, hkind, rfl⟩
  simp only [Decl.readList, separated, Settled.separatedWithin_eq, Decl.readDeclarator, bind,
    EStateM.bind, haccept, hscalar, h.expectName_eq]

theorem shape_scalar (hkind : ScalarWord kind base) (l : Location) (tokens : List Token) :
    shape (⟨kind, l⟩ :: tokens) = .function ∨ shape (⟨kind, l⟩ :: tokens) = .declaration := by
  cases tokens with
  | nil => cases hkind <;> exact .inr rfl
  | cons t ts =>
    obtain hnext | ⟨m, ts, rfl⟩ := notNext_or (.symbol .leftParen) ts
    · exact .inr (shape_variables hkind hnext)
    · exact .inl (shape_function (.scalar hkind))

/-- Whatever the third token is, both a function and a declaration want a name behind the first. -/
theorem NoName.readSome_eq (h : NoName tokens) (hkind : ScalarWord kind base) :
    TopLevel.readSome (⟨kind, l⟩ :: tokens) = .error .name tokens := by
  obtain hshape | hshape := shape_scalar hkind l tokens
  · rw [Grammar.readSome_eq hshape]
    simp only [readShape, bind, EStateM.bind, function_read_word (.scalar hkind), readSignature,
      h.expectName_eq]
  · rw [Grammar.readSome_eq hshape]
    simp only [readShape, bind, EStateM.bind, h.readList_eq hkind]

/-- Behind `int` or `float` and a name, both a function and a declaration go on. -/
theorem exists_unit (hkind : ScalarWord kind base) (s : String) (l k : Location)
    (tokens : List Token) :
    ∃ us p, ProgramUnit (⟨kind, l⟩ :: ⟨.name s, k⟩ :: us) p ∧
      shape (⟨kind, l⟩ :: ⟨.name s, k⟩ :: us) = shape (⟨kind, l⟩ :: ⟨.name s, k⟩ :: tokens) := by
  obtain hshape | hshape := shape_scalar hkind l (⟨.name s, k⟩ :: tokens)
  · refine ⟨_, _, .function (definition_nothing (.scalar hkind) s l k .start .none), ?_⟩
    rw [hshape]
    exact shape_function (.scalar hkind)
  · refine ⟨_, _, .declarations (declarations_nothing hkind s l k), ?_⟩
    rw [hshape, shape_variables hkind (by simp)]

end Scalar

/-- Readers of units are settled. -/
theorem unit_readSome_settled (hvoid : ¬ VoidParameter tokens) :
    Settled id ProgramUnit (fun _ : Nat => TopLevel.readSome) tokens := by
  have hread : Settled id ProgramUnit (fun _ : Nat => readShape (shape tokens)) tokens :=
    readShape_settled hvoid
  by_cases hword : StartsScalar tokens
  · obtain ⟨kind, base, l, ts, hkind, rfl⟩ := hword
    have hnoname (hts : NoName ts) : Settled id ProgramUnit (fun _ : Nat => TopLevel.readSome)
        (⟨kind, l⟩ :: ts) := by
      refine ⟨[⟨kind, l⟩], ts, .error .name, rfl, ?_, fun _ rest' hrest _ => ?_⟩
      · exact ⟨_, _, by simp [isWord], .declarations (declarations_nothing hkind "" l .start)⟩
      · have hrest' : NoName rest' := by rwa [NoName, hrest]
        exact hrest'.readSome_eq hkind
    cases ts with
    | nil => exact hnoname (by simp [NoName])
    | cons t ts =>
      obtain ⟨second, k⟩ := t
      cases second with
      | name s =>
        -- some unit of the same shape goes on behind the name, so both readers take it
        obtain ⟨us, p, hp, hshape⟩ := exists_unit hkind s l k ts
        have hfull : TopLevel.readSome (⟨kind, l⟩ :: ⟨.name s, k⟩ :: us ++ []) = .ok p [] :=
          unit_readSome_recognizes.complete (Nat.lt_succ_self _) hp trivial
        rw [List.append_nil, readSome_eq hshape] at hfull
        have hsame : (⟨kind, l⟩ :: ⟨.name s, k⟩ :: us).take 2 =
            (⟨kind, l⟩ :: ⟨.name s, k⟩ :: ts).take 2 := rfl
        refine hread.ahead 2 hsame (by simp) (Nat.lt_succ_self _) hfull fun i us hus hlength => ?_
        exact ⟨i, hlength, readSome_eq (by rw [shape, shape, hus])⟩
      | _ => exact hnoname (by simp [NoName])
  · exact hread.congr fun i us hhead => readSome_eq (shape_congr hhead hword)

end SysYFront.Grammar
