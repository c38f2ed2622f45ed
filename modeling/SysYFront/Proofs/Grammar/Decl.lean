import SysYFront.Decl.Read
import SysYFront.Proofs.Grammar.Climbing

/-!
# SysYFront.Proofs.Grammar.Decl

The grammar of declarations,

    list         ::=  "const"? ("int" | "float") declarator ("," declarator)* ";"
    declarator   ::=  name dimension* ("=" initializer)?
    dimension    ::=  "[" expr "]"
    initializer  ::=  expr | string | "{" (initializer ("," initializer)* ","?)? "}"

and that the readers recognize it. A string stands for the list of the numbers of its
characters. A list declares one variable for each of its declarators, in their order.
-/

namespace SysYFront.Grammar

open Reading

/-- The keyword of a scalar type. -/
inductive ScalarWord : Token.Kind → Base → Prop
  | int : ScalarWord (.keyword .intKw) .int
  | float : ScalarWord (.keyword .floatKw) .float

/-- The tokens of an initializer. -/
inductive Initializer : List Token → Init Unit → Prop
  | expr {ts : List Token} {e : Expr Unit} : Derives .assignment ts e → Initializer ts (.expr e)
  | string (s : String) (l : Location) :
    Initializer [⟨.stringLiteral s, l⟩]
      (.list (s.toList.map fun c => .expr (.literal (.int (Int32.ofNat c.toNat)) l ())) l)
  | list {ts : List Token} {items : List (Init Unit)} (l k : Location) :
    Listed (.symbol .comma) Initializer ts items →
      Initializer (⟨.symbol .leftBrace, l⟩ :: ts ++ [⟨.symbol .rightBrace, k⟩]) (.list items l)

/-- The tokens of an extent with its brackets. -/
inductive Dimension : List Token → Expr Unit → Prop
  | mk {ts : List Token} {e : Expr Unit} (l k : Location) : Derives .assignment ts e →
    Dimension (⟨.symbol .leftBracket, l⟩ :: ts ++ [⟨.symbol .rightBracket, k⟩]) e

/-- The tokens of one variable of a declaration list. -/
inductive Declarator (isConst : Bool) (base : Base) : List Token → Decl Unit → Prop
  | plain {ts : List Token} {dims : List (Expr Unit)} (s : String) (l : Location) :
    Repeated Dimension ts dims →
      Declarator isConst base (⟨.name s, l⟩ :: ts) ⟨s, isConst, base, dims, none, l, ()⟩
  | initialized {ts us : List Token} {dims : List (Expr Unit)} {i : Init Unit} (s : String)
    (l k : Location) : Repeated Dimension ts dims → Initializer us i →
      Declarator isConst base (⟨.name s, l⟩ :: ts ++ ⟨.symbol .equal, k⟩ :: us)
        ⟨s, isConst, base, dims, some i, l, ()⟩

/-- The tokens of a declaration list. -/
inductive DeclarationList : List Token → List (Decl Unit) → Prop
  | plain {kind : Token.Kind} {base : Base} {ts : List Token} {ds : List (Decl Unit)}
    (l k : Location) : ScalarWord kind base →
      Separated (.symbol .comma) (Declarator false base) ts ds →
      DeclarationList (⟨kind, l⟩ :: ts ++ [⟨.symbol .semicolon, k⟩]) ds
  | const {kind : Token.Kind} {base : Base} {ts : List Token} {ds : List (Decl Unit)}
    (c l k : Location) : ScalarWord kind base →
      Separated (.symbol .comma) (Declarator true base) ts ds →
      DeclarationList
        (⟨.keyword .constKw, c⟩ :: ⟨kind, l⟩ :: ts ++ [⟨.symbol .semicolon, k⟩]) ds

variable {n : Nat} {tokens rest : List Token}

/-! ### Scalar types -/

theorem ofScalarKind?_eq_some {kind : Token.Kind} {base : Base} :
    Base.ofScalarKind? kind = some base ↔ ScalarWord kind base := by
  constructor
  · intro h
    unfold Base.ofScalarKind? at h
    split at h
    · cases h
      exact .int
    · cases h
      exact .float
    · cases h
  · rintro (_ | _)
    · rfl
    · rfl

theorem readScalar_eq_ok {wanted : Expectation} {r : Base × Location} :
    Base.readScalar wanted tokens = .ok r rest ↔
      ∃ kind, ScalarWord kind r.1 ∧ tokens = ⟨kind, r.2⟩ :: rest := by
  obtain ⟨base, l⟩ := r
  simp only [Base.readScalar, Reading.bind_eq_ok, next?_eq_ok]
  constructor
  · rintro ⟨_, _, ⟨rfl, rfl⟩, h⟩
    cases tokens with
    | nil => cases h
    | cons t ts =>
      obtain ⟨kind, k⟩ := t
      cases hbase : Base.ofScalarKind? kind with
      | none =>
        simp only [List.head?_cons, hbase] at h
        cases h
      | some base' =>
        simp only [List.head?_cons, hbase, Reading.bind_eq_ok, advance_eq_ok, Reading.pure_eq_ok,
          Prod.mk.injEq] at h
        obtain ⟨_, _, rfl, ⟨rfl, rfl⟩, rfl⟩ := h
        exact ⟨kind, ofScalarKind?_eq_some.mp hbase, rfl⟩
  · rintro ⟨kind, hkind, rfl⟩
    refine ⟨_, _, ⟨rfl, rfl⟩, ?_⟩
    rw [← ofScalarKind?_eq_some] at hkind
    simp only [List.head?_cons, hkind, Reading.bind_eq_ok, advance_eq_ok, Reading.pure_eq_ok]
    exact ⟨(), rest, rfl, trivial, rfl⟩

/-! ### Initializers -/

/-- No initializer starts with a closing brace. -/
theorem Initializer.starts {ts : List Token} {i : Init Unit} (h : Initializer ts i) :
    ∃ t us, ts = t :: us ∧ t.kind ≠ .symbol .rightBrace := by
  cases h with
  | expr he =>
    obtain ⟨t, us, rfl, ht⟩ := he.starts
    exact ⟨t, us, rfl, fun hkind => by rw [hkind] at ht; cases ht⟩
  | string s l => exact ⟨_, _, rfl, nofun⟩
  | list l k _ => exact ⟨_, _, rfl, nofun⟩

section Items

variable {self : Reading (Init Unit)} {items : List (Init Unit)}

theorem readItems_close {fuel : Nat} {k : Location} :
    Init.readItems self fuel (⟨.symbol .rightBrace, k⟩ :: tokens) =
      .ok [] (⟨.symbol .rightBrace, k⟩ :: tokens) := by
  cases fuel <;> rfl

/-- What the loop over items does where the list is not closed. -/
def readMore (self : Reading (Init Unit)) (fuel : Nat) : Reading (List (Init Unit)) := do
  let item ← self
  if ← accept (.symbol .comma) then
    let items ← Init.readItems self fuel
    pure (item :: items)
  else pure [item]

theorem readItems_item {fuel : Nat} {t : Token} (ht : t.kind ≠ .symbol .rightBrace) :
    Init.readItems self (fuel + 1) (t :: tokens) = readMore self fuel (t :: tokens) := by
  obtain ⟨kind, l⟩ := t
  cases kind with
  | symbol s =>
    cases s with
    | rightBrace => exact absurd rfl ht
    | _ => rfl
  | _ => rfl

theorem readItems_sound (h : Recognizes n Initializer (fun _ rest => Follows 0 rest) self)
    (fuel : Nat) (hlength : tokens.length < n)
    (hread : Init.readItems self fuel tokens = .ok items rest) :
    ∃ taken, tokens = taken ++ rest ∧ Listed (.symbol .comma) Initializer taken items := by
  induction fuel generalizing tokens items with
  | zero =>
    obtain ⟨rfl, rfl⟩ := Reading.pure_eq_ok.mp hread
    exact ⟨[], rfl, .nothing⟩
  | succ fuel ih =>
    have hmore (hread : readMore self fuel tokens = .ok items rest) :
        ∃ taken, tokens = taken ++ rest ∧ Listed (.symbol .comma) Initializer taken items := by
      simp only [readMore, Reading.bind_eq_ok] at hread
      obtain ⟨item, mid, hitem, more, mid', hmore, hread⟩ := hread
      obtain ⟨ts, htokens, hts⟩ := h.sound hlength hitem
      cases more with
      | false =>
        obtain ⟨-, rfl⟩ := accept_eq_false.mp hmore
        obtain ⟨rfl, rfl⟩ := Reading.pure_eq_ok.mp hread
        exact ⟨ts, htokens, .plain (.one hts)⟩
      | true =>
        obtain ⟨l, rfl⟩ := accept_eq_true.mp hmore
        simp only [if_true, Reading.bind_eq_ok, Reading.pure_eq_ok] at hread
        obtain ⟨items', mid, hitems, rfl, rfl⟩ := hread
        rw [htokens, List.length_append, List.length_cons] at hlength
        obtain ⟨us, rfl, hus⟩ := ih (by omega) hitems
        exact ⟨ts ++ ⟨.symbol .comma, l⟩ :: us, by simp [htokens], .more l hts hus⟩
    cases tokens with
    | nil => exact hmore hread
    | cons t ts =>
      by_cases ht : t.kind = .symbol .rightBrace
      · obtain ⟨kind, k⟩ := t
        obtain rfl := ht
        rw [readItems_close] at hread
        cases hread
        exact ⟨[], rfl, .nothing⟩
      · rw [readItems_item ht] at hread
        exact hmore hread

/-- Behind the items there may be a comma and must be the closing brace. -/
theorem readItems_separated (h : Recognizes n Initializer (fun _ rest => Follows 0 rest) self)
    {ts us : List Token} {k : Location}
    (hts : Separated (.symbol .comma) Initializer ts items)
    (hus : us = [] ∨ ∃ l, us = [⟨.symbol .comma, l⟩]) {fuel : Nat}
    (hfuel : ts.length ≤ fuel)
    (hlength : (ts ++ us ++ ⟨.symbol .rightBrace, k⟩ :: rest).length < n) :
    Init.readItems self fuel (ts ++ us ++ ⟨.symbol .rightBrace, k⟩ :: rest) =
      .ok items (⟨.symbol .rightBrace, k⟩ :: rest) := by
  induction hts generalizing fuel with
  | @one ts item hitem =>
    obtain ⟨t, ts', rfl, ht⟩ := hitem.starts
    obtain ⟨fuel, rfl⟩ : ∃ m, fuel = m + 1 := ⟨fuel - 1, by rw [List.length_cons] at hfuel; omega⟩
    rw [List.append_assoc] at hlength ⊢
    rw [List.cons_append, readItems_item ht, ← List.cons_append]
    simp only [readMore, Reading.bind_eq_ok]
    rcases hus with rfl | ⟨l, rfl⟩
    · refine ⟨item, _, h.complete hlength hitem (follows_symbol (by decide)), false, _,
        accept_eq_false.mpr ⟨?_, rfl⟩, Reading.pure_eq_ok.mpr ⟨rfl, rfl⟩⟩
      simp
    · refine ⟨item, _, h.complete hlength hitem (follows_symbol (by decide)), true, _,
        accept_eq_true.mpr ⟨l, rfl⟩, ?_⟩
      simp only [if_true, Reading.bind_eq_ok, Reading.pure_eq_ok]
      exact ⟨[], _, readItems_close, rfl, rfl⟩
  | @more ts ts'' item items l hitem _ ih =>
    obtain ⟨t, ts', rfl, ht⟩ := hitem.starts
    rw [List.length_append, List.length_cons, List.length_cons] at hfuel
    obtain ⟨fuel, rfl⟩ : ∃ m, fuel = m + 1 := ⟨fuel - 1, by omega⟩
    have hassoc :
        (t :: ts' ++ ⟨.symbol .comma, l⟩ :: ts'') ++ us ++ ⟨.symbol .rightBrace, k⟩ :: rest =
          t :: ts' ++ ⟨.symbol .comma, l⟩ :: (ts'' ++ us ++ ⟨.symbol .rightBrace, k⟩ :: rest) := by
      simp
    rw [hassoc] at hlength ⊢
    have hshort : (ts'' ++ us ++ ⟨.symbol .rightBrace, k⟩ :: rest).length < n := by
      rw [List.length_append, List.length_cons, List.length_cons] at hlength
      omega
    rw [List.cons_append, readItems_item ht, ← List.cons_append]
    simp only [readMore, Reading.bind_eq_ok]
    refine ⟨item, _, h.complete hlength hitem (follows_symbol (by decide)), true, _,
      accept_eq_true.mpr ⟨l, rfl⟩, ?_⟩
    simp only [if_true, Reading.bind_eq_ok, Reading.pure_eq_ok]
    exact ⟨items, _, ih (by omega) hshort, rfl, rfl⟩

theorem readItems_complete (h : Recognizes n Initializer (fun _ rest => Follows 0 rest) self)
    {ts : List Token} {k : Location} (hts : Listed (.symbol .comma) Initializer ts items)
    {fuel : Nat} (hfuel : ts.length ≤ fuel)
    (hlength : (ts ++ ⟨.symbol .rightBrace, k⟩ :: rest).length < n) :
    Init.readItems self fuel (ts ++ ⟨.symbol .rightBrace, k⟩ :: rest) =
      .ok items (⟨.symbol .rightBrace, k⟩ :: rest) := by
  cases hts with
  | nothing => exact readItems_close
  | plain hts =>
    rw [← List.append_nil ts] at hlength ⊢
    exact readItems_separated h hts (.inl rfl) hfuel hlength
  | trailing l hts =>
    rw [List.length_append] at hfuel
    exact readItems_separated h hts (.inr ⟨l, rfl⟩) (by omega) hlength

end Items

section ReadWithin

variable {depth : Nat} {l : Location}

theorem init_readWithin_brace :
    Init.readWithin (depth + 1) (⟨.symbol .leftBrace, l⟩ :: tokens) =
      (do
        let items ← Init.readItems (Init.readWithin depth) (tokens.length + 1)
        let _ ← expect (.symbol .rightBrace) .closingInitializer
        pure (.list items l) : Reading (Init Unit)) tokens := rfl

theorem init_readWithin_expr {t : Token} (ht : startsExpr t.kind = true) :
    Init.readWithin (depth + 1) (t :: tokens) =
      (do
        let e ← Expr.read
        pure (.expr e) : Reading (Init Unit)) (t :: tokens) := by
  obtain ⟨kind, l⟩ := t
  cases kind with
  | symbol s => cases s <;> first | rfl | cases ht
  | _ => first | rfl | cases ht

end ReadWithin

/-- Within their depth, readers of initializers recognize them. -/
theorem init_readWithin_recognizes (depth : Nat) :
    Recognizes depth Initializer (fun _ rest => Follows 0 rest) (Init.readWithin depth) := by
  induction depth with
  | zero => exact ⟨fun h => absurd h (Nat.not_lt_zero _), fun h => absurd h (Nat.not_lt_zero _)⟩
  | succ depth ih =>
    refine ⟨fun {tokens rest i} hlength h => ?_, fun {taken rest i} hlength hi hrest => ?_⟩
    · have hexpr (h : (do
          let e ← Expr.read
          pure (.expr e) : Reading (Init Unit)) tokens = .ok i rest) :
          ∃ taken, tokens = taken ++ rest ∧ Initializer taken i := by
        simp only [Reading.bind_eq_ok, Reading.pure_eq_ok, read_eq_ok_iff] at h
        obtain ⟨e, _, ⟨ts, rfl, he, -⟩, rfl, rfl⟩ := h
        exact ⟨ts, rfl, .expr he⟩
      cases tokens with
      | nil => exact hexpr h
      | cons t tokens =>
        obtain ⟨kind, l⟩ := t
        cases kind with
        | stringLiteral s =>
          cases h
          exact ⟨_, rfl, .string s l⟩
        | symbol s =>
          cases s with
          | leftBrace =>
            rw [init_readWithin_brace] at h
            simp only [Reading.bind_eq_ok, expect_eq_ok, Reading.pure_eq_ok] at h
            obtain ⟨items, mid, hitems, k, mid', rfl, rfl, rfl⟩ := h
            obtain ⟨ts, rfl, hts⟩ := readItems_sound ih _ (Nat.lt_of_succ_lt_succ hlength) hitems
            exact ⟨⟨.symbol .leftBrace, l⟩ :: ts ++ [⟨.symbol .rightBrace, k⟩], by simp,
              .list l k hts⟩
          | _ => exact hexpr h
        | _ => exact hexpr h
    · cases hi with
      | string s l => rfl
      | @list ts items l k hitems =>
        rw [List.append_assoc, List.cons_append, List.singleton_append] at hlength ⊢
        have hfuel : ts.length ≤ (ts ++ ⟨.symbol .rightBrace, k⟩ :: rest).length + 1 := by
          rw [List.length_append]
          omega
        have hread := readItems_complete ih hitems hfuel (Nat.lt_of_succ_lt_succ hlength)
        rw [init_readWithin_brace]
        simp only [Reading.bind_eq_ok, expect_eq_ok, Reading.pure_eq_ok]
        exact ⟨items, _, hread, k, rest, rfl, rfl, rfl⟩
      | @expr _ e he =>
        have hread := read_eq_ok_iff.mpr ⟨taken, rfl, he, hrest⟩
        obtain ⟨t, us, rfl, ht⟩ := he.starts
        rw [List.cons_append, init_readWithin_expr ht]
        simp only [Reading.bind_eq_ok, Reading.pure_eq_ok]
        exact ⟨e, rest, hread, rfl, rfl⟩

theorem init_read_recognizes :
    Recognizes n Initializer (fun _ rest => Follows 0 rest) Init.read where
  sound _ h := (init_readWithin_recognizes _).sound (Nat.lt_succ_self _) h
  complete _ hi hrest := (init_readWithin_recognizes _).complete (Nat.lt_succ_self _) hi hrest

/-! ### Declarators -/

/-- An extent whose opening bracket is looked for, as a phrase on its own. -/
def readExtent : Reading (Expr Unit) := do
  let _ ← expect (.symbol .leftBracket) .closingDimension
  let e ← Expr.read
  let _ ← expect (.symbol .rightBracket) .closingDimension
  pure e

theorem readExtent_recognizes : Recognizes n Dimension (fun _ _ => True) readExtent where
  sound _ h := by
    simp only [readExtent, Reading.bind_eq_ok, expect_eq_ok, Reading.pure_eq_ok,
      read_eq_ok_iff] at h
    obtain ⟨l, _, rfl, e, _, ⟨ts, rfl, he, -⟩, k, _, rfl, rfl, rfl⟩ := h
    exact ⟨⟨.symbol .leftBracket, l⟩ :: ts ++ [⟨.symbol .rightBracket, k⟩], by simp, .mk l k he⟩
  complete {taken rest e} _ hD _ := by
    obtain @⟨ts, e, l, k, he⟩ := hD
    rw [List.append_assoc, List.cons_append]
    simp only [readExtent, Reading.bind_eq_ok, expect_eq_ok, Reading.pure_eq_ok, read_eq_ok_iff]
    have hfollows : Follows 0 (⟨.symbol .rightBracket, k⟩ :: rest) :=
      follows_symbol (by decide)
    exact ⟨l, _, rfl, e, _, ⟨ts, rfl, he, hfollows⟩, k, rest, rfl, rfl, rfl⟩

/-- Extents are read as long as a bracket opens; the loop looks at it, not the reader. -/
theorem readDimensions_eq : Decl.readDimensions = many (· == .symbol .leftBracket) readExtent := by
  refine Recognizes.many_congr fun t ts ht => ?_
  obtain ⟨kind, l⟩ := t
  obtain rfl := beq_iff_eq.mp ht
  rfl

theorem readDimensions_recognizes :
    Recognizes n (Repeated Dimension) (fun _ rest => NotNext (.symbol .leftBracket) rest)
      Decl.readDimensions := by
  rw [readDimensions_eq]
  refine (readExtent_recognizes.many (Q := fun _ => True) ?_ fun _ _ _ => trivial).before ?_
  · rintro ts e ⟨l, k, he⟩ _ -
    exact ⟨trivial, _, _, rfl, rfl⟩
  · intro dims rest hrest
    exact ⟨trivial, fun t ht => beq_eq_false_iff_ne.mpr (hrest t ht)⟩

/-- What stands behind a declarator: a comma or the end of the list. -/
def EndsDeclarator (rest : List Token) : Prop :=
  ∃ t us, rest = t :: us ∧ (t.kind = .symbol .comma ∨ t.kind = .symbol .semicolon)

theorem EndsDeclarator.follows (h : EndsDeclarator rest) : Follows 0 rest := by
  obtain ⟨⟨kind, l⟩, us, rfl, rfl | rfl⟩ := h
  · exact follows_symbol (by decide)
  · exact follows_symbol (by decide)

theorem EndsDeclarator.notNext (h : EndsDeclarator rest) {k : Token.Kind}
    (hcomma : k ≠ .symbol .comma) (hsemicolon : k ≠ .symbol .semicolon) : NotNext k rest := by
  obtain ⟨t, us, rfl, ht | ht⟩ := h
  · rw [notNext_cons, ht]
    exact hcomma.symm
  · rw [notNext_cons, ht]
    exact hsemicolon.symm

theorem readDeclarator_recognizes {isConst : Bool} {base : Base} :
    Recognizes n (Declarator isConst base) (fun _ rest => EndsDeclarator rest)
      (Decl.readDeclarator isConst base) where
  sound {tokens rest d} hlength h := by
    simp only [Decl.readDeclarator, Reading.bind_eq_ok, expectName_eq_ok] at h
    obtain ⟨⟨s, l⟩, mid, rfl, dims, mid', hdims, initialized, mid'', hequal, h⟩ := h
    obtain ⟨ts, rfl, hts⟩ :=
      readDimensions_recognizes.sound (Nat.lt_of_succ_lt hlength) hdims
    cases initialized with
    | false =>
      obtain ⟨-, rfl⟩ := accept_eq_false.mp hequal
      obtain ⟨rfl, rfl⟩ := Reading.pure_eq_ok.mp h
      exact ⟨⟨.name s, l⟩ :: ts, rfl, .plain s l hts⟩
    | true =>
      obtain ⟨k, rfl⟩ := accept_eq_true.mp hequal
      simp only [if_true, Reading.bind_eq_ok, Reading.pure_eq_ok] at h
      obtain ⟨i, mid, hi, rfl, rfl⟩ := h
      obtain ⟨us, rfl, hus⟩ := init_read_recognizes.sound (Nat.lt_succ_self _) hi
      exact ⟨⟨.name s, l⟩ :: ts ++ ⟨.symbol .equal, k⟩ :: us, by simp, .initialized s l k hts hus⟩
  complete {taken rest d} _ hD hrest := by
    simp only [Decl.readDeclarator, Reading.bind_eq_ok, expectName_eq_ok]
    cases hD with
    | @plain ts dims s l hts =>
      have hdims := readDimensions_recognizes.complete (Nat.lt_succ_self _) hts
        (hrest.notNext (by decide) (by decide))
      exact ⟨(s, l), _, rfl, dims, _, hdims, false, _,
        accept_eq_false.mpr ⟨hrest.notNext (by decide) (by decide), rfl⟩,
        Reading.pure_eq_ok.mpr ⟨rfl, rfl⟩⟩
    | @initialized ts us dims i s l k hts hus =>
      rw [List.append_assoc, List.cons_append, List.cons_append]
      have hdims : Decl.readDimensions (ts ++ ⟨.symbol .equal, k⟩ :: (us ++ rest)) = .ok dims _ :=
        readDimensions_recognizes.complete (Nat.lt_succ_self _) hts (by simp)
      have hi := init_read_recognizes.complete (Nat.lt_succ_self _) hus hrest.follows
      refine ⟨(s, l), _, rfl, dims, _, hdims, true, _, accept_eq_true.mpr ⟨k, rfl⟩, ?_⟩
      simp only [if_true, Reading.bind_eq_ok, Reading.pure_eq_ok]
      exact ⟨i, rest, hi, rfl, rfl⟩

/-! ### Declaration lists -/

theorem readDeclarators_recognizes {isConst : Bool} {base : Base} :
    Recognizes n (Separated (.symbol .comma) (Declarator isConst base))
      (fun _ rest => ∃ k us, rest = ⟨.symbol .semicolon, k⟩ :: us)
      (separated (.symbol .comma) (Decl.readDeclarator isConst base)) := by
  refine (readDeclarator_recognizes.separated fun _ l us => ⟨_, us, rfl, .inl rfl⟩).before ?_
  rintro _ _ ⟨k, us, rfl⟩
  exact ⟨by simp, fun _ => ⟨_, us, rfl, .inr rfl⟩⟩

theorem readList_recognizes : Recognizes n DeclarationList (fun _ _ => True) Decl.readList where
  sound {tokens rest ds} _ h := by
    simp only [Decl.readList, Reading.bind_eq_ok, expect_eq_ok, Reading.pure_eq_ok,
      readScalar_eq_ok] at h
    obtain ⟨isConst, mid, hconst, ⟨base, l⟩, mid', ⟨kind, hkind, rfl⟩, ds', mid'', hds, k, _, rfl,
      rfl, rfl⟩ := h
    obtain ⟨ts, rfl, hts⟩ := readDeclarators_recognizes.sound (Nat.lt_succ_self _) hds
    cases isConst with
    | false =>
      obtain ⟨-, rfl⟩ := accept_eq_false.mp hconst
      exact ⟨⟨kind, l⟩ :: ts ++ [⟨.symbol .semicolon, k⟩], by simp, .plain l k hkind hts⟩
    | true =>
      obtain ⟨c, rfl⟩ := accept_eq_true.mp hconst
      exact ⟨⟨.keyword .constKw, c⟩ :: ⟨kind, l⟩ :: ts ++ [⟨.symbol .semicolon, k⟩], by simp,
        .const c l k hkind hts⟩
  complete {taken rest ds} _ hD _ := by
    simp only [Decl.readList, Reading.bind_eq_ok, expect_eq_ok, Reading.pure_eq_ok,
      readScalar_eq_ok]
    have hdeclarators {isConst : Bool} {base : Base} {ts : List Token} (k : Location)
        (hts : Separated (.symbol .comma) (Declarator isConst base) ts ds) :=
      readDeclarators_recognizes.complete (Nat.lt_succ_self _) hts ⟨k, rest, rfl⟩
    cases hD with
    | @plain kind base ts _ l k hkind hts =>
      rw [List.append_assoc]
      refine ⟨false, _, accept_eq_false.mpr ⟨?_, rfl⟩, (base, l), _, ⟨kind, hkind, rfl⟩, ds, _,
        hdeclarators k hts, k, rest, rfl, rfl, rfl⟩
      cases hkind <;> simp
    | @const kind base ts _ c l k hkind hts =>
      rw [List.append_assoc]
      exact ⟨true, _, accept_eq_true.mpr ⟨c, rfl⟩, (base, l), _, ⟨kind, hkind, rfl⟩, ds, _,
        hdeclarators k hts, k, rest, rfl, rfl, rfl⟩

/-- A declaration list starts as the blocks and the program expect it to. -/
theorem DeclarationList.starts {ts : List Token} {ds : List (Decl Unit)}
    (h : DeclarationList ts ds) : ∃ t us, ts = t :: us ∧ Decl.startsWith t.kind = true := by
  cases h with
  | plain l k hkind _ => cases hkind <;> exact ⟨_, _, rfl, rfl⟩
  | const c l k _ _ => exact ⟨_, _, rfl, rfl⟩

end SysYFront.Grammar
