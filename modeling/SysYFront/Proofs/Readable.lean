import SysYFront.Program.Read
import SysYFront.Proofs.Meaning.Rules

/-!
# SysYFront.Proofs.Readable

What every tree that is read has in common, whatever the tokens were. A reader *gives* a
property if every value that it can end with has it (`Reading.Gives`); the property of a
long reader is put together from those of its parts. With this, no variable of a program
that is read is `void`.
-/

namespace SysYFront

variable {α β : Type}

/-! ### What readers give -/

/-- Whether every value that a reader can end with satisfies `P`. -/
def Reading.Gives (P : α → Prop) (m : Reading α) : Prop :=
  ∀ tokens a rest, m tokens = .ok a rest → P a

namespace Reading.Gives

variable {P : α → Prop} {Q : β → Prop} {m : Reading α}

theorem pure {a : α} (h : P a) : Gives P (Pure.pure a) := by
  rintro tokens _ rest ⟨⟩
  exact h

theorem throw {wanted : Expectation} : Gives P (MonadExcept.throw wanted : Reading α) :=
  nofun

theorem trivial : Gives (fun _ => True) m :=
  fun _ _ _ _ => True.intro

/-- A chain gives what its last link gives on what the first one gives. -/
theorem bind {f : α → Reading β} (h : Gives P m) (hf : ∀ a, P a → Gives Q (f a)) :
    Gives Q (m >>= f) := by
  intro tokens b rest hb
  change EStateM.bind m f tokens = _ at hb
  unfold EStateM.bind at hb
  cases hm : m tokens with
  | error wanted rest' =>
    rw [hm] at hb
    cases hb
  | ok a rest' =>
    rw [hm] at hb
    exact hf a (h _ _ _ hm) _ _ _ hb

/-- The property of a chain whose first link does not matter. -/
theorem skip {f : α → Reading β} (hf : ∀ a, Gives Q (f a)) : Gives Q (m >>= f) :=
  trivial.bind fun a _ => hf a

theorem manyWithin {goOn : Token.Kind → Bool} (h : Gives P m) (n : Nat) :
    Gives (fun as => ∀ a ∈ as, P a) (Reading.manyWithin goOn m n) := by
  induction n with
  | zero => exact pure nofun
  | succ n ih =>
    refine skip fun next => ?_
    cases next with
    | none => exact pure nofun
    | some t =>
      dsimp only
      split
      · refine h.bind fun a ha => ih.bind fun as has => pure ?_
        exact List.forall_mem_cons.mpr ⟨ha, has⟩
      · exact pure nofun

theorem many {goOn : Token.Kind → Bool} (h : Gives P m) :
    Gives (fun as => ∀ a ∈ as, P a) (Reading.many goOn m) :=
  fun tokens => manyWithin h tokens.length tokens

theorem separatedWithin {separator : Token.Kind} (h : Gives P m) (n : Nat) :
    Gives (fun as => ∀ a ∈ as, P a) (Reading.separatedWithin separator m n) := by
  have hone {a : α} (ha : P a) : ∀ b ∈ [a], P b := by simpa using ha
  induction n with
  | zero => exact h.bind fun a ha => pure (hone ha)
  | succ n ih =>
    refine h.bind fun a ha => skip fun more => ?_
    cases more with
    | false => exact pure (hone ha)
    | true =>
      refine ih.bind fun as has => pure ?_
      exact List.forall_mem_cons.mpr ⟨ha, has⟩

theorem separated {separator : Token.Kind} (h : Gives P m) :
    Gives (fun as => ∀ a ∈ as, P a) (Reading.separated separator m) :=
  fun tokens => separatedWithin h tokens.length tokens

end Reading.Gives

/-! ### No variable is void -/

open Reading (Gives)

theorem Base.ofScalarKind?_ne_void {kind : Token.Kind} {base : Base}
    (h : Base.ofScalarKind? kind = some base) : base ≠ .void := by
  rintro rfl
  unfold Base.ofScalarKind? at h
  split at h <;> cases h

theorem Base.readScalar_gives (wanted : Expectation) :
    Gives (fun r => r.1 ≠ .void) (Base.readScalar wanted) := by
  refine Gives.skip ?_
  intro next
  cases next with
  | none => exact Gives.throw
  | some t =>
    dsimp only
    cases hbase : Base.ofScalarKind? t.kind with
    | none => exact Gives.throw
    | some base => exact Gives.skip fun _ => Gives.pure (Base.ofScalarKind?_ne_void hbase)

theorem Decl.readDeclarator_gives (isConst : Bool) (base : Base) :
    Gives (fun d => d.base = base) (Decl.readDeclarator isConst base) := by
  refine Gives.skip fun _ => Gives.skip fun dims => Gives.skip fun initialized => ?_
  cases initialized with
  | false => exact Gives.pure rfl
  | true => exact Gives.skip fun init => Gives.pure rfl

theorem Decl.readList_gives : Gives (fun ds => ∀ d ∈ ds, d.base ≠ .void) Decl.readList := by
  refine Gives.skip fun isConst => (Base.readScalar_gives _).bind fun r hr => ?_
  refine (Gives.separated (Decl.readDeclarator_gives isConst r.1)).bind ?_
  intro ds hds
  refine Gives.skip fun _ => Gives.pure fun d hd => ?_
  rw [hds d hd]
  exact hr

theorem Item.allVoidFree_append {items items' : List (Item α)} :
    Item.AllVoidFree (items ++ items') ↔ Item.AllVoidFree items ∧ Item.AllVoidFree items' := by
  induction items with
  | nil => exact (and_iff_right trivial).symm
  | cons item items ih => rw [List.cons_append, AllVoidFree, AllVoidFree, ih, and_assoc]

theorem Item.allVoidFree_flatten {itemss : List (List (Item α))}
    (h : ∀ items ∈ itemss, Item.AllVoidFree items) : Item.AllVoidFree itemss.flatten := by
  induction itemss with
  | nil => exact trivial
  | cons items itemss ih =>
    obtain ⟨hfirst, hothers⟩ := List.forall_mem_cons.mp h
    exact Item.allVoidFree_append.mpr ⟨hfirst, ih hothers⟩

theorem Item.allVoidFree_map_decl {ds : List (Decl α)} (h : ∀ d ∈ ds, d.base ≠ .void) :
    Item.AllVoidFree (ds.map .decl) := by
  induction ds with
  | nil => exact trivial
  | cons d ds ih =>
    obtain ⟨hd, hds⟩ := List.forall_mem_cons.mp h
    exact ⟨hd, ih hds⟩

section Statements

variable {stmt : Reading (Stmt Unit)}

theorem Item.readSome_gives (hstmt : Gives Stmt.VoidFree stmt) :
    Gives Item.AllVoidFree (Item.readSome stmt) := by
  have hone : Gives Item.AllVoidFree (do let s ← stmt; pure [Item.stmt s]) :=
    hstmt.bind fun s hs => Gives.pure ⟨hs, trivial⟩
  refine Gives.skip ?_
  intro next
  cases next with
  | none => exact hone
  | some t =>
    dsimp only
    split
    · exact Decl.readList_gives.bind fun ds hds => Gives.pure (Item.allVoidFree_map_decl hds)
    · exact hone

theorem Block.readWith_gives (hstmt : Gives Stmt.VoidFree stmt) :
    Gives (fun b => Item.AllVoidFree b.items) (Block.readWith stmt) :=
  Gives.skip fun _ => (Gives.many (Item.readSome_gives hstmt)).bind fun _ hitemss =>
    Gives.skip fun _ => Gives.pure (Item.allVoidFree_flatten hitemss)

theorem Stmt.readKeyword_gives (hstmt : Gives Stmt.VoidFree stmt) (l : Location) (k : Keyword) :
    Gives Stmt.VoidFree (Stmt.readKeyword stmt l k) := by
  have hreturn : Gives Stmt.VoidFree (Stmt.readKeyword stmt l .returnKw) := by
    refine Gives.skip ?_
    intro ended
    cases ended with
    | true => exact Gives.pure trivial
    | false => exact Gives.skip fun _ => Gives.skip fun _ => Gives.pure trivial
  cases k with
  | ifKw =>
    refine Gives.skip fun _ => hstmt.bind fun body hbody => Gives.skip fun more => ?_
    cases more with
    | true => exact hstmt.bind fun otherwise hotherwise => Gives.pure ⟨hbody, hotherwise⟩
    | false => exact Gives.pure hbody
  | whileKw => exact Gives.skip fun _ => hstmt.bind fun body hbody => Gives.pure hbody
  | breakKw => exact Gives.skip fun _ => Gives.pure trivial
  | continueKw => exact Gives.skip fun _ => Gives.pure trivial
  | _ =>
    -- The reader takes every other keyword that it is given for a `return`.
    exact hreturn

theorem Stmt.readWithin_gives (depth : Nat) : Gives Stmt.VoidFree (Stmt.readWithin depth) := by
  induction depth with
  | zero => exact Gives.throw
  | succ depth ih =>
    refine Gives.skip ?_
    intro next
    split
    · exact (Block.readWith_gives ih).bind fun b hb => Gives.pure hb
    · exact Gives.skip fun _ => Gives.pure trivial
    · split
      · exact Gives.skip fun _ => Stmt.readKeyword_gives ih _ _
      · split <;> exact Gives.throw
    · exact Gives.skip fun _ => Gives.skip fun _ => Gives.pure trivial
    · exact Gives.throw

end Statements

theorem Stmt.read_gives : Gives Stmt.VoidFree Stmt.read :=
  fun tokens => Stmt.readWithin_gives (tokens.length + 1) tokens

theorem Function.read_gives : Gives (fun f => Item.AllVoidFree f.body.items) Function.read := by
  refine Gives.skip ?_
  intro next
  cases next with
  | none => exact Gives.throw
  | some t =>
    dsimp only
    cases Base.ofKind? t.kind with
    | none => exact Gives.throw
    | some returns =>
      -- Between the return type and the body nothing declares a variable of the body.
      exact Gives.skip fun _ => Gives.skip fun _ => Gives.skip fun _ => Gives.skip fun _ =>
        Gives.skip fun _ => (Block.readWith_gives Stmt.read_gives).bind fun b hb => Gives.pure hb

theorem Program.voidFree_append {p q : Program α} (hp : p.VoidFree) (hq : q.VoidFree) :
    Program.VoidFree (p ++ q) where
  globals d hd := by
    rw [globals, List.filterMap_append] at hd
    exact (List.mem_append.mp hd).elim (hp.globals d) (hq.globals d)
  functions f hf := by
    rw [functions, List.filterMap_append] at hf
    exact (List.mem_append.mp hf).elim (hp.functions f) (hq.functions f)

theorem Program.voidFree_map_global {ds : List (Decl α)} (h : ∀ d ∈ ds, d.base ≠ .void) :
    Program.VoidFree (ds.map .global) := by
  refine ⟨fun d hd => ?_, fun f hf => ?_⟩
  · obtain ⟨u, hu, hd⟩ := List.mem_filterMap.mp hd
    obtain ⟨e, he, rfl⟩ := List.mem_map.mp hu
    obtain rfl := Option.some.inj hd
    exact h e he
  · obtain ⟨u, hu, hf⟩ := List.mem_filterMap.mp hf
    obtain ⟨e, -, rfl⟩ := List.mem_map.mp hu
    cases hf

theorem Program.voidFree_flatten {ps : List (Program α)} (h : ∀ p ∈ ps, p.VoidFree) :
    Program.VoidFree ps.flatten := by
  induction ps with
  | nil => exact ⟨nofun, nofun⟩
  | cons p ps ih =>
    obtain ⟨hp, hps⟩ := List.forall_mem_cons.mp h
    exact Program.voidFree_append hp (ih hps)

theorem TopLevel.readSome_gives : Gives Program.VoidFree TopLevel.readSome := by
  refine Gives.skip ?_
  intro tokens
  split
  · exact Gives.skip fun _ => Gives.pure ⟨nofun, nofun⟩
  · exact Decl.readList_gives.bind fun ds hds => Gives.pure (Program.voidFree_map_global hds)
  · refine Function.read_gives.bind fun f hf => Gives.pure ⟨nofun, fun g hg => ?_⟩
    obtain rfl := List.mem_singleton.mp hg
    exact hf
  · exact Gives.throw

theorem Program.read_gives : Gives Program.VoidFree Program.read :=
  (Gives.many TopLevel.readSome_gives).bind fun _ hps => Gives.pure (Program.voidFree_flatten hps)

/-- A program can be read if some tokens are read as it. -/
def Program.Readable (p : Program Unit) : Prop :=
  ∃ stream : TokenStream, (stream.run Program.read).1 = .ok p

theorem Program.Readable.voidFree {p : Program Unit} (h : p.Readable) : p.VoidFree := by
  obtain ⟨stream, hrun⟩ := h
  unfold TokenStream.run at hrun
  split at hrun
  · rename_i q rest hread
    obtain rfl := Except.ok.inj hrun
    exact Program.read_gives _ _ _ hread
  · cases hrun

/-! ### A program that is read

    const float t[2.5] = {3 / 2, -7};
    int f(int n[]) { const int m = t[1.9]; return m + f(n); } -/

/-- The tokens of the program above, all at one place. -/
def sampleTokens : TokenStream where
  tokens := List.map (fun kind => ⟨kind, .nowhere⟩) [
    .keyword .constKw, .keyword .floatKw, .name "t", .symbol .leftBracket, .floatLiteral 2.5,
    .symbol .rightBracket, .symbol .equal, .symbol .leftBrace, .intLiteral 3, .symbol .slash,
    .intLiteral 2, .symbol .comma, .symbol .minus, .intLiteral 7, .symbol .rightBrace,
    .symbol .semicolon, .keyword .intKw, .name "f", .symbol .leftParen, .keyword .intKw,
    .name "n", .symbol .leftBracket, .symbol .rightBracket, .symbol .rightParen,
    .symbol .leftBrace, .keyword .constKw, .keyword .intKw, .name "m", .symbol .equal, .name "t",
    .symbol .leftBracket, .floatLiteral 1.9, .symbol .rightBracket, .symbol .semicolon,
    .keyword .returnKw, .name "m", .symbol .plus, .name "f", .symbol .leftParen, .name "n",
    .symbol .rightParen, .symbol .semicolon, .symbol .rightBrace]
  finish := .nowhere

/-- The tree of the program above. -/
def sample : Program Unit :=
  let int (n : Int32) : Expr Unit := .literal (.int n) .nowhere ()
  let float (x : Float32) : Expr Unit := .literal (.float x) .nowhere ()
  let var (name : String) : Expr Unit := .var name .nowhere ()
  [.global {
      name := "t", isConst := true, base := .float, dims := [float 2.5], location := .nowhere
      init := some (.list [.expr (.binary .div (int 3) (int 2) .nowhere ()),
        .expr (.unary .neg (int 7) .nowhere ())] .nowhere)
      note := () },
    .function {
      name := "f", returns := .int, location := .nowhere
      params := [⟨"n", .int, [], true, .nowhere⟩]
      body := ⟨[.decl {
            name := "m", isConst := true, base := .int, dims := [], location := .nowhere
            init := some (.expr (.index (var "t") (float 1.9) .nowhere ())), note := () },
          .stmt (.returnValue (.binary .add (var "m") (.call (var "f") [var "n"] .nowhere ())
            .nowhere ()) .nowhere)], .nowhere⟩ }]

theorem sample_readable : sample.Readable :=
  ⟨sampleTokens, rfl⟩

end SysYFront
