import Mathlib.Tactic.Tauto
import SysYFront.Proofs.Agreement.Decl
import SysYFront.Stmt.Check

/-!
# SysYFront.Proofs.Agreement.Stmt

The checker agrees with the rules on statements. While the body of a function is
checked, the state holds besides the scopes what `return`, `break` and `continue` ask for
(`Checker.InBody`). A statement leaves the state as it found it; the items of a block add
names to the innermost scope and change nothing else, so that behind the block the state
is again the one before it (`Item.AllCheckedFrom`).

A name that is declared twice in a block is noticed when its second declaration meets the
first one in the innermost scope. The invariant that turns this into the rule for the
whole block is that the scope holds its earlier names and those declared so far.
-/

namespace SysYFront

variable {α : Type} {c c' : Checker} {Γ : Context} {Φ : Headings} {returns : Base} {inLoop : Bool}

namespace Checker

/-- Whether a state of the checker is one inside the body of a function that returns
`returns`, with the names of `Γ` and the functions of `Φ`. -/
structure InBody (c : Checker) (Γ : Context) (Φ : Headings) (returns : Base) (inLoop : Bool) :
    Prop extends c.Agrees Γ Φ where
  running : ∃ name, c.running = some ⟨name, returns⟩
  loops : c.loopDepth ≠ 0 ↔ inLoop = true
  inner : ∃ frame outer, c.scopes.inner = frame :: outer

namespace InBody

theorem isGlobal (hc : c.InBody Γ Φ returns inLoop) : c.scopes.isGlobal = false := by
  obtain ⟨frame, outer, hinner⟩ := hc.inner
  rw [Scopes.isGlobal, hinner, List.isEmpty_cons]

/-- Behind a declaration in the body the checker is still inside it. -/
theorem declare (hc : c.InBody Γ Φ returns inLoop) (name : String) {t : ValueType}
    (ht : t.Declared) :
    (c.declare name t).InBody ((name, t.meaning) :: Γ) Φ returns inLoop := by
  obtain ⟨frame, outer, hinner⟩ := hc.inner
  refine ⟨⟨hc.toShows.declare name ht, hc.functions⟩, hc.running, hc.loops,
    (name, t) :: frame, outer, ?_⟩
  simp [Checker.declare, Scopes.insert, hinner]

/-- In the body, a declaration adds its name to the innermost scope. -/
theorem declaresHere_declare (hc : c.InBody Γ Φ returns inLoop) (name other : String)
    (t : ValueType) : (c.declare name t).scopes.declaresHere other =
      (other == name || c.scopes.declaresHere other) := by
  obtain ⟨frame, outer, hinner⟩ := hc.inner
  simp only [Checker.declare, Scopes.insert, hinner, Scopes.declaresHere, Scopes.innermost,
    List.head?_cons, Option.getD_some, List.lookup_cons]
  cases other == name <;> rfl

/-- In the body, a declaration changes the innermost scope only. -/
theorem leaveBlock_declare (hc : c.InBody Γ Φ returns inLoop) (name : String) (t : ValueType) :
    (c.declare name t).leaveBlock = c.leaveBlock := by
  obtain ⟨frame, outer, hinner⟩ := hc.inner
  simp [Checker.declare, Checker.leaveBlock, Scopes.leave, Scopes.insert, hinner]

theorem enterBlock (hc : c.InBody Γ Φ returns inLoop) :
    c.enterBlock.InBody Γ Φ returns inLoop := by
  have hlookup (name : String) : c.enterBlock.scopes.lookup? name = c.scopes.lookup? name := by
    simp [Checker.enterBlock, Scopes.enter, Scopes.lookup?, List.findSome?_cons]
  exact ⟨hc.toAgrees.congr hlookup rfl, hc.running, hc.loops, [], _, rfl⟩

theorem enterLoop (hc : c.InBody Γ Φ returns inLoop) : c.enterLoop.InBody Γ Φ returns true :=
  ⟨hc.toAgrees.congr (fun _ => rfl) rfl, hc.running, by simp [Checker.enterLoop], hc.inner⟩

end InBody

end Checker

/-- Whether names are new in the innermost scope and different from each other. -/
def Checker.NewNames (c : Checker) (names : List String) : Prop :=
  names.Nodup ∧ ∀ name ∈ names, c.scopes.declaresHere name = false

/-! ### Parts of statements -/

namespace Stmt

theorem checkHere_decides (hc : c.Agrees Γ Φ) (e : Expr α) :
    Checking.Decides c (e.Valid Γ Φ) (fun e' c' => e.CheckedAs Γ Φ e' ∧ c' = c) e.checkHere :=
  Checking.Decides.inspect (Expr.check_decides hc e)

theorem checkCondition_decides (hc : c.Agrees Γ Φ) (e : Expr α) :
    Checking.Decides c (e.Valid Γ Φ ∧ e.IsScalar Γ Φ)
      (fun e' c' => e.CheckedAs Γ Φ e' ∧ c' = c) (checkCondition e) := by
  refine Checking.Decides.inspect ((Expr.check_decides hc e).bind fun _ e' he =>
    Decides.congr (Decides.guard fun _ => Decides.pure he) ?_)
  simp [Expr.IsScalar, ValueType.isVoid, ValueType.isArray, he.base, he.dims]

theorem requireLoop_decides (hc : c.InBody Γ Φ returns inLoop) (word : Keyword) (l : Location) :
    Checking.Decides c (inLoop = true) (fun _ c' => c' = c) (requireLoop word l) := by
  have hloops := hc.loops
  refine Checking.Decides.imp (Q := fun _ c' => True ∧ c' = c)
    (Checking.Decides.inspect (Decides.congr (Decides.guard fun _ => Decides.pure trivial) ?_))
    fun _ _ _ h => h.2
  rwa [and_true]

theorem checkReturned_decides (hc : c.InBody Γ Φ returns inLoop) (e : Expr α) (l : Location) :
    Checking.Decides c (e.Valid Γ Φ ∧ e.IsScalar Γ Φ ∧ returns ≠ .void)
      (fun e' c' => e.CheckedAs Γ Φ e' ∧ c' = c) (checkReturned e l) := by
  obtain ⟨name, hrunning⟩ := hc.running
  refine Checking.Decides.inspect ((Expr.check_decides hc.toAgrees e).bind fun _ e' he => ?_)
  rw [hrunning]
  refine Decides.congr (Decides.guard fun _ => Decides.guard fun _ => Decides.guard fun _ =>
    Decides.pure he) ?_
  simp only [Expr.IsScalar, ValueType.isVoid, ValueType.isArray, he.base, he.dims]
  simp [and_comm, and_assoc]

end Stmt

/-! ### Statements and blocks -/

/-- Whether checking a statement at `c` gave `s'` and left the state as it was. -/
def Stmt.CheckedFrom (c : Checker) (Γ : Context) (Φ : Headings) (s : Stmt α)
    (s' : Stmt ValueType) (c' : Checker) : Prop :=
  s'.map ValueType.typing = (s.annotate Γ Φ).fold Γ ∧ c' = c

/-- Whether checking an item of a block at `c` gave `item'` and led to `c'`: inside the body
still, with the name of the item declared and nothing else changed. -/
structure Item.CheckedFrom (c : Checker) (Γ : Context) (Φ : Headings) (returns : Base)
    (inLoop : Bool) (item : Item α) (item' : Item ValueType) (c' : Checker) : Prop where
  tree : item'.map ValueType.typing = (item.annotate Γ Φ).fold Γ
  inBody : c'.InBody (item.extend Γ) Φ returns inLoop
  leaveBlock : c'.leaveBlock = c.leaveBlock
  newNames : ∀ names, c'.NewNames names ↔ (∀ name ∈ item.name?, name ∉ names) ∧ c.NewNames names

/-- Whether checking the items of a block at `c` gave `items'` and left all but the innermost
scope as it was. -/
def Item.AllCheckedFrom (c : Checker) (Γ : Context) (Φ : Headings) (items : List (Item α))
    (items' : List (Item ValueType)) (c' : Checker) : Prop :=
  Item.mapAll ValueType.typing items' = Item.foldAll Γ (Item.annotateAll Γ Φ items) ∧
    c'.leaveBlock = c.leaveBlock

namespace Checker

/-- Names that are new behind a declaration were new before it and differ from its name. -/
theorem newNames_declare (hc : c.InBody Γ Φ returns inLoop) (name : String) (t : ValueType)
    (names : List String) :
    (c.declare name t).NewNames names ↔ name ∉ names ∧ c.NewNames names := by
  simp only [NewNames, hc.declaresHere_declare, Bool.or_eq_false_iff, beq_eq_false_iff_ne]
  constructor
  · intro h
    rcases h with ⟨hnodup, hnew⟩
    exact ⟨fun hname => (hnew name hname).1 rfl, hnodup, fun n hn => (hnew n hn).2⟩
  · intro h
    rcases h with ⟨hname, hnodup, hnew⟩
    exact ⟨hnodup, fun n hn => ⟨fun h => hname (h ▸ hn), hnew n hn⟩⟩

/-- The names of a block are new if that of its first item is, and those of the others
differ from it and are new. -/
theorem newNames_cons (item : Item α) (items : List (Item α)) :
    c.NewNames (Item.names (item :: items)) ↔
      (∀ name ∈ item.name?, c.scopes.declaresHere name = false) ∧
        (∀ name ∈ item.name?, name ∉ Item.names items) ∧ c.NewNames (Item.names items) := by
  cases item with
  | stmt s =>
    have hnames : Item.names (.stmt s :: items) = Item.names items := rfl
    simp [hnames, Item.name?]
  | decl d =>
    simp only [NewNames, Item.names, List.filterMap_cons, Item.name?, List.nodup_cons,
      List.mem_cons, forall_eq_or_imp, Option.mem_some_iff, forall_eq']
    tauto

/-- In a scope that was just entered every name is new. -/
theorem newNames_enterBlock (names : List String) :
    c.enterBlock.NewNames names ↔ names.Nodup :=
  and_iff_left fun _ _ => rfl

end Checker

namespace Stmt

mutual

/-- Checking a statement succeeds if and only if the statement keeps the rules. -/
theorem check_decides : ∀ (s : Stmt α) {c : Checker} {Γ : Context} {inLoop : Bool},
    c.InBody Γ Φ returns inLoop → s.VoidFree →
      Checking.Decides c (s.Valid Γ Φ returns inLoop) (s.CheckedFrom c Γ Φ) s.check
  | .empty l, c, Γ, inLoop, hc, hvoid => Checking.Decides.pure ⟨rfl, rfl⟩
  | .expr e l, c, Γ, inLoop, hc, hvoid => by
    refine (checkHere_decides hc.toAgrees e).map ?_
    intro _ e' c' he
    obtain ⟨he, rfl⟩ := he
    exact ⟨by rw [map, annotate, fold, he.tree], rfl⟩
  | .block items l, c, Γ, inLoop, hc, hvoid => by
    have hitems := checkItems_decides items hc.enterBlock hvoid
    rw [Checker.newNames_enterBlock, and_comm] at hitems
    -- Leaving the block drops its names; what is left is the state before it.
    refine (Checking.Decides.within (Q := fun items' c' =>
      Item.mapAll ValueType.typing items' = Item.foldAll Γ (Item.annotateAll Γ Φ items) ∧ c' = c)
      hitems).map fun _ items' c' hitems' => ?_
    obtain ⟨hitems', rfl⟩ := hitems'
    exact ⟨by rw [map, annotate, fold, hitems'], rfl⟩
  | .ifThen e body l, c, Γ, inLoop, hc, hvoid => by
    rw [Valid]
    refine (checkCondition_decides hc.toAgrees e).bind ?_
    intro _ e' c' he
    obtain ⟨he, rfl⟩ := he
    refine (check_decides body hc hvoid).map ?_
    intro _ body' c'' hbody
    obtain ⟨hbody, rfl⟩ := hbody
    exact ⟨by rw [map, annotate, fold, he.tree, hbody], rfl⟩
  | .ifElse e body otherwise l, c, Γ, inLoop, hc, hvoid => by
    rw [Valid]
    refine (checkCondition_decides hc.toAgrees e).bind ?_
    intro _ e' c' he
    obtain ⟨he, rfl⟩ := he
    refine (check_decides body hc hvoid.1).bind ?_
    intro _ body' c'' hbody
    obtain ⟨hbody, rfl⟩ := hbody
    refine (check_decides otherwise hc hvoid.2).map ?_
    intro _ otherwise' c'' hotherwise
    obtain ⟨hotherwise, rfl⟩ := hotherwise
    exact ⟨by rw [map, annotate, fold, he.tree, hbody, hotherwise], rfl⟩
  | .whileLoop e body l, c, Γ, inLoop, hc, hvoid => by
    rw [Valid]
    refine (checkCondition_decides hc.toAgrees e).bind ?_
    intro _ e' c' he
    obtain ⟨he, rfl⟩ := he
    -- The body sees one loop more, and leaving it undoes just that.
    have hinside := (check_decides body hc.enterLoop hvoid).imp
      (R := fun body' c'' => body.CheckedFrom c' Γ Φ body' c''.leaveLoop) (by
        intro _ body' c'' hbody
        obtain ⟨hbody, rfl⟩ := hbody
        exact ⟨hbody, rfl⟩)
    refine (Checking.Decides.within hinside).map ?_
    intro _ body' c'' hbody
    obtain ⟨hbody, rfl⟩ := hbody
    exact ⟨by rw [map, annotate, fold, he.tree, hbody], rfl⟩
  | .breakLoop l, c, Γ, inLoop, hc, hvoid | .continueLoop l, c, Γ, inLoop, hc, hvoid =>
    (requireLoop_decides hc _ l).map fun _ _ c' hc' => ⟨rfl, hc'⟩
  | .returnNothing l, c, Γ, inLoop, hc, hvoid => Checking.Decides.pure ⟨rfl, rfl⟩
  | .returnValue e l, c, Γ, inLoop, hc, hvoid => by
    refine (checkReturned_decides hc e l).map ?_
    intro _ e' c' he
    obtain ⟨he, rfl⟩ := he
    exact ⟨by rw [map, annotate, fold, he.tree], rfl⟩

/-- Checking an item of a block succeeds if and only if the item keeps the rules and the name
that it declares is new. -/
theorem checkItem_decides : ∀ (item : Item α) {c : Checker} {Γ : Context} {inLoop : Bool},
    c.InBody Γ Φ returns inLoop → item.VoidFree →
      Checking.Decides c
        (item.Valid Γ Φ returns inLoop ∧ ∀ name ∈ item.name?, c.scopes.declaresHere name = false)
        (item.CheckedFrom c Γ Φ returns inLoop) (checkItem item)
  | .decl d, c, Γ, inLoop, hc, hvoid => by
    have hdecl := d.check_decides hc.toAgrees hvoid
    rw [hc.isGlobal] at hdecl
    refine Checking.Decides.congr (hdecl.map fun _ d' c' hd' => ?_) ?_
    · obtain ⟨hd', rfl⟩ := hd'
      have hbody := hc.declare d.name hd'.declared
      rw [hd'.meaning] at hbody
      refine ⟨?_, hbody, hc.leaveBlock_declare _ _, fun names => ?_⟩
      · rw [Item.map, Item.annotate, Item.fold, hd'.tree]
      · simpa [Item.name?] using Checker.newNames_declare hc d.name d'.note names
    · simp only [Item.Valid, Item.name?, Option.mem_some_iff, forall_eq']
      exact and_comm
  | .stmt s, c, Γ, inLoop, hc, hvoid => by
    refine Checking.Decides.congr ((check_decides s hc hvoid).map fun _ s' c' hs' => ?_) ?_
    · obtain ⟨hs', rfl⟩ := hs'
      refine ⟨?_, hc, rfl, fun names => ?_⟩
      · rw [Item.map, Item.annotate, Item.fold, hs']
      · simp [Item.name?]
    · simp [Item.Valid, Item.name?]

/-- Checking the items of a block succeeds if and only if each keeps the rules behind those
before it and the names that they declare are new. -/
theorem checkItems_decides : ∀ (items : List (Item α)) {c : Checker} {Γ : Context}
    {inLoop : Bool}, c.InBody Γ Φ returns inLoop → Item.AllVoidFree items →
      Checking.Decides c
        (Item.AllValid Γ Φ returns inLoop items ∧ c.NewNames (Item.names items))
        (Item.AllCheckedFrom c Γ Φ items) (checkItems items)
  | [], c, Γ, inLoop, hc, hvoid =>
    Checking.Decides.congr (Checking.Decides.pure ⟨rfl, rfl⟩)
      (iff_of_true trivial ⟨trivial, List.nodup_nil, nofun⟩)
  | item :: items, c, Γ, inLoop, hc, hvoid => by
    refine Checking.Decides.congr (V := _ ∧ Item.AllValid (item.extend Γ) Φ returns inLoop items ∧
        (∀ name ∈ item.name?, name ∉ Item.names items) ∧ c.NewNames (Item.names items))
      ((checkItem_decides item hc hvoid.1).bind fun _ item' c' hitem => ?_) ?_
    · have hitems := checkItems_decides items hitem.inBody hvoid.2
      rw [hitem.newNames] at hitems
      refine hitems.map fun _ items' c'' hitems' => ⟨?_, ?_⟩
      · rw [Item.mapAll, Item.annotateAll, Item.foldAll, Item.extend_annotate, hitem.tree,
          hitems'.1]
      · rw [hitems'.2, hitem.leaveBlock]
    · -- The first name is compared with the others here, and by the checker there.
      rw [Checker.newNames_cons, Item.AllValid]
      tauto

end

end Stmt

end SysYFront
