import SysYFront.Function.Check
import SysYFront.Proofs.Agreement.Stmt

/-!
# SysYFront.Proofs.Agreement.Function

The checker agrees with the rules on functions. The head of a function is checked while
the table of functions still grows, its body when the table is complete. What the first
step hands to the second (`Function.RegisteredAs`) tells of the parameters what the rules
tell, so the frame in which the body starts holds exactly the context of the function.
-/

namespace SysYFront

variable {α : Type} {c : Checker} {Γ : Context} {Φ : Headings}

/-! ### Parameters -/

namespace Param

/-- Whether `r` is what checking makes of a parameter: its extents are folded, and the type
that callers see is what the parameter means. -/
structure CheckedAs (Γ : Context) (Φ : Headings) (p : Param α)
    (r : Param ValueType × Parameter) : Prop where
  tree : r.1.map ValueType.typing = (p.annotate Γ Φ).fold Γ
  meaning : (r.2.name, r.2.type.meaning) = (p.name, p.meaning Γ)
  declared : r.2.type.Declared

theorem resolve_decides (hc : c.Shows Γ) (Φ : Headings) (p : Param α) :
    Decides (Expr.ExtentsValid Γ Φ p.dims) (p.CheckedAs Γ Φ) (p.resolve c) := by
  refine Decides.bind (Expr.checkExtents_decides_of_shows hc Φ p.dims) fun hextents r hr => ?_
  obtain ⟨dims', dims⟩ := r
  obtain ⟨htree, rfl⟩ := hr
  have hcount : ¬ (Shape.count? (Expr.extents Γ p.dims)).isNone = true ↔
      Shape.size (Expr.extents Γ p.dims) * Shape.elementSize ≤ Shape.maxObjectSize := by
    rw [Shape.count?_eq (Expr.extents_pos hextents)]
    split <;> simp [*]
  refine Decides.congr (Decides.guard fun _ => Decides.pure ⟨?_, ?_, ?_⟩)
    ((and_iff_left trivial).trans hcount)
  · simp only [map, annotate, fold, htree]
  · cases hopen : p.isOpen <;> simp [ValueType.meaning, meaning, hopen, ValueType.place,
      ValueType.elements?]
  · exact ⟨ValueType.proper_place _ _, rfl⟩

/-- Whether `rs` is what checking makes of the parameters of a function. -/
structure AllCheckedAs (Γ : Context) (Φ : Headings) (ps : List (Param α))
    (rs : List (Param ValueType × Parameter)) : Prop where
  trees : rs.map (fun r => r.1.map ValueType.typing) = ps.map fun p => (p.annotate Γ Φ).fold Γ
  meanings : rs.map (fun r => (r.2.name, r.2.type.meaning)) = ps.map fun p => (p.name, p.meaning Γ)
  declared : ∀ r ∈ rs, r.2.type.Declared

theorem AllCheckedAs.cons {p : Param α} {ps : List (Param α)} {r : Param ValueType × Parameter}
    {rs : List (Param ValueType × Parameter)} (hr : p.CheckedAs Γ Φ r)
    (hrs : AllCheckedAs Γ Φ ps rs) : AllCheckedAs Γ Φ (p :: ps) (r :: rs) where
  trees := by rw [List.map_cons, List.map_cons, hr.tree, hrs.trees]
  meanings := by rw [List.map_cons, List.map_cons, hr.meaning, hrs.meanings]
  declared := List.forall_mem_cons.mpr ⟨hr.declared, hrs.declared⟩

/-- Checking the parameters behind those of the names in `seen` succeeds if and only if the
names are distinct and the extents keep the rules. -/
theorem resolveAll_decides (hc : c.Shows Γ) (Φ : Headings) (function : String)
    (seen : List String) (ps : List (Param α)) :
    Decides (((ps.map Param.name).Nodup ∧ ∀ p ∈ ps, p.name ∉ seen) ∧
        ∀ p ∈ ps, Expr.ExtentsValid Γ Φ p.dims)
      (AllCheckedAs Γ Φ ps) (resolveAll c function seen ps) := by
  induction ps generalizing seen with
  | nil => exact Decides.congr (Decides.pure ⟨rfl, rfl, nofun⟩) (by simp)
  | cons p ps ih =>
    refine Decides.congr (Decides.guard fun _ => (resolve_decides hc Φ p).bind fun _ r hr =>
      (ih (p.name :: seen)).map fun _ rs hrs => .cons hr hrs) ?_
    -- The names behind `p` differ from `p` because `p` is among the names that they have seen.
    simp only [List.map_cons, List.nodup_cons, List.mem_cons, List.mem_map, not_or, not_exists,
      not_and, forall_eq_or_imp]
    constructor
    · intro h
      rcases h with ⟨hp, hextents, ⟨hnodup, hseen⟩, hall⟩
      exact ⟨⟨⟨fun q hq => (hseen q hq).1, hnodup⟩, hp, fun q hq => (hseen q hq).2⟩, hextents, hall⟩
    · intro h
      rcases h with ⟨⟨⟨hfirst, hnodup⟩, hp, hseen⟩, hextents, hall⟩
      exact ⟨hp, hextents, ⟨hnodup, fun q hq => ⟨hfirst q hq, hseen q hq⟩⟩, hall⟩

end Param

/-! ### Heads -/

namespace Function

/-- Whether the head of a function keeps the rules, apart from those about its name. -/
def HeadValid (Γ : Context) (Φ : Headings) (f : Function α) : Prop :=
  (f.params.map Param.name).Nodup ∧ ∀ p ∈ f.params, Expr.ExtentsValid Γ Φ p.dims

/-- Whether the body of a function keeps the rules. -/
def BodyValid (Γ : Context) (Φ : Headings) (f : Function α) : Prop :=
  Item.AllValid (f.context Γ ++ Γ) Φ f.returns false f.body.items ∧
    (Item.names f.body.items).Nodup ∧ ∀ name ∈ Item.names f.body.items,
      name ∉ f.params.map Param.name

/-- Head and body together are the rules for a function. -/
theorem valid_iff (f : Function α) :
    f.Valid Γ Φ ↔ f.HeadValid Γ Φ ∧ f.BodyValid Γ Φ := by
  constructor
  · intro h
    rcases h with ⟨hnodup, hparams, hbody⟩
    obtain ⟨hps, hitems, hdisjoint⟩ := List.nodup_append.mp hnodup
    exact ⟨⟨hps, hparams⟩, hbody, hitems, fun name hname hp => hdisjoint name hp name hname rfl⟩
  · intro h
    rcases h with ⟨⟨hps, hparams⟩, hbody, hitems, hdisjoint⟩
    refine ⟨List.nodup_append.mpr ⟨hps, hitems, ?_⟩, hparams, hbody⟩
    intro name hp other hother hsame
    subst hsame
    exact hdisjoint name hother hp

/-- Whether `r` is what registering makes of a function. -/
structure RegisteredAs (Γ : Context) (Φ : Headings) (f : Function α) (r : Registered α) :
    Prop where
  name : r.name = f.name
  heading : r.signature.heading = f.heading Γ
  declared : ∀ p ∈ r.signature.params, p.type.Declared
  params : r.params.map (Param.map ValueType.typing) =
    f.params.map fun p => (p.annotate Γ Φ).fold Γ
  body : r.body = f.body
  location : r.location = f.location

theorem resolve_decides (hc : c.Shows Γ) (Φ : Headings) (f : Function α) :
    Decides ((c.functions.contains f.name = false ∧ c.scopes.declaresGlobally f.name = false) ∧
        f.HeadValid Γ Φ)
      (f.RegisteredAs Γ Φ) (f.resolve c) := by
  refine Decides.congr (Decides.guard fun _ =>
    (Param.resolveAll_decides hc Φ f.name [] f.params).map fun _ rs hrs =>
      ⟨rfl, ?_, ?_, ?_, rfl, rfl⟩) (by simp [HeadValid])
  · rw [Signature.heading, heading, context, ← hrs.meanings, List.map_map]
    rfl
  · intro p hp
    obtain ⟨r, hr, rfl⟩ := List.mem_map.mp hp
    exact hrs.declared r hr
  · rw [← hrs.trees, List.map_map]
    rfl

/-! ### Bodies -/

/-- In a scope that was just entered, a name means what its frame tells, or else what it
meant outside. -/
theorem lookup?_enter (s : Scopes) (frame : Frame) (name : String) :
    (s.enter frame).lookup? name = (frame.lookup name).or (s.lookup? name) := by
  rw [Scopes.lookup?, Scopes.enter, List.cons_append, List.findSome?_cons]
  cases frame.lookup name <;> rfl

/-- The body of a function starts with the parameters of its function on top of what is
visible outside. -/
theorem shows_enterFunction (hc : c.Shows Γ) (name : String) {s : Signature}
    (hs : ∀ p ∈ s.params, p.type.Declared) :
    (c.enterFunction name s).Shows (s.heading.params ++ Γ) := by
  have hframe (other : String) := lookup_map_snd ValueType.meaning other
    (s.params.map fun p => (p.name, p.type))
  refine ⟨fun other => ?_, fun other t ht => ?_⟩
  · rw [List.lookup_append, hc.names]
    show _ = ((c.scopes.enter _).lookup? other).map _
    rw [lookup?_enter, Option.map_or, ← hframe, List.map_map]
    rfl
  · change (c.scopes.enter _).lookup? other = some t at ht
    rw [lookup?_enter, Option.or_eq_some_iff] at ht
    rcases ht with ht | ⟨-, ht⟩
    · obtain ⟨l₁, l₂, hl, -⟩ := List.lookup_eq_some_iff.mp ht
      have hmem : (other, t) ∈ s.params.map fun p => (p.name, p.type) := by simp [hl]
      obtain ⟨p, hp, hpt⟩ := List.mem_map.mp hmem
      obtain rfl : p.type = t := congrArg Prod.snd hpt
      exact hs p hp
    · exact hc.declared other t ht

/-- At the start of a body the names of the parameters are taken. -/
theorem newNames_enterFunction (name : String) (s : Signature) (names : List String) :
    (c.enterFunction name s).NewNames names ↔
      names.Nodup ∧ ∀ other ∈ names, other ∉ s.heading.params.map Prod.fst := by
  refine and_congr_right' (forall₂_congr fun other _ => ?_)
  rw [← Bool.not_eq_true]
  show ¬ (List.lookup other (s.params.map fun p => (p.name, p.type))).isSome = true ↔ _
  rw [List.lookup_isSome_iff]
  simp [Signature.heading, @eq_comm _ other]

theorem RegisteredAs.returns {f : Function α} {r : Registered α} (hr : f.RegisteredAs Γ Φ r) :
    r.signature.returns = f.returns :=
  congrArg Heading.returns hr.heading

/-- The state in which the body of a registered function starts is one inside that body. -/
theorem RegisteredAs.inBody {f : Function α} {r : Registered α} (hr : f.RegisteredAs Γ Φ r)
    (hc : c.Agrees Γ Φ) :
    (c.enterFunction r.name r.signature).InBody (f.context Γ ++ Γ) Φ f.returns false := by
  have hshows := shows_enterFunction hc.toShows r.name hr.declared
  rw [hr.heading] at hshows
  refine ⟨⟨hshows, hc.functions⟩, ⟨r.name, ?_⟩, ?_, _, _, rfl⟩
  · rw [← hr.returns]
    rfl
  · simp [Checker.enterFunction]

/-- Checking the body of a registered function succeeds if and only if the body keeps the
rules, and leaves the state as it was. -/
theorem checkBody_decides {f : Function α} {r : Registered α} (hr : f.RegisteredAs Γ Φ r)
    (hc : c.Agrees Γ Φ) (hrunning : c.running = none) (hloops : c.loopDepth = 0)
    (hvoid : Item.AllVoidFree f.body.items) :
    Checking.Decides c (f.BodyValid Γ Φ)
      (fun f' c' => f'.map ValueType.typing = (f.annotate Γ Φ).fold Γ ∧ c' = c) r.checkBody := by
  have hitems := Stmt.checkItems_decides f.body.items (hr.inBody hc) hvoid
  rw [newNames_enterFunction, hr.heading] at hitems
  unfold Registered.checkBody
  rw [hr.body]
  refine Checking.Decides.congr
    ((Checking.Decides.within (Q := fun items' c' =>
        Item.mapAll ValueType.typing items' =
          Item.foldAll (f.context Γ ++ Γ) (Item.annotateAll (f.context Γ ++ Γ) Φ f.body.items) ∧
        c' = c) (hitems.imp fun _ items' c' hitems' => ⟨hitems'.1, ?_⟩)).map
      fun _ items' c' hitems' => ⟨?_, hitems'.2⟩) ?_
  · -- No function was running and no loop was open, so leaving gives back the state outside.
    have hleave : c'.leaveFunction = { c'.leaveBlock with running := none } := rfl
    rw [hleave, hitems'.2, ← hrunning, Checker.leaveBlock, Checker.enterFunction,
      Scopes.leave_enter, ← hloops]
  · rw [fold, context_annotate]
    simp only [map, annotate, hr.name, hr.returns, hr.params, hr.location, hitems'.1, List.map_map]
    rfl
  · rw [BodyValid]
    simp [heading, context]

end Function

end SysYFront
