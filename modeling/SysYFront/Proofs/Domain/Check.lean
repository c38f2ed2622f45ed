import SysYFront.Proofs.Domain.Layout
import SysYFront.Proofs.Invariant.Points
import SysYFront.Proofs.Layout.Table
import SysYFront.Proofs.Session.Passes

/-!
# SysYFront.Proofs.Domain.Check

**A check cannot fail internally.** `Checker.Performs` lists the operations that need good
operands and that the checker performs in some state, whatever it checks there: those on the
types that it meets, those of the walk over an initializer, and those of its own. At every point
of every run all of them are in their domain (`check_always_inDomain`).

Most of that follows from the types being well-formed. The rest is about names: a declaration is
resolved only if its name is new, and the parameters of a function are distinct, so no scope ever
refuses one.
-/

namespace SysYFront

variable {α : Type}

/-! ### Parameters in the scope of a body -/

/-- The scopes with some parameters declared in the innermost one, one after the other. -/
def Scopes.insertAll (s : Scopes) (ps : List Parameter) : Scopes :=
  ps.foldl (fun s p => s.insert p.name p.type) s

theorem Scopes.insertAll_enter (s : Scopes) (frame : Frame) (ps : List Parameter) :
    (s.enter frame).insertAll ps =
      s.enter ((ps.map fun p => (p.name, p.type)).reverse ++ frame) := by
  induction ps generalizing frame with
  | nil => rfl
  | cons p ps ih =>
    show (s.enter ((p.name, p.type) :: frame)).insertAll ps = _
    rw [ih, List.map_cons, List.reverse_cons, List.append_assoc]
    rfl

/-- Parameters that are resolved have distinct names, none of which was seen before. -/
theorem Param.resolveAll_names {c : Checker} {function : String} {seen : List String}
    {ps : List (Param α)} {rs : List (Param ValueType × Parameter)}
    (h : resolveAll c function seen ps = .ok rs) :
    (rs.map fun r => r.2.name).Nodup ∧ ∀ r ∈ rs, r.2.name ∉ seen := by
  induction ps generalizing seen rs with
  | nil =>
    rw [resolveAll, pure_eq_ok] at h
    subst h
    exact ⟨List.nodup_nil, List.forall_mem_nil _⟩
  | cons p ps ih =>
    simp only [resolveAll, resolve, guard_eq_ok, bind_eq_ok, pure_eq_ok, Prod.exists] at h
    obtain ⟨hnew, _, _, ⟨dims, extents, -, -, ⟨⟩⟩, rs, hrs, rfl⟩ := h
    obtain ⟨hnodup, hseen⟩ := ih hrs
    refine ⟨List.nodup_cons.mpr ⟨?_, hnodup⟩, List.forall_mem_cons.mpr ⟨hnew, ?_⟩⟩
    · intro hmem
      obtain ⟨r, hr, hname⟩ := List.mem_map.mp hmem
      exact hseen r hr (hname ▸ List.mem_cons_self)
    · intro r hr hmem
      exact hseen r hr (List.mem_cons_of_mem _ hmem)

theorem Function.resolve_params_nodup {c : Checker} {f : Function α} {r : Registered α}
    (h : f.resolve c = .ok r) : (r.signature.params.map Parameter.name).Nodup := by
  simp only [resolve, guard_eq_ok, bind_eq_ok, pure_eq_ok] at h
  obtain ⟨-, params, hparams, rfl⟩ := h
  rw [List.map_map]
  exact (Param.resolveAll_names hparams).1

/-- Declared one after the other, the parameters of a function mean what they mean in its
body. -/
theorem Function.lookup?_insertAll {c : Checker} {f : Function α} {r : Registered α}
    (h : f.resolve c = .ok r) (inside : Checker) (name : String) :
    ((inside.scopes.enter []).insertAll r.signature.params).lookup? name =
      (inside.enterFunction r.name r.signature).scopes.lookup? name := by
  have hnodup : ((r.signature.params.map fun p => (p.name, p.type)).map Prod.fst).Nodup := by
    rw [List.map_map]
    exact Function.resolve_params_nodup h
  have hlookup := (lookup_eq_of_perm hnodup (List.reverse_perm _).symm name).symm
  rw [Scopes.insertAll_enter, List.append_nil]
  simp only [Scopes.lookup?, Scopes.enter, Checker.enterFunction, List.cons_append,
    List.findSome?_cons, hlookup]

/-! ### Operations of the checker -/

/-- The walks over the initializer of a declaration, if its extents are good ones. -/
def Decl.Walks (c : Checker) (d : Decl α) (w : Init.Walk α) : Prop :=
  ∃ dims extents count items l, Expr.checkExtents c d.dims = .ok (dims, extents) ∧
    Shape.count? extents = some count ∧ extents ≠ [] ∧ d.init = some (.list items l) ∧
    Init.Walk.Reaches c ⟨d.name, d.isConst || c.scopes.isGlobal⟩ ⟨extents, 0, 0, items⟩ w

namespace Checker

/-- The types that the checker comes across in a state: those of names and functions, those that
it gives to what it checks, and those of rows and elements of all of these. -/
inductive Meets (c : Checker) : ValueType → Prop
  | name {frame : Frame} {entry : String × ValueType} :
    frame ∈ c.scopes.frames → entry ∈ frame → Meets c entry.2
  | parameter {name : String} {s : Signature} {p : Parameter} :
    c.functions.get? name = some s → p ∈ s.params → Meets c p.type
  | result {name : String} {s : Signature} : c.functions.get? name = some s → Meets c s.result
  | expr {e : Expr Unit} {e' : Expr ValueType} : e.check c = .ok e' → Meets c e'.note
  | decl {d : Decl Unit} {d' : Decl ValueType} : d.base ≠ .void → d.resolve c = .ok d' →
    Meets c d'.note
  | param {p : Param Unit} {r : Param ValueType × Parameter} : p.resolve c = .ok r →
    Meets c r.2.type
  | row {t u : ValueType} {i : Int} : Meets c t → t.at? i = some u → Meets c u
  | element {t : ValueType} : Meets c t → Meets c t.element

/-- The operations that need good operands and that the checker performs in a state. -/
inductive Performs (c : Checker) : PartialOp → Prop
  | type {t : ValueType} {op : PartialOp} : c.Meets t → t.Performs op → Performs c op
  | layout {d : Decl Unit} {w : Init.Walk Unit} {op : PartialOp} : d.Walks c w → w.Performs op →
    Performs c op
  /-- The table of a constant is made for its shape. -/
  | withCells {d : Decl Unit} {d' : Decl ValueType} {w : Window} : d.resolve c = .ok d' →
    d'.note.window = some w → Performs c (.withCells d'.note.dims w.cells)
  /-- A declaration is resolved, and then its name is declared. -/
  | declare {d : Decl Unit} {d' : Decl ValueType} : d.resolve c = .ok d' →
    Performs c (.declare c.scopes d'.name d'.note)
  /-- The size of a parameter is taken without an open extent. -/
  | paramExtents {p : Param Unit} {dims : List (Expr ValueType)} {extents : List Int} :
    Expr.checkExtents c p.dims = .ok (dims, extents) →
    Performs c (.extentsFrom (if p.isOpen then 1 else 0)
      (if p.isOpen then Shape.openExtent :: extents else extents))
  /-- A function whose head is accepted here has its parameters declared in the scope of its body,
  in whatever state that is entered. -/
  | declareParam {f : Function Unit} {r : Registered Unit} {front behind : List Parameter}
    {p : Parameter} {inside : Checker} : f.resolve c = .ok r →
    r.signature.params = front ++ p :: behind →
    Performs c (.declare ((inside.scopes.enter []).insertAll front) p.name p.type)
  /-- The name of a function is held against the global variables. -/
  | globalFrame : Performs c (.frame 0 c.scopes.frames)
  /-- Behind the body of a loop, wherever its check ends, the loop is counted down. -/
  | countDown {s : Stmt Unit} {loops : Nat} :
    Checking.Ends (fun c' => c'.loopDepth = loops) (Stmt.check s) c.enterLoop →
    Performs c (.countDown loops)

variable {c : Checker}

theorem WellTyped.meets (hc : c.WellTyped) {t : ValueType} (h : c.Meets t) : t.WellFormed := by
  have hentry {name : String} {s : Signature} (hs : c.functions.get? name = some s) :
      (name, s) ∈ c.functions.entries := SignatureTable.get?_eq_some_iff.mp hs
  induction h with
  | name hframe hentry =>
    refine hc.frames _ ?_ _ hentry
    simpa [Scopes.frames] using hframe
  | parameter hs hp => exact hc.params _ (hentry hs) _ hp
  | result hs => exact hc.results _ (hentry hs)
  | expr he => exact (Expr.check_every hc he).note
  | decl hbase hd => exact (Decl.resolve_every hc hbase hd).note
  | param hp => exact (Param.resolve_every hp).2
  | row _ hu ih => exact ih.at? hu
  | element _ ih => exact ih.element

end Checker

variable {c : Checker}

/-- The walks over an initializer fit in the object that is declared. -/
theorem Decl.Walks.fits {d : Decl α} {w : Init.Walk α} (h : d.Walks c w) : w.Fits := by
  obtain ⟨dims, extents, count, items, l, hdims, hcount, hne, -, hreaches⟩ := h
  obtain ⟨hsmall, -⟩ := Shape.small_of_count? (Expr.checkExtents_every hdims).2 hcount
  refine hreaches.fits ⟨hne, hsmall, ?_, Nat.zero_le _⟩
  show 0 + Shape.size extents ≤ Shape.maxObjectSize
  rw [Nat.zero_add]
  exact hsmall.size_le

/-- The table of a constant has as many elements as its shape. -/
theorem Decl.resolve_size_cells {d : Decl α} {d' : Decl ValueType} {w : Window}
    (h : d.resolve c = .ok d') (hw : d'.note.window = some w) :
    w.cells.size = Shape.count d'.note.dims := by
  simp only [resolve, guard_eq_ok, bind_eq_ok, Prod.exists] at h
  obtain ⟨-, dims, extents, hdims, h⟩ := h
  split at h
  · cases h
  · rename_i count hcount
    simp only [bind_eq_ok, pure_eq_ok, Prod.exists] at h
    obtain ⟨init, leaves, -, rfl⟩ := h
    obtain ⟨hsmall, rfl⟩ := Shape.small_of_count? (Expr.checkExtents_every hdims).2 hcount
    simp only [resolvedType] at hw ⊢
    split at hw
    · rename_i hconst
      obtain rfl := Option.some.inj hw
      rw [if_pos hconst]
      show (Placed.cells d.base (Shape.size extents) leaves).size = Shape.count extents
      rw [Placed.size_cells, hsmall.count_eq]
    · cases hw

/-- No parameter is among those that are declared before it. -/
theorem Function.declaresHere_insertAll {f : Function α} {r : Registered α}
    {front behind : List Parameter} {p : Parameter} (h : f.resolve c = .ok r)
    (hparams : r.signature.params = front ++ p :: behind) (inside : Checker) :
    ((inside.scopes.enter []).insertAll front).declaresHere p.name = false := by
  have hnodup := Function.resolve_params_nodup h
  rw [hparams, List.map_append, List.map_cons, List.nodup_append] at hnodup
  obtain ⟨-, -, hdisjoint⟩ := hnodup
  rw [Scopes.insertAll_enter, List.append_nil]
  show (List.lookup p.name (front.map fun q => (q.name, q.type)).reverse).isSome = false
  rw [Bool.eq_false_iff, Ne, List.lookup_isSome_iff]
  rintro ⟨entry, hentry, hname⟩
  obtain ⟨q, hq, rfl⟩ := List.mem_map.mp (List.mem_reverse.mp hentry)
  exact hdisjoint _ (List.mem_map_of_mem hq) _ List.mem_cons_self (beq_iff_eq.mp hname).symm

/-- A scope takes the declaration of a name that it does not declare. -/
theorem Scopes.declare?_isSome {s : Scopes} {name : String} (h : s.declaresHere name = false)
    (t : ValueType) : (s.declare? name t).isSome = true := by
  simp [declare?, h]

/-- **Where the types of a state are well-formed, every operation is in its domain.** -/
theorem Checker.WellTyped.inDomain (hc : c.WellTyped) {op : PartialOp} (hop : c.Performs op) :
    op.InDomain := by
  cases hop with
  | type ht hop => exact (hc.meets ht).inDomain hop
  | layout hw hop => exact hw.fits.inDomain hop
  | withCells hd hw => exact Decl.resolve_size_cells hd hw
  | declare hd => exact Scopes.declare?_isSome (Decl.resolve_name hd).2 _
  | @paramExtents p dims extents _ =>
    show (if p.isOpen then 1 else 0) ≤ List.length _
    cases p.isOpen with
    | false => exact Nat.zero_le _
    | true => exact Nat.le_add_left 1 extents.length
  | declareParam hf hparams =>
    exact Scopes.declare?_isSome (Function.declaresHere_insertAll hf hparams _) _
  | globalFrame => exact Nat.zero_lt_succ _
  | @countDown s loops hends =>
    show 0 < loops
    -- Behind the body the loop is still the innermost one.
    have hrestored := Stmt.check_restores s c.enterLoop c.enterLoop rfl
    unfold Checking.Ends at hends
    split at hends
    · rename_i hcheck
      rw [hcheck] at hrestored
      rw [← hends, hrestored.2]
      exact Nat.succ_pos _
    · rename_i hcheck
      rw [hcheck] at hrestored
      rw [← hends, hrestored]
      exact Nat.succ_pos _

/-- **Checking cannot fail internally.** Whatever programs that can be read one checker has
checked, at every point of the check of the next one every operation that needs good operands has
them: shapes have the extents that are asked for, no count of elements is cut off, no sum or
product of element numbers passes the greatest address, a rounding up has a step to round to, a row
in range is there, a loop that ends was counted, and no declaration is dropped. -/
theorem check_always_inDomain {ps : List (Program Unit)} {p : Program Unit}
    (hps : ∀ q ∈ ps, q.Readable) (hp : p.Readable) :
    p.Always (fun c => ∀ op, c.Performs op → op.InDomain) (Checker.fresh.after ps) := by
  have hc := Checker.WellTyped.fresh.after fun q hq => (hps q hq).voidFree
  exact Program.always (fun c hc op hop => hc.inDomain hop) hp.voidFree hc

/-- The sample is checked twice by one checker, and the second time it is refused. Rows are
performed there, such as the one at index one of its constant array. -/
theorem sample_inDomain : sample.Readable ∧
    ((Checker.fresh.after [sample]).checkProgram sample).1.isOk = false ∧
    (∃ t, (Checker.fresh.after [sample]).Performs (.row t 1)) ∧
    sample.Always (fun c => ∀ op, c.Performs op → op.InDomain) (Checker.fresh.after [sample]) := by
  have hreadable : ∀ q ∈ [sample], q.Readable := by simpa using sample_readable
  have hrow : ∃ t, (Checker.fresh.after [sample]).Performs (.row t 1) :=
    ⟨_, .type (.name List.mem_cons_self List.mem_cons_self) (.row rfl rfl)⟩
  exact ⟨sample_readable, rfl, hrow, check_always_inDomain hreadable sample_readable⟩

end SysYFront
