import Mathlib.Data.List.Forall2
import SysYFront.Proofs.Session.Restore

/-!
# SysYFront.Proofs.Session.Passes

The three passes over a program as runs over lists. A pass treats the units of one kind in their
order and leaves the others where they are. So it is a run over the list of those units, and the
results are put back into their places (`TopLevel.refill`).

Between two units a checker only grows, by a declared name (`Checker.declareAll`) or by a
signature (`Checker.registerAll`), and nothing that it knew before is hidden or replaced. The pass
over the bodies does not change it at all.
-/

namespace SysYFront

variable {α β : Type}

/-! ### Runs over lists -/

namespace Checking

variable {f : α → Checking β} {c c' : Checker} {e : Diagnostic}

@[simp] theorem mapM_nil_eq_ok {bs : List β} :
    [].mapM f c = .ok bs c' ↔ [] = bs ∧ c = c' := by
  rw [List.mapM_nil, pure_eq_ok]

theorem mapM_cons_eq_ok {a : α} {as : List α} {bs : List β} :
    (a :: as).mapM f c = .ok bs c' ↔
      ∃ b c₁, f a c = .ok b c₁ ∧ ∃ bs', as.mapM f c₁ = .ok bs' c' ∧ b :: bs' = bs := by
  rw [List.mapM_cons, bind_eq_ok]
  simp only [map_eq_ok]

/-- A run over two lists starts with the second one where the first one has ended. -/
theorem mapM_append_eq_ok {as as' : List α} {bs : List β} :
    (as ++ as').mapM f c = .ok bs c' ↔
      ∃ bs₁ c₁, as.mapM f c = .ok bs₁ c₁ ∧ ∃ bs₂, as'.mapM f c₁ = .ok bs₂ c' ∧ bs₁ ++ bs₂ = bs := by
  rw [List.mapM_append, bind_eq_ok]
  simp only [map_eq_ok]

theorem length_of_mapM_eq_ok {as : List α} {bs : List β} (h : as.mapM f c = .ok bs c') :
    bs.length = as.length := by
  induction as generalizing bs c with
  | nil =>
    obtain ⟨rfl, -⟩ := mapM_nil_eq_ok.mp h
    rfl
  | cons a as ih =>
    obtain ⟨b, c₁, -, bs', hrest, rfl⟩ := mapM_cons_eq_ok.mp h
    rw [List.length_cons, List.length_cons, ih hrest]

theorem bind_eq_error {γ : Type} {m : Checking β} {g : β → Checking γ} :
    (m >>= g) c = .error e c' ↔
      m c = .error e c' ∨ ∃ b c₁, m c = .ok b c₁ ∧ g b c₁ = .error e c' := by
  change EStateM.bind m g c = _ ↔ _
  unfold EStateM.bind
  cases m c <;> simp [and_assoc]

/-- A chain whose last link only puts a result together fails where its first link does. -/
theorem map_eq_error {γ : Type} {m : Checking β} {g : β → γ} :
    (m >>= fun b => pure (g b)) c = .error e c' ↔ m c = .error e c' := by
  rw [bind_eq_error]
  exact or_iff_left nofun

/-- A run fails at the first element whose check fails, and ends where that check ends. -/
theorem mapM_eq_error {as : List α} :
    as.mapM f c = .error e c' ↔ ∃ done a rest bs c₁, as = done ++ a :: rest ∧
      done.mapM f c = .ok bs c₁ ∧ f a c₁ = .error e c' := by
  induction as generalizing c with
  | nil =>
    refine iff_of_false nofun fun h => ?_
    obtain ⟨done, a, rest, bs, c₁, hsplit, -⟩ := h
    cases done <;> cases hsplit
  | cons a as ih =>
    rw [List.mapM_cons, bind_eq_error]
    simp only [map_eq_error, ih]
    constructor
    · intro h
      rcases h with hfirst | ⟨b, c₁, hfirst, done, x, rest, bs, c₂, rfl, hdone, hx⟩
      · exact ⟨[], a, as, [], c, rfl, rfl, hfirst⟩
      · exact ⟨a :: done, x, rest, b :: bs, c₂, rfl,
          mapM_cons_eq_ok.mpr ⟨b, c₁, hfirst, bs, hdone, rfl⟩, hx⟩
    · intro h
      obtain ⟨done, x, rest, bs, c₂, hsplit, hdone, hx⟩ := h
      cases done with
      | nil =>
        cases hsplit
        obtain ⟨-, rfl⟩ := mapM_nil_eq_ok.mp hdone
        exact .inl hx
      | cons first done =>
        cases hsplit
        obtain ⟨b, c₁, hfirst, bs', hdone, -⟩ := mapM_cons_eq_ok.mp hdone
        exact .inr ⟨b, c₁, hfirst, done, x, rest, bs', c₂, rfl, hdone, hx⟩

end Checking

/-! ### Putting results into their places -/

namespace TopLevel

variable {δ δ' φ φ' : Type}

/-- Puts declarations and functions in the places of those of a program, in their order. Places
for which nothing is left are dropped. -/
def refill : List (TopLevel δ φ) → List δ' → List φ' → List (TopLevel δ' φ')
  | [], _, _ => []
  | .global _ :: units, ds, fs =>
    match ds with
    | d :: ds => .global d :: refill units ds fs
    | [] => refill units [] fs
  | .function _ :: units, ds, fs =>
    match fs with
    | f :: fs => .function f :: refill units ds fs
    | [] => refill units ds []

section Monad

variable {m : Type → Type} [Monad m] [LawfulMonad m]

/-- A pass over the declarations is a run over the list of them. -/
theorem mapGlobals_eq (f : δ → m δ') (units : List (TopLevel δ φ)) :
    mapGlobals f units =
      (units.filterMap global?).mapM f >>= fun ds =>
        pure (refill units ds (units.filterMap function?)) := by
  induction units with
  | nil => simp [mapGlobals, refill]
  | cons unit units ih =>
    cases unit <;> simp [mapGlobals, refill, ih, global?, function?, List.filterMap_cons]

/-- A pass over the functions is a run over the list of them. -/
theorem mapFunctions_eq (f : φ → m φ') (units : List (TopLevel δ φ)) :
    mapFunctions f units =
      (units.filterMap function?).mapM f >>= fun fs =>
        pure (refill units (units.filterMap global?) fs) := by
  induction units with
  | nil => simp [mapFunctions, refill]
  | cons unit units ih =>
    cases unit <;> simp [mapFunctions, refill, ih, global?, function?, List.filterMap_cons]

end Monad

theorem functions_refill {units : List (TopLevel δ φ)} (ds : List δ') {fs : List φ'}
    (h : fs.length = (units.filterMap function?).length) :
    (refill units ds fs).filterMap function? = fs := by
  induction units generalizing ds fs with
  | nil => exact (List.eq_nil_of_length_eq_zero h).symm
  | cons unit units ih =>
    cases unit with
    | global d => cases ds <;> exact ih _ h
    | function f =>
      cases fs with
      | nil => cases h
      | cons f' fs => exact congrArg (f' :: ·) (ih ds (Nat.succ.inj h))

/-- Functions may be put in place again: the declarations stay. -/
theorem refill_refill {φ'' : Type} {units : List (TopLevel δ φ)} (ds : List δ') {fs : List φ'}
    (h : fs.length = (units.filterMap function?).length) (fs' : List φ'') :
    refill (refill units ds fs) ((refill units ds fs).filterMap global?) fs' =
      refill units ds fs' := by
  induction units generalizing ds fs fs' with
  | nil => rfl
  | cons unit units ih =>
    cases unit with
    | global d =>
      cases ds with
      | nil => exact ih [] h fs'
      | cons d' ds => exact congrArg (.global d' :: ·) (ih ds h fs')
    | function f =>
      cases fs with
      | nil => cases h
      | cons f' fs =>
        cases fs' with
        | nil => exact ih ds (Nat.succ.inj h) []
        | cons f'' fs' => exact congrArg (.function f'' :: ·) (ih ds (Nat.succ.inj h) fs')

/-- A pass over functions that were put in place is a run over the list of them. -/
theorem mapFunctions_refill {φ'' : Type} {m : Type → Type} [Monad m] [LawfulMonad m]
    {units : List (TopLevel δ φ)} (ds : List δ') {gs : List φ'}
    (h : gs.length = (units.filterMap function?).length) (f : φ' → m φ'') :
    mapFunctions f (refill units ds gs) = gs.mapM f >>= fun fs => pure (refill units ds fs) := by
  rw [mapFunctions_eq, functions_refill ds h]
  simp only [refill_refill ds h]

/-- The places of one program behind those of another. -/
theorem refill_append {units units' : List (TopLevel δ φ)} {ds ds' : List δ'} {fs fs' : List φ'}
    (hds : ds.length = (units.filterMap global?).length)
    (hfs : fs.length = (units.filterMap function?).length) :
    refill (units ++ units') (ds ++ ds') (fs ++ fs') =
      refill units ds fs ++ refill units' ds' fs' := by
  induction units generalizing ds fs with
  | nil =>
    obtain rfl := List.eq_nil_of_length_eq_zero hds
    obtain rfl := List.eq_nil_of_length_eq_zero hfs
    rfl
  | cons unit units ih =>
    cases unit with
    | global d =>
      cases ds with
      | nil => cases hds
      | cons d' ds => exact congrArg (.global d' :: ·) (ih (Nat.succ.inj hds) hfs)
    | function f =>
      cases fs with
      | nil => cases hfs
      | cons f' fs => exact congrArg (.function f' :: ·) (ih hds (Nat.succ.inj hfs))

end TopLevel

namespace Program

open TopLevel

@[simp] theorem globals_append (p p' : Program α) :
    globals (p ++ p') = globals p ++ globals p' :=
  List.filterMap_append

@[simp] theorem functions_append (p p' : Program α) :
    functions (p ++ p') = functions p ++ functions p' :=
  List.filterMap_append

variable {p : Program α} {c c' : Checker} {e : Diagnostic}

/-- A program is accepted if the three runs over its lists of units succeed, one behind the
other. -/
theorem check_eq_ok {q : Program ValueType} :
    p.check c = .ok q c' ↔ ∃ ds c₁, p.globals.mapM Decl.check c = .ok ds c₁ ∧
      ∃ rs c₂, p.functions.mapM Function.register c₁ = .ok rs c₂ ∧
        ∃ fs, rs.mapM Registered.checkBody c₂ = .ok fs c' ∧ refill p ds fs = q := by
  rw [check, mapGlobals_eq, bind_assoc, Checking.bind_eq_ok]
  refine exists₂_congr fun ds c₁ => and_congr_right fun _ => ?_
  rw [pure_bind, mapFunctions_refill ds rfl, bind_assoc, Checking.bind_eq_ok]
  refine exists₂_congr fun rs c₂ => and_congr_right fun hrs => ?_
  rw [pure_bind, mapFunctions_refill ds (Checking.length_of_mapM_eq_ok hrs), Checking.map_eq_ok]

/-- A program is refused if one of the three runs fails, behind those that succeed. -/
theorem check_eq_error :
    p.check c = .error e c' ↔ p.globals.mapM Decl.check c = .error e c' ∨
      ∃ ds c₁, p.globals.mapM Decl.check c = .ok ds c₁ ∧
        (p.functions.mapM Function.register c₁ = .error e c' ∨
          ∃ rs c₂, p.functions.mapM Function.register c₁ = .ok rs c₂ ∧
            rs.mapM Registered.checkBody c₂ = .error e c') := by
  rw [check, mapGlobals_eq, bind_assoc, Checking.bind_eq_error]
  refine or_congr_right (exists₂_congr fun ds c₁ => and_congr_right fun _ => ?_)
  rw [pure_bind, mapFunctions_refill ds rfl, bind_assoc, Checking.bind_eq_error]
  refine or_congr_right (exists₂_congr fun rs c₂ => and_congr_right fun hrs => ?_)
  rw [pure_bind, mapFunctions_refill ds (Checking.length_of_mapM_eq_ok hrs),
    Checking.map_eq_error]

end Program

/-! ### States between two units -/

namespace Checker

variable {c c' : Checker}

/-- The checker behind some checked declarations. -/
def declareAll (ds : List (Decl ValueType)) (c : Checker) : Checker :=
  ds.foldl (fun c d => c.declare d.name d.note) c

/-- The checker behind the registration of some functions. -/
def registerAll (rs : List (Registered α)) (c : Checker) : Checker :=
  rs.foldl (fun c r => c.addFunction r.name r.signature) c

@[simp] theorem declareAll_nil (c : Checker) : c.declareAll [] = c := rfl

@[simp] theorem declareAll_cons (c : Checker) (d : Decl ValueType) (ds : List (Decl ValueType)) :
    c.declareAll (d :: ds) = (c.declare d.name d.note).declareAll ds := rfl

@[simp] theorem registerAll_nil (c : Checker) : c.registerAll ([] : List (Registered α)) = c := rfl

@[simp] theorem registerAll_cons (c : Checker) (r : Registered α) (rs : List (Registered α)) :
    c.registerAll (r :: rs) = (c.addFunction r.name r.signature).registerAll rs := rfl

theorem declareAll_append (c : Checker) (ds ds' : List (Decl ValueType)) :
    c.declareAll (ds ++ ds') = (c.declareAll ds).declareAll ds' :=
  List.foldl_append

theorem registerAll_append (c : Checker) (rs rs' : List (Registered α)) :
    c.registerAll (rs ++ rs') = (c.registerAll rs).registerAll rs' :=
  List.foldl_append

@[simp] theorem functions_declareAll (c : Checker) (ds : List (Decl ValueType)) :
    (c.declareAll ds).functions = c.functions := by
  induction ds generalizing c with
  | nil => rfl
  | cons d ds ih => exact ih _

@[simp] theorem scopes_registerAll (c : Checker) (rs : List (Registered α)) :
    (c.registerAll rs).scopes = c.scopes := by
  induction rs generalizing c with
  | nil => rfl
  | cons r rs ih => exact ih _

/-- Declarations and registrations do not get in each other's way. -/
theorem declareAll_registerAll (c : Checker) (ds : List (Decl ValueType))
    (rs : List (Registered α)) :
    (c.registerAll rs).declareAll ds = (c.declareAll ds).registerAll rs := by
  have hone (c : Checker) (r : Registered α) :
      (c.addFunction r.name r.signature).declareAll ds =
        (c.declareAll ds).addFunction r.name r.signature := by
    induction ds generalizing c with
    | nil => rfl
    | cons d ds ih => exact ih (c.declare d.name d.note)
  induction rs generalizing c with
  | nil => rfl
  | cons r rs ih => rw [registerAll_cons, ih, hone, registerAll_cons]

namespace Idle

theorem fresh : Checker.fresh.Idle :=
  ⟨rfl, rfl, rfl⟩

theorem addFunction (hc : c.Idle) (name : String) (s : Signature) :
    (c.addFunction name s).Idle :=
  ⟨hc.inner, hc.running, hc.loops⟩

theorem declareAll (hc : c.Idle) (ds : List (Decl ValueType)) : (c.declareAll ds).Idle := by
  induction ds generalizing c with
  | nil => exact hc
  | cons d ds ih => exact ih (hc.declare d.name d.note)

theorem registerAll (hc : c.Idle) (rs : List (Registered α)) : (c.registerAll rs).Idle := by
  induction rs generalizing c with
  | nil => exact hc
  | cons r rs ih => exact ih (hc.addFunction r.name r.signature)

/-- Between two units, declarations stand in the global frame, the latest first. -/
theorem globals_declareAll (hc : c.Idle) (ds : List (Decl ValueType)) :
    (c.declareAll ds).scopes.globals =
      (ds.map fun d => (d.name, d.note)).reverse ++ c.scopes.globals := by
  induction ds generalizing c with
  | nil => rfl
  | cons d ds ih =>
    rw [declareAll_cons, ih (hc.declare d.name d.note), List.map_cons, List.reverse_cons,
      List.append_assoc]
    simp [Checker.declare, Scopes.insert, hc.inner]

end Idle

end Checker

/-! ### Runs between two units -/

/-- Every name that `s` shows means the same in `s'`. -/
def Scopes.IncludedIn (s s' : Scopes) : Prop :=
  ∀ name t, s.lookup? name = some t → s'.lookup? name = some t

/-- Every function of `t` has the same signature in `t'`. -/
def SignatureTable.IncludedIn (t t' : SignatureTable) : Prop :=
  ∀ name s, t.get? name = some s → t'.get? name = some s

/-- A name that is new does not hide another one. -/
theorem Scopes.includedIn_insert {s : Scopes} {name : String} (h : s.lookup? name = none)
    (t : ValueType) : s.IncludedIn (s.insert name t) := by
  intro other u hu
  rw [lookup?_insert]
  by_cases hname : other = name
  · subst hname
    rw [h] at hu
    cases hu
  · rw [if_neg (by simpa using hname)]
    exact hu

/-- Where keys are distinct, each has the value of its entry. -/
theorem lookup_eq_some_iff_mem {β : Type} {entries : List (String × β)}
    (h : (entries.map Prod.fst).Nodup) {name : String} {b : β} :
    entries.lookup name = some b ↔ (name, b) ∈ entries := by
  rw [List.lookup_eq_some_iff]
  constructor
  · rintro ⟨before, behind, rfl, -⟩
    exact List.mem_append_right _ List.mem_cons_self
  · intro hmem
    obtain ⟨before, behind, rfl⟩ := List.append_of_mem hmem
    rw [List.map_append, List.map_cons, List.nodup_append] at h
    refine ⟨before, behind, rfl, fun entry hentry => bne_iff_ne.mpr fun hname => ?_⟩
    exact h.2.2 _ (List.mem_map_of_mem hentry) _ List.mem_cons_self hname.symm

/-- Then the order of the entries makes no difference. -/
theorem lookup_eq_of_perm {β : Type} {entries entries' : List (String × β)}
    (h : (entries.map Prod.fst).Nodup) (hperm : entries.Perm entries') (name : String) :
    entries.lookup name = entries'.lookup name := by
  have h' : (entries'.map Prod.fst).Nodup := (hperm.map Prod.fst).nodup_iff.mp h
  ext b
  rw [lookup_eq_some_iff_mem h, lookup_eq_some_iff_mem h', hperm.mem_iff]

namespace SignatureTable

theorem includedIn_insert {t : SignatureTable} {name : String} (h : t.contains name = false)
    (s : Signature) : t.IncludedIn (t.insert name s) := by
  intro other u hu
  rw [get?_insert]
  by_cases hname : other = name
  · subst hname
    rw [contains, hu] at h
    cases h
  · rw [if_neg (by simpa using hname)]
    exact hu

/-- A name has the signature of its entry. -/
theorem get?_eq_some_iff {t : SignatureTable} {name : String} {s : Signature} :
    t.get? name = some s ↔ (name, s) ∈ t.entries :=
  lookup_eq_some_iff_mem t.distinct

/-- Which signature a name has does not depend on the order of the entries. -/
theorem get?_eq_of_perm {t t' : SignatureTable} (h : t.entries.Perm t'.entries) (name : String) :
    t.get? name = t'.get? name :=
  lookup_eq_of_perm t.distinct h name

/-- A function whose name is new stands before the others. -/
theorem entries_insert {t : SignatureTable} {name : String} (h : t.contains name = false)
    (s : Signature) : (t.insert name s).entries = (name, s) :: t.entries := by
  refine congrArg ((name, s) :: ·) (List.filter_eq_self.mpr fun entry hentry => ?_)
  have hnone : t.entries.lookup name = none := by
    simpa [contains, get?] using h
  rw [bne_comm]
  exact List.lookup_eq_none_iff.mp hnone entry hentry

end SignatureTable

/-- Between two units, a name means its global declaration. -/
theorem Checker.Idle.lookup?_eq {c : Checker} (hc : c.Idle) (name : String) :
    c.scopes.lookup? name = c.scopes.globals.lookup name := by
  rw [Scopes.lookup?, hc.inner]
  simp

section Runs

variable {c c' : Checker}

/-- A declaration that is checked has its own name, which was new in its scope. -/
theorem Decl.resolve_name {d : Decl α} {d' : Decl ValueType} (h : d.resolve c = .ok d') :
    d'.name = d.name ∧ c.scopes.declaresHere d'.name = false := by
  simp only [resolve, guard_eq_ok, bind_eq_ok, Prod.exists] at h
  obtain ⟨hnew, dims, extents, -, h⟩ := h
  cases hcount : Shape.count? extents with
  | none => simp [hcount] at h
  | some count =>
    simp only [hcount, bind_eq_ok, pure_eq_ok, Prod.exists] at h
    obtain ⟨init, leaves, -, rfl⟩ := h
    exact ⟨rfl, by simpa using hnew⟩

/-- A function whose head is checked has its own name, which was new. -/
theorem Function.resolve_name {f : Function α} {r : Registered α} (h : f.resolve c = .ok r) :
    r.name = f.name ∧ c.functions.contains r.name = false ∧
      c.scopes.declaresGlobally r.name = false := by
  simp only [resolve, guard_eq_ok, bind_eq_ok, pure_eq_ok] at h
  obtain ⟨hnew, params, -, rfl⟩ := h
  simpa using hnew

theorem Decl.mapM_check_eq_ok {ds : List (Decl α)} {ds' : List (Decl ValueType)}
    (h : ds.mapM Decl.check c = .ok ds' c') : c' = c.declareAll ds' := by
  induction ds generalizing c ds' with
  | nil =>
    obtain ⟨rfl, rfl⟩ := Checking.mapM_nil_eq_ok.mp h
    rfl
  | cons d ds ih =>
    obtain ⟨d', c₁, hd, ds', hrest, rfl⟩ := Checking.mapM_cons_eq_ok.mp h
    obtain ⟨-, rfl⟩ := Decl.check_eq_ok.mp hd
    rw [Checker.declareAll_cons]
    exact ih hrest

theorem Function.mapM_register_eq_ok {fs : List (Function α)} {rs : List (Registered α)}
    (h : fs.mapM Function.register c = .ok rs c') : c' = c.registerAll rs := by
  induction fs generalizing c rs with
  | nil =>
    obtain ⟨rfl, rfl⟩ := Checking.mapM_nil_eq_ok.mp h
    rfl
  | cons f fs ih =>
    obtain ⟨r, c₁, hr, rs, hrest, rfl⟩ := Checking.mapM_cons_eq_ok.mp h
    obtain ⟨-, rfl⟩ := Function.register_eq_ok.mp hr
    rw [Checker.registerAll_cons]
    exact ih hrest

/-- Checked declarations hide nothing that was declared before them. -/
theorem Decl.mapM_check_includedIn (hc : c.Idle) {ds : List (Decl α)}
    {ds' : List (Decl ValueType)} (h : ds.mapM Decl.check c = .ok ds' c') :
    c.scopes.IncludedIn c'.scopes := by
  induction ds generalizing c ds' with
  | nil =>
    obtain ⟨-, rfl⟩ := Checking.mapM_nil_eq_ok.mp h
    exact fun _ _ ht => ht
  | cons d ds ih =>
    obtain ⟨d', c₁, hd, ds', hrest, rfl⟩ := Checking.mapM_cons_eq_ok.mp h
    obtain ⟨hresolve, rfl⟩ := Decl.check_eq_ok.mp hd
    have hnew : c.scopes.lookup? d'.name = none := by
      rw [hc.lookup?_eq]
      have hhere := (Decl.resolve_name hresolve).2
      rw [hc.declaresHere] at hhere
      simpa [Scopes.declaresGlobally] using hhere
    intro name t ht
    exact ih (hc.declare _ _) hrest name t (Scopes.includedIn_insert hnew _ name t ht)

/-- Registered functions stand before those that were known, the latest first, and replace none
of them. -/
theorem Function.mapM_register_entries {fs : List (Function α)} {rs : List (Registered α)}
    (h : fs.mapM Function.register c = .ok rs c') :
    c'.functions.entries = (rs.map fun r => (r.name, r.signature)).reverse ++ c.functions.entries ∧
      c.functions.IncludedIn c'.functions := by
  induction fs generalizing c rs with
  | nil =>
    obtain ⟨rfl, rfl⟩ := Checking.mapM_nil_eq_ok.mp h
    exact ⟨rfl, fun _ _ hs => hs⟩
  | cons f fs ih =>
    obtain ⟨r, c₁, hr, rs, hrest, rfl⟩ := Checking.mapM_cons_eq_ok.mp h
    obtain ⟨hresolve, rfl⟩ := Function.register_eq_ok.mp hr
    have hnew := (Function.resolve_name hresolve).2.1
    obtain ⟨hentries, hincluded⟩ := ih hrest
    refine ⟨?_, fun name s hs =>
      hincluded name s (SignatureTable.includedIn_insert hnew _ name s hs)⟩
    rw [hentries, Checker.addFunction, SignatureTable.entries_insert hnew]
    simp

/-- Bodies are checked independently of each other, all in one state. -/
theorem Registered.mapM_checkBody_eq_ok (hc : c.Idle) {rs : List (Registered α)}
    {fs : List (Function ValueType)} :
    rs.mapM Registered.checkBody c = .ok fs c' ↔
      List.Forall₂ (fun r f => r.checkBody c = .ok f c) rs fs ∧ c' = c := by
  induction rs generalizing fs with
  | nil =>
    rw [Checking.mapM_nil_eq_ok, List.forall₂_nil_left_iff]
    exact and_congr eq_comm eq_comm
  | cons r rs ih =>
    rw [Checking.mapM_cons_eq_ok, List.forall₂_cons_left_iff]
    constructor
    · intro h
      obtain ⟨f, c₁, hf, fs, hrest, rfl⟩ := h
      obtain ⟨hf, rfl⟩ := (Registered.checkBody_eq_ok hc).mp hf
      obtain ⟨hrest, rfl⟩ := ih.mp hrest
      exact ⟨⟨f, fs, hf, hrest, rfl⟩, rfl⟩
    · intro h
      obtain ⟨⟨f, fs, hf, hrest, rfl⟩, rfl⟩ := h
      exact ⟨f, c', hf, fs, ih.mpr ⟨hrest, rfl⟩, rfl⟩

end Runs

end SysYFront
