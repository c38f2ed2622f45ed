import SysYFront.Proofs.Agreement.Layout

/-!
# SysYFront.Proofs.Layout.Seats

Initializers in braces with the place of every item. A bare expression has one element, and a list
in braces an inner array: as many elements as the array has, from its first one on. The items of a
list are *seated* (`Seats.Seated`) if each of them comes behind the one before it, an expression on
the very next element and a list on the next boundary of the inner arrays.

That is said item by item. What follows from it, at every depth, is that no two leaves meet and
that every list has its inner array for itself (`Seats.Seated.apart`).
-/

namespace SysYFront

open Shape (size)

/-- A leaf of an initializer, before and behind its check, and the element that it goes to. -/
structure SeatedLeaf (α : Type) where
  slot : Nat
  source : Expr α
  checked : Expr ValueType

/-- The items of a list in braces with their places. The place of a list is the first element of
the inner array that it stands for. -/
inductive Seats (α : Type)
  | nil
  | leaf (p : SeatedLeaf α) (rest : Seats α)
  | list (start : Nat) (inner : Seats α) (location : Location) (rest : Seats α)

/-- Some elements that lie one behind the other: those from `first` on, up to and without
`past`. -/
structure Stretch where
  first : Nat
  past : Nat

/-- A leaf without its source. -/
def SeatedLeaf.placed {α : Type} (p : SeatedLeaf α) : Placed :=
  ⟨p.slot, p.checked⟩

namespace Seats

variable {α : Type}

/-- The items as they were written. -/
def sources : Seats α → List (Init α)
  | nil => []
  | leaf p rest => .expr p.source :: rest.sources
  | list _ inner l rest => .list inner.sources l :: rest.sources

/-- The items behind their check. -/
def checked : Seats α → List (Init ValueType)
  | nil => []
  | leaf p rest => .expr p.checked :: rest.checked
  | list _ inner l rest => .list inner.checked l :: rest.checked

/-- The leaves in the order in which they are written, at every depth. -/
def leaves : Seats α → List (SeatedLeaf α)
  | nil => []
  | leaf p rest => p :: rest.leaves
  | list _ inner _ rest => inner.leaves ++ rest.leaves

/-- What the leaves and the lists take up, at every depth, in a list for an array of shape
`dims`. -/
def stretches (dims : List Int) : Seats α → List Stretch
  | nil => []
  | leaf p rest => ⟨p.slot, p.slot + 1⟩ :: rest.stretches dims
  | list start inner _ rest =>
    ⟨start, start + size (dims.drop 1)⟩ ::
      (inner.stretches (dims.drop 1) ++ rest.stretches dims)

/-- Whether every item of a list for an array of shape `dims` comes directly behind the item
before it, the first one on `next`: an expression on the next element, a list on the first
boundary of the inner arrays that is not before it. -/
def Queued (dims : List Int) : Nat → Seats α → Prop
  | _, nil => True
  | next, leaf p rest => p.slot = next ∧ rest.Queued dims (p.slot + 1)
  | next, list start _ _ rest =>
    size (dims.drop 1) ∣ start ∧ next ≤ start ∧ start < next + size (dims.drop 1) ∧
      rest.Queued dims (start + size (dims.drop 1))

/-- Whether the items of a list for an array of shape `dims`, and in turn those of the lists in
it, sit directly one behind the other, from the element `next` on and before `stop`. -/
inductive Seated : List Int → Nat → Nat → Seats α → Prop
  | nil {dims : List Int} {next stop : Nat} : Seated dims next stop nil
  | leaf {dims : List Int} {stop : Nat} {p : SeatedLeaf α} {rest : Seats α} :
    p.slot < stop → Seated dims (p.slot + 1) stop rest →
    Seated dims p.slot stop (leaf p rest)
  | list {dims : List Int} {next stop start : Nat} {inner rest : Seats α} {l : Location} :
    1 < dims.length → size (dims.drop 1) ∣ start → next ≤ start →
    start < next + size (dims.drop 1) → start + size (dims.drop 1) ≤ stop →
    Seated (dims.drop 1) start (start + size (dims.drop 1)) inner →
    Seated dims (start + size (dims.drop 1)) stop rest →
    Seated dims next stop (list start inner l rest)

/-- The lists in a list for an array of shape `dims`, at every depth. One that is `depth` braces
down and starts on `start` stands behind the items that take up `before`, the ones that it lies in
left out, and in front of those that take up `behind`. -/
inductive Nested : List Int → Seats α → (depth : Nat) → (before : List Stretch) → (start : Nat) →
    (inner : Seats α) → (behind : List Stretch) → Prop
  | here {dims : List Int} {start : Nat} {inner rest : Seats α} {l : Location} :
    Nested dims (list start inner l rest) 1 [] start inner (rest.stretches dims)
  | inside {dims : List Int} {first start depth : Nat} {outer inner rest : Seats α} {l : Location}
    {before behind : List Stretch} : Nested (dims.drop 1) outer depth before start inner behind →
    Nested dims (list first outer l rest) (depth + 1) before start inner
      (behind ++ rest.stretches dims)
  | behindLeaf {dims : List Int} {start depth : Nat} {p : SeatedLeaf α} {inner rest : Seats α}
    {before behind : List Stretch} : Nested dims rest depth before start inner behind →
    Nested dims (leaf p rest) depth (⟨p.slot, p.slot + 1⟩ :: before) start inner behind
  | behindList {dims : List Int} {first start depth : Nat} {other inner rest : Seats α}
    {l : Location} {before behind : List Stretch} :
    Nested dims rest depth before start inner behind →
    Nested dims (list first other l rest) depth
      (⟨first, first + size (dims.drop 1)⟩ :: (other.stretches (dims.drop 1) ++ before))
      start inner behind

/-- Whether a list that starts on `start` has an inner array of shape `dims` for itself: what is
written in it stays inside, and what is written before and behind it stays outside. -/
structure Apart (dims : List Int) (before : List Stretch) (start : Nat) (inner : Seats α)
    (behind : List Stretch) : Prop where
  /-- It is one of the parts into which the size of the inner array cuts the table. -/
  aligned : size dims ∣ start
  own : ∀ s ∈ inner.stretches dims, start ≤ s.first ∧ s.past ≤ start + size dims
  before : ∀ s ∈ before, s.past ≤ start
  behind : ∀ s ∈ behind, start + size dims ≤ s.first
  queued : inner.Queued dims start

/-! ### What follows from seats -/

variable {dims : List Int} {next stop : Nat} {seats : Seats α}

theorem Seated.queued (h : Seated dims next stop seats) : seats.Queued dims next := by
  induction h with
  | nil => exact trivial
  | leaf _ _ ih => exact ⟨rfl, ih⟩
  | list _ haligned hnext hnear _ _ _ _ ih => exact ⟨haligned, hnext, hnear, ih⟩

/-- Everything lies between the element that comes next and the end of the array. -/
theorem Seated.within (h : Seated dims next stop seats) :
    ∀ s ∈ seats.stretches dims, next ≤ s.first ∧ s.past ≤ stop := by
  induction h with
  | nil => exact nofun
  | @leaf dims stop p rest hstop _ ih =>
    intro s hs
    rcases List.mem_cons.mp hs with rfl | hs
    · exact ⟨Nat.le_refl _, hstop⟩
    · obtain ⟨hfirst, hpast⟩ := ih s hs
      exact ⟨by omega, hpast⟩
  | @list dims next stop start inner rest l _ _ hnext _ hroom _ _ ihinner ih =>
    intro s hs
    rcases List.mem_cons.mp hs with rfl | hs
    · exact ⟨hnext, hroom⟩
    · rcases List.mem_append.mp hs with hs | hs
      · obtain ⟨hfirst, hpast⟩ := ihinner s hs
        exact ⟨by omega, by omega⟩
      · obtain ⟨hfirst, hpast⟩ := ih s hs
        exact ⟨by omega, hpast⟩

theorem mem_stretches {p : SeatedLeaf α} (dims : List Int) (h : p ∈ seats.leaves) :
    ⟨p.slot, p.slot + 1⟩ ∈ seats.stretches dims := by
  induction seats generalizing dims with
  | nil => cases h
  | leaf q rest ih =>
    rcases List.mem_cons.mp h with rfl | h
    · exact List.mem_cons_self
    · exact List.mem_cons_of_mem _ (ih dims h)
  | list start inner l rest ihinner ih =>
    refine List.mem_cons_of_mem _ (List.mem_append.mpr ?_)
    rcases List.mem_append.mp h with h | h
    · exact .inl (ihinner _ h)
    · exact .inr (ih dims h)

/-- Every leaf lies between the element that comes next and the end of the array. -/
theorem Seated.leaves_within (h : Seated dims next stop seats) :
    ∀ p ∈ seats.leaves, next ≤ p.slot ∧ p.slot < stop :=
  fun _ hp => h.within _ (mem_stretches dims hp)

/-- Leaves go to elements in the order in which they are written, so no two meet. -/
theorem Seated.increasing (h : Seated dims next stop seats) :
    seats.leaves.Pairwise fun p q => p.slot < q.slot := by
  induction h with
  | nil => exact .nil
  | leaf _ hrest ih =>
    refine List.pairwise_cons.mpr ⟨?_, ih⟩
    intro q hq
    exact (hrest.leaves_within q hq).1
  | list _ _ _ _ _ hinner hrest ihinner ih =>
    refine List.pairwise_append.mpr ⟨ihinner, ih, ?_⟩
    intro p hp q hq
    exact Nat.lt_of_lt_of_le (hinner.leaves_within p hp).2 (hrest.leaves_within q hq).1

/-- Every list in braces has its inner array for itself, at every depth, and the inner array lies
in the elements that the items have. -/
theorem Seated.apart (h : Seated dims next stop seats) {depth start : Nat}
    {before behind : List Stretch} {inner : Seats α}
    (hnested : Nested dims seats depth before start inner behind) :
    depth < dims.length ∧ next ≤ start ∧ start + size (dims.drop depth) ≤ stop ∧
      Apart (dims.drop depth) before start inner behind := by
  induction hnested generalizing next stop with
  | here =>
    obtain _ | _ | ⟨hdepth, haligned, hnext, -, hroom, hinner, hrest⟩ := h
    have hbehind := fun s hs => (hrest.within s hs).1
    exact ⟨hdepth, hnext, hroom, haligned, hinner.within, nofun, hbehind, hinner.queued⟩
  | @inside dims first start depth outer inner rest l before behind _ ih =>
    obtain _ | _ | ⟨-, -, hnext, -, hroom, houter, hrest⟩ := h
    obtain ⟨hdepth, hstart, hstop, hapart⟩ := ih houter
    have hdrop : (dims.drop 1).drop depth = dims.drop (depth + 1) := by
      rw [List.drop_drop, Nat.add_comm]
    rw [hdrop] at hstop hapart
    rw [List.length_drop] at hdepth
    refine ⟨by omega, by omega, by omega, hapart.aligned, hapart.own, hapart.before, ?_,
      hapart.queued⟩
    intro s hs
    rcases List.mem_append.mp hs with hs | hs
    · exact hapart.behind s hs
    · -- What is behind the outer list is behind the inner one.
      have hfirst := (hrest.within s hs).1
      omega
  | @behindLeaf dims start depth p inner rest before behind _ ih =>
    obtain _ | ⟨_, hrest⟩ := h
    obtain ⟨hdepth, hstart, hstop, hapart⟩ := ih hrest
    refine ⟨hdepth, by omega, hstop, hapart.aligned, hapart.own, ?_, hapart.behind,
      hapart.queued⟩
    intro s hs
    rcases List.mem_cons.mp hs with rfl | hs
    · exact hstart
    · exact hapart.before s hs
  | @behindList dims first start depth other inner rest l before behind _ ih =>
    obtain _ | _ | ⟨-, -, hnext, -, hroom, hother, hrest⟩ := h
    obtain ⟨hdepth, hstart, hstop, hapart⟩ := ih hrest
    refine ⟨hdepth, by omega, hstop, hapart.aligned, hapart.own, ?_, hapart.behind,
      hapart.queued⟩
    intro s hs
    rcases List.mem_cons.mp hs with rfl | hs
    · exact hstart
    · rcases List.mem_append.mp hs with hs | hs
      · have hpast := (hother.within s hs).2
        omega
      · exact hapart.before s hs

end Seats

end SysYFront
