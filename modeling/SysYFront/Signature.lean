import SysYFront.ValueType

/-!
# SysYFront.Signature

What callers know of a function, and the table of all functions by name. Every
program can call `putint`, which the table of a fresh checker holds.
-/

namespace SysYFront

/-- A parameter as callers see it. -/
structure Parameter where
  name : String
  /-- The resolved type; an array whose outermost extent is left open carries
  `Shape.openExtent` there. -/
  type : ValueType
  deriving DecidableEq

/-- What callers know of a function. -/
structure Signature where
  returns : Base
  params : List Parameter
  deriving DecidableEq

/-- The type of a call. -/
def Signature.result (s : Signature) : ValueType :=
  .scalar s.returns

/-- The signatures of functions, each name once. -/
structure SignatureTable where
  entries : List (String × Signature)
  distinct : (entries.map Prod.fst).Nodup := by simp
  deriving DecidableEq

namespace SignatureTable

/-- The table without functions. -/
def empty : SignatureTable where
  entries := []

instance : Inhabited SignatureTable := ⟨empty⟩

/-- The signature of a function. -/
def get? (t : SignatureTable) (name : String) : Option Signature :=
  t.entries.lookup name

def contains (t : SignatureTable) (name : String) : Bool :=
  (t.get? name).isSome

/-- Adds a function, in place of one of the same name. -/
def insert (t : SignatureTable) (name : String) (s : Signature) : SignatureTable where
  entries := (name, s) :: t.entries.filter fun entry => entry.1 != name
  distinct := by
    simp only [List.map_cons, List.nodup_cons]
    refine ⟨by simp, ?_⟩
    exact t.distinct.sublist (List.filter_sublist.map _)

/-- The number of functions. -/
def size (t : SignatureTable) : Nat :=
  t.entries.length

def isEmpty (t : SignatureTable) : Bool :=
  t.entries.isEmpty

/-- The functions in the order of their names. -/
def sorted (t : SignatureTable) : List (String × Signature) :=
  t.entries.mergeSort fun a b => a.1 ≤ b.1

/-- The functions that need no definition: `putint` takes an integer and returns
nothing. -/
def builtins : SignatureTable :=
  empty.insert "putint" ⟨.void, [⟨"value", .place .int []⟩]⟩

@[simp] theorem get?_empty (name : String) : empty.get? name = none := rfl

/-- Insertion changes one name only. -/
theorem get?_insert (t : SignatureTable) (name other : String) (s : Signature) :
    (t.insert name s).get? other = if other == name then some s else t.get? other := by
  simp only [get?, insert, List.lookup_cons]
  cases h : other == name with
  | true => simp
  | false =>
    simp only [Bool.false_eq_true, if_false]
    induction t.entries with
    | nil => rfl
    | cons entry rest ih =>
      obtain ⟨key, value⟩ := entry
      by_cases hk : key = name
      · subst hk
        simp [ih, List.lookup_cons, h]
      · have : (key != name) = true := by simpa using hk
        simp [this, List.lookup_cons, ih]

end SignatureTable

end SysYFront
