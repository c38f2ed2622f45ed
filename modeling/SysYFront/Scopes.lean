import SysYFront.ValueType

/-!
# SysYFront.Scopes

Lexical scopes. A frame holds the names that one scope declares; above the global
frame, which is never left, stand the frames of the function body and the blocks
that are being checked, the innermost first. A name means its innermost
declaration, and one frame declares a name only once.
-/

namespace SysYFront

/-- The names of one scope with their types, the latest declaration first. -/
abbrev Frame := List (String × ValueType)

/-- The scopes that are visible at one place of a program. -/
structure Scopes where
  /-- The frames above the global one, innermost first. -/
  inner : List Frame
  globals : Frame
  deriving DecidableEq

namespace Scopes

/-- Only the global scope, with nothing in it. -/
def empty : Scopes := ⟨[], []⟩

instance : Inhabited Scopes := ⟨empty⟩

/-- Enters a scope that declares the names of `frame` to begin with. -/
def enter (s : Scopes) (frame : Frame) : Scopes :=
  { s with inner := frame :: s.inner }

/-- Leaves the innermost scope; the global scope stays. -/
def leave (s : Scopes) : Scopes :=
  { s with inner := s.inner.tail }

/-- The number of scopes above the global one. -/
def depth (s : Scopes) : Nat :=
  s.inner.length

/-- Whether the innermost scope is the global one. -/
def isGlobal (s : Scopes) : Bool :=
  s.inner.isEmpty

/-- The frame of the innermost scope. -/
def innermost (s : Scopes) : Frame :=
  s.inner.head?.getD s.globals

/-- The type of the innermost declaration of a name. -/
def lookup? (s : Scopes) (name : String) : Option ValueType :=
  (s.inner ++ [s.globals]).findSome? (·.lookup name)

/-- Whether the innermost scope declares a name. -/
def declaresHere (s : Scopes) (name : String) : Bool :=
  (s.innermost.lookup name).isSome

/-- Whether the global scope declares a name. -/
def declaresGlobally (s : Scopes) (name : String) : Bool :=
  (s.globals.lookup name).isSome

/-- The scopes with one more declaration in the innermost one. -/
def insert (s : Scopes) (name : String) (t : ValueType) : Scopes :=
  match s.inner with
  | [] => { s with globals := (name, t) :: s.globals }
  | frame :: outer => { s with inner := ((name, t) :: frame) :: outer }

/-- Declares a name in the innermost scope, unless that scope declares it. -/
def declare? (s : Scopes) (name : String) (t : ValueType) : Option Scopes :=
  if s.declaresHere name then none else some (s.insert name t)

@[simp] theorem leave_enter (s : Scopes) (frame : Frame) : (s.enter frame).leave = s := rfl

@[simp] theorem globals_enter (s : Scopes) (frame : Frame) :
    (s.enter frame).globals = s.globals := rfl

/-- A declaration is what its name means from then on, and changes no other name. -/
theorem lookup?_insert (s : Scopes) (name other : String) (t : ValueType) :
    (s.insert name t).lookup? other = if other == name then some t else s.lookup? other := by
  cases h : other == name <;> cases hs : s.inner <;>
    simp [insert, lookup?, hs, List.findSome?_cons, List.lookup_cons, h]

end Scopes

end SysYFront
