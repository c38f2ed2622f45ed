/-!
# SysYFront.Location

Places in a source text. A place is a line and a column, both counted from one;
a column is one character wide whatever the character (a tab counts once), and
only a line feed starts a new line. Every token, tree node and message carries
the place where its own text starts.
-/

namespace SysYFront

/-- A line and a column of a source text. -/
structure Location where
  line : Nat
  column : Nat
  deriving DecidableEq, Repr, Inhabited

namespace Location

/-- The place of the first character. -/
def start : Location := ⟨1, 1⟩

/-- The place of no character at all: what an empty list of tokens ends at. -/
def nowhere : Location := ⟨0, 0⟩

/-- The place behind the character `c` that stands at `l`. -/
def after (l : Location) (c : Char) : Location :=
  if c = '\n' then ⟨l.line + 1, 1⟩ else ⟨l.line, l.column + 1⟩

/-- The place behind a whole text that starts at `l`. -/
def past (l : Location) (text : List Char) : Location :=
  text.foldl after l

@[simp] theorem past_nil (l : Location) : l.past [] = l := rfl

@[simp] theorem past_cons (l : Location) (c : Char) (text : List Char) :
    l.past (c :: text) = (l.after c).past text := rfl

@[simp] theorem past_append (l : Location) (s t : List Char) :
    l.past (s ++ t) = (l.past s).past t := List.foldl_append

/-- How a message names a place. -/
def describe (l : Location) : String :=
  "line " ++ toString l.line ++ ", column " ++ toString l.column

end Location

end SysYFront
