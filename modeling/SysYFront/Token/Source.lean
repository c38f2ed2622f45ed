import SysYFront.Token.Piece

/-!
# SysYFront.Token.Source

The tokens of a source text: the pieces that are tokens, each at the place where
its text starts, and `endOfFile` at the place behind the last character.
-/

namespace SysYFront.Token

/-- The tokens among pieces of which the first starts at `l`. -/
def ofPieces (l : Location) : List Piece → List Token
  | [] => [⟨.endOfFile, l⟩]
  | p :: ps =>
    match p.kind with
    | some kind => ⟨kind, l⟩ :: ofPieces (l.past p.text) ps
    | none => ofPieces (l.past p.text) ps

/-- The tokens of a source text. -/
def ofSource (source : String) : List Token :=
  ofPieces .start (pieces source.toList)

/-- The last token is the end of the file, whatever the text. -/
theorem getLast?_ofPieces (l : Location) (ps : List Piece) :
    (ofPieces l ps).getLast? = some ⟨.endOfFile, l.past (ps.flatMap Piece.text)⟩ := by
  induction ps generalizing l with
  | nil => rfl
  | cons p ps ih =>
    cases h : p.kind <;> simp [ofPieces, h, ih, List.getLast?_cons]

end SysYFront.Token
