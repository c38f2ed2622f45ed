import SysYFront.Program.Basic
import SysYFront.Signature

/-!
# SysYFront.Render.Compact

Trees, types and signatures on one line. Every node is a list in brackets that
starts with a word for its constructor and ends with its place and its note;
lists of nodes stand in square brackets, and a part that is left out is a dash.
-/

namespace SysYFront

/-- Words between spaces, in round brackets. -/
def Render.node (words : List String) : String :=
  "(" ++ " ".intercalate words ++ ")"

/-- Words between spaces, in square brackets. -/
def Render.list (words : List String) : String :=
  "[" ++ " ".intercalate words ++ "]"

/-- A place, as nodes carry it. -/
def Location.compact (l : Location) : String :=
  "@" ++ toString l.line ++ ":" ++ toString l.column

/-- The values of a type that has a table, `none` if it does not reach so far. -/
def ValueType.compactCells (t : ValueType) : String :=
  match t.window, t.elements? with
  | none, _ => ""
  | some _, none => " = none"
  | some _, some vs => " = " ++ ",".intercalate (vs.map Scalar.text)

/-- A type: its text, whether it is a place, its stride and offset, and its values
if it has any. -/
def ValueType.compact (t : ValueType) : String :=
  "<" ++ t.text ++ (if t.isPlace then " L" else "") ++ " s" ++ toString t.stride ++
    " o" ++ toString t.offset ++ t.compactCells ++ ">"

/-- The function `name` with a signature. -/
def Signature.compact (name : String) (s : Signature) : String :=
  let params := s.params.map fun p => p.name ++ " " ++ p.type.compact
  s.returns.text ++ " " ++ name ++ "(" ++ ", ".intercalate params ++ ") -> " ++ s.result.compact

/-- The functions of a table, in the order of their names. -/
def SignatureTable.compact (t : SignatureTable) : List String :=
  t.sorted.map fun (name, s) => s.compact name

variable {α : Type}

mutual

/-- An expression, with its notes written by `note`. -/
def Expr.compact (note : α → String) : Expr α → String
  | .var name l n => Render.node ["var", name, l.compact, note n]
  | .literal (.int m) l n => Render.node ["int", (Scalar.int m).text, l.compact, note n]
  | .literal (.float x) l n => Render.node ["float", (Scalar.float x).text, l.compact, note n]
  | .unary op e l n => Render.node ["un", op.symbol, e.compact note, l.compact, note n]
  | .binary op a b l n =>
    Render.node ["bin", op.symbol, a.compact note, b.compact note, l.compact, note n]
  | .assign a b l n => Render.node ["assign", a.compact note, b.compact note, l.compact, note n]
  | .call f args l n =>
    Render.node ["call", f.compact note, Render.list (Expr.listCompact note args), l.compact,
      note n]
  | .index a i l n => Render.node ["index", a.compact note, i.compact note, l.compact, note n]

/-- The expressions of a list. -/
def Expr.listCompact (note : α → String) : List (Expr α) → List String
  | [] => []
  | e :: es => e.compact note :: Expr.listCompact note es

end

mutual

/-- An initializer: the expression itself, or a list with its place. -/
def Init.compact (note : α → String) : Init α → String
  | .expr e => e.compact note
  | .list items l => Render.node ["list", Render.list (Init.listCompact note items), l.compact]

/-- The initializers of a list. -/
def Init.listCompact (note : α → String) : List (Init α) → List String
  | [] => []
  | i :: is => i.compact note :: Init.listCompact note is

end

/-- A declaration. -/
def Decl.compact (note : α → String) (d : Decl α) : String :=
  Render.node ["decl", if d.isConst then "const" else "var", d.base.text, d.name,
    Render.list (Expr.listCompact note d.dims), (d.init.map (·.compact note)).getD "-",
    d.location.compact, note d.note]

mutual

/-- A statement. -/
def Stmt.compact (note : α → String) : Stmt α → String
  | .empty l => Render.node ["empty", l.compact]
  | .expr e l => Render.node ["expr", e.compact note, l.compact]
  | .block items l => Render.node ["block", Render.list (Item.listCompact note items), l.compact]
  | .ifThen c s l => Render.node ["if", c.compact note, s.compact note, "-", l.compact]
  | .ifElse c s t l =>
    Render.node ["if", c.compact note, s.compact note, t.compact note, l.compact]
  | .whileLoop c s l => Render.node ["while", c.compact note, s.compact note, l.compact]
  | .breakLoop l => Render.node ["break", l.compact]
  | .continueLoop l => Render.node ["continue", l.compact]
  | .returnNothing l => Render.node ["return", "-", l.compact]
  | .returnValue e l => Render.node ["return", e.compact note, l.compact]

/-- A block item: the declaration or statement itself. -/
def Item.compact (note : α → String) : Item α → String
  | .decl d => d.compact note
  | .stmt s => s.compact note

/-- The items of a block. -/
def Item.listCompact (note : α → String) : List (Item α) → List String
  | [] => []
  | i :: is => i.compact note :: Item.listCompact note is

end

/-- A parameter. -/
def Param.compact (note : α → String) (p : Param α) : String :=
  Render.node ["param", p.base.text, p.name, if p.isOpen then "decays" else "-",
    Render.list (Expr.listCompact note p.dims), p.location.compact]

/-- A function. -/
def Function.compact (note : α → String) (f : Function α) : String :=
  Render.node ["fn", f.returns.text, f.name, Render.list (f.params.map (·.compact note)),
    Stmt.compact note (.block f.body.items f.body.location), f.location.compact]

/-- The units of a program, in order. -/
def Program.compact (note : α → String) (p : Program α) : List String :=
  p.map fun
    | .global d => d.compact note
    | .function f => f.compact note

/-- The units of a program that is only read. -/
def Program.compactRead (p : Program Unit) : List String :=
  p.compact fun _ => "_"

/-- The units of a checked program. -/
def Program.compactChecked (p : Program ValueType) : List String :=
  p.compact ValueType.compact

end SysYFront
