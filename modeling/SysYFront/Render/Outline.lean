import SysYFront.Program.Basic
import SysYFront.Token.Source

/-!
# SysYFront.Render.Outline

Token lists and programs as indented outlines. An outline is a word, a record of
named parts, a row of parts behind a name, or a list; every part stands on a line
of its own, four columns further in, with a comma behind it.
-/

namespace SysYFront

/-- An outline of nested parts. -/
inductive Outline
  | word (text : String)
  /-- A part with a name, of a record. -/
  | field (name : String) (value : Outline)
  | record (name : String) (fields : List Outline)
  | row (name : String) (parts : List Outline)
  | list (parts : List Outline)

namespace Outline

/-- Writes the margin of a line at a depth behind `written`. -/
def margin (depth : Nat) (written : String) : String :=
  (List.replicate (4 * depth) ' ').foldl String.push written

mutual

/-- Writes an outline behind `written`, which ends with the margin of its first
line. -/
def write (depth : Nat) : Outline → String → String
  | word w, written => written ++ w
  | field name value, written => value.write depth (written ++ name ++ ": ")
  | record name fields, written =>
    margin depth (writeParts (depth + 1) fields (written ++ name ++ " \x7b\n")) ++ "\x7d"
  | row name parts, written =>
    margin depth (writeParts (depth + 1) parts (written ++ name ++ "(\n")) ++ ")"
  | list [], written => written ++ "[]"
  | list (part :: parts), written =>
    margin depth (writeParts (depth + 1) (part :: parts) (written ++ "[\n")) ++ "]"

/-- Writes the lines of the parts inside brackets behind `written`. -/
def writeParts (depth : Nat) : List Outline → String → String
  | [], written => written
  | part :: parts, written =>
    writeParts depth parts (part.write depth (margin depth written) ++ ",\n")

end

/-- The text of an outline. -/
def text (o : Outline) : String :=
  o.write 0 ""

/-- A natural number. -/
def nat (n : Nat) : Outline := word (toString n)

/-- An integer. -/
def int (n : Int) : Outline := word (toString n)

def bool (b : Bool) : Outline := word (if b then "true" else "false")

/-- A text in quotes. -/
def quoted (s : String) : Outline := word (Text.quote s)

/-- A part that may be left out. -/
def optional : Option Outline → Outline
  | none => word "None"
  | some part => row "Some" [part]

end Outline

/-! ### Places, tokens and types -/

def Location.outline (l : Location) : Outline :=
  .record "SourceLocation" [.field "line" (.nat l.line), .field "column" (.nat l.column)]

/-- The name of a reserved word in listings. -/
def Keyword.label : Keyword → String
  | constKw => "Const"
  | intKw => "Int"
  | floatKw => "Float"
  | voidKw => "Void"
  | ifKw => "If"
  | elseKw => "Else"
  | whileKw => "While"
  | breakKw => "Break"
  | continueKw => "Continue"
  | returnKw => "Return"

/-- The name of a symbol in listings. -/
def Symbol.label : Symbol → String
  | plus => "Plus"
  | minus => "Minus"
  | star => "Star"
  | slash => "Slash"
  | percent => "Percent"
  | equalEqual => "EqEq"
  | bangEqual => "NotEq"
  | less => "Lt"
  | lessEqual => "Le"
  | greater => "Gt"
  | greaterEqual => "Ge"
  | andAnd => "AndAnd"
  | orOr => "OrOr"
  | bang => "Bang"
  | equal => "Eq"
  | leftParen => "LParen"
  | rightParen => "RParen"
  | leftBrace => "LBrace"
  | rightBrace => "RBrace"
  | leftBracket => "LBracket"
  | rightBracket => "RBracket"
  | semicolon => "Semicolon"
  | comma => "Comma"

/-- The name of a kind of token in listings. -/
def Token.Kind.label : Token.Kind → String
  | intLiteral _ => "IntLiteral"
  | floatLiteral _ => "FloatLiteral"
  | stringLiteral _ => "StringLiteral"
  | name _ => "Ident"
  | keyword k => k.label
  | symbol s => s.label
  | invalid _ => "LexError"
  | endOfFile => "Eof"

/-- What a kind of token carries. -/
def Token.Kind.payload : Token.Kind → List Outline
  | intLiteral n => [.int n.toInt]
  | floatLiteral x => [.word (Number.floatText x)]
  | stringLiteral s | name s | invalid s => [.quoted s]
  | keyword _ | symbol _ | endOfFile => []

def Token.outline (t : Token) : Outline :=
  .row t.kind.label (t.kind.payload ++ [t.location.outline])

def Base.outline : Base → Outline
  | int => .word "Int"
  | float => .word "Float"
  | void => .word "Void"

def Scalar.outline : Scalar → Outline
  | int n => .row "Int" [.int n.toInt]
  | float x => .row "Float" [.word (Number.floatText x)]

/-- A type, with the whole of its table. -/
def ValueType.outline (t : ValueType) : Outline :=
  .record "VarType" [
    .field "is_const" (.bool t.isConst),
    .field "is_lvalue" (.bool t.isPlace),
    .field "base" t.base.outline,
    .field "dims" (.list (t.dims.map .int)),
    .field "stride" (.nat t.stride),
    .field "offset" (.nat t.offset),
    .field "data" (.optional (t.window.map fun w => .list (w.cells.toList.map Scalar.outline)))]

/-! ### Trees -/

def UnaryOp.outline : UnaryOp → Outline
  | plus => .word "Plus"
  | neg => .word "Neg"
  | not => .word "Not"

def BinaryOp.outline : BinaryOp → Outline
  | add => .word "Add"
  | sub => .word "Sub"
  | mul => .word "Mul"
  | div => .word "Div"
  | mod => .word "Mod"
  | eq => .word "Eq"
  | ne => .word "Ne"
  | lt => .word "Lt"
  | le => .word "Le"
  | gt => .word "Gt"
  | ge => .word "Ge"
  | and => .word "And"
  | or => .word "Or"

/-- An expression node of the given kind. -/
def Outline.expr (kind : Outline) (l : Location) (note : Option Outline) : Outline :=
  .record "Expr" [.field "kind" kind, .field "location" l.outline, .field "ty" (.optional note)]

variable {α : Type}

mutual

/-- An expression, with its notes as `note` outlines them. -/
def Expr.outline (note : α → Option Outline) : Expr α → Outline
  | .var name l n => .expr (.row "Variable" [.quoted name]) l (note n)
  | .literal (.int m) l n => .expr (.row "IntLiteral" [.int m.toInt]) l (note n)
  | .literal (.float x) l n =>
    .expr (.row "FloatLiteral" [.word (Number.floatText x)]) l (note n)
  | .unary op e l n =>
    .expr (.record "Unary" [.field "op" op.outline, .field "operand" (e.outline note)]) l (note n)
  | .binary op a b l n =>
    .expr (.record "Binary" [.field "op" op.outline, .field "lhs" (a.outline note),
      .field "rhs" (b.outline note)]) l (note n)
  | .assign a b l n =>
    .expr (.record "Assign" [.field "lhs" (a.outline note), .field "rhs" (b.outline note)]) l
      (note n)
  | .call f args l n =>
    .expr (.record "Call" [.field "callee" (f.outline note),
      .field "args" (.list (Expr.listOutline note args))]) l (note n)
  | .index a i l n =>
    .expr (.record "Index" [.field "array" (a.outline note), .field "index" (i.outline note)]) l
      (note n)

/-- The expressions of a list. -/
def Expr.listOutline (note : α → Option Outline) : List (Expr α) → List Outline
  | [] => []
  | e :: es => e.outline note :: Expr.listOutline note es

end

mutual

/-- An initializer. -/
def Init.outline (note : α → Option Outline) : Init α → Outline
  | .expr e => .row "Expr" [e.outline note]
  | .list items l => .row "List" [.list (Init.listOutline note items), l.outline]

/-- The initializers of a list. -/
def Init.listOutline (note : α → Option Outline) : List (Init α) → List Outline
  | [] => []
  | i :: is => i.outline note :: Init.listOutline note is

end

/-- A type as it is written: base and extents. -/
def Outline.written (note : α → Option Outline) (base : Base) (dims : List (Expr α)) : Outline :=
  .record "Type" [.field "base" base.outline, .field "dims" (.list (Expr.listOutline note dims))]

def Decl.outline (note : α → Option Outline) (d : Decl α) : Outline :=
  .record "Decl" [
    .field "name" (.quoted d.name),
    .field "is_const" (.bool d.isConst),
    .field "ty" (.written note d.base d.dims),
    .field "init" (.optional (d.init.map (·.outline note))),
    .field "location" d.location.outline,
    .field "resolved" (.optional (note d.note))]

/-- A block with the given items. -/
def Outline.block (items : List Outline) (l : Location) : Outline :=
  .record "Block" [.field "items" (.list items), .field "location" l.outline]

mutual

/-- A statement. -/
def Stmt.outline (note : α → Option Outline) : Stmt α → Outline
  | .empty l => .record "Empty" [.field "location" l.outline]
  | .expr e l => .record "Expr" [.field "expr" (e.outline note), .field "location" l.outline]
  | .block items l => .row "Block" [.block (Item.listOutline note items) l]
  | .ifThen c s l =>
    .record "If" [.field "condition" (c.outline note), .field "then_branch" (s.outline note),
      .field "else_branch" (.optional none), .field "location" l.outline]
  | .ifElse c s t l =>
    .record "If" [.field "condition" (c.outline note), .field "then_branch" (s.outline note),
      .field "else_branch" (.optional (some (t.outline note))), .field "location" l.outline]
  | .whileLoop c s l =>
    .record "While" [.field "condition" (c.outline note), .field "body" (s.outline note),
      .field "location" l.outline]
  | .breakLoop l => .record "Break" [.field "location" l.outline]
  | .continueLoop l => .record "Continue" [.field "location" l.outline]
  | .returnNothing l =>
    .record "Return" [.field "expr" (.optional none), .field "location" l.outline]
  | .returnValue e l =>
    .record "Return" [.field "expr" (.optional (some (e.outline note))),
      .field "location" l.outline]

/-- A block item. -/
def Item.outline (note : α → Option Outline) : Item α → Outline
  | .decl d => .row "Decl" [d.outline note]
  | .stmt s => .row "Stmt" [s.outline note]

/-- The items of a block. -/
def Item.listOutline (note : α → Option Outline) : List (Item α) → List Outline
  | [] => []
  | i :: is => i.outline note :: Item.listOutline note is

end

def Param.outline (note : α → Option Outline) (p : Param α) : Outline :=
  .record "Param" [
    .field "name" (.quoted p.name),
    .field "ty" (.written note p.base p.dims),
    .field "decays" (.bool p.isOpen),
    .field "location" p.location.outline]

def Function.outline (note : α → Option Outline) (f : Function α) : Outline :=
  .record "FunctionDef" [
    .field "name" (.quoted f.name),
    .field "return_type" f.returns.outline,
    .field "params" (.list (f.params.map (·.outline note))),
    .field "body" (.block (Item.listOutline note f.body.items) f.body.location),
    .field "location" f.location.outline]

def Program.outline (note : α → Option Outline) (p : Program α) : Outline :=
  .record "Program" [.field "units" (.list (p.map fun
    | .global d => .row "Decl" [d.outline note]
    | .function f => .row "Function" [f.outline note]))]

/-- The outline of a list of tokens. -/
def Token.listText (tokens : List Token) : String :=
  (Outline.list (tokens.map Token.outline)).text

/-- The outline of a program that is only read. -/
def Program.readText (p : Program Unit) : String :=
  (p.outline fun _ => none).text

/-- The outline of a checked program. -/
def Program.checkedText (p : Program ValueType) : String :=
  (p.outline fun t => some t.outline).text

end SysYFront
