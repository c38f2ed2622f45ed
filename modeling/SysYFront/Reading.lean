import SysYFront.Token.Source

/-!
# SysYFront.Reading

Reading a list of tokens. A reader takes tokens from the front of the list and
gives a value, or stops and says what it wanted; in both cases the tokens that it
did not take are left. Readers see only the tokens before the first `endOfFile`,
so the end of the file is the end of the list, and nothing can be read past it.
-/

namespace SysYFront

/-- What a reader wants where it stops. -/
inductive Expectation
  | expression
  | name
  | closingGroup
  | closingIndex
  | closingArguments
  | baseAfterConst
  | closingDimension
  | closingInitializer
  | endOfDeclaration
  | openingParameters
  | closingParameters
  | parameterBase
  | openingBlock
  | closingBlock
  | statementBody
  | openingIf
  | closingIf
  | openingWhile
  | closingWhile
  | endOfBreak
  | endOfContinue
  | endOfReturn
  | endOfExpression
  | topLevel
  deriving DecidableEq, Repr

/-- The words for a want. -/
def Expectation.describe : Expectation → String
  | expression => "Expected expression"
  | name => "Expected identifier"
  | closingGroup => "Expected ')' after expression"
  | closingIndex => "Expected ']' after array index"
  | closingArguments => "Expected ')' after arguments"
  | baseAfterConst => "Expected 'int' or 'float' after 'const'"
  | closingDimension => "Expected ']' after array dimension"
  | closingInitializer => "Expected '\x7d' after initializer list"
  | endOfDeclaration => "Expected ';' after variable declaration"
  | openingParameters => "Expected '(' after function name"
  | closingParameters => "Expected ')' after parameter list"
  | parameterBase => "Expected parameter type 'int' or 'float'"
  | openingBlock => "Expected '\x7b' to start block"
  | closingBlock => "Expected '\x7d' after block"
  | statementBody => "Declaration is not allowed as a statement body"
  | openingIf => "Expected '(' after 'if'"
  | closingIf => "Expected ')' after if condition"
  | openingWhile => "Expected '(' after 'while'"
  | closingWhile => "Expected ')' after while condition"
  | endOfBreak => "Expected ';' after 'break'"
  | endOfContinue => "Expected ';' after 'continue'"
  | endOfReturn => "Expected ';' after return value"
  | endOfExpression => "Expected ';' after expression"
  | topLevel => "Expected declaration or function definition"

/-- Why a list of tokens is no program. -/
inductive SyntaxFault
  /-- There is a token that is no word of the language. -/
  | invalidToken (reason : String)
  /-- A reader wanted something else than it found. -/
  | unexpected (wanted : Expectation) (found : Token.Kind)
  deriving DecidableEq

/-- A fault and the place of the token that shows it. -/
structure SyntaxError where
  fault : SyntaxFault
  location : Location
  deriving DecidableEq

/-- The message without the place. -/
def SyntaxError.detail (e : SyntaxError) : String :=
  match e.fault with
  | .invalidToken reason => reason
  | .unexpected wanted found => wanted.describe ++ ", found " ++ found.describe

/-- The whole message. -/
def SyntaxError.message (e : SyntaxError) : String :=
  "At " ++ e.location.describe ++ ": " ++ e.detail

/-- A reader of values of type `α`. Failing leaves the tokens where the reader
stopped. -/
abbrev Reading (α : Type) := EStateM Expectation (List Token) α

namespace Reading

variable {α : Type}

/-- The next token, which is not taken; none at the end of the file. -/
def next? : Reading (Option Token) := fun tokens =>
  .ok tokens.head? tokens

/-- Takes the next token. -/
def advance : Reading Unit := fun tokens =>
  .ok () tokens.tail

/-- Takes the next token if it is of kind `k`, and tells whether it did. -/
def accept (k : Token.Kind) : Reading Bool := fun tokens =>
  match tokens with
  | [] => .ok false []
  | t :: rest => if t.kind = k then .ok true rest else .ok false (t :: rest)

/-- Takes a token of kind `k` and gives its place. -/
def expect (k : Token.Kind) (wanted : Expectation) : Reading Location := fun tokens =>
  match tokens with
  | [] => .error wanted []
  | t :: rest => if t.kind = k then .ok t.location rest else .error wanted (t :: rest)

/-- Takes a name and gives it with its place. -/
def expectName : Reading (String × Location) := fun tokens =>
  match tokens with
  | ⟨.name s, l⟩ :: rest => .ok (s, l) rest
  | tokens => .error .name tokens

/-- Reads with `p` as long as the next token is of a kind that `goOn` accepts, at
most `n` times. -/
def manyWithin (goOn : Token.Kind → Bool) (p : Reading α) : Nat → Reading (List α)
  | 0 => pure []
  | n + 1 => do
    match ← next? with
    | none => pure []
    | some t =>
      if goOn t.kind then
        let a ← p
        let as ← manyWithin goOn p n
        pure (a :: as)
      else pure []

/-- Reads with `p` as long as there is a next token and `goOn` accepts its kind.
A reader that takes a token each time can do so once for every token left. -/
def many (goOn : Token.Kind → Bool) (p : Reading α) : Reading (List α) := fun tokens =>
  manyWithin goOn p tokens.length tokens

/-- Reads with `p` once and again behind every separator, at most `n` times more. -/
def separatedWithin (separator : Token.Kind) (p : Reading α) : Nat → Reading (List α)
  | 0 => do
    let a ← p
    pure [a]
  | n + 1 => do
    let a ← p
    if ← accept separator then
      let as ← separatedWithin separator p n
      pure (a :: as)
    else pure [a]

/-- Reads one or more values with a separator between them. -/
def separated (separator : Token.Kind) (p : Reading α) : Reading (List α) := fun tokens =>
  separatedWithin separator p tokens.length tokens

end Reading

/-- The tokens before the end of a file, and the place of the end. -/
structure TokenStream where
  tokens : List Token
  finish : Location
  deriving DecidableEq

namespace TokenStream

/-- The reason of the first token that is no word of the language. -/
def firstInvalid? (tokens : List Token) : Option SyntaxError :=
  tokens.findSome? fun t =>
    match t.kind with
    | .invalid reason => some ⟨.invalidToken reason, t.location⟩
    | _ => none

/-- What a list of tokens holds up to its first `endOfFile`; without one the file
ends at the last token. A token that is no word of the language, wherever it
stands, makes the whole list unreadable. -/
def ofTokens (tokens : List Token) : Except SyntaxError TokenStream :=
  match firstInvalid? tokens with
  | some e => .error e
  | none =>
    let isEnd (t : Token) : Bool := t.kind == .endOfFile
    let finish := match tokens.find? isEnd, tokens.getLast? with
      | some t, _ => t.location
      | none, some t => t.location
      | none, none => .nowhere
    .ok ⟨tokens.takeWhile fun t => !isEnd t, finish⟩

/-- The tokens of a source text. -/
def ofSource (source : String) : Except SyntaxError TokenStream :=
  ofTokens (Token.ofSource source)

/-- The first token that is left, `endOfFile` if there is none. -/
def current (s : TokenStream) : Token :=
  s.tokens.head?.getD ⟨.endOfFile, s.finish⟩

/-- Reads from a stream: the value, or the error at the token where the reader
stopped, and the stream that is left. -/
def run {α : Type} (s : TokenStream) (p : Reading α) : Except SyntaxError α × TokenStream :=
  match p s.tokens with
  | .ok a rest => (.ok a, { s with tokens := rest })
  | .error wanted rest =>
    let left := { s with tokens := rest }
    (.error ⟨.unexpected wanted left.current.kind, left.current.location⟩, left)

end TokenStream

end SysYFront
