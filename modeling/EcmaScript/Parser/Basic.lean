import EcmaScript.Source.Fault
import EcmaScript.Syntax.Tree

/-! Reading a list of tokens. What the surrounding construct allows is passed down and never comes
back up, so leaving a construct restores what was allowed before it. -/
namespace EcmaScript

/-- What the surrounding constructs allow. -/
structure Mode where
  inAsync : Bool := false
  inGenerator : Bool := false
  inFunction : Bool := false
  /-- In the head of a loop, where `in` is not an operator. -/
  noIn : Bool := false

/-- Tokens, the place reached in them and the span of the last token passed. -/
structure TokenStream where
  tokens : Array Lexeme
  pos : Nat := 0
  last : Span := ⟨0, 0, 0, 0⟩
  /-- An `await` was met outside all functions. -/
  awaits : Bool := false

abbrev Parse := ReaderT Mode (StateT TokenStream (Except ReadError))

def reservedWords : List String :=
  ["break", "case", "catch", "class", "const", "continue", "debugger", "default", "delete", "do",
    "else", "export", "extends", "false", "finally", "for", "function", "if", "import", "in",
    "instanceof", "new", "null", "return", "super", "switch", "this", "throw", "true", "try",
    "typeof", "var", "void", "while", "with"]

def isReserved (word : String) : Bool := reservedWords.contains word

namespace TokenStream

def ahead (s : TokenStream) (n : Nat) : Lexeme :=
  (s.tokens[min (s.pos + n) (s.tokens.size - 1)]?).getD default

def advance (s : TokenStream) : TokenStream :=
  { s with
    pos := if s.pos < s.tokens.size - 1 then s.pos + 1 else s.pos
    last := (s.ahead 0).span }

end TokenStream

namespace Parse

def fail {α : Type} (span : Span) (what : SyntaxFault) : Parse α := throw (ReadError.at span what)

def unsupported {α : Type} (construct : String) : Parse α := throw (.unsupported construct)

def stuck {α : Type} : Parse α := throw .stuck

def lexeme : Parse Lexeme := return (← get).ahead 0

def lexemeAt (n : Nat) : Parse Lexeme := return (← get).ahead n

def peek : Parse Token := return (← lexeme).token

def peekAt (n : Nat) : Parse Token := return (← lexemeAt n).token

def span : Parse Span := return (← lexeme).span

def lastSpan : Parse Span := return (← get).last

def advance : Parse Lexeme := do
  let l ← lexeme
  modify TokenStream.advance
  return l

def finish (start : Span) : Parse Span := return start.through (← get).last

def at? (mark : Punctuator) : Parse Bool := return (← peek).isMark mark

def atWord (word : String) : Parse Bool := return (← peek).isWord word

def eat (mark : Punctuator) : Parse Bool := do
  if ← at? mark then
    let _ ← advance
    return true
  return false

def eatWord (word : String) : Parse Bool := do
  if ← atWord word then
    let _ ← advance
    return true
  return false

def faultOf : Token → SyntaxFault
  | .endOfInput => .unexpectedEnd
  | .template .. => .unexpectedTemplate
  | .string _ => .unexpectedString
  | .number _ => .unexpectedNumber
  | .identifier name =>
    if isReserved name then .unexpectedToken (Token.identifier name).describe
    else .unexpectedIdentifier name
  | token => .unexpectedToken token.describe

def unexpected {α : Type} : Parse α := do
  let l ← lexeme
  fail l.span (faultOf l.token)

def expect (mark : Punctuator) : Parse Span := do
  if ← at? mark then return (← advance).span
  unexpected

def expectWord (word : String) : Parse Span := do
  if ← atWord word then return (← advance).span
  unexpected

def semicolon : Parse Unit := do
  if ← eat .semicolon then return ()
  let l ← lexeme
  if l.afterNewline then return ()
  match l.token with
  | .punctuator .rBrace => return ()
  | .endOfInput => return ()
  | _ => unexpected

def withIn {α : Type} (body : Parse α) : Parse α := withReader (fun m => { m with noIn := false }) body

def withoutIn {α : Type} (body : Parse α) : Parse α :=
  withReader (fun m => { m with noIn := true }) body

def inFunction {α : Type} (isAsync isGenerator : Bool) (body : Parse α) : Parse α :=
  withReader (fun m => { m with inFunction := true, inAsync := isAsync, inGenerator := isGenerator })
    body

def awaitAllowed : Parse Bool := return (← read).inAsync || !(← read).inFunction

def noteAwait : Parse Unit := do
  if !(← read).inFunction then modify fun s => { s with awaits := true }

def bindingName : Parse (String × Span) := do
  let l ← lexeme
  match l.token with
  | .identifier name =>
    let mode ← read
    if isReserved name || (name == "await" && mode.inAsync) || (name == "yield" && mode.inGenerator)
    then unexpected
    let _ ← advance
    return (name, l.span)
  | _ => unexpected

/-- Repeats a step until it gives a result. A step after which there is another passes a token, so more
steps than tokens are never taken. -/
def iterate {α β : Type} (step : α → Parse (α ⊕ β)) : Nat → α → Parse β
  | 0, _ => stuck
  | n + 1, a => do
    let before := (← get).pos
    match ← step a with
    | .inl a => if (← get).pos ≤ before then stuck else iterate step n a
    | .inr b => return b

def loop {α β : Type} (init : α) (step : α → Parse (α ⊕ β)) : Parse β := do
  iterate step ((← get).tokens.size + 1) init

end Parse

/-- The mutually recursive constructs. -/
inductive Goal where
  | statement
  | assignment
  /-- An operator expression whose operators bind tighter than `floor`. -/
  | binary (floor : Nat)
  | unary
  | leftHandSide
  | binding

abbrev Goal.Tree : Goal → Type
  | .statement => Statement
  | .binding => Pattern
  | _ => Expr

/-- A way to read every recursive construct. The rules below are written against one, and the knot is
tied by a bound on the nesting. -/
structure Grammar where
  run : (goal : Goal) → Parse goal.Tree

namespace Grammar

def statement (g : Grammar) : Parse Statement := g.run .statement
def assignment (g : Grammar) : Parse Expr := g.run .assignment
def binary (g : Grammar) (floor : Nat) : Parse Expr := g.run (.binary floor)
def unary (g : Grammar) : Parse Expr := g.run .unary
def leftHandSide (g : Grammar) : Parse Expr := g.run .leftHandSide
def binding (g : Grammar) : Parse Pattern := g.run .binding

end Grammar
end EcmaScript
