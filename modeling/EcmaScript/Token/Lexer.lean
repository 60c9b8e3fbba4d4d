import EcmaScript.Token.Literal

/-! The tokens of a script. Templates and the tokens inside their substitutions are read by mutual
recursion; every step consumes a character, which bounds the recursion. -/
namespace EcmaScript
open EcmaScript.Text

namespace Punctuator

/-- The longest punctuator at the start of a text, and its length. A question mark before a point
and a digit stands alone. -/
def longest? : List Char → Option (Punctuator × Nat)
  | '(' :: _ => some (.lParen, 1)
  | ')' :: _ => some (.rParen, 1)
  | '[' :: _ => some (.lBracket, 1)
  | ']' :: _ => some (.rBracket, 1)
  | '{' :: _ => some (.lBrace, 1)
  | '}' :: _ => some (.rBrace, 1)
  | ';' :: _ => some (.semicolon, 1)
  | ',' :: _ => some (.comma, 1)
  | ':' :: _ => some (.colon, 1)
  | '~' :: _ => some (.bitNot, 1)
  | '.' :: rest => some (match rest with
    | '.' :: '.' :: _ => (.spread, 3)
    | _ => (.dot, 1))
  | '?' :: rest => some (match rest with
    | '?' :: '=' :: _ => (.compoundAssign .nullish, 3)
    | '?' :: _ => (.nullish, 2)
    | '.' :: rest => if rest.head?.any Char.isDigit then (.question, 1) else (.optionalChain, 2)
    | _ => (.question, 1))
  | '=' :: rest => some (match rest with
    | '=' :: '=' :: _ => (.strictEqual, 3)
    | '=' :: _ => (.equal, 2)
    | '>' :: _ => (.arrow, 2)
    | _ => (.assign, 1))
  | '!' :: rest => some (match rest with
    | '=' :: '=' :: _ => (.strictNotEqual, 3)
    | '=' :: _ => (.notEqual, 2)
    | _ => (.logicalNot, 1))
  | '+' :: rest => some (match rest with
    | '+' :: _ => (.increment, 2)
    | '=' :: _ => (.compoundAssign .add, 2)
    | _ => (.plus, 1))
  | '-' :: rest => some (match rest with
    | '-' :: _ => (.decrement, 2)
    | '=' :: _ => (.compoundAssign .sub, 2)
    | _ => (.minus, 1))
  | '*' :: rest => some (match rest with
    | '*' :: '=' :: _ => (.compoundAssign .exp, 3)
    | '*' :: _ => (.exponent, 2)
    | '=' :: _ => (.compoundAssign .mul, 2)
    | _ => (.star, 1))
  | '/' :: rest => some (match rest with
    | '=' :: _ => (.compoundAssign .div, 2)
    | _ => (.slash, 1))
  | '%' :: rest => some (match rest with
    | '=' :: _ => (.compoundAssign .mod, 2)
    | _ => (.percent, 1))
  | '<' :: rest => some (match rest with
    | '<' :: '=' :: _ => (.compoundAssign .shl, 3)
    | '<' :: _ => (.shiftLeft, 2)
    | '=' :: _ => (.lessEqual, 2)
    | _ => (.less, 1))
  | '>' :: rest => some (match rest with
    | '>' :: '>' :: '=' :: _ => (.compoundAssign .ushr, 4)
    | '>' :: '>' :: _ => (.unsignedShiftRight, 3)
    | '>' :: '=' :: _ => (.compoundAssign .shr, 3)
    | '>' :: _ => (.shiftRight, 2)
    | '=' :: _ => (.greaterEqual, 2)
    | _ => (.greater, 1))
  | '&' :: rest => some (match rest with
    | '&' :: '=' :: _ => (.compoundAssign .and, 3)
    | '&' :: _ => (.logicalAnd, 2)
    | '=' :: _ => (.compoundAssign .bitAnd, 2)
    | _ => (.bitAnd, 1))
  | '|' :: rest => some (match rest with
    | '|' :: '=' :: _ => (.compoundAssign .or, 3)
    | '|' :: _ => (.logicalOr, 2)
    | '=' :: _ => (.compoundAssign .bitOr, 2)
    | _ => (.bitOr, 1))
  | '^' :: rest => some (match rest with
    | '=' :: _ => (.compoundAssign .bitXor, 2)
    | _ => (.bitXor, 1))
  | _ => none

end Punctuator

def wordsBeforeExpression : List String :=
  ["return", "typeof", "instanceof", "in", "of", "new", "delete", "void", "throw", "case", "do",
    "else", "yield", "await"]

def regExpMayFollow : Option Token → Bool
  | none => true
  | some (.identifier name) => wordsBeforeExpression.contains name
  | some (.punctuator p) =>
    !(p == .rParen || p == .rBracket || p == .rBrace || p == .increment || p == .decrement)
  | some .endOfInput => true
  | some _ => false

namespace Scan

def blockCommentRest (start : Span) : (fuel : Nat) → (newline : Bool) → Scan Bool
  | 0, _ => stuck
  | fuel + 1, newline => do
    match ← next with
    | none => fail start .invalidToken
    | some c =>
      if c = '*' ∧ (← peek) = some '/' then
        skip 1
        return newline
      blockCommentRest start fuel (newline || isLineTerminator c)

/-- Passes over blanks and comments; whether a line ended among them. -/
def trivia : (fuel : Nat) → (newline : Bool) → Scan Bool
  | 0, _ => stuck
  | fuel + 1, newline => do
    let c ← get
    match c.rest with
    | '/' :: '/' :: _ =>
      let _ ← takeWhile (!isLineTerminator ·)
      trivia fuel newline
    | '/' :: '*' :: _ =>
      skip 2
      trivia fuel (← blockCommentRest c.here (← bound) newline)
    | a :: _ =>
      if isLineTerminator a then
        skip 1
        trivia fuel true
      else if isBlank a then
        skip 1
        trivia fuel newline
      else return newline
    | [] => return newline

def punctuator : Scan Punctuator := do
  match Punctuator.longest? (← get).rest with
  | some (p, n) =>
    skip n
    return p
  | none => fail (← here) .invalidToken

def privateName : Scan Token := do
  let before ← get
  skip 1
  if !(← peek).any (fun c => isNameStart c || c == '\\') then
    fail before.here .invalidToken
  return .privateName (← name)

/-- A chunk of a template under construction. -/
structure Chunk where
  cooked : Option String := some ""
  raw : String := ""

def Chunk.push (chunk : Chunk) (c : Char) : Chunk :=
  ⟨chunk.cooked.map (·.push c), chunk.raw.push c⟩

def Chunk.finish (chunk : Chunk) : TemplateChunk := ⟨chunk.cooked, chunk.raw⟩

/-- Reads an escape of a template. The raw text keeps what was read, and a malformed escape only
takes the cooked value away. -/
def chunkEscape (chunk : Chunk) : Scan Chunk := do
  let before ← get
  skip 1
  let outcome ← tryCatch (do return .ok (← escape before.here)) (fun e => return Except.error e)
  let after ← get
  let raw := chunk.raw ++ String.ofList (before.rest.take (before.rest.length - after.rest.length))
  match outcome with
  | .ok (some c) => return ⟨chunk.cooked.map (·.push c), raw⟩
  | .ok none => return ⟨chunk.cooked, raw⟩
  | .error _ => return ⟨none, raw⟩

mutual

/-- Tokens up to the end of the text, or in a template up to the brace that closes a substitution.
`depth` counts open braces and `before` holds the tokens read, last first. Whether a line ended
before the end is returned with them. -/
def tokens (inTemplate : Bool) :
    (fuel : Nat) → (depth : Nat) → (newline : Bool) → (before : List Lexeme) →
      Scan (List Lexeme × Bool)
  | 0, _, _, _ => stuck
  | fuel + 1, depth, newline, before => do
    let newline ← trivia (← bound) newline
    let start ← get
    match start.peek with
    | none =>
      if inTemplate then fail start.here .unterminatedTemplate
      return (before.reverse, newline)
    | some c =>
      if inTemplate && c == '}' && depth == 0 then
        skip 1
        return (before.reverse, newline)
      let (token, depth) ←
        if isNameStart c || c == '\\' then
          pure (Token.identifier (← name), depth)
        else if c.isDigit || (c == '.' && (← peekAt 1).any Char.isDigit) then
          pure (← number, depth)
        else if c == '"' || c == '\'' then
          pure (← string c, depth)
        else if c == '`' then
          skip 1
          let (chunks, substitutions) ← template start.here fuel {} [] []
          pure (.template chunks substitutions, depth)
        else if c == '#' then
          pure (← privateName, depth)
        else if c == '/' && regExpMayFollow (before.head?.map Lexeme.token) then
          pure (← regExp, depth)
        else
          let p ← punctuator
          let depth :=
            if p = .lBrace then depth + 1 else if p = .rBrace then depth - 1 else depth
          pure (.punctuator p, depth)
      let stop ← get
      tokens inTemplate fuel depth false (.mk token (start.spanTo stop) newline :: before)

/-- The rest of a template, after its finished chunks and substitutions, both last first. -/
def template (start : Span) :
    (fuel : Nat) → (chunk : Chunk) → (chunks : List TemplateChunk) →
      (substitutions : List (List Lexeme)) → Scan (List TemplateChunk × List (List Lexeme))
  | 0, _, _, _ => stuck
  | fuel + 1, chunk, chunks, substitutions => do
    match (← get).rest with
    | [] => fail start .unterminatedTemplate
    | '`' :: _ =>
      skip 1
      return ((chunk.finish :: chunks).reverse, substitutions.reverse)
    | '$' :: '{' :: _ =>
      skip 2
      let (inner, _) ← tokens true fuel 0 false []
      template start fuel {} (chunk.finish :: chunks) (inner :: substitutions)
    | '\\' :: _ => template start fuel (← chunkEscape chunk) chunks substitutions
    | '\r' :: rest =>
      skip (if rest.head? = some '\n' then 2 else 1)
      template start fuel (chunk.push '\n') chunks substitutions
    | c :: _ =>
      skip 1
      template start fuel (chunk.push c) chunks substitutions

end

/-- All tokens of a script, closed by the end of input. A first line that starts with `#!` is
skipped. -/
def script : Scan (List Lexeme) := do
  match (← get).rest with
  | '#' :: '!' :: _ =>
    let _ ← takeWhile (!isLineTerminator ·)
  | _ => pure ()
  let (found, newline) ← tokens false (← bound) 0 false []
  return found ++ [.mk .endOfInput (← here) newline]

end Scan

def tokenize (source : String) : Except ReadError (List Lexeme) :=
  (Scan.script.run (Cursor.start source)).1

end EcmaScript
