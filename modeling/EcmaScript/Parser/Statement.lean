import EcmaScript.Parser.Expression
import EcmaScript.Token.Lexer

/-! Statements. -/
namespace EcmaScript

def Statement.braced (s : Statement) : Statement :=
  match s with
  | .mk span (.function f) => .mk span (.block [.mk span (.function f)])
  | s => s

namespace Grammar
open EcmaScript.Parse

def parenthesized (g : Grammar) : Parse Expr := do
  let _ ← expect .lParen
  let e ← withIn g.expression
  let _ ← expect .rParen
  return e

def varKind? : Token → Option VarKind
  | .identifier "var" => some .var
  | .identifier "let" => some .let
  | .identifier "const" => some .const
  | _ => none

/-- Whether a declaration of variables starts here. `let` is a plain name unless what it declares
follows. -/
def declarationAhead : Parse (Option VarKind) := do
  match varKind? (← peek) with
  | some .let =>
    match ← peekAt 1 with
    | .identifier _ | .punctuator .lBracket | .punctuator .lBrace => return some .let
    | _ => return none
  | kind => return kind

def declarators (g : Grammar) (kind : VarKind) : Parse (List Declarator) :=
  loop ([] : List Declarator) fun before => do
    let target ← g.binding
    let init ← if ← eat .assign then pure (some (← g.assignment)) else pure none
    if init.isNone && !(← read).noIn && (kind == .const || !target.isSimple) then
      fail (← lastSpan)
        (if kind == .const then .missingConstInitializer else .missingPatternInitializer)
    if ← eat .comma then return .inl (.mk target init :: before)
    return .inr (Declarator.mk target init :: before).reverse

def variableStatement (g : Grammar) (kind : VarKind) : Parse StatementNode := do
  let _ ← advance
  let found ← g.declarators kind
  semicolon
  return .declaration kind found

def ifRule (g : Grammar) : Parse StatementNode := do
  let _ ← advance
  let test ← g.parenthesized
  let consequent := (← g.statement).braced
  let alternate ← if ← eatWord "else" then pure (some (← g.statement).braced) else pure none
  return .if test consequent alternate

def forEach (g : Grammar) (kind : Option VarKind) (head : Pattern) (isAwait : Bool) :
    Parse StatementNode := do
  let isOf ← atWord "of"
  let keyword := (← advance).span
  let object ← withIn (if isOf then g.assignment else g.expression)
  let _ ← expect .rParen
  let body ← g.statement
  if isOf then return .forOf kind head object body isAwait
  if isAwait then fail keyword (.unexpectedToken "'in'")
  return .forIn kind head object body

def atForEach : Parse Bool := return (← atWord "of") || (← atWord "in")

def forRest (g : Grammar) (keyword : Span) (init : Option Statement) (isAwait : Bool) :
    Parse StatementNode := do
  if isAwait then fail keyword .unexpectedForAwait
  let _ ← expect .semicolon
  let test ← if ← at? .semicolon then pure none else pure (some (← withIn g.expression))
  let _ ← expect .semicolon
  let update ← if ← at? .rParen then pure none else pure (some (← withIn g.expression))
  let _ ← expect .rParen
  return .for init test update (← g.statement)

def forDeclaration (g : Grammar) (keyword : Span) (kind : VarKind) (isAwait : Bool) :
    Parse StatementNode := do
  let start := (← advance).span
  let target ← withoutIn g.binding
  if ← atForEach then return ← g.forEach (some kind) target isAwait
  let init ← if ← eat .assign then pure (some (← withoutIn g.assignment)) else pure none
  if init.isNone && (kind == .const || !target.isSimple) then
    fail (← lastSpan) .missingForInitializer
  let rest ← if ← eat .comma then withoutIn (g.declarators kind) else pure []
  let declaration := Statement.mk (← finish start) (.declaration kind (.mk target init :: rest))
  g.forRest keyword (some declaration) isAwait

def forRule (g : Grammar) : Parse StatementNode := do
  let keyword := (← advance).span
  let isAwait ←
    if ← atWord "await" then do
      if !(← awaitAllowed) then unexpected
      noteAwait
      let _ ← advance
      pure true
    else pure false
  let _ ← expect .lParen
  match ← declarationAhead with
  | some kind => g.forDeclaration keyword kind isAwait
  | none =>
    if ← at? .semicolon then return ← g.forRest keyword none isAwait
    let e ← withoutIn g.expression
    if ← atForEach then
      match e.toPattern with
      | .ok target => return ← g.forEach none target isAwait
      | .error fault => throw fault
    g.forRest keyword (some (.mk e.span (.expression e))) isAwait

def tryRule (g : Grammar) : Parse StatementNode := do
  let start := (← advance).span
  let body ← g.block
  let (param, handler) ←
    if ← eatWord "catch" then do
      let param ←
        if ← eat .lParen then do
          let param ← g.binding
          let _ ← expect .rParen
          pure (some param)
        else pure none
      pure (param, some (← g.block))
    else pure (none, none)
  let finalizer ← if ← eatWord "finally" then pure (some (← g.block)) else pure none
  if handler.isNone && finalizer.isNone then fail start .missingCatchOrFinally
  return .try body param handler finalizer

def caseBody (g : Grammar) : Parse (List Statement) :=
  loop ([] : List Statement) fun before => do
    match ← peek with
    | .punctuator .rBrace | .endOfInput | .identifier "case" | .identifier "default" =>
      return .inr before.reverse
    | _ => return .inl ((← g.statement) :: before)

def switchRule (g : Grammar) : Parse StatementNode := do
  let _ ← advance
  let discriminant ← g.parenthesized
  let _ ← expect .lBrace
  let cases ← loop (([], false) : List SwitchCase × Bool) fun (before, seenDefault) => do
    if ← eat .rBrace then return .inr before.reverse
    if ← eatWord "case" then
      let test ← withIn g.expression
      let _ ← expect .colon
      return .inl (.mk (some test) (← g.caseBody) :: before, seenDefault)
    else if ← atWord "default" then
      let span := (← advance).span
      if seenDefault then fail span .secondDefaultClause
      let _ ← expect .colon
      return .inl (.mk none (← g.caseBody) :: before, true)
    else unexpected
  return .switch discriminant cases

/-- Passes over a declaration of a module: up to a semicolon or the end of a line outside brackets. -/
def skipModuleDecl : Parse Unit := do
  let _ ← advance
  loop 0 fun depth => do
    let l ← lexeme
    match l.token with
    | .endOfInput => return .inr ()
    | token =>
      if depth == 0 && token.isMark .semicolon then
        let _ ← advance
        return .inr ()
      if depth == 0 && l.afterNewline then return .inr ()
      match token with
      | .punctuator .lParen | .punctuator .lBracket | .punctuator .lBrace =>
        let _ ← advance
        return .inl (depth + 1)
      | .punctuator .rParen | .punctuator .rBracket | .punctuator .rBrace =>
        if depth == 0 then return .inr ()
        let _ ← advance
        return .inl (depth - 1)
      | _ =>
        let _ ← advance
        return .inl depth

def returnRule (g : Grammar) (start : Span) : Parse StatementNode := do
  if !(← read).inFunction then fail start .illegalReturn
  let _ ← advance
  let l ← lexeme
  let bare := l.afterNewline || match l.token with
    | .punctuator .semicolon | .punctuator .rBrace | .endOfInput => true
    | _ => false
  let value ← if bare then pure none else pure (some (← g.expression))
  semicolon
  return .return value

/-- The label of a `break` or `continue`. -/
def label? : Parse (Option String) := do
  let _ ← advance
  let l ← lexeme
  let label ← match l.token with
    | .identifier name =>
      if !l.afterNewline && !isReserved name then do
        let _ ← advance
        pure (some name)
      else pure none
    | _ => pure none
  semicolon
  return label

def throwRule (g : Grammar) : Parse StatementNode := do
  let _ ← advance
  if (← lexeme).afterNewline then fail (← span) .newlineAfterThrow
  let value ← g.expression
  semicolon
  return .throw value

def expressionStatement (g : Grammar) : Parse StatementNode := do
  let e ← g.expression
  semicolon
  return .expression e

def otherStatement (g : Grammar) (word : String) : Parse StatementNode := do
  if (← peekAt 1).isMark .colon && !isReserved word then
    let _ ← advance
    let _ ← advance
    return .labeled word (← g.statement)
  g.expressionStatement

/-- A statement that starts with a word. -/
def wordStatement (g : Grammar) (start : Span) (word : String) : Parse StatementNode := do
  match word with
  | "var" => g.variableStatement .var
  | "const" => g.variableStatement .const
  | "let" =>
    if (← declarationAhead).isSome then g.variableStatement .let else g.otherStatement word
  | "function" => return .function (← g.function start false true)
  | "async" =>
    let following ← lexemeAt 1
    if following.token.isWord "function" && !following.afterNewline then
      let _ ← advance
      return .function (← g.function start true true)
    g.otherStatement word
  | "class" => return .classDecl (← g.classRule true)
  | "if" => g.ifRule
  | "for" => g.forRule
  | "while" =>
    let _ ← advance
    let test ← g.parenthesized
    return .while test (← g.statement)
  | "do" =>
    let _ ← advance
    let body ← g.statement
    let _ ← expectWord "while"
    let test ← g.parenthesized
    let _ ← eat .semicolon
    return .doWhile body test
  | "return" => g.returnRule start
  | "break" => return .break (← label?)
  | "continue" => return .continue (← label?)
  | "throw" => g.throwRule
  | "try" => g.tryRule
  | "switch" => g.switchRule
  | "debugger" =>
    let _ ← advance
    semicolon
    return .debugger
  | "with" => unsupported "'with' statements"
  | "import" =>
    match ← peekAt 1 with
    | .punctuator .lParen | .punctuator .dot => g.otherStatement word
    | _ =>
      skipModuleDecl
      return .moduleDecl "import declarations"
  | "export" =>
    skipModuleDecl
    return .moduleDecl "export declarations"
  | _ => g.otherStatement word

def statementRule (g : Grammar) : Parse Statement := do
  let l ← lexeme
  let node ← match l.token with
    | .punctuator .lBrace => do pure (StatementNode.block (← g.block))
    | .punctuator .semicolon => do
      let _ ← advance
      pure .empty
    | .identifier word => g.wordStatement l.span word
    | _ => g.expressionStatement
  return .mk (← finish l.span) node

end EcmaScript.Grammar

/-! Whole scripts, and functions given as text. -/
namespace EcmaScript

def Grammar.rules (g : Grammar) : Grammar where
  run
    | .statement => g.statementRule
    | .assignment => g.assignmentRule
    | .binary floor => g.binaryRule floor
    | .unary => g.unaryRule
    | .leftHandSide => g.leftHandSideRule
    | .binding => g.bindingRule

def parseGoal : (depth : Nat) → (goal : Goal) → Parse goal.Tree
  | 0, _ => Parse.stuck
  | depth + 1, goal => (Grammar.rules ⟨fun inner => parseGoal depth inner⟩).run goal

/-- The grammar with its knot tied. Between one token and the next at most eight constructs open. -/
def Grammar.ofLength (length : Nat) : Grammar := ⟨fun goal => parseGoal (8 * length + 64) goal⟩

def parseText {α : Type} (source : String) (read : Grammar → Parse α) :
    Except ReadError (α × TokenStream) := do
  let tokens ← tokenize source
  (read (Grammar.ofLength source.length)).run {} |>.run { tokens := tokens.toArray }

def Grammar.script (g : Grammar) : Parse (List Statement) :=
  Parse.loop ([] : List Statement) fun before => do
    match ← Parse.peek with
    | .endOfInput => return .inr before.reverse
    | _ => return .inl ((← g.statement) :: before)

def parseScript (source : String) : Except ReadError Script := do
  let (body, stream) ← parseText source Grammar.script
  return ⟨body, asksStrict body, stream.awaits⟩

def isCompleteInput (source : String) : Bool :=
  match parseScript source with
  | .error (.fault .unexpectedEnd _ _) => false
  | .error (.fault .unterminatedTemplate _ _) => false
  | _ => true

def functionSource (params body : String) (isAsync : Bool) : String :=
  "(" ++ (if isAsync then "async " else "") ++ "function anonymous(" ++ params ++ "\n) \x7b\n" ++ body
    ++ "\n\x7d)"

def parseFunction (source : String) : Except ReadError FunctionNode := do
  let (e, _) ← parseText source fun g => do
    let e ← g.expression
    match ← Parse.peek with
    | .endOfInput => return e
    | _ => Parse.unexpected
  match e.node with
  | .function f => return f
  | _ => throw (ReadError.at e.span .notAFunction)

end EcmaScript
