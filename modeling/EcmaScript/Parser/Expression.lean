import EcmaScript.Parser.Function

/-! Expressions. -/
namespace EcmaScript

/-- An operator between two operands. -/
inductive InfixOp where
  | binary (op : BinaryOp)
  | logical (op : LogicalOp)
deriving DecidableEq

/-- How tight an operator binds, for the tokens that are one. -/
def infixOp? (noIn : Bool) : Token → Option (Nat × InfixOp)
  | .punctuator p => match p with
    | .nullish => some (1, .logical .nullish)
    | .logicalOr => some (1, .logical .or)
    | .logicalAnd => some (2, .logical .and)
    | .bitOr => some (3, .binary .bitOr)
    | .bitXor => some (4, .binary .bitXor)
    | .bitAnd => some (5, .binary .bitAnd)
    | .equal => some (6, .binary .equal)
    | .notEqual => some (6, .binary .notEqual)
    | .strictEqual => some (6, .binary .strictEqual)
    | .strictNotEqual => some (6, .binary .strictNotEqual)
    | .less => some (7, .binary .less)
    | .greater => some (7, .binary .greater)
    | .lessEqual => some (7, .binary .lessEqual)
    | .greaterEqual => some (7, .binary .greaterEqual)
    | .shiftLeft => some (8, .binary .shl)
    | .shiftRight => some (8, .binary .shr)
    | .unsignedShiftRight => some (8, .binary .ushr)
    | .plus => some (9, .binary .add)
    | .minus => some (9, .binary .sub)
    | .star => some (10, .binary .mul)
    | .slash => some (10, .binary .div)
    | .percent => some (10, .binary .mod)
    | .exponent => some (11, .binary .exp)
    | _ => none
  | .identifier word =>
    if word == "instanceof" then some (7, .binary .instanceOf)
    else if word == "in" && !noIn then some (7, .binary .isIn)
    else none
  | _ => none

def InfixOp.node (op : InfixOp) (left right : Expr) : ExprNode :=
  match op with
  | .binary op => .binary op left right
  | .logical op => .logical op left right

def unaryOp? : Token → Option UnaryOp
  | .punctuator .minus => some .minus
  | .punctuator .plus => some .plus
  | .punctuator .logicalNot => some .not
  | .punctuator .bitNot => some .bitNot
  | .identifier word =>
    if word == "typeof" then some .typeOf
    else if word == "void" then some .void
    else if word == "delete" then some .delete
    else none
  | _ => none

def Expr.isReference (e : Expr) : Bool :=
  match e.node with
  | .identifier _ | .member _ _ false | .superMember _ => true
  | _ => false

namespace Grammar
open EcmaScript.Parse

def expression (g : Grammar) : Parse Expr := do
  let start ← span
  let first ← g.assignment
  if !(← at? .comma) then return first
  let parts ← loop [first] fun before => do
    if ← eat .comma then return .inl ((← g.assignment) :: before)
    return .inr before.reverse
  return .mk (← finish start) (.sequence parts)

/-- Arguments between parentheses. -/
def arguments (g : Grammar) : Parse (List Expr) := do
  let _ ← expect .lParen
  let found ← withIn <| loop ([] : List Expr) fun before => do
    if ← at? .rParen then return .inr before.reverse
    let start ← span
    let item ←
      if ← eat .spread then do
        let e ← g.assignment
        pure (Expr.mk (← finish start) (.spread e))
      else g.assignment
    if ← eat .comma then return .inl (item :: before)
    return .inr (item :: before).reverse
  let _ ← expect .rParen
  return found

def memberName : Parse Key := do
  match ← peek with
  | .identifier name =>
    let _ ← advance
    return .fixed name
  | .privateName name =>
    let _ ← advance
    return .hidden name
  | _ => unexpected

def computedName (g : Grammar) : Parse Key := do
  let _ ← advance
  let e ← withIn g.expression
  let _ ← expect .rBracket
  return .computed e

def superRule (g : Grammar) : Parse Expr := do
  let start := (← advance).span
  match ← peek with
  | .punctuator .lParen =>
    let found ← g.arguments
    return .mk (← finish start) (.superCall found)
  | .punctuator .dot =>
    let _ ← advance
    match ← memberName with
    | .hidden _ => fail (← lastSpan) .unexpectedPrivateField
    | key => return .mk (← finish start) (.superMember key)
  | .punctuator .lBracket =>
    let key ← g.computedName
    return .mk (← finish start) (.superMember key)
  | _ => fail start .unexpectedSuper

/-- The expression of a substitution, from its own tokens. -/
def substitution (g : Grammar) (tokens : List Lexeme) : Parse Expr := do
  let saved ← get
  match tokens.getLast? with
  | none => fail saved.last (.unexpectedToken "'\x7d'")
  | some lastToken =>
    let stop := { lastToken.span with start := lastToken.span.stop }
    set { saved with tokens := (tokens ++ [Lexeme.mk .endOfInput stop false]).toArray, pos := 0 }
    let e ← withIn g.expression
    match ← peek with
    | .endOfInput => pure ()
    | _ => unexpected
    modify fun s => { saved with awaits := s.awaits }
    return e

def taggedTemplate (g : Grammar) (tag : Expr) (start : Span) (chunks : List TemplateChunk)
    (substitutions : List (List Lexeme)) : Parse Expr := do
  let _ ← advance
  let parts ← substitutions.mapM g.substitution
  return .mk (← finish start) (.taggedTemplate tag chunks parts)

def arrayLiteral (g : Grammar) : Parse Expr := do
  let start := (← advance).span
  let elements ← withIn <| loop ([] : List Expr) fun before => do
    let here ← span
    match ← peek with
    | .punctuator .rBracket => return .inr before.reverse
    | .punctuator .comma =>
      let _ ← advance
      return .inl (.mk here .hole :: before)
    | _ =>
      let item ←
        if ← eat .spread then do
          let e ← g.assignment
          pure (Expr.mk (← finish here) (.spread e))
        else g.assignment
      if ← eat .comma then return .inl (item :: before)
      return .inr (item :: before).reverse
  let _ ← expect .rBracket
  return .mk (← finish start) (.array elements)

def objectMember (g : Grammar) : Parse Member := do
  let start ← span
  let modifiers ← methodModifiers
  let l ← lexeme
  let key ← g.propertyName false
  if ← at? .lParen then
    let (kind, functionKind) := modifiers.kinds
    let f ← g.functionRest start none functionKind modifiers.isAsync modifiers.isGenerator
    return .method key kind false f
  if modifiers.any then unexpected
  if ← eat .colon then return .property key (← g.assignment) false
  match key, l.token with
  | .fixed name, .identifier _ =>
    if isReserved name then unexpected
    let mode ← read
    if (name == "await" && mode.inAsync) || (name == "yield" && mode.inGenerator) then
      fail l.span .reservedWord
    if ← eat .assign then
      let fallback ← g.assignment
      return .initialized name fallback (← finish start)
    return .property key (.mk l.span (.identifier name)) true
  | _, _ => unexpected

def objectLiteral (g : Grammar) : Parse Expr := do
  let start := (← advance).span
  let members ← withIn <| loop ([] : List Member) fun before => do
    if ← at? .rBrace then return .inr before.reverse
    let m ← if ← eat .spread then do pure (.spread (← g.assignment)) else g.objectMember
    if ← eat .comma then return .inl (m :: before)
    return .inr (m :: before).reverse
  let _ ← expect .rBrace
  return .mk (← finish start) (.object members)

/-- An expression that starts with a word. -/
def wordExpression (g : Grammar) (start : Span) (name : String) : Parse Expr := do
  let literal (node : ExprNode) : Parse Expr := do
    let _ ← advance
    return .mk start node
  match name with
  | "this" => literal .this
  | "null" => literal .null
  | "true" => literal (.boolean true)
  | "false" => literal (.boolean false)
  | "function" =>
    let f ← g.function start false false
    return .mk f.span (.function f)
  | "class" =>
    let c ← g.classRule false
    return .mk c.span (.classExpr c)
  | "import" => unsupported "dynamic import"
  | _ =>
    let following ← lexemeAt 1
    if name == "async" && following.token.isWord "function" && !following.afterNewline then
      let _ ← advance
      let f ← g.function start true false
      return .mk f.span (.function f)
    if isReserved name then unexpected
    let (name, span) ← Parse.bindingName
    return .mk span (.identifier name)

def primary (g : Grammar) : Parse Expr := do
  let l ← lexeme
  let start := l.span
  let literal (node : ExprNode) : Parse Expr := do
    let _ ← advance
    return .mk start node
  match l.token with
  | .number n => literal (.number n)
  | .string s => literal (.string s)
  | .bigInt digits => literal (.bigInt digits)
  | .regExp pattern flags => literal (.regExp pattern flags)
  | .template chunks substitutions =>
    let _ ← advance
    if chunks.any (·.cooked.isNone) then fail start .invalidTemplateEscape
    return .mk start (.template chunks (← substitutions.mapM g.substitution))
  | .punctuator .lParen =>
    let _ ← advance
    let e ← withIn g.expression
    let _ ← expect .rParen
    return .mk (← finish start) e.node
  | .punctuator .lBracket => g.arrayLiteral
  | .punctuator .lBrace => g.objectLiteral
  | .identifier name => g.wordExpression start name
  | _ => unexpected

def chainHead (g : Grammar) (newRule : Parse Expr) : Parse Expr := do
  if ← atWord "new" then newRule
  else if ← atWord "super" then g.superRule
  else g.primary

/-- A constructor call; constructors nest at most `fuel` deep. -/
def newRule (g : Grammar) : (fuel : Nat) → Parse Expr
  | 0 => stuck
  | fuel + 1 => do
    let start := (← advance).span
    if ← eat .dot then
      let _ ← expectWord "target"
      if !(← read).inFunction then fail start .newTargetOutsideFunction
      return .mk (← finish start) .newTarget
    let head ← g.chainHead (g.newRule fuel)
    let callee ← loop head fun callee => do
      match ← peek with
      | .punctuator .dot =>
        let _ ← advance
        let key ← memberName
        return .inl (.mk (← finish start) (.member callee key false))
      | .punctuator .lBracket =>
        let key ← g.computedName
        return .inl (.mk (← finish start) (.member callee key false))
      | .template chunks substitutions =>
        return .inl (← g.taggedTemplate callee start chunks substitutions)
      | .punctuator .optionalChain => fail (← span) .optionalChainInNew
      | _ => return .inr callee
    let found ← if ← at? .lParen then g.arguments else pure []
    return .mk (← finish start) (.new callee found)

def optionalLink (g : Grammar) (object : Expr) (start : Span) : Parse Expr := do
  match ← peek with
  | .punctuator .lParen =>
    let found ← g.arguments
    return .mk (← finish start) (.call object found true)
  | .punctuator .lBracket =>
    let key ← g.computedName
    return .mk (← finish start) (.member object key true)
  | _ =>
    let key ← memberName
    return .mk (← finish start) (.member object key true)

/-- A chain of members and calls. -/
def leftHandSideRule (g : Grammar) : Parse Expr := do
  let start ← span
  let head ← g.chainHead (do g.newRule ((← get).tokens.size + 1))
  loop (head, false) fun (e, inChain) => do
    match ← peek with
    | .punctuator .dot =>
      let _ ← advance
      let key ← memberName
      return .inl (.mk (← finish start) (.member e key false), inChain)
    | .punctuator .optionalChain =>
      let _ ← advance
      return .inl (← g.optionalLink e start, true)
    | .punctuator .lBracket =>
      let key ← g.computedName
      return .inl (.mk (← finish start) (.member e key false), inChain)
    | .punctuator .lParen =>
      let found ← g.arguments
      return .inl (.mk (← finish start) (.call e found false), inChain)
    | .template chunks substitutions =>
      if inChain then fail (← span) .templateInOptionalChain
      return .inl (← g.taggedTemplate e start chunks substitutions, false)
    | _ => return .inr (if inChain then .mk e.span (.optionalChain e) else e)

def updateMark? : Token → Option Bool
  | .punctuator .increment => some true
  | .punctuator .decrement => some false
  | _ => none

def unaryRule (g : Grammar) : Parse Expr := do
  let start ← span
  let token ← peek
  match unaryOp? token, updateMark? token with
  | some op, _ =>
    let _ ← advance
    let operand ← g.unary
    return .mk (← finish start) (.unary op operand)
  | none, some increment =>
    let _ ← advance
    let target ← g.unary
    if !target.isReference then fail target.span .invalidUpdateTarget
    return .mk (← finish start) (.update increment true target)
  | none, none =>
    if token.isWord "await" && (← awaitAllowed) then
      let _ ← advance
      noteAwait
      let operand ← g.unary
      return .mk (← finish start) (.await operand)
    let e ← g.leftHandSide
    let l ← lexeme
    match updateMark? l.token with
    | some increment =>
      if l.afterNewline then return e
      if !e.isReference then fail e.span .invalidUpdateTarget
      let _ ← advance
      return .mk (← finish start) (.update increment false e)
    | none => return e

/-- The first operand of an operator expression. A private name is one before `in`. -/
def firstOperand (g : Grammar) : Parse Expr := do
  let start ← span
  match ← peek with
  | .privateName name =>
    if (← peekAt 1).isWord "in" then
      let _ ← advance
      let _ ← advance
      let object ← g.binary 8
      return .mk (← finish start) (.privateIn name object)
    g.unary
  | _ => g.unary

def isUnary (e : Expr) : Bool :=
  match e.node with
  | .unary .. => true
  | _ => false

/-- Operands joined by operators that bind tighter than `floor`. All but `**` associate to the left. -/
def binaryRule (g : Grammar) (floor : Nat) : Parse Expr := do
  let start ← span
  let parenthesized ← at? .lParen
  let first ← g.firstOperand
  let noIn := (← read).noIn
  loop first fun left => do
    match infixOp? noIn (← peek) with
    | none => return .inr left
    | some (precedence, op) =>
      if precedence ≤ floor then return .inr left
      if precedence == 11 && isUnary left && !parenthesized then fail (← span) .unaryBeforeExponent
      let _ ← advance
      let right ← g.binary (if precedence == 11 then 10 else precedence)
      return .inl (.mk (← finish start) (op.node left right))

def conditional (g : Grammar) : Parse Expr := do
  let start ← span
  let test ← g.binary 0
  if !(← eat .question) then return test
  let consequent ← withIn g.assignment
  let _ ← expect .colon
  let alternate ← g.assignment
  return .mk (← finish start) (.conditional test consequent alternate)

def endsYield (l : Lexeme) : Bool :=
  l.afterNewline || match l.token with
    | .punctuator .rParen | .punctuator .rBracket | .punctuator .rBrace | .punctuator .comma
    | .punctuator .semicolon | .punctuator .colon | .endOfInput => true
    | _ => false

def yieldRule (g : Grammar) : Parse Expr := do
  let start := (← advance).span
  let delegate ← eat .star
  let operand ← if endsYield (← lexeme) then pure none else pure (some (← g.assignment))
  return .mk (← finish start) (.yield operand delegate)

def assignmentRule (g : Grammar) : Parse Expr := do
  match ← ofExcept (arrowAhead? (← get)) with
  | some isAsync => g.arrow isAsync
  | none =>
    if (← read).inGenerator && (← atWord "yield") then return ← g.yieldRule
    let start ← span
    let left ← g.conditional
    match ← peek with
    | .punctuator .assign =>
      let _ ← advance
      let target ← ofExcept left.toPattern
      let value ← g.assignment
      return .mk (← finish start) (.assign target value)
    | .punctuator (.compoundAssign op) =>
      if !left.isReference then fail left.span .invalidAssignmentTarget
      let _ ← advance
      let value ← g.assignment
      return .mk (← finish start) (.compoundAssign op left value)
    | _ => return left

end EcmaScript.Grammar
