import EcmaScript.Parser.Basic

/-! Names of properties, binding patterns, and expressions read again as assignment targets. -/
namespace EcmaScript.Grammar
open EcmaScript.Parse

/-- A name of a property. Private names are only allowed in classes. -/
def propertyName (g : Grammar) (allowPrivate : Bool) : Parse Key := do
  let l ← lexeme
  match l.token with
  | .identifier name | .string name =>
    let _ ← advance
    return .fixed name
  | .number n =>
    let _ ← advance
    return .fixed (Number.text n)
  | .bigInt digits =>
    let _ ← advance
    return .fixed digits
  | .privateName name =>
    if !allowPrivate then unexpected
    if name == "constructor" then fail l.span .privateConstructor
    let _ ← advance
    return .hidden name
  | .punctuator .lBracket =>
    let _ ← advance
    let e ← withIn g.assignment
    let _ ← expect .rBracket
    return .computed e
  | _ => unexpected

def bindingTarget (g : Grammar) : Parse Pattern := do
  let target ← g.binding
  if ← eat .assign then return .fallback target (← withIn g.assignment)
  return target

def bindingName (_ : Grammar) : Parse Pattern := do
  let (name, span) ← Parse.bindingName
  return .identifier name span

/-- The elements of an array pattern up to its bracket. -/
def arrayBinding (g : Grammar) : Parse (List Pattern) :=
  loop ([] : List Pattern) fun before => do
    match ← peek with
    | .punctuator .rBracket => return .inr before.reverse
    | .punctuator .comma =>
      let _ ← advance
      return .inl (.hole :: before)
    | .punctuator .spread =>
      let _ ← advance
      return .inr (.rest (← g.binding) :: before).reverse
    | _ =>
      let element ← g.bindingTarget
      if ← eat .comma then return .inl (element :: before)
      return .inr (element :: before).reverse

def propertyBinding (g : Grammar) : Parse Pattern := do
  let l ← lexeme
  let key ← g.propertyName false
  if ← eat .colon then return .property key (← g.bindingTarget)
  match key, l.token with
  | .fixed name, .identifier _ =>
    if isReserved name then fail l.span (.unexpectedToken l.token.describe)
    let target := Pattern.identifier name l.span
    if ← eat .assign then return .property key (.fallback target (← withIn g.assignment))
    return .property key target
  | _, _ => fail l.span (.unexpectedToken l.token.describe)

def objectBinding (g : Grammar) : Parse (List Pattern) :=
  loop ([] : List Pattern) fun before => do
    if ← at? .rBrace then return .inr before.reverse
    if ← eat .spread then return .inr (.rest (← g.bindingName) :: before).reverse
    let property ← g.propertyBinding
    if ← eat .comma then return .inl (property :: before)
    return .inr (property :: before).reverse

/-- What a declaration, a parameter or a `catch` binds. -/
def bindingRule (g : Grammar) : Parse Pattern := do
  let start ← span
  match ← peek with
  | .punctuator .lBracket =>
    let _ ← advance
    let elements ← g.arrayBinding
    let _ ← expect .rBracket
    return .array elements (← finish start)
  | .punctuator .lBrace =>
    let _ ← advance
    let properties ← g.objectBinding
    let _ ← expect .rBrace
    return .object properties (← finish start)
  | _ => g.bindingName

end Grammar

mutual

def Expr.toPattern : Expr → Except ReadError Pattern
  | .mk span node => ExprNode.toPattern span node

def ExprNode.toPattern (span : Span) : ExprNode → Except ReadError Pattern
  | .identifier name => return .identifier name span
  | .member object key false => return .place (.mk span (.member object key false))
  | .superMember key => return .place (.mk span (.superMember key))
  | .assign target value => return .fallback target value
  | .array elements => return .array (← Expr.toPatterns elements) span
  | .object members => return .object (← Member.toPatterns members) span
  | _ => throw (ReadError.at span .invalidAssignmentTarget)

/-- The elements of an array literal. Only the last may be spread. -/
def Expr.toPatterns : List Expr → Except ReadError (List Pattern)
  | [] => return []
  | e :: rest => do
    let first ← Expr.toElement e rest.isEmpty
    return first :: (← Expr.toPatterns rest)

def Expr.toElement (e : Expr) (isLast : Bool) : Except ReadError Pattern :=
  match e with
  | .mk _ .hole => return .hole
  | .mk _ (.spread inner) =>
    if isLast then return .rest (← Expr.toPattern inner)
    else throw (ReadError.at inner.span .elementAfterRest)
  | .mk span node => ExprNode.toPattern span node

def Member.toPatterns : List Member → Except ReadError (List Pattern)
  | [] => return []
  | m :: rest => do
    let first ← Member.toPattern m
    return first :: (← Member.toPatterns rest)

def Member.toPattern : Member → Except ReadError Pattern
  | .property key value _ => return .property key (← Expr.toPattern value)
  | .initialized name fallback span =>
    return .property (.fixed name) (.fallback (.identifier name span) fallback)
  | .spread value => return .rest (← Expr.toPattern value)
  | .method _ _ _ function => throw (ReadError.at function.span .invalidDestructuringTarget)
  | .field _ _ _ span => throw (ReadError.at span .invalidDestructuringTarget)
  | .staticBlock body => throw (ReadError.at body.span .invalidDestructuringTarget)

end

end EcmaScript

/-! Functions, methods and classes. -/
namespace EcmaScript

def Statement.directive? : Statement → Option Bool
  | .mk _ (.expression (.mk span (.string value))) =>
    some (value == "use strict" && span.stop == span.start + 12)
  | _ => none

def asksStrict : List Statement → Bool
  | [] => false
  | s :: rest => match s.directive? with
    | some true => true
    | some false => asksStrict rest
    | none => false

/-- The prefixes of a method definition. -/
structure MethodModifiers where
  isAsync : Bool
  isGenerator : Bool
  accessor : Option MethodKind

def MethodModifiers.any (m : MethodModifiers) : Bool :=
  m.isAsync || m.isGenerator || m.accessor.isSome

def MethodModifiers.kinds (m : MethodModifiers) : MethodKind × FunctionKind :=
  match m.accessor with
  | some .getter => (.getter, .getter)
  | some .setter => (.setter, .setter)
  | _ => (.method, .method)

namespace Grammar
open EcmaScript.Parse

def statementsToBrace (g : Grammar) : Parse (List Statement) :=
  loop ([] : List Statement) fun before => do
    match ← peek with
    | .punctuator .rBrace =>
      let _ ← advance
      return .inr before.reverse
    | .endOfInput => unexpected
    | _ => return .inl ((← g.statement) :: before)

def block (g : Grammar) : Parse (List Statement) := do
  let _ ← expect .lBrace
  g.statementsToBrace

/-- Parameters between parentheses. Only the last may collect the rest. -/
def params (g : Grammar) : Parse (List Pattern) := do
  let _ ← expect .lParen
  let found ← loop ([] : List Pattern) fun before => do
    if ← at? .rParen then return .inr before.reverse
    if ← eat .spread then
      let target ← g.binding
      if !(← at? .rParen) then fail (← span) .parameterAfterRest
      return .inr (.rest target :: before).reverse
    let target ← g.bindingTarget
    if ← eat .comma then return .inl (target :: before)
    return .inr (target :: before).reverse
  let _ ← expect .rParen
  return found

def checkParams (kind : FunctionKind) (found : List Pattern) : Parse Unit := do
  match kind, found with
  | .getter, [] => return ()
  | .getter, _ => fail (← lastSpan) .getterParameters
  | .setter, [.rest _] => fail (← lastSpan) .setterParameters
  | .setter, [_] => return ()
  | .setter, _ => fail (← lastSpan) .setterParameters
  | _, _ => return ()

def functionRest (g : Grammar) (start : Span) (name : Option String) (kind : FunctionKind)
    (isAsync isGenerator : Bool) : Parse FunctionNode := do
  let (found, body) ← inFunction isAsync isGenerator <| withIn do
    let found ← g.params
    checkParams kind found
    return (found, ← g.block)
  let strict := asksStrict body || kind == .baseConstructor || kind == .derivedConstructor
  return .mk name found body kind isAsync isGenerator strict (← finish start)

def function (g : Grammar) (start : Span) (isAsync isDeclaration : Bool) : Parse FunctionNode := do
  let _ ← expectWord "function"
  let isGenerator ← eat .star
  match ← peek with
  | .identifier _ =>
    let (name, _) ← Parse.bindingName
    g.functionRest start (some name) .normal isAsync isGenerator
  | _ =>
    if isDeclaration then unexpected
    g.functionRest start none .normal isAsync isGenerator

/-- An arrow function, from its parameters or the `async` before them. -/
def arrow (g : Grammar) (isAsync : Bool) : Parse Expr := do
  let start ← span
  if isAsync then
    let _ ← advance
  let (found, body) ← inFunction isAsync false do
    let found ← if ← at? .lParen then g.params else do
      let (name, span) ← Parse.bindingName
      pure [Pattern.identifier name span]
    if (← lexeme).afterNewline then unexpected
    let _ ← expect .arrow
    if ← at? .lBrace then return (found, ← withIn g.block)
    let value ← g.assignment
    return (found, [Statement.mk value.span (.concise value)])
  let span ← finish start
  return .mk span (.function (.mk none found body .arrow isAsync false (asksStrict body) span))

def closing (s : TokenStream) : (fuel : Nat) → (i depth : Nat) → Except ReadError (Option Nat)
  | 0, _, _ => throw .stuck
  | fuel + 1, i, depth =>
    match (s.ahead i).token with
    | .punctuator .lParen | .punctuator .lBracket | .punctuator .lBrace =>
      closing s fuel (i + 1) (depth + 1)
    | .punctuator .rParen | .punctuator .rBracket | .punctuator .rBrace =>
      if depth ≤ 1 then return some (i + 1) else closing s fuel (i + 1) (depth - 1)
    | .endOfInput => return none
    | _ => closing s fuel (i + 1) depth

/-- Whether an arrow function starts here, and whether it is async. -/
def arrowAhead? (s : TokenStream) : Except ReadError (Option Bool) :=
  let arrowAt (n : Nat) : Bool := (s.ahead n).token.isMark .arrow
  let sameLine (n : Nat) : Bool := !(s.ahead n).afterNewline
  let parens (n : Nat) (isAsync : Bool) : Except ReadError (Option Bool) := do
    match ← closing s (s.tokens.size + 1) n 0 with
    | some i => return if arrowAt i && sameLine i then some isAsync else none
    | none => return none
  let plain : Except ReadError (Option Bool) :=
    match (s.ahead 0).token with
    | .identifier name =>
      return if !isReserved name && arrowAt 1 && sameLine 1 then some false else none
    | .punctuator .lParen => parens 0 false
    | _ => return none
  if (s.ahead 0).token.isWord "async" && sameLine 1 then
    match (s.ahead 1).token with
    | .identifier _ => if arrowAt 2 then return some true else plain
    | .punctuator .lParen => parens 1 true
    | _ => plain
  else plain

def isKeyToken : Token → Bool
  | .identifier _ | .string _ | .number _ | .bigInt _ | .privateName _ => true
  | .punctuator .lBracket => true
  | _ => false

def methodModifiers : Parse MethodModifiers := do
  let following ← lexemeAt 1
  let isAsync ←
    if (← atWord "async") && !following.afterNewline
        && (isKeyToken following.token || following.token.isMark .star) then do
      let _ ← advance
      pure true
    else pure false
  let isGenerator ← eat .star
  if !isAsync && !isGenerator && isKeyToken (← peekAt 1) then
    if ← eatWord "get" then return ⟨false, false, some .getter⟩
    if ← eatWord "set" then return ⟨false, false, some .setter⟩
  return ⟨isAsync, isGenerator, none⟩

def isFixed (name : String) : Key → Bool
  | .fixed k => k == name
  | _ => false

/-- What is known of a class before its end. -/
structure ClassDraft where
  constructor : Option FunctionNode := none
  elements : List Member := []

def ClassDraft.push (d : ClassDraft) (m : Member) : ClassDraft := { d with elements := m :: d.elements }

def classMethod (g : Grammar) (draft : ClassDraft) (derived isStatic : Bool)
    (memberStart start : Span) (modifiers : MethodModifiers) (key : Key) : Parse ClassDraft := do
  if !isStatic && isFixed "constructor" key then
    if modifiers.any then fail memberStart .specialConstructor
    if draft.constructor.isSome then fail memberStart .secondConstructor
    let kind := if derived then FunctionKind.derivedConstructor else .baseConstructor
    return { draft with constructor := some (← g.functionRest start none kind false false) }
  let (kind, functionKind) := modifiers.kinds
  let f ← g.functionRest start none functionKind modifiers.isAsync modifiers.isGenerator
  return draft.push (.method key kind isStatic f.forceStrict)

def fieldInitializer (g : Grammar) : Parse (Option FunctionNode) := do
  if !(← eat .assign) then return none
  let start ← span
  let value ← inFunction false false g.assignment
  return some (.mk none [] [.mk value.span (.concise value)] .classField false false true
    (← finish start))

/-- A member of a class. -/
def classMember (g : Grammar) (draft : ClassDraft) (derived : Bool) : Parse ClassDraft := do
  let memberStart ← span
  let isStatic ←
    if ← atWord "static" then
      match ← peekAt 1 with
      | .punctuator .lParen | .punctuator .assign | .punctuator .semicolon | .punctuator .rBrace =>
        pure false
      | _ =>
        let _ ← advance
        pure true
    else pure false
  if isStatic && (← at? .lBrace) then
    let start ← span
    let body ← inFunction false false g.block
    return draft.push (.staticBlock (.mk none [] body .staticBlock false false true (← finish start)))
  let start ← span
  let modifiers ← methodModifiers
  let key ← g.propertyName true
  if ← at? .lParen then
    return ← g.classMethod draft derived isStatic memberStart start modifiers key
  if modifiers.any then unexpected
  if isFixed "constructor" key || (isStatic && isFixed "prototype" key) then
    fail memberStart .forbiddenFieldName
  let initializer ← g.fieldInitializer
  semicolon
  return draft.push (.field key isStatic initializer (← finish memberStart))

def classRule (g : Grammar) (isDeclaration : Bool) : Parse ClassNode := do
  let start ← expectWord "class"
  let name ← match ← peek with
    | .identifier word =>
      if word != "extends" then pure (some (← Parse.bindingName).1)
      else if isDeclaration then unexpected
      else pure none
    | _ => if isDeclaration then unexpected else pure none
  let heritage ← if ← eatWord "extends" then pure (some (← g.leftHandSide)) else pure none
  let _ ← expect .lBrace
  let draft ← withIn <| loop ({} : ClassDraft) fun draft => do
    if ← eat .rBrace then return .inr draft
    if ← eat .semicolon then return .inl draft
    return .inl (← g.classMember draft heritage.isSome)
  return .mk name heritage draft.constructor draft.elements.reverse (← finish start)

end EcmaScript.Grammar
