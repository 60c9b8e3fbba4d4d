import EcmaScript.Token.Basic

/-! Syntax trees of scripts. -/
namespace EcmaScript

inductive UnaryOp where
  | minus | plus | not | bitNot | typeOf | void | delete
deriving DecidableEq, Inhabited

inductive BinaryOp where
  | add | sub | mul | div | mod | exp | shl | shr | ushr | bitAnd | bitOr | bitXor
  | equal | notEqual | strictEqual | strictNotEqual | less | greater | lessEqual | greaterEqual
  | instanceOf | isIn
deriving DecidableEq, Inhabited

inductive LogicalOp where
  | and | or | nullish
deriving DecidableEq, Inhabited

def AssignOp.logical? : AssignOp → Option LogicalOp
  | .and => some .and
  | .or => some .or
  | .nullish => some .nullish
  | _ => none

/-- The binary operator of a compound assignment that always assigns. -/
def AssignOp.binary? : AssignOp → Option BinaryOp
  | .add => some .add
  | .sub => some .sub
  | .mul => some .mul
  | .div => some .div
  | .mod => some .mod
  | .exp => some .exp
  | .shl => some .shl
  | .shr => some .shr
  | .ushr => some .ushr
  | .bitAnd => some .bitAnd
  | .bitOr => some .bitOr
  | .bitXor => some .bitXor
  | _ => none

inductive MethodKind where
  | method | getter | setter
deriving DecidableEq, Inhabited

inductive FunctionKind where
  | normal | arrow | method | getter | setter
  | baseConstructor | derivedConstructor | classField | staticBlock
deriving DecidableEq, Inhabited

inductive VarKind where
  | var | let | const
deriving DecidableEq, Inhabited

mutual

/-- An expression at its place. -/
inductive Expr where
  | mk (span : Span) (node : ExprNode)

inductive ExprNode where
  | number (value : Float)
  | string (value : String)
  | boolean (value : Bool)
  | null
  | bigInt (digits : String)
  | regExp (pattern flags : String)
  | template (chunks : List TemplateChunk) (parts : List Expr)
  | taggedTemplate (tag : Expr) (chunks : List TemplateChunk) (parts : List Expr)
  | identifier (name : String)
  | this
  | newTarget
  | array (elements : List Expr)
  | object (members : List Member)
  | function (function : FunctionNode)
  | classExpr (definition : ClassNode)
  | unary (op : UnaryOp) (operand : Expr)
  | update (increment isPrefix : Bool) (target : Expr)
  | binary (op : BinaryOp) (left right : Expr)
  | logical (op : LogicalOp) (left right : Expr)
  | privateIn (name : String) (object : Expr)
  | assign (target : Pattern) (value : Expr)
  | compoundAssign (op : AssignOp) (target value : Expr)
  | conditional (test consequent alternate : Expr)
  | member (object : Expr) (key : Key) (optional : Bool)
  | superMember (key : Key)
  | call (callee : Expr) (arguments : List Expr) (optional : Bool)
  | superCall (arguments : List Expr)
  | new (callee : Expr) (arguments : List Expr)
  /-- The extent of an optional chain: a break in it makes the whole undefined. -/
  | optionalChain (body : Expr)
  | sequence (parts : List Expr)
  | await (operand : Expr)
  | yield (operand : Option Expr) (delegate : Bool)
  /-- A missing element of an array literal. -/
  | hole
  /-- The items of an iterable, among the elements of an array literal or a list of arguments. -/
  | spread (value : Expr)

/-- A name of a property: fixed, computed or private. -/
inductive Key where
  | fixed (name : String)
  | computed (name : Expr)
  | hidden (name : String)

/-- A member of an object literal or of a class. -/
inductive Member where
  | property (key : Key) (value : Expr) (shorthand : Bool)
  /-- `name = fallback`, which only a pattern may hold. -/
  | initialized (name : String) (fallback : Expr) (span : Span)
  | spread (value : Expr)
  | method (key : Key) (kind : MethodKind) (isStatic : Bool) (function : FunctionNode)
  | field (key : Key) (isStatic : Bool) (initializer : Option FunctionNode) (span : Span)
  | staticBlock (body : FunctionNode)

/-- What a value is bound or assigned to. -/
inductive Pattern where
  | identifier (name : String) (span : Span)
  /-- A member of an object, in assignments only. -/
  | place (target : Expr)
  | array (elements : List Pattern) (span : Span)
  | object (properties : List Pattern) (span : Span)
  /-- A target with the value it takes when it would become undefined. -/
  | fallback (target : Pattern) (value : Expr)
  /-- An element that is passed over. -/
  | hole
  /-- What collects the remaining items, properties or arguments. -/
  | rest (target : Pattern)
  /-- A property of an object pattern. -/
  | property (key : Key) (target : Pattern)

/-- A function as it is written. `strict` says that its body asks for strict mode. -/
inductive FunctionNode where
  | mk (name : Option String) (params : List Pattern) (body : List Statement) (kind : FunctionKind)
      (isAsync isGenerator strict : Bool) (span : Span)

inductive ClassNode where
  | mk (name : Option String) (heritage : Option Expr) (constructor : Option FunctionNode)
      (elements : List Member) (span : Span)

/-- A variable of a declaration, with its initial value if it has one. -/
inductive Declarator where
  | mk (target : Pattern) (init : Option Expr)

/-- A clause of a `switch`; the default clause has no test. -/
inductive SwitchCase where
  | mk (test : Option Expr) (body : List Statement)

/-- A statement at its place. -/
inductive Statement where
  | mk (span : Span) (node : StatementNode)

inductive StatementNode where
  | expression (value : Expr)
  | declaration (kind : VarKind) (declarators : List Declarator)
  | function (function : FunctionNode)
  | classDecl (definition : ClassNode)
  | return (value : Option Expr)
  /-- The whole body of a function that is written as an expression. -/
  | concise (value : Expr)
  | if (test : Expr) (consequent : Statement) (alternate : Option Statement)
  | for (init : Option Statement) (test update : Option Expr) (body : Statement)
  /-- Over the keys of an object. Without a kind the head is assigned to and not declared. -/
  | forIn (kind : Option VarKind) (head : Pattern) (object : Expr) (body : Statement)
  /-- Over the items of an iterable. -/
  | forOf (kind : Option VarKind) (head : Pattern) (iterable : Expr) (body : Statement)
      (isAwait : Bool)
  | while (test : Expr) (body : Statement)
  | doWhile (body : Statement) (test : Expr)
  | switch (discriminant : Expr) (cases : List SwitchCase)
  | block (body : List Statement)
  | empty
  | break (label : Option String)
  | continue (label : Option String)
  | labeled (label : String) (body : Statement)
  | try (block : List Statement) (param : Option Pattern) (handler finalizer : Option (List Statement))
  | throw (value : Expr)
  | debugger
  /-- A declaration of a module, which scripts cannot run. -/
  | moduleDecl (what : String)

end

instance : Inhabited Expr := ⟨.mk default .null⟩
instance : Inhabited Statement := ⟨.mk default .empty⟩
instance : Inhabited Pattern := ⟨.identifier "" default⟩
instance : Inhabited FunctionNode := ⟨.mk none [] [] .normal false false false default⟩
instance : Inhabited ClassNode := ⟨.mk none none none [] default⟩

def Expr.span : Expr → Span
  | .mk span _ => span

def Expr.node : Expr → ExprNode
  | .mk _ node => node

def Statement.span : Statement → Span
  | .mk span _ => span

def Statement.node : Statement → StatementNode
  | .mk _ node => node

namespace FunctionNode

def name? : FunctionNode → Option String
  | .mk name .. => name

def params : FunctionNode → List Pattern
  | .mk _ params .. => params

def body : FunctionNode → List Statement
  | .mk _ _ body .. => body

def kind : FunctionNode → FunctionKind
  | .mk _ _ _ kind .. => kind

def isAsync : FunctionNode → Bool
  | .mk _ _ _ _ isAsync .. => isAsync

def isGenerator : FunctionNode → Bool
  | .mk _ _ _ _ _ isGenerator .. => isGenerator

def strict : FunctionNode → Bool
  | .mk _ _ _ _ _ _ strict _ => strict

def span : FunctionNode → Span
  | .mk _ _ _ _ _ _ _ span => span

def isArrow (f : FunctionNode) : Bool := f.kind == .arrow

def forceStrict : FunctionNode → FunctionNode
  | .mk name params body kind isAsync isGenerator _ span =>
    .mk name params body kind isAsync isGenerator true span

end FunctionNode

namespace ClassNode

def name? : ClassNode → Option String
  | .mk name .. => name

def heritage? : ClassNode → Option Expr
  | .mk _ heritage .. => heritage

def constructor? : ClassNode → Option FunctionNode
  | .mk _ _ constructor .. => constructor

def elements : ClassNode → List Member
  | .mk _ _ _ elements _ => elements

def span : ClassNode → Span
  | .mk _ _ _ _ span => span

end ClassNode

def Pattern.isSimple : Pattern → Bool
  | .identifier .. => true
  | _ => false

def FunctionNode.hasSimpleParams (f : FunctionNode) : Bool := f.params.all Pattern.isSimple

def FunctionNode.expectedArguments (f : FunctionNode) : Nat :=
  (f.params.takeWhile fun
    | .fallback .. => false
    | .rest _ => false
    | _ => true).length

/-- A script. -/
structure Script where
  body : List Statement
  strict : Bool
  /-- Somewhere outside all functions the script awaits. -/
  awaits : Bool
deriving Inhabited

end EcmaScript
