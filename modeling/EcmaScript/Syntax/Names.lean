import EcmaScript.Syntax.Tree

/-! The names that patterns and statements declare. -/
namespace EcmaScript

mutual

def Pattern.boundNames : Pattern → List String
  | .identifier name _ => [name]
  | .place _ => []
  | .array elements _ => boundNamesOf elements
  | .object properties _ => boundNamesOf properties
  | .fallback target _ => target.boundNames
  | .hole => []
  | .rest target => target.boundNames
  | .property _ target => target.boundNames

def boundNamesOf : List Pattern → List String
  | [] => []
  | p :: rest => p.boundNames ++ boundNamesOf rest

end

def Declarator.target : Declarator → Pattern
  | .mk target _ => target

def declaredNames (declarators : List Declarator) : List String :=
  boundNamesOf (declarators.map Declarator.target)

mutual

def Statement.varNames : Statement → List String
  | .mk _ node => node.varNames

def StatementNode.varNames : StatementNode → List String
  | .declaration .var declarators => declaredNames declarators
  | .if _ consequent alternate => consequent.varNames ++ varNamesOfOption alternate
  | .for init _ _ body => varNamesOfOption init ++ body.varNames
  | .forIn kind head _ body => (if kind = some .var then head.boundNames else []) ++ body.varNames
  | .forOf kind head _ body _ => (if kind = some .var then head.boundNames else []) ++ body.varNames
  | .while _ body => body.varNames
  | .doWhile body _ => body.varNames
  | .labeled _ body => body.varNames
  | .block body => varNamesOf body
  | .switch _ cases => varNamesOfCases cases
  | .try block _ handler finalizer =>
    varNamesOf block ++ varNamesOfBlock handler ++ varNamesOfBlock finalizer
  | _ => []

def varNamesOfOption : Option Statement → List String
  | none => []
  | some st => st.varNames

def varNamesOfBlock : Option (List Statement) → List String
  | none => []
  | some body => varNamesOf body

def varNamesOf : List Statement → List String
  | [] => []
  | st :: rest => st.varNames ++ varNamesOf rest

def varNamesOfCases : List SwitchCase → List String
  | [] => []
  | .mk _ body :: rest => varNamesOf body ++ varNamesOfCases rest

end

mutual

def Statement.blockFunctions (outermost : Bool) : Statement → List String
  | .mk _ node => node.blockFunctions outermost

def StatementNode.blockFunctions (outermost : Bool) : StatementNode → List String
  | .function f => if outermost then [] else f.name?.toList
  | .labeled _ body => body.blockFunctions outermost
  | .if _ consequent alternate =>
    consequent.blockFunctions false ++ blockFunctionsOfOption alternate
  | .for _ _ _ body => body.blockFunctions false
  | .forIn _ _ _ body => body.blockFunctions false
  | .forOf _ _ _ body _ => body.blockFunctions false
  | .while _ body => body.blockFunctions false
  | .doWhile body _ => body.blockFunctions false
  | .block body => blockFunctionsOf body
  | .switch _ cases => blockFunctionsOfCases cases
  | .try block _ handler finalizer =>
    blockFunctionsOf block ++ blockFunctionsOfBlock handler ++ blockFunctionsOfBlock finalizer
  | _ => []

def blockFunctionsOfOption : Option Statement → List String
  | none => []
  | some st => st.blockFunctions false

def blockFunctionsOfBlock : Option (List Statement) → List String
  | none => []
  | some body => blockFunctionsOf body

def blockFunctionsOf : List Statement → List String
  | [] => []
  | st :: rest => st.blockFunctions false ++ blockFunctionsOf rest

def blockFunctionsOfCases : List SwitchCase → List String
  | [] => []
  | .mk _ body :: rest => blockFunctionsOf body ++ blockFunctionsOfCases rest

end

mutual

def Statement.function? : Statement → Option FunctionNode
  | .mk _ node => node.function?

def StatementNode.function? : StatementNode → Option FunctionNode
  | .function f => some f
  | .labeled _ body => body.function?
  | _ => none

end

def directFunctions (body : List Statement) : List FunctionNode := body.filterMap (·.function?)

def FunctionNode.boundName (f : FunctionNode) : String := f.name?.getD "default"

/-- A name that a list of statements declares lexically, with the statement's place. -/
structure LexicalName where
  name : String
  kind : VarKind
  isClass : Bool
  span : Span
deriving Inhabited

def Statement.lexicalNames : Statement → List LexicalName
  | .mk span (.declaration kind declarators) =>
    if kind = .var then [] else (declaredNames declarators).map fun n => ⟨n, kind, false, span⟩
  | .mk span (.classDecl c) => c.name?.toList.map fun n => ⟨n, .let, true, span⟩
  | _ => []

def lexicalNames (body : List Statement) : List LexicalName := body.flatMap (·.lexicalNames)

def Statement.needsScope : Statement → Bool
  | .mk _ (.classDecl _) => true
  | .mk _ (.function _) => true
  | .mk _ (.labeled ..) => true
  | .mk _ (.declaration kind _) => kind != .var
  | _ => false

end EcmaScript
