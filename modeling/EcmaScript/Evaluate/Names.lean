import EcmaScript.Function.Create
import EcmaScript.Object.Write
import EcmaScript.Syntax.Names

/-! What names mean: the scopes decide, and behind them the global object. -/
namespace EcmaScript.Exec

def superRequired {α : Type} : Exec α :=
  throwReference "Must call super constructor in derived class before accessing 'this' or returning from derived constructor"

def thisValue (scope : ScopeId) : Exec Value := do
  match (← look fun s => s.scope (s.thisScope scope)).kind with
  | .global object => return .object object
  | .function { this := some v, .. } => return v
  | .function { this := none, .. } => superRequired
  | .block => return .undefined

def notDefined {α : Type} (name : String) : Exec α := throwReference (name ++ " is not defined")

def uninitialized {α : Type} (name : String) : Exec α :=
  throwReference ("Cannot access '" ++ name ++ "' before initialization")

def readName (scope : ScopeId) (name : String) : Exec Value := do
  match ← look (·.resolve scope name) with
  | some found =>
    match ← look fun s => ((s.scope found).binding? name).bind (·.value) with
    | some v => return v
    | none => uninitialized name
  | none =>
    let g ← globalObject
    let key := PropertyKey.ofString name
    if ← has g key then get g key else notDefined name

def assignIn (scope : ScopeId) (name : String) (v : Value) (strict : Bool) : Exec Unit := do
  match ← look fun s => (s.scope scope).assign name v strict with
  | .ok changed => modifyScope scope fun _ => changed
  | .error .unbound => notDefined name
  | .error .uninitialized => uninitialized name
  | .error .constant => throwType "Assignment to constant variable."

def assignName (scope : ScopeId) (name : String) (v : Value) : Exec Unit := do
  let strict := (← context).strict
  match ← look (·.resolve scope name) with
  | some found =>
    checkScopeWrite found name
    assignIn found name v strict
  | none =>
    let g ← globalObject
    let key := PropertyKey.ofString name
    if strict then
      if !(← has g key) then notDefined name
    putOf (.object g) key v strict

def fillName (scope : ScopeId) (name : String) (v : Value) : Exec Unit := do
  checkScopeWrite scope name
  modifyScope scope (·.fill name v)

def bindName (scope : ScopeId) (name : String) (v : Value) : BindingMode → Exec Unit
  | .assign => assignName scope name v
  | .first => fillName scope name v

def alreadyDeclared {α : Type} (name : String) (line column : Nat) : Exec α :=
  raise (.failure ⟨.syntaxError, "Identifier '" ++ name ++ "' has already been declared", line, column⟩)

def declareName (scope : ScopeId) (name : String) (kind : BindingKind) (span : Span) :
    Exec Unit := do
  match ← look fun s => (s.scope scope).declare? name kind with
  | some changed => modifyScope scope fun _ => changed
  | none => alreadyDeclared name span.line span.column

def nowhere : Span := ⟨0, 0, 0, 0⟩

def blockDeclaring (scope : ScopeId) (names : List String) (kind : BindingKind) : Exec ScopeId := do
  let block ← newBlock scope
  names.forM fun name => declareName block name kind nowhere
  return block

def bindIn (scope : ScopeId) (name : String) (kind : BindingKind) (value : Option Value) :
    Exec Unit :=
  modifyScope scope (·.bind name ⟨value, kind⟩)

def binds (scope : ScopeId) (name : String) : Exec Bool := look fun s => (s.scope scope).binds name

end EcmaScript.Exec

namespace EcmaScript

def VarKind.bindingKind : VarKind → BindingKind
  | .const => .const
  | _ => .let

def LexicalName.bindingKind (n : LexicalName) : BindingKind :=
  if n.isClass then .classDecl else n.kind.bindingKind

end EcmaScript

/-! Declarations before their code runs. Lexical names are known from the beginning of their block
and have no value until their declaration is reached; functions are there from the beginning. -/
namespace EcmaScript.Exec

def declareLexical (scope : ScopeId) (names : List LexicalName) : Exec Unit :=
  names.forM fun n => declareName scope n.name n.bindingKind n.span

/-- Declares the names of a block. Gives the names of the functions that code outside strict mode
shows around the block as well. -/
def hoistBlock (scope : ScopeId) (body : List Statement) : Exec (List String) := do
  declareLexical scope (lexicalNames body)
  let names ← (directFunctions body).foldlM (fun names node => do
    let name := node.boundName
    if (← binds scope name) && !names.contains name then
      alreadyDeclared name node.span.line node.span.column
    let f ← newFunction node scope name none
    bindIn scope name .let (some (.object f))
    return if names.contains name then names else names ++ [name]) ([] : List String)
  return if (← context).strict then [] else names

/-- Shows a function of a block under its name in the scope of `var` declarations, unless another
binding stands in between. -/
def copyUp (parent varScope : ScopeId) (name : String) (v : Value) : Exec Unit := do
  match ← look (·.resolve parent name) with
  | some target =>
    let lexical ← look fun s => (((s.scope target).binding? name).map (·.kind.isLexical)).getD true
    if target == varScope && !lexical then
      checkScopeWrite target name
      assignIn target name v false
  | none =>
    if (← look (·.scope varScope)).isGlobal then
      putOf (.object (← globalObject)) (.ofString name) v false

def copyUpFunctions (block : ScopeId) (names : List String) : Exec Unit := do
  match (← look (·.scope block)).parent with
  | none => return
  | some parent =>
    let varScope ← look (·.varScope block)
    names.forM fun name => do
      match ← look fun s => ((s.scope block).binding? name).bind (·.value) with
      | some v => copyUp parent varScope name v
      | none => return

/-- Declares the names of a body whose `var` declarations are bindings of its own scope. The names
that are reserved keep their meaning. -/
def hoistVars (scope : ScopeId) (body : List Statement) (reserved : List String) : Exec Unit := do
  let lexical := lexicalNames body
  let isLexical (name : String) : Bool := lexical.any (·.name == name)
  (varNamesOf body).forM fun name => do
    if isLexical name then alreadyDeclared name 0 0
    if !(← binds scope name) then bindIn scope name .var (some .undefined)
  if !(← context).strict then
    (body.flatMap (·.blockFunctions true)).forM fun name => do
      if !isLexical name && !reserved.contains name then
        if !(← binds scope name) then bindIn scope name .var (some .undefined)
  (directFunctions body).forM fun node => do
    let f ← newFunction node scope node.boundName none
    bindIn scope node.boundName .var (some (.object f))
  declareLexical scope lexical

def declareGlobal (name : String) : Exec Unit := do
  let g ← globalObject
  let key := PropertyKey.ofString name
  if (← getOwn g key).isNone then defineOrThrow g key (.data .undefined true true false)

def declareGlobalFunction (scope : ScopeId) (node : FunctionNode) : Exec Unit := do
  let g ← globalObject
  let key := PropertyKey.ofString node.boundName
  let f ← newFunction node scope node.boundName none
  match ← getOwn g key with
  | some p =>
    if p.configurable then defineOrThrow g key (.data (.object f) true true false)
    else putOf (.object g) key (.object f) true
  | none => defineOrThrow g key (.data (.object f) true true false)

/-- Declares the names of a script: `var` and functions become properties of the global object, all
else bindings of the global scope. Clashes with what there is are found before anything changes. -/
def hoistGlobal (scope : ScopeId) (body : List Statement) : Exec Unit := do
  let g ← globalObject
  let lexical := lexicalNames body
  lexical.forM fun n => do
    if ← binds scope n.name then alreadyDeclared n.name n.span.line n.span.column
    match ← getOwn g (.ofString n.name) with
    | some p => if !p.configurable then alreadyDeclared n.name n.span.line n.span.column
    | none => pure ()
  let isLexical (name : String) : Bool := lexical.any (·.name == name)
  let vars := varNamesOf body
  let functions := directFunctions body
  (vars ++ functions.map (·.boundName)).forM fun name => do
    let bound ← look fun s => (((s.scope scope).binding? name).map (·.kind.isLexical)).getD false
    if bound || isLexical name then alreadyDeclared name 0 0
  vars.forM declareGlobal
  if !(← context).strict then
    (body.flatMap (·.blockFunctions true)).forM fun name => do
      if !isLexical name then
        if !(← binds scope name) then declareGlobal name
  functions.forM (declareGlobalFunction scope)
  declareLexical scope lexical

end EcmaScript.Exec
