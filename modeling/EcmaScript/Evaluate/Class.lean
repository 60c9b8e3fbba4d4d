import EcmaScript.Evaluate.Reference

/-! Classes. -/
namespace EcmaScript

/-- What is known of the declarations of one private name. -/
structure PrivateDeclaration where
  isStatic : Bool
  getter : Bool := false
  setter : Bool := false
  other : Bool := false
deriving DecidableEq

/-- How a member uses a private name: as a half of an accessor, or in any other way. -/
inductive PrivateUse where
  | getter | setter | other
deriving DecidableEq

namespace PrivateDeclaration

def clashes (d : PrivateDeclaration) (isStatic : Bool) (use : PrivateUse) : Bool :=
  d.isStatic != isStatic || d.other || match use with
    | .getter => d.getter
    | .setter => d.setter
    | .other => d.getter || d.setter

def add (d : PrivateDeclaration) : PrivateUse → PrivateDeclaration
  | .getter => { d with getter := true }
  | .setter => { d with setter := true }
  | .other => { d with other := true }

end PrivateDeclaration

def Member.privateUse? : Member → Option (String × Bool × PrivateUse × Span)
  | .method (.hidden name) kind isStatic f =>
    let use := match kind with
      | .getter => PrivateUse.getter
      | .setter => .setter
      | .method => .other
    some (name, isStatic, use, f.span)
  | .field (.hidden name) isStatic _ span => some (name, isStatic, .other, span)
  | _ => none

/-- The first declaration of a private name that is one too many: a name is declared once, or as a
getter and a setter that are both static or both not. -/
def privateClash? (seen : List (String × PrivateDeclaration)) : List Member → Option (String × Span)
  | [] => none
  | m :: rest =>
    match m.privateUse? with
    | none => privateClash? seen rest
    | some (name, isStatic, use, span) =>
      let d := (seen.lookup name).getD { isStatic := isStatic }
      if d.clashes isStatic use then some (name, span)
      else privateClash? ((name, d.add use) :: seen) rest

/-- The constructor of a class that writes none. A derived one passes all arguments on. -/
def ClassNode.defaultConstructor (node : ClassNode) (derived : Bool) : FunctionNode :=
  let span := node.span
  if derived then
    let call := Expr.mk span (.superCall [.mk span (.spread (.mk span (.identifier "args")))])
    .mk node.name? [.rest (.identifier "args" span)] [.mk span (.expression call)]
      .derivedConstructor false false true span
  else .mk node.name? [] [] .baseConstructor false false true span

def PrivateElement.merge (old : Option PrivateElement) (kind : MethodKind) (f : Value) :
    PrivateElement :=
  match kind, old with
  | .method, _ => .method f
  | .getter, some (.accessor _ setter) => .accessor (some f) setter
  | .setter, some (.accessor getter _) => .accessor getter (some f)
  | .getter, _ => .accessor (some f) none
  | .setter, _ => .accessor none (some f)

def addInstanceMethod (name : PrivateName) (kind : MethodKind) (f : Value) :
    List InstanceElement → List InstanceElement
  | [] => [.method name (.merge none kind f)]
  | .method other element :: rest =>
    if other = name then .method name (.merge (some element) kind f) :: rest
    else .method other element :: addInstanceMethod name kind f rest
  | e :: rest => e :: addInstanceMethod name kind f rest

/-- What a class runs once when it is defined. -/
inductive StaticElement where
  | field (key : FieldKey) (initializer : Option Value)
  | block (f : Value)

/-- The elements of a class that are not yet in place. -/
structure PendingElements where
  statics : Array StaticElement := #[]
  instances : List InstanceElement := []

namespace Exec

def declarePrivate (scope : ScopeId) (name : String) : Exec PrivateName := update fun s =>
  match (s.scope scope).privateNames.lookup name with
  | some found => (found, s)
  | none =>
    let fresh : PrivateName := ⟨s.nextPrivateName, "#" ++ name⟩
    (fresh, { s with
      nextPrivateName := s.nextPrivateName + 1
      scopes := s.scopes.modify scope.index fun c => { c with
        privateNames := (name, fresh) :: c.privateNames } })

def addPrivate (id : ObjectId) (name : PrivateName) (element : PrivateElement) : Exec Bool := do
  if (← object id).hasPrivate name then return false
  modifyObject id (·.putPrivate name element)
  return true

def defineField (target : ObjectId) (key : FieldKey) (v : Value) : Exec Unit := do
  match key with
  | .shared key => createOrThrow target key v
  | .hidden name =>
    checkObjectWrite target "private field definition"
    if !(← addPrivate target name (.field v)) then
      throwType ("Cannot initialize " ++ name.description ++ " twice on the same object")

def initialValue (initializer : Option Value) (this : Value) : Exec Value :=
  match initializer with
  | some f => call f this #[]
  | none => return .undefined

/-- Gives a new instance the private methods and then the fields of its class. -/
def addInstanceElements (this constructor : ObjectId) : Exec Unit := do
  let o ← object constructor
  match o.callable? with
  | some (.closure closure) =>
    closure.elements.forM fun
      | .method name element => do
        checkObjectWrite this "private method definition"
        if !(← addPrivate this name element) then
          throwType ("Cannot initialize private methods of class " ++
            (← object constructor).functionName ++ " twice on the same object")
      | .field .. => pure ()
    closure.elements.forM fun
      | .field key initializer => do
        defineField this key (← initialValue initializer (.object this))
      | .method .. => pure ()
  | _ => return

/-- The parents of a class: of its instances' prototype and of its constructor. -/
def heritageOf (scope : ScopeId) (heritage : Option Expr) :
    Exec (Option ObjectId × ObjectId × Bool) := do
  let i ← intrinsics
  match heritage with
  | none => return (some i.objectPrototype, i.functionPrototype, false)
  | some e =>
    let v ← evaluate scope e
    match v with
    | .null => return (none, i.functionPrototype, true)
    | .object parent =>
      if !(← isConstructor v) then
        throwType ("Class extends value " ++ (← describe v) ++ " is not a constructor or null")
      match ← getNamed parent "prototype" with
      | .object p => return (some p, parent, true)
      | .null => return (none, parent, true)
      | other => throwType ("Class extends value does not have valid prototype property " ++
        (← describe other))
    | _ => throwType ("Class extends value " ++ (← describe v) ++ " is not a constructor or null")

/-- Puts one element of a class in place, or keeps it for later. -/
def addElement (scope : ScopeId) (constructor prototype : ObjectId) (pending : PendingElements) :
    Member → Exec PendingElements
  | .method key kind isStatic node => do
    let target := if isStatic then constructor else prototype
    let f ← newFunction node scope "" (some target)
    match key with
    | .hidden spelling =>
      let name ← declarePrivate scope spelling
      nameFunction f (.name name.description) kind
      if isStatic then
        modifyObject constructor fun o =>
          o.putPrivate name (.merge (o.private? name) kind (.object f))
        return pending
      return { pending with
        instances := addInstanceMethod name kind (.object f) pending.instances }
    | key =>
      let key ← keyOf scope key
      nameFunction f key kind
      defineMethod target key kind f false
      return pending
  | .field key isStatic initializer _ => do
    let key ← match key with
      | .hidden spelling => pure (FieldKey.hidden (← declarePrivate scope spelling))
      | key => pure (FieldKey.shared (← keyOf scope key))
    let home := if isStatic then constructor else prototype
    let initializer ← match initializer with
      | some node => pure (some (Value.object (← newFunction node scope "" (some home))))
      | none => pure none
    if isStatic then
      return { pending with statics := pending.statics.push (.field key initializer) }
    return { pending with instances := pending.instances ++ [.field key initializer] }
  | .staticBlock node => do
    let f ← newFunction node scope "" (some constructor)
    return { pending with statics := pending.statics.push (.block (.object f)) }
  | _ => return pending

/-- The scope of a class: its own name, which has no value yet, and its private names. -/
def classScope (scope : ScopeId) (node : ClassNode) : Exec ScopeId := do
  match privateClash? [] node.elements with
  | some (name, span) =>
    throwSyntaxAt span ("Identifier '#" ++ name ++ "' has already been declared")
  | none => pure ()
  let inner ← newBlock scope
  match node.name? with
  | some own => bindIn inner own .const none
  | none => pure ()
  node.elements.forM fun m =>
    match m.privateUse? with
    | some (spelling, _) => do
      let _ ← declarePrivate inner spelling
    | none => pure ()
  return inner

/-- The constructor of a class and the prototype of its instances, without any elements. -/
def newConstructor (inner : ScopeId) (node : ClassNode) (name : String) :
    Exec (ObjectId × ObjectId) := do
  let (prototypeParent, parent, derived) ← heritageOf inner node.heritage?
  let prototype ← allocate { prototype := prototypeParent }
  let constructorNode := node.constructor?.getD (node.defaultConstructor derived)
  let closure := { closureOf (← context) constructorNode inner (some prototype) with
    source := node.span
    constructable := true
    classKind := some (if derived then .derived else .base) }
  let constructor ← newClosure closure name
  modifyObject constructor fun o => { o with prototype := some parent }
  modifyObject constructor (·.put (.name "prototype") (.constant (.object prototype)))
  modifyObject prototype (·.put (.name "constructor") (.standard (.object constructor)))
  return (constructor, prototype)

def runStatic (constructor : ObjectId) : StaticElement → Exec Unit
  | .block f => do
    let _ ← call f (.object constructor) #[]
  | .field key initializer => do
    defineField constructor key (← initialValue initializer (.object constructor))

/-- Makes the constructor of a class, its prototype and all its elements, and then runs the static
ones in order. The body of a class is strict. -/
def defineClass (scope : ScopeId) (node : ClassNode) (name : String) : Exec ObjectId :=
  within (fun c => { c with strict := true }) do
    let inner ← classScope scope node
    let (constructor, prototype) ← newConstructor inner node name
    let pending ← node.elements.foldlM (addElement inner constructor prototype) {}
    modifyObject constructor (·.modifyKind fun
      | .function (.closure c) => .function (.closure { c with elements := pending.instances })
      | kind => kind)
    match node.name? with
    | some own => modifyScope inner (·.fill own (.object constructor))
    | none => pure ()
    pending.statics.toList.forM (runStatic constructor)
    return constructor

/-- A call of `super`: constructs by the parent and makes the result `this`. -/
def callSuper (scope : ScopeId) (args : Array Value) : Exec Value := do
  let inner ← look (·.thisScope scope)
  let activation := (← look (·.scope inner)).activation?
  match activation, activation.bind (·.function) with
  | some activation, some f =>
    let parent ← prototypeOf f
    match parent with
    | some p =>
      if !(← isConstructor (.object p)) then
        throwType ("Super constructor " ++ (← describe (.object p)) ++
          " of anonymous class is not a constructor")
      let result ← construct (.object p) args activation.newTarget
      match result with
      | .object this =>
        match (← look (·.scope inner)).activation?.bind (·.this) with
        | some _ => throwReference "Super constructor may only be called once"
        | none => pure ()
        modifyScope inner fun sc =>
          match sc.kind with
          | .function a => { sc with kind := .function { a with this := some result } }
          | _ => sc
        addInstanceElements this f
        return result
      | _ => halt (.internal "super constructor returned a primitive")
    | none => throwType "Super constructor null of anonymous class is not a constructor"
  | _, _ => throwReference "'super' keyword unexpected here"

end Exec
end EcmaScript
