import EcmaScript.Effect.Standard
import EcmaScript.Evaluate.Machine
import EcmaScript.Machine.State

/-! The objects that everything else in the library hangs on. -/
namespace EcmaScript

/-- Their places in a new heap. -/
def basicIntrinsics : Intrinsics where
  objectPrototype := ⟨0⟩
  functionPrototype := ⟨1⟩
  arrayPrototype := ⟨2⟩
  stringPrototype := ⟨3⟩
  numberPrototype := ⟨4⟩
  booleanPrototype := ⟨5⟩
  symbolPrototype := ⟨6⟩
  errorPrototype := ⟨7⟩
  typeErrorPrototype := ⟨8⟩
  rangeErrorPrototype := ⟨9⟩
  referenceErrorPrototype := ⟨10⟩
  syntaxErrorPrototype := ⟨11⟩
  evalErrorPrototype := ⟨12⟩
  uriErrorPrototype := ⟨13⟩
  promisePrototype := ⟨14⟩
  mapPrototype := ⟨15⟩
  setPrototype := ⟨16⟩
  weakMapPrototype := ⟨17⟩
  weakSetPrototype := ⟨18⟩
  weakRefPrototype := ⟨19⟩
  iteratorPrototype := ⟨20⟩
  arrayIteratorPrototype := ⟨21⟩
  stringIteratorPrototype := ⟨22⟩
  mapIteratorPrototype := ⟨23⟩
  setIteratorPrototype := ⟨24⟩

def bareObject (prototype : ObjectId) (kind : ObjectKind) : Object :=
  { prototype := some prototype, kind := kind }

/-- The objects at those places, still without the properties that refer to functions. -/
def basicObjects : Array Object :=
  let i := basicIntrinsics
  let ordinary := bareObject i.objectPrototype .ordinary
  let error := bareObject i.errorPrototype .ordinary
  let iterator := bareObject i.iteratorPrototype .ordinary
  #[{ prototype := none },
    bareObject i.objectPrototype (.function (.native "" (.function .nothing))),
    (bareObject i.objectPrototype .array).put (.name "length") (.data (.number 0.0) true false false),
    bareObject i.objectPrototype (.string ""), bareObject i.objectPrototype (.number 0.0),
    bareObject i.objectPrototype (.boolean false), ordinary,
    ordinary, error, error, error, error, error, error,
    ordinary, ordinary, ordinary, ordinary, ordinary, ordinary,
    ordinary, iterator, iterator, iterator, iterator]

/-! A new realm: the global object with the standard library on it. -/

namespace State

def globalValue (s : State) (name : String) : Value :=
  ((s.object s.globalObject).ownValue? (.name name)).getD .undefined

def putGlobal (s : State) (name : String) (p : Property) : State :=
  s.putProperty s.globalObject (.name name) p

def shareGlobal (s : State) (holder name : String) : State :=
  match s.globalValue holder with
  | .object id =>
    match (s.object id).ownValue? (.name name) with
    | some v => s.putGlobal name (.standard v)
    | none => s
  | _ => s

def installFunctions (s : State) : State :=
  let s := { s with
    heap := s.heap.modify s.intrinsics.functionPrototype.index fun o =>
      { o with properties := functionProperties "" 0 } }
  s.installConstructor "Function" 1 (.function .construct) s.intrinsics.functionPrototype []
    functionMethods

def installIterators (s : State) : State :=
  let i := s.intrinsics
  [(i.iteratorPrototype, iteratorMethods), (i.arrayIteratorPrototype, arrayIteratorMethods),
    (i.stringIteratorPrototype, stringIteratorMethods),
    (i.mapIteratorPrototype, mapIteratorMethods),
    (i.setIteratorPrototype, setIteratorMethods)].foldl
    (fun s (id, methods) => s.installAll id methods) s

def installStrings (s : State) : State :=
  let prototype := s.intrinsics.stringPrototype
  let s := s.install prototype (.constant (.name "length") (.number 0.0))
  s.installConstructor "String" 1 (.string .construct) prototype stringStatics stringMethods

def installNumbers (s : State) : State :=
  let s := s.installConstructor "Number" 1 (.number .construct) s.intrinsics.numberPrototype
    numberStatics numberMethods
  let s := (s.shareGlobal "Number" "parseInt").shareGlobal "Number" "parseFloat"
  s.installAll s.globalObject
    [.named "isNaN" 1 (.number .globalIsNaN), .named "isFinite" 1 (.number .globalIsFinite)]

/-- One constructor of errors. All others inherit from `Error`. -/
def installError (s : State) (kind : ErrorKind) : State :=
  let prototype := s.intrinsics.errorPrototypeFor kind
  let parent := s.globalValue "Error"
  let s := s.installConstructor kind.name 1 (.error (.construct kind)) prototype
    (if kind = ErrorKind.error then errorStatics else []) []
  let s := match parent, s.globalValue kind.name with
    | .object parent, .object id =>
      if kind = ErrorKind.error then s
      else { s with heap := s.heap.modify id.index fun o => { o with prototype := some parent } }
    | _, _ => s
  let s := s.putProperty prototype (.name "name") (.standard (.string kind.name))
  let s := s.putProperty prototype (.name "message") (.standard (.string ""))
  s.installAll prototype (errorMethods kind)

def installProxy (s : State) : State :=
  let (id, s) := s.addNative "Proxy" 2 (.proxy .construct)
  (s.installAll id proxyStatics).putGlobal "Proxy" (.standard (.object id))

def installCollections (s : State) : State :=
  let i := s.intrinsics
  let s := s.installConstructor "Map" 0 (.map .construct) i.mapPrototype [] mapMethods
  let s := s.installConstructor "Set" 0 (.set .construct) i.setPrototype [] setMethods
  let s := s.installConstructor "WeakMap" 0 (.weakMap .construct) i.weakMapPrototype []
    weakMapMethods
  let s := s.installConstructor "WeakSet" 0 (.weakSet .construct) i.weakSetPrototype []
    weakSetMethods
  s.installConstructor "WeakRef" 1 (.weakRef .construct) i.weakRefPrototype [] weakRefMethods

def installSelf (s : State) : State :=
  let self := Property.standard (.object s.globalObject)
  let s := (s.putGlobal "globalThis" self).putGlobal "global" self
  let s := s.putGlobal "undefined" (.constant .undefined)
  let s := s.putGlobal "NaN" (.constant (.number Number.nan))
  s.putGlobal "Infinity" (.constant (.number Number.infinity))

/-- Puts the standard library on the global object. -/
def installLibrary (s : State) : State :=
  let i := s.intrinsics
  let s := s.installConstructor "Object" 1 (.object .construct) i.objectPrototype objectStatics
    objectMethods
  let s := s.installFunctions
  let s := s.installConstructor "Array" 1 (.array .construct) i.arrayPrototype arrayStatics
    arrayMethods
  let s := s.installIterators.installStrings.installNumbers
  let s := s.installConstructor "Boolean" 1 (.boolean .construct) i.booleanPrototype [] booleanMethods
  let s := s.installConstructor "Symbol" 0 (.symbol .construct) i.symbolPrototype symbolStatics
    symbolMethods
  let s := (s.installNamespace "Math" mathFeatures).installNamespace "JSON" jsonFeatures
  let s := (ErrorKind.error :: derivedErrors).foldl installError s
  let s := s.installConstructor "Promise" 1 (.promise .construct) i.promisePrototype promiseStatics
    promiseMethods
  let s := s.installProxy.installNamespace "Reflect" reflectFeatures
  let s := s.installCollections.installNamespace "console" consoleFeatures
  (s.installAll s.globalObject timerFeatures).installSelf

/-- A realm whose global object has some properties before the library is put on it. -/
def initial (globals : List (String × Value)) : State :=
  let globalObject : Object :=
    { prototype := some basicIntrinsics.objectPrototype
      properties := globals.foldl (fun t (name, v) => t.put (.ofString name) (.plain v)) {} }
  let id : ObjectId := ⟨basicObjects.size⟩
  let s : State :=
    { heap := basicObjects.push globalObject
      scopes := #[{ kind := .global id, parent := none }]
      scripts := #[⟨"", defaultFilename⟩]
      intrinsics := basicIntrinsics
      globalObject := id
      globalScope := ⟨0⟩
      effectTables := #[[]] }
  s.installLibrary.addStandardEffects 0

def standard : State := initial []

end State
end EcmaScript
