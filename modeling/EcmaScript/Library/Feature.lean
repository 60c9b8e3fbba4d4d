import EcmaScript.Function.Create

/-! What the objects of the standard library hold from the beginning. -/
namespace EcmaScript

/-- A property of an object of the library. Functions are named after their keys. -/
inductive Feature where
  | method (key : PropertyKey) (length : Nat) (f : Native)
  /-- A method that cannot be replaced. -/
  | guarded (key : PropertyKey) (length : Nat) (f : Native) (configurable : Bool)
  | getter (key : PropertyKey) (f : Native)
  | accessor (key : PropertyKey) (getter setter : Native)
  /-- Another key for what stands under a key already. -/
  | synonym (key former : PropertyKey)
  | constant (key : PropertyKey) (value : Value)
  /-- The word that describes objects of a kind. -/
  | tag (word : String)

namespace Feature

def named (name : String) (length : Nat) (f : Native) : Feature := .method (.name name) length f

end Feature

namespace State

def alloc (s : State) (o : Object) : ObjectId × State :=
  (⟨s.heap.size⟩, { s with heap := s.heap.push o })

def putProperty (s : State) (id : ObjectId) (key : PropertyKey) (p : Property) : State :=
  { s with heap := s.heap.modify id.index (·.put key p) }

def addNative (s : State) (name : String) (length : Nat) (f : Native) : ObjectId × State :=
  s.alloc (nativeObject s.intrinsics name length f)

def install (s : State) (target : ObjectId) : Feature → State
  | .method key length f =>
    let (id, s) := s.addNative key.functionName length f
    s.putProperty target key (.standard (.object id))
  | .guarded key length f configurable =>
    let (id, s) := s.addNative key.functionName length f
    s.putProperty target key (.data (.object id) false false configurable)
  | .getter key f =>
    let (id, s) := s.addNative ("get " ++ key.functionName) 0 f
    s.putProperty target key ⟨.accessor (some (.object id)) none, false, true⟩
  | .accessor key getter setter =>
    let (get, s) := s.addNative ("get " ++ key.functionName) 0 getter
    let (set, s) := s.addNative ("set " ++ key.functionName) 1 setter
    s.putProperty target key ⟨.accessor (some (.object get)) (some (.object set)), false, true⟩
  | .synonym key former =>
    match (s.object target).own? former with
    | some p => s.putProperty target key p
    | none => s
  | .constant key value => s.putProperty target key (.constant value)
  | .tag word =>
    s.putProperty target (.symbol .toStringTag) (.data (.string word) false false true)

def installAll (s : State) (target : ObjectId) (features : List Feature) : State :=
  features.foldl (·.install target) s

def installConstructor (s : State) (name : String) (length : Nat) (f : Native)
    (prototype : ObjectId) (statics methods : List Feature) : State :=
  let (id, s) := s.addNative name length f
  let s := s.putProperty id (.name "prototype") (.constant (.object prototype))
  let s := s.putProperty prototype (.name "constructor") (.standard (.object id))
  let s := (s.installAll id statics).installAll prototype methods
  s.putProperty s.globalObject (.name name) (.standard (.object id))

def installNamespace (s : State) (name : String) (features : List Feature) : State :=
  let (id, s) := s.alloc { prototype := some s.intrinsics.objectPrototype }
  let s := s.installAll id features
  s.putProperty s.globalObject (.name name) (.standard (.object id))

end State
end EcmaScript
