import EcmaScript.Object.Write

/-! Arrays, and objects that are indexed like them. -/
namespace EcmaScript.Exec

def arrayObject (prototype : ObjectId) (elements : PropertyTable) (length : Nat) : Object where
  prototype := some prototype
  kind := .array
  properties := elements.put Object.lengthKey (.data (.ofNat length) true false false)

def newArray (items : Array Value) : Exec ObjectId := do
  let i ← intrinsics
  allocate (arrayObject i.arrayPrototype (.ofItems items) items.size)

def newPair (a b : Value) : Exec Value := return .object (← newArray #[a, b])

def sparseElements (items : Array (Option Value)) : PropertyTable × Nat :=
  items.foldl (fun (t, n) item =>
    match item with
    | some v => (t.put (PropertyKey.ofNat n) (.plain v), n + 1)
    | none => (t, n + 1)) ({}, 0)

def newSparseArray (items : Array (Option Value)) : Exec ObjectId := do
  let i ← intrinsics
  allocate (arrayObject i.arrayPrototype (sparseElements items).1 items.size)

def lengthOf (id : ObjectId) : Exec Nat := do toLength (← getNamed id "length")

def getIndex (id : ObjectId) (i : Nat) : Exec Value := get id (.ofNat i)

def hasIndex (id : ObjectId) (i : Nat) : Exec Bool := has id (.ofNat i)

def collect {α : Type} (n : Nat) (f : Nat → Exec α) : Exec (Array α) :=
  loop (0, (#[] : Array α)) fun (i, out) => do
    if i < n then return .inl (i + 1, out.push (← f i)) else return .inr out

def upTo (n : Nat) (f : Nat → Exec Unit) : Exec Unit :=
  loop 0 fun i => do
    if i < n then
      f i
      return .inl (i + 1)
    else return .inr ()

def listFromArrayLike (v : Value) : Exec (Array Value) := do
  match v with
  | .object id => collect (← lengthOf id) (getIndex id)
  | _ => throwType "CreateListFromArrayLike called on non-object"

end EcmaScript.Exec
