import EcmaScript.Evaluate.Operator
import EcmaScript.Library.Iterator
import EcmaScript.Object.Iterate

/-! `Array`. The methods work on whatever has a length and indices. -/
namespace EcmaScript

def arrayStatics : List Feature :=
  [.named "isArray" 1 (.array .isArray), .named "of" 0 (.array .of),
    .named "from" 1 (.array .from)]

def arrayMethods : List Feature :=
  [.named "at" 1 (.array .at), .named "concat" 1 (.array .concat),
    .named "entries" 0 (.array .entries), .named "keys" 0 (.array .keys),
    .named "values" 0 (.array .values), .synonym (.symbol .iterator) (.name "values"),
    .named "every" 1 (.array .every), .named "some" 1 (.array .some),
    .named "forEach" 1 (.array .forEach), .named "filter" 1 (.array .filter),
    .named "map" 1 (.array .map), .named "flatMap" 1 (.array .flatMap),
    .named "find" 1 (.array .find), .named "findIndex" 1 (.array .findIndex),
    .named "findLast" 1 (.array .findLast), .named "findLastIndex" 1 (.array .findLastIndex),
    .named "reduce" 1 (.array .reduce), .named "reduceRight" 1 (.array .reduceRight),
    .named "flat" 0 (.array .flat), .named "includes" 1 (.array .includes),
    .named "indexOf" 1 (.array .indexOf), .named "lastIndexOf" 1 (.array .lastIndexOf),
    .named "join" 1 (.array .join), .named "toString" 0 (.array .toString),
    .named "slice" 2 (.array .slice), .named "toReversed" 0 (.array .toReversed),
    .named "toSorted" 1 (.array .toSorted), .named "toSpliced" 2 (.array .toSpliced),
    .named "with" 2 (.array .with), .named "push" 1 (.array .push), .named "pop" 0 (.array .pop),
    .named "shift" 0 (.array .shift), .named "unshift" 1 (.array .unshift),
    .named "splice" 2 (.array .splice), .named "reverse" 0 (.array .reverse),
    .named "fill" 1 (.array .fill), .named "sort" 1 (.array .sort)]

namespace Exec

def receiver (this : Value) : Exec (ObjectId × Nat) := do
  let id ← toObject this
  return (id, ← lengthOf id)

def setIndex (id : ObjectId) (i : Nat) (v : Value) : Exec Unit :=
  putOf (.object id) (.ofNat i) v true

def deleteIndex (id : ObjectId) (i : Nat) : Exec Unit := do
  if !(← delete id (.ofNat i)) then
    throwType ("Cannot delete property '" ++ Number.natText i ++ "' of " ++
      (← look (·.describeObject id)))

def setLength (id : ObjectId) (length : Nat) : Exec Unit :=
  putOf (.object id) (.name "length") (.ofNat length) true

def elementAt (id : ObjectId) (i : Nat) : Exec (Option Value) := do
  if ← hasIndex id i then return some (← getIndex id i)
  return none

def elements (id : ObjectId) (start stop : Nat) : Exec (Array (Option Value)) :=
  collect (stop - start) fun i => elementAt id (start + i)

def writeBack (id : ObjectId) (items : Array (Option Value)) (oldLength : Nat) : Exec Unit := do
  upTo items.size fun i =>
    match (items[i]?).join with
    | some v => setIndex id i v
    | none => deleteIndex id i
  upTo (oldLength - items.size) fun i => deleteIndex id (oldLength - 1 - i)
  setLength id items.size

def callbackArgument (args : Array Value) : Exec Value := do
  let f := argument args 0
  if !(← isCallable f) then throwType ((← describe f) ++ " is not a function")
  return f

def relativeArgument (args : Array Value) (i length default : Nat) : Exec Nat := do
  match argument args i with
  | .undefined => return default
  | v => return Number.relativeIndex (← toNumber v) length

def arrayWithLength (prototype : ObjectId) (length : Nat) : Exec ObjectId :=
  allocate (arrayObject prototype {} length)

/-- Calls a function for the elements that are present. `visit` goes on with the state, the element,
its place and the result of the call, and says whether to stop. -/
def visitElements {α : Type} (this : Value) (args : Array Value) (start : α)
    (visit : α → Value → Nat → Value → Exec (α × Bool)) : Exec α := do
  let (id, length) ← receiver this
  let f ← callbackArgument args
  loop (0, start) fun (i, state) => do
    if length ≤ i then return .inr state
    match ← elementAt id i with
    | none => return .inl (i + 1, state)
    | some v =>
      let result ← call f (argument args 1) #[v, .ofNat i, .object id]
      let (state, stop) ← visit state v i result
      return if stop then .inr state else .inl (i + 1, state)

def placeInTurn (backward : Bool) (length k : Nat) : Nat :=
  if backward then length - 1 - k else k

/-- The first element that a function accepts, with its place. Holes count as undefined. -/
def findElement (this : Value) (args : Array Value) (backward : Bool) :
    Exec (Option (Nat × Value)) := do
  let (id, length) ← receiver this
  let f ← callbackArgument args
  loop 0 fun k => do
    if length ≤ k then return .inr none
    let i := placeInTurn backward length k
    let v ← getIndex id i
    let result ← call f (argument args 1) #[v, .ofNat i, .object id]
    return if result.truthy then .inr (some (i, v)) else .inl (k + 1)

/-- Joins all elements by a function of two. -/
def reduceElements (this : Value) (args : Array Value) (backward : Bool) : Exec Value := do
  let (id, length) ← receiver this
  let f ← callbackArgument args
  loop (0, args[1]?) fun (k, joined) => do
    if length ≤ k then
      match joined with
      | some v => return .inr v
      | none => throwType "Reduce of empty array with no initial value"
    else
      let i := placeInTurn backward length k
      match ← elementAt id i, joined with
      | none, _ => return .inl (k + 1, joined)
      | some v, none => return .inl (k + 1, some v)
      | some v, some before =>
        return .inl (k + 1, some (← call f .undefined #[before, v, .ofNat i, .object id]))

def firstPlace (start length : Nat) (p : Nat → Exec Bool) : Exec (Option Nat) :=
  loop start fun i => do
    if length ≤ i then return .inr none
    return if ← p i then .inr (some i) else .inl (i + 1)

def lastPlace (count : Nat) (p : Nat → Exec Bool) : Exec (Option Nat) :=
  loop count fun
    | 0 => return .inr none
    | i + 1 => return if ← p i then .inr (some i) else .inl i

def placeValue : Option Nat → Value
  | some i => .ofNat i
  | none => .number (-1.0)

def holdsAt (id : ObjectId) (v : Value) (i : Nat) : Exec Bool := do
  return ((← elementAt id i).map (·.strictEq v)).getD false

def joinElements (id : ObjectId) (length : Nat) (separator : String) : Exec String :=
  loop (0, "") fun (i, out) => do
    if length ≤ i then return .inr out
    let out := if i = 0 then out else out ++ separator
    let v ← getIndex id i
    let text ← if v.isNullish then pure "" else toText v
    return .inl (i + 1, out ++ text)

/-- Appends elements; those that are arrays are taken apart down to a depth. -/
def flattenInto : (fuel : Nat) → ObjectId → (depth : Float) → Array Value → Exec (Array Value)
  | 0, _, _, _ => exhausted
  | fuel + 1, id, depth, out => do
    let length ← lengthOf id
    loop (0, out) fun (i, out) => do
      if length ≤ i then return .inr out
      match ← elementAt id i with
      | none => return .inl (i + 1, out)
      | some v =>
        match v, 0.0 < depth && (← look (·.isArray v)) with
        | .object inner, true =>
          return .inl (i + 1, ← flattenInto fuel inner (depth - 1.0) out)
        | _, _ => return .inl (i + 1, out.push v)

/-- Merges two sorted lists. Of equal items, those of the first list come first. -/
def merge (greater : Value → Value → Exec Bool) :
    (left right out : List Value) → Exec (List Value)
  | [], right, out => return out.reverse ++ right
  | a :: left, [], out => return out.reverse ++ a :: left
  | a :: left, b :: right, out => do
    if ← greater a b then merge greater (a :: left) right (b :: out)
    else merge greater left (b :: right) (a :: out)
termination_by left right => left.length + right.length

def mergeSort (greater : Value → Value → Exec Bool) (items : List Value) : Exec (List Value) :=
  if h : items.length ≤ 1 then return items
  else do
    let left ← mergeSort greater (items.take (items.length / 2))
    let right ← mergeSort greater (items.drop (items.length / 2))
    merge greater left right []
termination_by items.length
decreasing_by
  all_goals simp only [List.length_take, List.length_drop]; omega

def sortsAfter (comparison a b : Value) : Exec Bool := do
  if comparison.isUndefined then
    let x ← toText a
    let y ← toText b
    return Text.before y x
  let n ← toNumber (← call comparison .undefined #[a, b])
  return 0.0 < n

def sortElements (items : Array (Option Value)) (comparison : Value) :
    Exec (Array Value × Nat) := do
  let present := items.toList.filterMap id
  let (missing, values) := present.partition (·.isUndefined)
  let sorted ← mergeSort (sortsAfter comparison) values
  return ((sorted ++ missing).toArray, items.size - present.length)

def comparisonArgument (args : Array Value) : Exec Value := do
  let f := argument args 0
  if !f.isUndefined && !(← isCallable f) then
    throwType "The comparison function must be either a function or undefined"
  return f

def spliceArguments (args : Array Value) (length : Nat) : Exec (Nat × Nat × Array Value) := do
  let start ← relativeArgument args 0 length 0
  let count ← match args.size with
    | 0 => pure 0
    | 1 => pure (length - start)
    | _ => pure (min (Number.toNat (← toIntegerOrInfinity (argument args 1))) (length - start))
  return (start, count, args.extract 2 args.size)

def constructArray (args : Array Value) (prototype : ObjectId) : Exec Value := do
  match args.toList with
  | [.number n] =>
    let length := n.toUInt32
    if length.toFloat != n then throwRange "Invalid array length"
    return .object (← arrayWithLength prototype length.toNat)
  | _ => return .object (← allocate (arrayObject prototype (.ofItems args) args.size))

def arrayFrom (args : Array Value) : Exec Value := do
  let source := argument args 0
  let f := argument args 1
  if !f.isUndefined && !(← isCallable f) then throwType ((← describe f) ++ " is not a function")
  if source.isNullish then throwType ((← describe source) ++ " is not iterable")
  let items ← match ← methodOf source (.symbol .iterator) with
    | some _ => listFromIterable source
    | none => do listFromArrayLike (.object (← toObject source))
  let items ← if f.isUndefined then pure items
    else collect items.size fun i => call f (argument args 2) #[argument items i, .ofNat i]
  return .object (← newArray items)

def concatenate (this : Value) (args : Array Value) : Exec Value := do
  let first := Value.object (← toObject this)
  let out ← (first :: args.toList).foldlM (fun out item => do
    match item, ← look (·.isArray item) with
    | .object id, true =>
      let length ← lengthOf id
      if maxLength < Float.ofNat (out.size + length) then throwType "Invalid array length"
      return out ++ (← elements id 0 length)
    | _, _ => return out.push (some item)) (#[] : Array (Option Value))
  return .object (← newSparseArray out)

def placeOf? (n : Float) (length : Nat) : Option Nat :=
  let i := if n < 0.0 then Float.ofNat length + n else n
  if i < 0.0 || Float.ofNat length ≤ i then none else some (Number.toNat i)

def mapElements (this : Value) (args : Array Value) : Exec Value := do
  let (_, length) ← receiver this
  let out ← visitElements this args (Array.replicate length none) fun out _ i result => do
    if out.size ≤ i then halt .crash
    return (out.setIfInBounds i (some result), false)
  return .object (← newSparseArray out)

def flatMapElements (this : Value) (args : Array Value) : Exec Value := do
  let results ← visitElements this args #[] fun out _ _ result => return (out.push result, false)
  let limit ← fuel
  let out ← results.foldlM (fun out v => do
    match v, ← look (·.isArray v) with
    | .object id, true => flattenInto limit id 0.0 out
    | _, _ => return out.push v) #[]
  return .object (← newArray out)

def pushElements (this : Value) (args : Array Value) : Exec Value := do
  let (id, length) ← receiver this
  let newLength := length + args.size
  if maxLength < Float.ofNat newLength then
    throwType ("Pushing " ++ Number.natText args.size ++ " elements on an array-like of length " ++
      Number.natText length ++ " is disallowed")
  upTo args.size fun i => setIndex id (length + i) (argument args i)
  setLength id newLength
  return .ofNat newLength

def popElement (this : Value) : Exec Value := do
  let (id, length) ← receiver this
  if length = 0 then
    setLength id 0
    return .undefined
  let last ← getIndex id (length - 1)
  deleteIndex id (length - 1)
  setLength id (length - 1)
  return last

def shiftElement (this : Value) : Exec Value := do
  let (id, length) ← receiver this
  if length = 0 then
    setLength id 0
    return .undefined
  let items ← elements id 0 length
  writeBack id (items.extract 1 items.size) length
  return ((items[0]?).join).getD .undefined

def unshiftElements (this : Value) (args : Array Value) : Exec Value := do
  let (id, length) ← receiver this
  if args.isEmpty then
    setLength id length
    return .ofNat length
  let items := args.map some ++ (← elements id 0 length)
  writeBack id items length
  return .ofNat items.size

def spliceElements (this : Value) (args : Array Value) : Exec Value := do
  let (id, length) ← receiver this
  let (start, count, inserted) ← spliceArguments args length
  let items ← elements id 0 length
  let left := items.extract 0 start ++ inserted.map some ++ items.extract (start + count) items.size
  writeBack id left length
  return .object (← newSparseArray (items.extract start (start + count)))

def splicedCopy (this : Value) (args : Array Value) : Exec Value := do
  let (id, length) ← receiver this
  let (start, count, inserted) ← spliceArguments args length
  let before ← collect start (getIndex id)
  let behind ← collect (length - (start + count)) fun i => getIndex id (start + count + i)
  return .object (← newArray (before ++ inserted ++ behind))

def sortInPlace (this : Value) (args : Array Value) : Exec Value := do
  let comparison ← comparisonArgument args
  let (id, length) ← receiver this
  let (sorted, holes) ← sortElements (← elements id 0 length) comparison
  writeBack id (sorted.map some ++ Array.replicate holes none) length
  return .object id

def lastIndexOf (this : Value) (args : Array Value) : Exec Value := do
  let (id, length) ← receiver this
  if length = 0 then return .number (-1.0)
  let start ← match args[1]? with
    | none => pure (Float.ofNat length - 1.0)
    | some v =>
      let n ← toIntegerOrInfinity v
      let last := Float.ofNat length - 1.0
      pure (if n < 0.0 then Float.ofNat length + n else if last < n then last else n)
  if start < 0.0 then return .number (-1.0)
  return placeValue (← lastPlace (Number.toNat start + 1) (holdsAt id (argument args 0)))

def arrayFunction (f : ArrayFunction) (this : Value) (args : Array Value) : Exec Value := do
  match f with
  | .construct => constructArray args (← intrinsics).arrayPrototype
  | .isArray => return .boolean (← look (·.isArray (argument args 0)))
  | .of => return .object (← newArray args)
  | .from => arrayFrom args
  | .at =>
    let (id, length) ← receiver this
    match placeOf? (← toIntegerOrInfinity (argument args 0)) length with
    | some i => getIndex id i
    | none => return .undefined
  | .concat => concatenate this args
  | .entries => newArrayIterator (.object (← toObject this)) .entries
  | .keys => newArrayIterator (.object (← toObject this)) .keys
  | .values => newArrayIterator (.object (← toObject this)) .values
  | .every =>
    return .boolean (← visitElements this args true fun _ _ _ r => return (r.truthy, !r.truthy))
  | .some =>
    return .boolean (← visitElements this args false fun _ _ _ r => return (r.truthy, r.truthy))
  | .forEach =>
    visitElements this args () fun _ _ _ _ => return ((), false)
    return .undefined
  | .filter =>
    let kept ← visitElements this args #[] fun out v _ r =>
      return (if r.truthy then out.push v else out, false)
    return .object (← newArray kept)
  | .map => mapElements this args
  | .flatMap => flatMapElements this args
  | .find => return ((← findElement this args false).map (·.2)).getD .undefined
  | .findIndex => return placeValue ((← findElement this args false).map (·.1))
  | .findLast => return ((← findElement this args true).map (·.2)).getD .undefined
  | .findLastIndex => return placeValue ((← findElement this args true).map (·.1))
  | .reduce => reduceElements this args false
  | .reduceRight => reduceElements this args true
  | .flat =>
    let id ← toObject this
    let depth ← match argument args 0 with
      | .undefined => pure 1.0
      | v => toIntegerOrInfinity v
    return .object (← newArray (← flattenInto (← fuel) id depth #[]))
  | .includes =>
    let (id, length) ← receiver this
    let start ← relativeArgument args 1 length 0
    let found ← firstPlace start length fun i =>
      return (← getIndex id i).sameZero (argument args 0)
    return .boolean found.isSome
  | .indexOf =>
    let (id, length) ← receiver this
    let start ← relativeArgument args 1 length 0
    return placeValue (← firstPlace start length (holdsAt id (argument args 0)))
  | .lastIndexOf => lastIndexOf this args
  | .join =>
    let (id, length) ← receiver this
    let separator ← match argument args 0 with
      | .undefined => pure ","
      | v => toText v
    return .string (← joinElements id length separator)
  | .toString =>
    let id ← toObject this
    let join ← getNamed id "join"
    if ← isCallable join then call join (.object id) #[]
    else return .string ("[object " ++ (← object id).kind.name ++ "]")
  | .slice =>
    let (id, length) ← receiver this
    let start ← relativeArgument args 0 length 0
    let stop ← relativeArgument args 1 length length
    return .object (← newSparseArray (← elements id start stop))
  | .toReversed =>
    let (id, length) ← receiver this
    return .object (← newArray (← collect length fun k => getIndex id (length - 1 - k)))
  | .toSorted =>
    let comparison ← comparisonArgument args
    let (id, length) ← receiver this
    let items ← collect length fun i => some <$> getIndex id i
    return .object (← newArray (← sortElements items comparison).1)
  | .toSpliced => splicedCopy this args
  | .with =>
    let (id, length) ← receiver this
    let n ← toIntegerOrInfinity (argument args 0)
    match placeOf? n length with
    | none => throwRange ("Invalid index : " ++ Number.plainText n)
    | some place =>
      let items ← collect length fun i =>
        if i = place then pure (argument args 1) else getIndex id i
      return .object (← newArray items)
  | .push => pushElements this args
  | .pop => popElement this
  | .shift => shiftElement this
  | .unshift => unshiftElements this args
  | .splice => spliceElements this args
  | .reverse =>
    let (id, length) ← receiver this
    writeBack id (← elements id 0 length).reverse length
    return .object id
  | .fill =>
    let (id, length) ← receiver this
    let start ← relativeArgument args 1 length 0
    let stop ← relativeArgument args 2 length length
    upTo (stop - start) fun i => setIndex id (start + i) (argument args 0)
    return .object id
  | .sort => sortInPlace this args

end Exec
end EcmaScript
