import EcmaScript.Object.Iterate
import EcmaScript.Object.Proxy
import EcmaScript.Proofs.Alters
import EcmaScript.Proofs.Level.Machine

/-! Operations on objects leave the call stack as they find it. Whatever code they call is called by
requests. -/
namespace EcmaScript
variable {P : Watch} {W : Prop} {α : Type}

attribute [grind →] Object.sameBut_define? Object.sameBut_defineElement?

namespace Exec

@[simp, grind =] theorem arrayObject_kind {prototype : ObjectId} {t : PropertyTable} {length : Nat} :
    (arrayObject prototype t length).kind = .array := rfl

@[grind ←] theorem revoked_level {operation : String} : Level P W (revoked operation : Exec α) := by
  grind [revoked]

@[grind ←] theorem proxyOf_level {id : ObjectId} {operation : String} :
    Level P W (proxyOf id operation) := by
  grind [proxyOf]

@[grind ←] theorem getOwn_level {id : ObjectId} {key : PropertyKey} :
    Level P W (getOwn id key) := by
  grind [getOwn]

@[grind ←] theorem hasOwn_level {id : ObjectId} {key : PropertyKey} :
    Level P W (hasOwn id key) := (getOwn_level).bind fun _ => .pure

@[grind ←] theorem has_level {id : ObjectId} {key : PropertyKey} : Level P W (has id key) := by
  grind [has]

@[grind ←] theorem getFor_level {id : ObjectId} {key : PropertyKey} {receiver : Value} :
    Level P W (getFor id key receiver) := by
  grind [getFor]

@[grind ←] theorem get_level {id : ObjectId} {key : PropertyKey} : Level P W (get id key) := getFor_level

@[grind ←] theorem getNamed_level {id : ObjectId} {name : String} :
    Level P W (getNamed id name) := get_level

@[grind ←] theorem getOf_level {base : Value} {key : PropertyKey} : Level P W (getOf base key) := by
  unfold getOf
  split
  · exact getFor_level
  · exact throwType_level
  · exact throwType_level
  · refine .ite (fun _ => .pure) fun _ => ?_
    split
    · exact .pure
    · exact intrinsics_level.bind fun _ => getFor_level
  · exact intrinsics_level.bind fun _ => getFor_level

@[grind ←] theorem methodOf_level {base : Value} {key : PropertyKey} :
    Level P W (methodOf base key) :=
  (getOf_level).bind fun _ => .ite (fun _ => .pure) fun _ => isCallable_level.bind fun _ =>
    .ite (fun _ => .pure) fun _ => describe_level.bind fun _ => throwType_level

@[grind ←] theorem prototypeOf_level {id : ObjectId} : Level P W (prototypeOf id) := by
  grind [prototypeOf]

@[grind ←] theorem isExtensible_level {id : ObjectId} : Level P W (isExtensible id) := by
  grind [isExtensible]

@[grind ←] theorem ownKeys_level {id : ObjectId} : Level P W (ownKeys id) := by
  grind [ownKeys]

@[grind ←] theorem enumerableKeys_level {id : ObjectId} : Level P W (enumerableKeys id) := by
  grind [enumerableKeys]

@[grind ←] theorem firstPrimitive_level {id : ObjectId} {names : List String} :
    Level P W (firstPrimitive id names) := by
  induction names with
  | nil => grind [firstPrimitive]
  | cons name rest ih => grind [firstPrimitive]

@[grind ←] theorem toPrimitive_level {v : Value} {hint : Hint} :
    Level P W (toPrimitive v hint) := by
  unfold toPrimitive
  grind

@[grind ←] theorem primitiveToNumber_level {a : Value} : Level P W (primitiveToNumber a) := by
  unfold primitiveToNumber
  grind

@[grind ←] theorem toNumber_level {v : Value} : Level P W (toNumber v) := by
  unfold toNumber
  grind

@[grind ←] theorem primitiveToText_level {a : Value} : Level P W (primitiveToText a) := by
  unfold primitiveToText
  grind

@[grind ←] theorem toText_level {v : Value} : Level P W (toText v) := by
  unfold toText
  grind

@[grind ←] theorem toKey_level {v : Value} : Level P W (toKey v) := by
  unfold toKey
  grind

@[grind ←] theorem toObject_level {v : Value} : Level P W (toObject v) := by
  refine intrinsics_level.bind fun i => ?_
  split
  case h_7 => exact allocate_level (Object.lawful_of_kind nofun)
  all_goals grind

@[grind ←] theorem toInt32_level {v : Value} : Level P W (toInt32 v) := by
  grind [toInt32]

@[grind ←] theorem toUInt32_level {v : Value} : Level P W (toUInt32 v) := by
  grind [toUInt32]

@[grind ←] theorem toIntegerOrInfinity_level {v : Value} : Level P W (toIntegerOrInfinity v) := by
  grind [toIntegerOrInfinity]

@[grind ←] theorem toLength_level {v : Value} : Level P W (toLength v) := by
  grind [toLength]

@[grind ←] theorem looseEq_level {a b : Value} : Level P W (looseEq a b) := by
  unfold looseEq
  grind

@[grind ←] theorem replaceWith_level {id : ObjectId} {f : Object → Option Object}
    (h : ∀ o o', f o = some o' → o.SameBut o') : Level P W (replaceWith id f) := by
  intro _ c L s _ hs
  unfold replaceWith
  split
  case h_1 o ho => exact .value (hs.replace ((hs.lawful id).of_kind (h _ _ ho).kind_eq)) trivial
  case h_2 => exact .value hs trivial

@[grind ←] theorem defineArgument_level {id : ObjectId} {shared : ArgumentMap} {key : PropertyKey}
    {d : Descriptor} : Level P W (defineArgument id shared key d) := by
  have hunmap (unmap : Prop) [Decidable unmap] (names : Array (Option String)) :
      Level P W (if unmap then do
          modifyObject id fun o => { o with kind := .arguments (some { shared with names }) }
          return true
        else return true) :=
    .ite (fun _ => .bind (modifyObject_level fun _ _ => Object.lawful_of_kind nofun) fun _ => .pure)
      fun _ => .pure
  unfold defineArgument
  dsimp only
  split
  · grind
  · refine .bind .look fun current => .bind ?_ fun defined => .ite (fun _ => .pure) fun _ => ?_
    · grind
    · split
      · exact .ite (fun _ => modifyScope_level.bind fun _ => hunmap _ _) fun _ => hunmap _ _
      · exact hunmap _ _

@[grind ←] theorem toArrayLength_level {v : Value} : Level P W (toArrayLength v) := by
  grind [toArrayLength]

@[grind ←] theorem defineArrayLength_level {id : ObjectId} {d : Descriptor} :
    Level P W (defineArrayLength id d) := by
  unfold defineArrayLength
  split
  · grind
  · refine (toArrayLength_level).bind fun length => .update fun s L hs => ?_
    exact hs.replace ((hs.lawful id).of_kind Object.sameBut_defineLength.kind_eq)

@[grind ←] theorem defineOnArray_level {id : ObjectId} {d : Descriptor} {key : PropertyKey} :
    Level P W (defineOnArray id d key) := by
  unfold defineOnArray
  split <;> grind

@[grind ←] theorem defineOrdinary_level {id : ObjectId} {key : PropertyKey} {d : Descriptor} :
    Level P W (defineOrdinary id key d) := by
  unfold defineOrdinary
  have hplain : Level P W (replaceWith id (·.define? key d)) :=
    replaceWith_level fun _ _ => Object.sameBut_define?
  refine checkObjectWrite_level.bind fun _ => object_bind fun o => ?_
  split
  · exact defineOnArray_level
  · split
    · exact .pure
    · exact hplain
  · exact defineArgument_level
  · exact hplain

@[grind ←] theorem define_level {id : ObjectId} {key : PropertyKey} {d : Descriptor} :
    Level P W (define id key d) := by
  refine (proxyOf_level).bind fun p => ?_
  cases p with
  | some p => exact .request trivial
  | none => exact defineOrdinary_level

@[grind ←] theorem defineOrThrow_level {id : ObjectId} {key : PropertyKey} {d : Descriptor} :
    Level P W (defineOrThrow id key d) := by
  refine (define_level).bind fun done => .ite (fun _ => object_bind fun o => ?_) fun _ => .pure
  exact .ite (fun _ => .bind throwType_level fun _ => throwType_level) fun _ => throwType_level

@[grind ←] theorem createOrThrow_level {id : ObjectId} {key : PropertyKey} {v : Value} :
    Level P W (createOrThrow id key v) := defineOrThrow_level

@[grind ←] theorem assignOwn_level {key : PropertyKey} {value receiver : Value} :
    Level P W (assignOwn key value receiver) := by
  cases receiver with
  | object target =>
    refine (getOwn_level).bind fun p => ?_
    split
    · exact (define_level).bind fun _ => .pure
    · exact .pure
    · exact (define_level).bind fun _ => .ite (fun _ => .pure) fun _ => (isExtensible_level).bind fun _ => .pure
  | _ => exact .pure

@[grind ←] theorem setFor_level {id : ObjectId} {key : PropertyKey} {value receiver : Value} :
    Level P W (setFor id key value receiver) := by
  refine .bind .look fun found => ?_
  split
  · exact .bind (.request trivial) fun _ => .pure
  · exact revoked_level
  · exact call_level.bind fun _ => .pure
  · exact .pure
  · exact .pure
  · exact assignOwn_level

@[grind ←] theorem putOf_level {base : Value} {key : PropertyKey} {value : Value} {strict : Bool} :
    Level P W (putOf base key value strict) := by
  have hput : Level P W (do
      let outcome ← setFor (← toObject base) key value base
      if outcome != .done && strict then
        throwType (← look (·.assignmentMessage outcome base key))) :=
    (toObject_level).bind fun _ => (setFor_level).bind fun _ =>
      .ite (fun _ => .bind .look fun _ => throwType_level) fun _ => .pure
  exact .ite (fun _ => throwType_level.bind fun _ => hput) fun _ => hput

@[grind ←] theorem delete_level {id : ObjectId} {key : PropertyKey} :
    Level P W (delete id key) := by
  unfold delete
  refine .bind (by grind) fun p => ?_
  split
  · grind
  · refine object_bind fun o => .ite (fun _ => .pure) fun _ => ?_
    split
    · exact .pure
    · refine .ite (fun _ => .pure) fun _ => checkObjectWrite_level.bind fun _ => ?_
      refine .bind (modifyObject_level fun o ho => ?_) fun _ => .pure
      dsimp only
      split
      · exact Object.lawful_of_kind nofun
      · exact ho.of_kind rfl

@[grind ←] theorem setPrototype_level {id : ObjectId} {prototype : Option ObjectId} :
    Level P W (setPrototype id prototype) := by
  unfold setPrototype
  refine .bind (by grind) fun p => ?_
  split
  · grind
  · refine .bind (by grind) fun o => ?_
    have hchange : Level P W (modifyObject id fun o => { o with prototype := prototype }) :=
      modifyObject_kind fun _ => rfl
    grind

@[grind ←] theorem preventExtensions_level {id : ObjectId} : Level P W (preventExtensions id) := by
  unfold preventExtensions
  refine .bind (by grind) fun p => ?_
  split
  · grind
  · have hchange : Level P W (modifyObject id fun o => { o with extensible := false }) :=
      modifyObject_kind fun _ => rfl
    grind

@[grind ←] theorem setIntegrity_level {id : ObjectId} {level : Integrity} :
    Level P W (setIntegrity id level) := by
  unfold setIntegrity
  grind

@[grind ←] theorem allClosed_level {id : ObjectId} {level : Integrity} {keys : List PropertyKey} :
    Level P W (allClosed id level keys) := by
  induction keys with
  | nil => grind [allClosed]
  | cons key rest ih => grind [allClosed]

@[grind ←] theorem testIntegrity_level {id : ObjectId} {level : Integrity} :
    Level P W (testIntegrity id level) := by
  grind [testIntegrity]

@[grind ←] theorem copyProperties_level {target : ObjectId} {source : Value}
    {leftOut : List PropertyKey} : Level P W (copyProperties target source leftOut) := by
  unfold copyProperties
  split
  all_goals try refine .bind (by grind) fun _ => ?_
  all_goals grind

@[grind ←] theorem forInKeys_level {id : ObjectId} : Level P W (forInKeys id) := by
  unfold forInKeys
  refine .bind (.loop fun _ => ?_) fun _ => .pure
  dsimp only
  split
  · exact .pure
  · refine checkInterrupts_level.bind fun _ => (ownKeys_level).bind fun keys => ?_
    refine .bind (.foldlM fun _ _ _ => ?_) fun _ => ?_
    · grind
    · grind

@[grind ←] theorem inheritsFrom_level {prototype : ObjectId} {id : ObjectId} :
    Level P W (inheritsFrom prototype id) := by
  grind [inheritsFrom]

@[grind ←] theorem ordinaryHasInstance_level {constructor value : Value} :
    Level P W (ordinaryHasInstance constructor value) := by
  unfold ordinaryHasInstance
  split
  all_goals try refine .bind (by grind) fun _ => ?_
  all_goals grind

@[grind ←] theorem instanceOf_level {value target : Value} :
    Level P W (instanceOf value target) := by
  unfold instanceOf
  grind

@[grind ←] theorem hasIn_level {key target : Value} : Level P W (hasIn key target) := by
  unfold hasIn
  grind

@[grind ←] theorem newArray_level {items : Array Value} : Level P W (newArray items) :=
  intrinsics_level.bind fun _ => allocate_level (Object.lawful_of_kind nofun)

@[grind ←] theorem newPair_level {a b : Value} : Level P W (newPair a b) := by
  grind [newPair]

@[grind ←] theorem newSparseArray_level {items : Array (Option Value)} :
    Level P W (newSparseArray items) :=
  intrinsics_level.bind fun _ => allocate_level (Object.lawful_of_kind nofun)

@[grind ←] theorem lengthOf_level {id : ObjectId} : Level P W (lengthOf id) := by
  grind [lengthOf]

@[grind ←] theorem getIndex_level {id : ObjectId} {i : Nat} : Level P W (getIndex id i) := by
  grind [getIndex]

@[grind ←] theorem hasIndex_level {id : ObjectId} {i : Nat} : Level P W (hasIndex id i) := by
  grind [hasIndex]

@[grind ←] theorem collect_level {n : Nat} {f : Nat → Exec α} (h : ∀ i, Level P W (f i)) :
    Level P W (collect n f) := by
  grind [collect]

@[grind ←] theorem upTo_level {n : Nat} {f : Nat → Exec Unit} (h : ∀ i, Level P W (f i)) :
    Level P W (upTo n f) := by
  grind [upTo]

@[grind ←] theorem listFromArrayLike_level {v : Value} : Level P W (listFromArrayLike v) := by
  unfold listFromArrayLike
  grind

@[grind ←] theorem field?_level {id : ObjectId} {name : String} : Level P W (field? id name) := by
  grind [field?]

@[grind ←] theorem shownValue_level {a : Value} : Level P W (shownValue a) := by
  unfold shownValue
  grind

@[grind ←] theorem functionField?_level {id : ObjectId} {name role : String} :
    Level P W (functionField? id name role) := by
  grind [functionField?]

@[grind ←] theorem toDescriptor_level {id : ObjectId} : Level P W (toDescriptor id) := by
  unfold toDescriptor
  grind

@[grind ←] theorem fromDescriptor_level {d : Descriptor} : Level P W (fromDescriptor d) := by
  grind [fromDescriptor]

@[grind ←] theorem getIterator_level {v : Value} : Level P W (getIterator v) := by
  unfold getIterator
  grind

@[grind ←] theorem notAResult_level {v : Value} : Level P W (notAResult v : Exec α) := by
  grind [notAResult]

@[grind ←] theorem readResult_level {v : Value} : Level P W (readResult v) := by
  unfold readResult
  grind

@[grind ←] theorem step_level {r : IteratorRecord} : Level P W (step r) := by
  grind [step]

@[grind ←] theorem close_level {r : IteratorRecord} : Level P W (close r) := by
  grind [close]

@[grind ←] theorem closeOnError_level {source : ItemSource} {e : Abrupt} (h : source.Waits W) :
    Level P W (closeOnError source e : Exec α) := by
  grind [closeOnError]

@[grind ←] theorem listFromIterable_level {v : Value} : Level P W (listFromIterable v) := by
  refine (getIterator_level).bind fun r => .loop fun out => (step_level).bind fun item => ?_
  cases item <;> exact .pure

@[grind ←] theorem forEachItem_level {v : Value} {f : Value → Exec Unit} (h : ∀ v, Level P W (f v)) :
    Level P W (forEachItem v f) := by
  unfold forEachItem
  refine (getIterator_level).bind fun r => .loop fun _ => (step_level).bind fun item => ?_
  cases item with
  | none => exact .pure
  | some v =>
    refine (h v).attempt.bind fun r => ?_
    cases r with
    | ok => exact .pure
    | error => exact closeOnError_level trivial

@[grind ←] theorem trapOf_level {p : ProxyData} {name : String} : Level P W (trapOf p name) := by
  grind [trapOf]

@[grind ←] theorem callTrap_level {p : ProxyData} {trap : Value} {args : Array Value} :
    Level P W (callTrap p trap args) := by
  grind [callTrap]

@[grind ←] theorem lie_level {operation rest : String} :
    Level P W (lie operation rest : Exec α) := by
  grind [lie]

@[grind ←] theorem proxyGetOwn_level {p : ProxyData} {key : PropertyKey} :
    Level P W (proxyGetOwn p key) := by
  unfold proxyGetOwn
  refine .bind (by grind) fun _ => ?_
  refine .bind (by grind) fun _ => ?_
  grind

@[grind ←] theorem proxyDefine_level {p : ProxyData} {key : PropertyKey} {d : Descriptor} :
    Level P W (proxyDefine p key d) := by
  unfold proxyDefine
  refine .bind (by grind) fun _ => ?_
  split <;> grind

@[grind ←] theorem proxyHas_level {p : ProxyData} {key : PropertyKey} :
    Level P W (proxyHas p key) := by
  unfold proxyHas
  refine .bind (by grind) fun _ => ?_
  grind

@[grind ←] theorem frozenValue_level {p : ProxyData} {key : PropertyKey} :
    Level P W (frozenValue p key) := by
  grind [frozenValue]

@[grind ←] theorem proxyGet_level {p : ProxyData} {key : PropertyKey} {receiver : Value} :
    Level P W (proxyGet p key receiver) := by
  unfold proxyGet
  refine .bind (by grind) fun _ => ?_
  grind

@[grind ←] theorem proxySet_level {p : ProxyData} {key : PropertyKey} {value receiver : Value} :
    Level P W (proxySet p key value receiver) := by
  unfold proxySet
  refine .bind (by grind) fun _ => ?_
  grind

@[grind ←] theorem proxyDelete_level {p : ProxyData} {key : PropertyKey} :
    Level P W (proxyDelete p key) := by
  unfold proxyDelete
  refine .bind (by grind) fun _ => ?_
  grind

@[grind ←] theorem keysOfTrap_level {keys : List PropertyKey} {values : List Value} :
    Level P W (keysOfTrap keys values) := by
  induction values generalizing keys with
  | nil => grind [keysOfTrap]
  | cons v rest ih =>
    unfold keysOfTrap
    dsimp only
    split <;> grind

@[grind ←] theorem proxyOwnKeys_level {p : ProxyData} : Level P W (proxyOwnKeys p) := by
  unfold proxyOwnKeys
  refine .bind (by grind) fun trap => ?_
  split
  · grind
  · refine (callTrap_level).bind fun listed => (listFromArrayLike_level).bind fun items => ?_
    refine (keysOfTrap_level).bind fun keys => (isExtensible_level).bind fun extensible => ?_
    refine (ownKeys_level).bind fun own => ?_
    refine .bind (.forM fun key _ => ?_) fun _ => .pure
    grind

@[grind ←] theorem proxyGetPrototype_level {p : ProxyData} : Level P W (proxyGetPrototype p) := by
  grind [proxyGetPrototype]

@[grind ←] theorem proxySetPrototype_level {p : ProxyData} {prototype : Option ObjectId} :
    Level P W (proxySetPrototype p prototype) := by
  grind [proxySetPrototype]

@[grind ←] theorem proxyIsExtensible_level {p : ProxyData} : Level P W (proxyIsExtensible p) := by
  grind [proxyIsExtensible]

@[grind ←] theorem proxyPreventExtensions_level {p : ProxyData} :
    Level P W (proxyPreventExtensions p) := by
  grind [proxyPreventExtensions]

@[grind ←] theorem proxyCall_level {p : ProxyData} {this : Value} {args : Array Value} :
    Level P W (proxyCall p this args) := by
  grind [proxyCall]

@[grind ←] theorem proxyConstruct_level {p : ProxyData} {args : Array Value} {newTarget : Value} :
    Level P W (proxyConstruct p args newTarget) := by
  grind [proxyConstruct]

end Exec
end EcmaScript
