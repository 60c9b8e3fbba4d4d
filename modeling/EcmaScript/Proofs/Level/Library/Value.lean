import EcmaScript.Library.Keyed
import EcmaScript.Library.Number
import EcmaScript.Library.Reflect
import EcmaScript.Library.String
import EcmaScript.Library.Symbol
import EcmaScript.Proofs.Level.Library.Array

/-! Functions on objects and collections leave the call stack as they find it. -/
namespace EcmaScript.Exec
variable {P : Watch} {W : Prop} {α : Type}

@[grind ←] theorem objectArgument_level {args : Array Value} {name : String} :
    Level P W (objectArgument args name) := by
  grind [objectArgument]

@[grind ←] theorem prototypeArgument_level {v : Value} : Level P W (prototypeArgument v) := by
  unfold prototypeArgument
  grind

@[grind ←] theorem ownEntries_level {v : Value} {kind : IterationKind} :
    Level P W (ownEntries v kind) := by
  unfold ownEntries
  grind

@[grind ←] theorem descriptorArgument_level {v : Value} : Level P W (descriptorArgument v) := by
  unfold descriptorArgument
  grind

@[grind ←] theorem defineAll_level {target : ObjectId} {descriptions : Value} :
    Level P W (defineAll target descriptions) := by
  refine toObject_level.bind fun id => ownKeys_level.bind fun keys => ?_
  refine .bind (.filterMapM fun key _ => ?_) fun found => .forM fun found _ => defineOrThrow_level
  grind

@[grind ←] theorem describeOwn_level {id : ObjectId} {key : PropertyKey} :
    Level P W (describeOwn id key) := by
  grind [describeOwn]

@[grind ←] theorem assignAll_level {target : Value} {sources : List Value} :
    Level P W (assignAll target sources) := by
  induction sources with
  | nil => exact .pure
  | cons source rest ih =>
    refine .ite (fun _ => toObject_level.bind fun id => ownKeys_level.bind fun keys => ?_) fun _ => ih
    refine .bind (.forM fun key _ => ?_) fun _ => ih
    grind

@[grind ←] theorem readEntry_level {entry : Value} : Level P W (readEntry entry) := by
  grind [readEntry]

@[grind ←] theorem describeTag_level {this : Value} : Level P W (describeTag this) := by
  unfold describeTag
  grind

@[grind ←] theorem setPrototypeOrThrow_level {id : ObjectId} {prototype : Option ObjectId} :
    Level P W (setPrototypeOrThrow id prototype) := by
  grind [setPrototypeOrThrow]

@[grind ←] theorem constructObject_level {args : Array Value} {newTarget : Option ObjectId} :
    Level P W (constructObject args newTarget) := by
  refine intrinsics_level.bind fun i => ?_
  extract_lets base v finish
  have hfinish {prototype : ObjectId} : Level P W (finish prototype) := by
    refine .ite (fun _ => .bind (allocate_kind nofun) fun _ => .pure) fun _ => ?_
    grind
  cases newTarget with
  | none => exact .bind .pure fun _ => hfinish
  | some target => exact prototypeFor_level.bind fun _ => hfinish

@[grind ←] theorem closeObject_level {v : Value} {level : Integrity} {message : String} :
    Level P W (closeObject v level message) := by
  unfold closeObject
  grind

@[grind ←] theorem isClosed_level {v : Value} {level : Integrity} :
    Level P W (isClosed v level) := by
  unfold isClosed
  grind

@[grind ←] theorem objectFunction_level {f : ObjectFunction} {this : Value} {args : Array Value} :
    Level P W (objectFunction f this args) := by
  unfold objectFunction
  cases f with
  | getOwnPropertyDescriptors =>
    refine toObject_level.bind fun id => newObject_level.bind fun out => ownKeys_level.bind fun keys => ?_
    refine .bind (.forM fun key _ => ?_) fun _ => .pure
    grind
  | create =>
    refine (prototypeArgument_level).bind fun prototype => .bind (allocate_kind nofun) fun id => ?_
    grind
  | fromEntries =>
    have hadd {out : ObjectId} {entry : Value} :
        Level P W (readEntry entry >>= fun r => toKey r.1 >>= fun key => createOrThrow out key r.2) :=
      (readEntry_level).bind fun r => by grind
    dsimp only
    refine .ite (fun _ => describe_level.bind fun _ => throwType_level.bind fun _ => ?_) fun _ => ?_
    all_goals exact newObject_level.bind fun out => .bind (forEachItem_level fun _ => hadd) fun _ => .pure
  | _ => grind

@[grind ←] theorem tableOf_level {kind : CollectionKind} {this : Value} {name : String} :
    Level P W (tableOf kind this name) := by
  have hrefuse : Level P W (tableOf.refuse kind this name) :=
    describe_level.bind fun _ => throwType_level
  unfold tableOf
  split
  · refine object_bind fun o => ?_
    split
    · exact .pure
    · exact hrefuse
  · exact hrefuse

theorem wrap_ne_closure {kind : CollectionKind} {t : KeyedTable} {c : Closure} :
    kind.wrap t ≠ .function (.closure c) := by
  cases kind <;> nofun

@[grind ←] theorem changeTable_level {kind : CollectionKind} {id : ObjectId} {name : String}
    {f : KeyedTable → KeyedTable} : Level P W (changeTable kind id name f) := by
  refine checkObjectWrite_level.bind fun _ => modifyKind_level fun k c h => ?_
  split at h
  · exact absurd h wrap_ne_closure
  · exact h

@[grind ←] theorem adderMissing_level {kind : CollectionKind} {f : Value} :
    Level P W (adderMissing kind f : Exec α) := by
  unfold adderMissing
  grind

@[grind ←] theorem constructCollection_level {kind : CollectionKind} {args : Array Value}
    {newTarget : ObjectId} : Level P W (constructCollection kind args newTarget) := by
  refine intrinsics_level.bind fun i => prototypeFor_level.bind fun prototype => ?_
  refine .bind (newOfKind_level fun _ => wrap_ne_closure) fun id => ?_
  extract_lets this iterable
  refine .ite (fun _ => .pure) fun _ => getOf_level.bind fun add => isCallable_level.bind fun _ => ?_
  extract_lets addEntry addAll
  have haddAll : Level P W (addAll ()) := by
    refine .bind (forEachItem_level fun item => ?_) fun _ => .pure
    grind
  exact .ite (fun _ => (adderMissing_level).bind fun _ => haddAll) fun _ => haddAll

@[grind ←] theorem forEachEntry_level {id : ObjectId} {f : Value → Value → Exec Unit}
    (hf : ∀ x y, Level P W (f x y)) : Level P W (forEachEntry id f) := by
  grind [forEachEntry]

@[grind ←] theorem collectionCallback_level {args : Array Value} :
    Level P W (collectionCallback args) := by
  grind [collectionCallback]

@[grind ←] theorem mapFunction_level {f : MapFunction} {this : Value} {args : Array Value} :
    Level P W (mapFunction f this args) := by
  unfold mapFunction
  grind

@[grind ←] theorem setFunction_level {f : SetFunction} {this : Value} {args : Array Value} :
    Level P W (setFunction f this args) := by
  unfold setFunction
  grind

@[grind ←] theorem weakMapFunction_level {f : WeakMapFunction} {this : Value} {args : Array Value}
    : Level P W (weakMapFunction f this args) := by
  unfold weakMapFunction
  grind

@[grind ←] theorem weakSetFunction_level {f : WeakSetFunction} {this : Value} {args : Array Value}
    : Level P W (weakSetFunction f this args) := by
  unfold weakSetFunction
  grind

@[grind ←] theorem constructWeakRef_level {args : Array Value} {newTarget : ObjectId} :
    Level P W (constructWeakRef args newTarget) := by
  unfold constructWeakRef
  split
  · refine intrinsics_level.bind fun i => prototypeFor_level.bind fun prototype => ?_
    exact .bind (newOfKind_level nofun) fun _ => .pure
  · grind

@[grind ←] theorem weakRefFunction_level {f : WeakRefFunction} {this : Value} :
    Level P W (weakRefFunction f this) := by
  unfold weakRefFunction
  grind

@[grind ←] theorem reflectTarget_level {f : ReflectFunction} {args : Array Value} :
    Level P W (reflectTarget f args) := by
  grind [reflectTarget]

@[grind ←] theorem requireConstructor_level {v : Value} : Level P W (requireConstructor v) := by
  grind [requireConstructor]

@[grind ←] theorem reflectFunction_level {f : ReflectFunction} {args : Array Value} :
    Level P W (reflectFunction f args) := by
  unfold reflectFunction
  grind

@[grind ←] theorem newProxy_level {args : Array Value} : Level P W (newProxy args) := by
  grind [newProxy]

@[grind ←] theorem proxyFunction_level {f : ProxyFunction} {args : Array Value} :
    Level P W (proxyFunction f args) := by
  unfold proxyFunction
  grind

end EcmaScript.Exec

/-! Functions on numbers, texts and symbols leave the call stack as they find it. -/
namespace EcmaScript.Exec
variable {P : Watch} {W : Prop}

@[grind ←] theorem mathFunction_level {f : MathFunction} {args : Array Value} :
    Level P W (mathFunction f args) := by
  unfold mathFunction
  extract_lets of ofTwo ofAll
  have hof g : Level P W (of g) := .bind toNumber_level fun _ => .pure
  have hofTwo g : Level P W (ofTwo g) :=
    .bind toNumber_level fun _ => .bind toNumber_level fun _ => .pure
  have hofAll g : Level P W (ofAll g) := .bind (.mapM fun _ _ => toNumber_level) fun _ => .pure
  cases f with
  | clz32 => exact .bind toUInt32_level fun _ => .pure
  | imul => exact .bind toUInt32_level fun _ => .bind toUInt32_level fun _ => .pure
  | random => exact .update fun _ _ hs => hs.aside rfl rfl rfl rfl
  | _ => first | exact hof _ | exact hofTwo _ | exact hofAll _

@[grind ←] theorem wrappedNumber_level {name : String} {this : Value} :
    Level P W (wrappedNumber name this) := by
  have hrefuse : Level P W (wrappedNumber.refuse name) := throwType_level
  unfold wrappedNumber
  grind

@[grind ←] theorem wrappedBoolean_level {name : String} {this : Value} :
    Level P W (wrappedBoolean name this) := by
  have hrefuse : Level P W (wrappedBoolean.refuse name) := throwType_level
  unfold wrappedBoolean
  grind

@[grind ←] theorem digitsArgument_level {args : Array Value} {least : Nat} {name : String} :
    Level P W (digitsArgument args least name) := by
  grind [digitsArgument]

@[grind ←] theorem numberArgument_level {args : Array Value} : Level P W (numberArgument args) := by
  grind [numberArgument]

@[grind ←] theorem constructNumber_level {args : Array Value} {newTarget : ObjectId} :
    Level P W (constructNumber args newTarget) :=
  (numberArgument_level).bind fun _ => intrinsics_level.bind fun _ => prototypeFor_level.bind fun _ =>
    .bind (newOfKind_level (by simp)) fun _ => .pure

@[grind ←] theorem constructBoolean_level {args : Array Value} {newTarget : ObjectId} :
    Level P W (constructBoolean args newTarget) :=
  intrinsics_level.bind fun _ => prototypeFor_level.bind fun _ =>
    .bind (newOfKind_level (by simp)) fun _ => .pure

@[grind ←] theorem numberFunction_level {f : NumberFunction} {this : Value} {args : Array Value} :
    Level P W (numberFunction f this args) := by
  unfold numberFunction
  extract_lets first
  cases f with
  | toString =>
    refine (wrappedNumber_level).bind fun x => ?_
    extract_lets rest
    have hrest radix : Level P W (rest radix) := by
      unfold rest
      extract_lets finish
      have hfinish : Level P W (finish ()) := .ite (fun _ => .pure) fun _ => .pure
      exact .ite (fun _ => throwRange_level.bind fun _ => hfinish) fun _ => hfinish
    generalize first = v
    split
    · exact .bind .pure hrest
    · exact toIntegerOrInfinity_level.bind hrest
  | _ => grind

@[grind ←] theorem booleanFunction_level {f : BooleanFunction} {this : Value} {args : Array Value}
    : Level P W (booleanFunction f this args) := by
  unfold booleanFunction
  grind

@[grind ←] theorem wrappedString_level {f : StringFunction} {this : Value} :
    Level P W (wrappedString f this) := by
  have hrefuse : Level P W (wrappedString.refuse f) := throwType_level
  unfold wrappedString
  grind

@[grind ←] theorem receiverText_level {f : StringFunction} {this : Value} :
    Level P W (receiverText f this) := by
  grind [receiverText]

@[grind ←] theorem receiverUnits_level {f : StringFunction} {this : Value} :
    Level P W (receiverUnits f this) := by
  grind [receiverUnits]

@[grind ←] theorem unitsArgument_level {args : Array Value} {i : Nat} :
    Level P W (unitsArgument args i) := by
  grind [unitsArgument]

@[grind ←] theorem placeArgument_level {args : Array Value} {i default length : Nat} :
    Level P W (placeArgument args i default length) := by
  grind [placeArgument]

@[grind ←] theorem padText_level {f : StringFunction} {this : Value} {args : Array Value}
    {atStart : Bool} : Level P W (padText f this args atStart) := by
  grind [padText]

@[grind ←] theorem replacementFor_level {subject pattern : Text.Units} {replacer : Value}
    {template : Option Text.Units} {place : Nat} :
    Level P W (replacementFor subject pattern replacer template place) := by
  unfold replacementFor
  grind

@[grind ←] theorem replaceText_level {f : StringFunction} {this : Value} {args : Array Value}
    {all : Bool} : Level P W (replaceText f this args all) := by
  unfold replaceText
  refine .bind (by grind) fun _ => ?_
  grind

@[grind ←] theorem splitText_level {f : StringFunction} {this : Value} {args : Array Value} :
    Level P W (splitText f this args) := by
  grind [splitText]

@[grind ←] theorem rawText_level {args : Array Value} : Level P W (rawText args) := by
  refine toObject_level.bind fun _ => getNamed_level.bind fun _ => toObject_level.bind fun _ => ?_
  refine lengthOf_level.bind fun length => .bind (.loop fun x => ?_) fun _ => .pure
  refine .ite (fun _ => .pure) fun _ => getIndex_level.bind fun _ => ?_
  refine toText_level.bind fun _ => ?_
  extract_lets out turn
  have hturn between : Level P W (turn between) := .pure
  exact .ite (fun _ => toText_level.bind hturn) fun _ => .bind .pure hturn

@[grind ←] theorem charOfPoint_level {v : Value} : Level P W (charOfPoint v) := by
  grind [charOfPoint]

@[grind ←] theorem repeatText_level {this : Value} {args : Array Value} :
    Level P W (repeatText this args) := by
  grind [repeatText]

@[grind ←] theorem trimText_level {f : StringFunction} {this : Value} {atStart atEnd : Bool} :
    Level P W (trimText f this atStart atEnd) := by
  grind [trimText]

@[grind ←] theorem stringArgument_level {args : Array Value} : Level P W (stringArgument args) := by
  grind [stringArgument]

@[grind ←] theorem constructString_level {args : Array Value} {newTarget : ObjectId} :
    Level P W (constructString args newTarget) :=
  (stringArgument_level).bind fun _ => intrinsics_level.bind fun _ => prototypeFor_level.bind fun _ =>
    .bind (allocate_kind (by simp)) fun _ => .pure

@[grind ←] theorem lastIndexIn_level {this : Value} {args : Array Value} :
    Level P W (lastIndexIn this args) := by
  grind [lastIndexIn]

@[grind ←] theorem stringFunction_level {f : StringFunction} {this : Value} {args : Array Value} :
    Level P W (stringFunction f this args) := by
  cases f with
  | concat =>
    exact (receiverText_level).bind fun _ => .bind (.arrayFoldlM fun _ _ => by grind) fun _ => .pure
  | fromCharCode =>
    simp only [stringFunction, Array.mapM_eq_mapM_toList]
    grind
  | _ =>
    unfold stringFunction
    grind

@[grind ←] theorem wrappedSymbol_level {name : String} {this : Value} :
    Level P W (wrappedSymbol name this) := by
  have hrefuse : Level P W (wrappedSymbol.refuse name) := throwType_level
  unfold wrappedSymbol
  grind

@[grind ←] theorem newSymbol_level {description : Option String} :
    Level P W (newSymbol description) := .update fun _ _ hs => hs.aside rfl rfl rfl rfl

@[grind ←] theorem registeredSymbol_level {name : String} : Level P W (registeredSymbol name) := by
  refine .update fun s _ hs => ?_
  split
  · exact hs
  · exact hs.aside rfl rfl rfl rfl

@[grind ←] theorem symbolFunction_level {f : SymbolFunction} {this : Value} {args : Array Value} :
    Level P W (symbolFunction f this args) := by
  unfold symbolFunction
  grind

end EcmaScript.Exec
