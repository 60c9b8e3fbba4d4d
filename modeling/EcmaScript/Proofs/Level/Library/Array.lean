import EcmaScript.Library.Array
import EcmaScript.Proofs.Level.Names

/-! Iterators and arrays leave the call stack as they find it. -/
namespace EcmaScript.Exec
variable {P : Watch} {W : Prop} {α : Type}

@[grind ←] theorem newArrayIterator_level {target : Value} {kind : IterationKind} :
    Level P W (newArrayIterator target kind) := by
  unfold newArrayIterator
  refine .bind (by grind) fun _ => ?_
  refine .bind (by grind) fun _ => ?_
  grind

@[grind ←] theorem newStringIterator_level {s : String} : Level P W (newStringIterator s) := by
  unfold newStringIterator
  refine .bind (by grind) fun _ => ?_
  refine .bind (by grind) fun _ => ?_
  grind

@[grind ←] theorem newMapIterator_level {target : ObjectId} {kind : IterationKind} :
    Level P W (newMapIterator target kind) := by
  unfold newMapIterator
  refine .bind (by grind) fun _ => ?_
  refine .bind (by grind) fun _ => ?_
  grind

@[grind ←] theorem newSetIterator_level {target : ObjectId} {kind : IterationKind} :
    Level P W (newSetIterator target kind) := by
  unfold newSetIterator
  refine .bind (by grind) fun _ => ?_
  refine .bind (by grind) fun _ => ?_
  grind

@[grind ←] theorem iterationResult_level {item : Option Value} :
    Level P W (iterationResult item) := by
  grind [iterationResult]

@[grind ←] theorem iteratorState_level {this : Value} {name : String} :
    Level P W (iteratorState this name) := by
  have hrefuse : Level P W (iteratorState.refuse this name) :=
    describe_level.bind fun _ => throwType_level
  unfold iteratorState
  split
  · refine object_bind fun o => ?_
    split
    · exact .pure
    · exact hrefuse
  · exact hrefuse

@[grind ←] theorem modifyIterator_level {id : ObjectId} {f : IteratorState → IteratorState} :
    Level P W (modifyIterator id f) := by
  grind [modifyIterator]

@[grind ←] theorem setIteratorState_level {id : ObjectId} {state : IteratorState} :
    Level P W (setIteratorState id state) := by
  grind [setIteratorState]

@[grind ←] theorem otherIterator_level : Level P W (otherIterator : Exec α) := by
  grind [otherIterator]

@[grind ←] theorem nextElement_level {this : Value} : Level P W (nextElement this) := by
  unfold nextElement
  refine .bind (by grind) fun _ => ?_
  split <;> grind

@[grind ←] theorem nextCharacter_level {this : Value} : Level P W (nextCharacter this) := by
  grind [nextCharacter]

@[grind ←] theorem nextEntry_level {this : Value} : Level P W (nextEntry this) := by
  unfold nextEntry
  refine .bind (by grind) fun _ => ?_
  split <;> grind

@[grind ←] theorem iteratorFunction_level {f : IteratorFunction} {this : Value} :
    Level P W (iteratorFunction f this) := by
  unfold iteratorFunction
  grind

@[grind ←] theorem receiver_level {this : Value} : Level P W (receiver this) := by
  grind [receiver]

@[grind ←] theorem setIndex_level {id : ObjectId} {i : Nat} {v : Value} :
    Level P W (setIndex id i v) := by
  grind [setIndex]

@[grind ←] theorem deleteIndex_level {id : ObjectId} {i : Nat} : Level P W (deleteIndex id i) := by
  grind [deleteIndex]

@[grind ←] theorem setLength_level {id : ObjectId} {length : Nat} :
    Level P W (setLength id length) := by
  grind [setLength]

@[grind ←] theorem elementAt_level {id : ObjectId} {i : Nat} : Level P W (elementAt id i) := by
  grind [elementAt]

@[grind ←] theorem elements_level {id : ObjectId} {start stop : Nat} :
    Level P W (elements id start stop) := by
  grind [elements]

@[grind ←] theorem writeBack_level {id : ObjectId} {items : Array (Option Value)}
    {oldLength : Nat} : Level P W (writeBack id items oldLength) := by
  grind [writeBack]

@[grind ←] theorem callbackArgument_level {args : Array Value} :
    Level P W (callbackArgument args) := by
  grind [callbackArgument]

@[grind ←] theorem relativeArgument_level {args : Array Value} {i length default : Nat} :
    Level P W (relativeArgument args i length default) := by
  grind [relativeArgument]

@[grind ←] theorem arrayWithLength_level {prototype : ObjectId} {length : Nat} :
    Level P W (arrayWithLength prototype length) := allocate_kind nofun

@[grind ←] theorem visitElements_level {this : Value} {args : Array Value} {start : α}
    {visit : α → Value → Nat → Value → Exec (α × Bool)}
    (hvisit : ∀ x y z u, Level P W (visit x y z u)) :
    Level P W (visitElements this args start visit : Exec α) := by
  unfold visitElements
  refine .bind (by grind) fun _ => ?_
  grind

@[grind ←] theorem findElement_level {this : Value} {args : Array Value} {backward : Bool} :
    Level P W (findElement this args backward) := by
  grind [findElement]

@[grind ←] theorem reduceElements_level {this : Value} {args : Array Value} {backward : Bool} :
    Level P W (reduceElements this args backward) := by
  unfold reduceElements
  grind

@[grind ←] theorem firstPlace_level {start length : Nat} {p : Nat → Exec Bool}
    (hp : ∀ x, Level P W (p x)) : Level P W (firstPlace start length p) := by
  grind [firstPlace]

@[grind ←] theorem lastPlace_level {count : Nat} {p : Nat → Exec Bool} (hp : ∀ x, Level P W (p x))
    : Level P W (lastPlace count p) := by
  grind [lastPlace]

@[grind ←] theorem holdsAt_level {id : ObjectId} {v : Value} {i : Nat} :
    Level P W (holdsAt id v i) := by
  grind [holdsAt]

@[grind ←] theorem joinElements_level {id : ObjectId} {length : Nat} {separator : String} :
    Level P W (joinElements id length separator) := by
  grind [joinElements]

@[grind ←] theorem flattenInto_level {fuel : Nat} {id : ObjectId} {depth : Float}
    {out : Array Value} : Level P W (flattenInto fuel id depth out) := by
  induction fuel generalizing id depth out with
  | zero => exact .exhausted
  | succ fuel ih =>
    refine lengthOf_level.bind fun length => .loop fun state => ?_
    dsimp only
    refine .ite (fun _ => .pure) fun _ => (elementAt_level).bind fun item => ?_
    cases item with
    | none => exact .pure
    | some v =>
      refine .bind .look fun isArray => ?_
      split
      · exact ih.bind fun _ => .pure
      · exact .pure

@[grind ←] theorem merge_level {greater : Value → Value → Exec Bool} {left right out : List Value}
    (h : ∀ x y, Level P W (greater x y)) : Level P W (merge greater left right out) := by
  induction left, right, out using merge.induct with
  | case1 right out => grind [merge]
  | case2 a left out => grind [merge]
  | case3 a left b right out ih₁ ih₂ =>
    unfold merge
    exact (h a b).bind fun after => .ite (fun _ => ih₁) fun _ => ih₂

@[grind ←] theorem mergeSort_level {greater : Value → Value → Exec Bool} {items : List Value}
    (h : ∀ x y, Level P W (greater x y)) : Level P W (mergeSort greater items) := by
  induction items using mergeSort.induct with
  | case1 items hshort =>
    unfold mergeSort
    simp only [hshort, dite_true]
    exact .pure
  | case2 items hlong ih₁ ih₂ =>
    unfold mergeSort
    simp only [hlong, dite_false]
    exact ih₁.bind fun left => ih₂.bind fun right => merge_level h

@[grind ←] theorem sortsAfter_level {comparison a b : Value} :
    Level P W (sortsAfter comparison a b) := by
  grind [sortsAfter]

@[grind ←] theorem sortElements_level {items : Array (Option Value)} {comparison : Value} :
    Level P W (sortElements items comparison) := by
  grind [sortElements]

@[grind ←] theorem comparisonArgument_level {args : Array Value} :
    Level P W (comparisonArgument args) := by
  grind [comparisonArgument]

@[grind ←] theorem spliceArguments_level {args : Array Value} {length : Nat} :
    Level P W (spliceArguments args length) := by
  grind [spliceArguments]

@[grind ←] theorem constructArray_level {args : Array Value} {prototype : ObjectId} :
    Level P W (constructArray args prototype) := by
  unfold constructArray
  grind

@[grind ←] theorem arrayFrom_level {args : Array Value} : Level P W (arrayFrom args) := by
  unfold arrayFrom
  extract_lets source f finish mapItems readItems checkSource
  have hmap {items : Array Value} : Level P W (mapItems items) := by grind
  have hread : Level P W (readItems ()) := by
    refine methodOf_level.bind fun method => ?_
    split <;> grind
  have hsource : Level P W (checkSource ()) := by grind
  grind

@[grind ←] theorem concatenate_level {this : Value} {args : Array Value} :
    Level P W (concatenate this args) := by
  refine toObject_level.bind fun id => .bind (.foldlM fun out item _ => ?_) fun out => ?_
  · refine .bind .look fun isArray => ?_
    split <;> grind
  · exact newSparseArray_level.bind fun _ => .pure

@[grind ←] theorem mapElements_level {this : Value} {args : Array Value} :
    Level P W (mapElements this args) := by
  refine (receiver_level).bind fun found => .bind (visitElements_level fun out _ i result => ?_) fun out => ?_
  · grind [Condition.suspended]
  · exact newSparseArray_level.bind fun _ => .pure

@[grind ←] theorem flatMapElements_level {this : Value} {args : Array Value} :
    Level P W (flatMapElements this args) := by
  refine .bind (visitElements_level fun _ _ _ _ => .pure) fun results => .bind .fuel fun limit => ?_
  refine .bind (.arrayFoldlM fun out v => ?_) fun out => newArray_level.bind fun _ => .pure
  refine .bind .look fun isArray => ?_
  split <;> grind

@[grind ←] theorem pushElements_level {this : Value} {args : Array Value} :
    Level P W (pushElements this args) := by
  grind [pushElements]

@[grind ←] theorem popElement_level {this : Value} : Level P W (popElement this) := by
  grind [popElement]

@[grind ←] theorem shiftElement_level {this : Value} : Level P W (shiftElement this) := by
  grind [shiftElement]

@[grind ←] theorem unshiftElements_level {this : Value} {args : Array Value} :
    Level P W (unshiftElements this args) := by
  grind [unshiftElements]

@[grind ←] theorem spliceElements_level {this : Value} {args : Array Value} :
    Level P W (spliceElements this args) := by
  grind [spliceElements]

@[grind ←] theorem splicedCopy_level {this : Value} {args : Array Value} :
    Level P W (splicedCopy this args) := by
  grind [splicedCopy]

@[grind ←] theorem sortInPlace_level {this : Value} {args : Array Value} :
    Level P W (sortInPlace this args) := by
  grind [sortInPlace]

@[grind ←] theorem lastIndexOf_level {this : Value} {args : Array Value} :
    Level P W (lastIndexOf this args) := by
  unfold lastIndexOf
  split <;> grind

@[grind ←] theorem arrayFunction_level {f : ArrayFunction} {this : Value} {args : Array Value} :
    Level P W (arrayFunction f this args) := by
  unfold arrayFunction
  cases f with
  | every | some | forEach => exact .bind (visitElements_level fun _ _ _ _ => .pure) fun _ => .pure
  | _ => grind

end EcmaScript.Exec
