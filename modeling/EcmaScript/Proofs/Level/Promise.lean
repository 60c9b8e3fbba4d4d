import EcmaScript.Promise.Core
import EcmaScript.Proofs.Level.Object

/-! Functions leave the call stack as they find it: what runs in a frame of its own leaves that frame
in the end, and so do tasks when they end or have to wait. -/
namespace EcmaScript
variable {P : Watch} {W : Prop} {α β : Type}

@[simp, grind =] theorem Object.kind_put {o : Object} {key : PropertyKey} {p : Property} :
    (o.put key p).kind = o.kind := rfl

theorem Object.kind_putPrivate {o : Object} {name : PrivateName} {e : PrivateElement} :
    (o.putPrivate name e).kind = o.kind := by
  unfold putPrivate
  split <;> rfl

theorem FunctionNode.Lawful.plain {f : FunctionNode} (h : f.Lawful) (ha : f.isAsync = false)
    (hg : f.isGenerator = false) : f.Plain := by
  cases f
  cases ha
  cases hg
  exact h

def Direct (x : Exec α) : Prop :=
  ∀ c s, ∃ a s', (∀ m, x m c s = .value a s') ∧ ∀ L, s.Stands L → s'.Stands L

namespace Direct
variable {x : Exec α}

theorem pure {a : α} : Direct (Pure.pure a : Exec α) := fun _ s => ⟨a, s, fun _ => rfl, fun _ => id⟩

theorem look {f : State → α} : Direct (Exec.look f) := fun _ s => ⟨f s, s, fun _ => rfl, fun _ => id⟩

theorem context : Direct Exec.context := fun c s => ⟨c, s, fun _ => rfl, fun _ => id⟩

theorem change {f : State → State} (h : ∀ s L, s.Stands L → (f s).Stands L) : Direct (Exec.change f) :=
  fun _ s => ⟨(), f s, fun _ => rfl, h s⟩

theorem allocate {o : Object} (h : o.Lawful) : Direct (Exec.allocate o) :=
  fun _ _ => ⟨_, _, fun _ => rfl, fun _ hs => hs.push h⟩

theorem bind {f : α → Exec β} (hx : Direct x) (hf : ∀ a, Direct (f a)) : Direct (x >>= f) := by
  intro c s
  obtain ⟨a, s₁, hx, hs₁⟩ := hx c s
  obtain ⟨b, s₂, hf, hs₂⟩ := hf a c s₁
  exact ⟨b, s₂, fun m => (congrArg (Step.bind · _) (hx m)).trans (hf m), fun L hs => hs₂ L (hs₁ L hs)⟩

theorem level (h : Direct x) : Level P W x := by
  intro _ c L s _ hs
  obtain ⟨a, s', hx, hs'⟩ := h c s
  rw [hx, hx]
  exact .value (hs' L hs) trivial

end Direct

namespace Exec

theorem stampStack_direct {id : ObjectId} {skip : Nat} : Direct (stampStack id skip) := by
  refine .bind .look fun o => ?_
  split
  · exact .pure
  · refine .bind .look fun stack => .change fun s L hs => ?_
    rw [State.heap_modify]
    exact hs.replace ((hs.lawful id).of_kind rfl)

theorem newError_direct {kind : ErrorKind} {message : String} : Direct (newError kind message) :=
  .bind .look fun _ => .bind (.allocate (Object.lawful_of_kind nofun)) fun _ =>
    (stampStack_direct).bind fun _ => .pure

theorem onFrameExit_direct {e : Abrupt} : Direct (onFrameExit e) := by
  unfold onFrameExit
  split
  · exact .pure
  · exact (newError_direct).bind fun _ => .pure
  · split
    · refine .bind .context fun c => .bind .look fun o => ?_
      split
      · dsimp only
        split
        · exact (stampStack_direct).bind fun _ => .pure
        · exact .pure
      · exact .pure
    · exact .pure

@[grind ←] theorem stampStack_level {id : ObjectId} {skip : Nat} : Level P W (stampStack id skip) :=
  (stampStack_direct).level

@[grind ←] theorem newError_level {kind : ErrorKind} {message : String} :
    Level P W (newError kind message) := (newError_direct).level

@[grind ←] theorem onFrameExit_level {e : Abrupt} : Level P W (onFrameExit e) :=
  (onFrameExit_direct).level

@[grind ←] theorem thrownValue_level {e : Abrupt} : Level P W (thrownValue e) := by
  unfold thrownValue
  grind

@[grind ←] theorem uncaught_level {e : Abrupt} : Level P W (uncaught e) := by
  grind [uncaught]

def exitFrame (depth : Nat) : Except Abrupt α → Exec α
  | .ok a => do
    leaveFrames depth
    return a
  | .error e => do
    let e ← onFrameExit e
    leaveFrames depth
    raise e

theorem inFrame_run {frame : Frame} {x : Exec α} {m : Machine} {c : Context} {s : State} :
    inFrame frame x m c s =
      if s.maxDepth ≤ s.stack.length then
        .abrupt (.failure ⟨.range, "Maximum call stack size exceeded", 0, 0⟩) s
      else
        (x m c { s with stack := frame :: s.stack }).handle fun r => exitFrame s.stack.length r m c := by
  change (enterFrame frame m c s).bind _ = _
  unfold enterFrame
  split
  · rfl
  · refine (handle_bind _).trans (congrArg _ (funext fun r => ?_))
    cases r <;> rfl

@[grind ←] theorem inFrame_level {frame : Frame} {x : Exec α} (h : P.lively → Level P False x) :
    Level P W (inFrame frame x) := by
  intro hP c L s hL hs
  rw [inFrame_run, inFrame_run, hs.length_eq]
  split
  case isTrue => exact .abrupt hs
  case isFalse hfull =>
    have hroom : ¬ L.isFull := by simpa only [Footing.isFull, ← hs.maxDepth] using hfull
    obtain ⟨hL₁, hlively⟩ := hP.enters L frame hL hroom
    refine (h hlively hP c _ _ hL₁ hs.enter).above fun r s hs => ?_
    cases r with
    | ok a => exact .value hs.leave trivial
    | error e =>
      obtain ⟨e', s', hexit, hs'⟩ := onFrameExit_direct (e := e) c s
      have hrun (m : Machine) : exitFrame (α := α) L.frames.length (.error e) m c s =
          .abrupt e' (s'.leaveFrames L.frames.length) := congrArg (Step.bind · _) (hexit m)
      rw [hrun, hrun]
      exact .abrupt (hs' _ hs).leave

@[grind ←] theorem newNative_level {name : String} {length : Nat} {f : Native} :
    Level P W (newNative name length f) :=
  intrinsics_level.bind fun _ => allocate_level (Object.lawful_of_kind nofun)

@[grind ←] theorem newCapturing_level {length : Nat} {f : CapturingFunction} :
    Level P W (newCapturing length f) := by
  grind [newCapturing]

@[grind ←] theorem newClosure_level {closure : Closure} {name : String} (h : closure.Lawful) :
    Level P W (newClosure closure name) := by
  refine intrinsics_level.bind fun i => .bind (allocate_level fun c hc => ?_) fun id => ?_
  · cases hc
    exact h
  · refine .ite (fun _ => ?_) fun _ => .pure
    refine .bind (allocate_level (Object.lawful_of_kind nofun)) fun prototype => ?_
    grind

theorem closureOf_lawful {c : Context} {node : FunctionNode} {scope : ScopeId}
    {home : Option ObjectId} (h : node.Lawful) : (closureOf c node scope home).Lawful where
  node _ := h
  plain hc := by
    simp only [closureOf, Bool.and_eq_true, Bool.not_eq_true'] at hc
    exact h.plain hc.1.2 hc.2

@[grind ←] theorem newFunction_level {node : FunctionNode} {scope : ScopeId} {name : String}
    {home : Option ObjectId} (h : node.Lawful) : Level P W (newFunction node scope name home) :=
  .bind .context fun _ => newClosure_level (closureOf_lawful h)

@[grind ←] theorem nameFunction_level {id : ObjectId} {key : PropertyKey} {kind : MethodKind} :
    Level P W (nameFunction id key kind) := modifyObject_kind fun _ => rfl

@[grind ←] theorem prototypeFor_level {newTarget fallback : ObjectId} :
    Level P W (prototypeFor newTarget fallback) := by
  grind [prototypeFor]

@[grind ←] theorem defineMethod_level {target : ObjectId} {key : PropertyKey} {kind : MethodKind}
    {f : ObjectId} {enumerable : Bool} : Level P W (defineMethod target key kind f enumerable) := by
  unfold defineMethod
  grind

end Exec
end EcmaScript

/-! Promises leave the call stack as they find it. Only what waits for one has to be allowed to wait; a
task of its own always may. -/
namespace EcmaScript
variable {P : Watch} {W : Prop}

namespace Exec

@[grind ←] theorem newPromise_level : Level P W newPromise := by
  grind [newPromise]

@[grind ←] theorem settle_level {id : ObjectId} {state : PromiseState} :
    Level P W (settle id state) := by
  refine checkObjectWrite_level.bind fun _ => object_bind fun o => ?_
  split
  · rename_i handled _
    have hput (jobs : State → Queue Job) (rejections : State → Array ObjectId) :
        Level P W (change fun s => { s with
          heap := s.heap.modify id.index fun o => { o with kind := .promise { state, handled } }
          rejections := rejections s
          jobs := jobs s }) := by
      have hlawful (o : Object) : Object.Lawful { o with kind := .promise { state, handled } } :=
        Object.lawful_of_kind nofun
      refine .change fun s L hs => ?_
      rw [State.heap_modify]
      exact (hs.replace (hlawful _)).aside rfl rfl rfl rfl
    dsimp only
    split
    · exact .pure
    · exact hput _ _
    · exact hput _ _
  · exact .pure

@[grind ←] theorem fulfill_level {id : ObjectId} {v : Value} : Level P W (fulfill id v) := by
  grind [fulfill]

@[grind ←] theorem reject_level {id : ObjectId} {reason : Value} :
    Level P W (reject id reason) := by
  grind [reject]

@[grind ←] theorem resolve_level {id : ObjectId} {v : Value} : Level P W (resolve id v) := by
  unfold resolve
  grind

@[grind ←] theorem newResolvers_level {id : ObjectId} : Level P W (newResolvers id) :=
  newLatch_level.bind fun _ => (newCapturing_level).bind fun _ => (newCapturing_level).bind fun _ => .pure

@[grind ←] theorem performThen_level {id : ObjectId} {onFulfilled onRejected : Value}
    {capability : Option Capability} :
    Level P W (performThen id onFulfilled onRejected capability) := by
  have hput {p : PromiseData} : Level P W (modifyObject id fun o => { o with kind := .promise p }) :=
    modifyObject_level fun _ _ => Object.lawful_of_kind nofun
  unfold performThen
  extract_lets handler
  have hhandler {f : Value} : Level P W (handler f) := by grind
  refine hhandler.bind fun onValue => hhandler.bind fun onReason => object_bind fun o => ?_
  split
  · dsimp only
    split
    · exact hput
    · exact enqueue_level.bind fun _ => hput
    · exact enqueue_level.bind fun _ => hput
  · exact throwType_level

@[grind ←] theorem isPromise_level {id : ObjectId} : Level P W (isPromise id) := by
  grind [isPromise]

@[grind ←] theorem promiseConstructor_level : Level P W promiseConstructor := by
  grind [promiseConstructor]

@[grind ←] theorem isPromiseConstructor_level {c : Value} : Level P W (isPromiseConstructor c) := by
  grind [isPromiseConstructor]

@[grind ←] theorem newCapability_level {constructor : Value} :
    Level P W (newCapability constructor) := by
  have hcell : Level P W (update fun s =>
      (s.resolvers.size, { s with resolvers := s.resolvers.push (.undefined, .undefined) })) :=
    .update fun _ _ hs => hs.aside rfl rfl rfl rfl
  unfold newCapability
  refine (isPromiseConstructor_level).bind fun own => ?_
  extract_lets rest
  have hrest : Level P W (rest ()) := by
    refine hcell.bind fun cell => (newCapturing_level).bind fun executor => construct_level.bind fun p => ?_
    refine .bind .look fun r => ?_
    grind
  refine .ite (fun _ => by grind) fun _ => isConstructor_level.bind fun _ => ?_
  exact .ite (fun _ => describe_level.bind fun _ => throwType_level.bind fun _ => hrest) fun _ => hrest

@[grind ←] theorem promiseFor_level {v : Value} : Level P W (promiseFor v) := by
  unfold promiseFor
  grind

@[grind ←] theorem promiseOf_level {constructor v : Value} :
    Level P W (promiseOf constructor v) := by
  unfold promiseOf
  grind

@[grind ←] theorem slotFor_level {v : Value} : Level P W (slotFor v) := by
  have hslot : Level P W (update fun s => (s.awaits.size, { s with awaits := s.awaits.push {} })) :=
    .update fun _ _ hs => hs.aside rfl rfl rfl rfl
  refine .bind .context fun c => ?_
  extract_lets rest
  have hrest : Level P W (rest ()) := by
    refine (promiseFor_level).bind fun id => hslot.bind fun slot => ?_
    grind
  exact .ite (fun _ => refuseEffect_level.bind fun _ => hrest) fun _ => hrest

@[grind ←] theorem waitFor_level {slot : Nat} (h : W) : Level P W (waitFor slot) := by
  refine fun _ c L s _ hs => .waiting h hs fun o L' s' _ hs' => ?_
  cases o with
  | ok v => exact .value hs' trivial
  | error reason => exact .abrupt hs'

@[grind ←] theorem awaitValue_level {v : Value} (h : W) : Level P W (awaitValue v) := by
  grind [awaitValue]

@[grind ←] theorem fillSlot_level {slot : Nat} {outcome : Outcome} :
    Level P W (fillSlot slot outcome) := by
  refine .change fun s L hs => ?_
  split
  · exact hs.aside rfl rfl rfl rfl
  · exact hs

@[grind ←] theorem spawn_level {frame : Frame} {body : Exec Unit} (h : P.lively → Level P True body) :
    Level P W (spawn frame body) := by
  intro hP c L s hL hs
  have hs : ({ s with lastTask := s.lastTask + 1 } : State).Stands L := hs.aside rfl rfl rfl rfl
  unfold spawn
  dsimp only
  rw [hs.length_eq]
  split
  case isTrue => exact .abrupt hs
  case isFalse hfull =>
    have hroom : ¬ L.isFull := by simpa only [Footing.isFull, ← hs.maxDepth] using hfull
    obtain ⟨hL₁, hlively⟩ := hP.enters L frame hL hroom
    exact (h hlively hP c _ _ hL₁ hs.enter).detach

@[grind ←] theorem takeFatal_level : Level P W takeFatal :=
  .update fun _ _ hs => hs.aside rfl rfl rfl rfl

@[grind ←] theorem settleBy_level {id : ObjectId} {body : Exec Value} (h : Level P W body) :
    Level P W (settleBy id body) := by
  grind [settleBy]

theorem settling_ne_suspended {text : String} :
    Condition.internal ("settling a promise threw " ++ text) ≠ .suspended := by
  intro h
  have htext : "settling a promise threw " ++ text = "synchronous function body suspended" :=
    Condition.internal.inj h
  have hhead := congrArg (fun s : String => s.toList.drop 1 |>.head?) htext
  simp at hhead

@[grind ←] theorem settleFrom_level {id : ObjectId} {body : Exec Value} (h : Level P W body) :
    Level P W (settleFrom id body) := by
  refine .bind (.attempt (settleBy_level h)) fun r => ?_
  split
  · exact .pure
  · exact .raise
  · exact .pure
  · exact .bind .look fun text => halt_level settling_ne_suspended

@[grind ←] theorem runReaction_level {r : Reaction} {v : Value} : Level P W (runReaction r v) := by
  unfold runReaction
  split
  all_goals try refine .bind (by grind) fun _ => ?_
  all_goals grind

@[grind ←] theorem runJob_level {a : Job} : Level P W (runJob a) := by
  unfold runJob
  split <;> grind

@[grind ←] theorem reportRejections_level : Level P W reportRejections := by
  have htake : Level P W (update fun s => (s.rejections, { s with rejections := #[] })) :=
    .update fun _ _ hs => hs.aside rfl rfl rfl rfl
  refine htake.bind fun tracked => .forM fun id _ => object_bind fun o => ?_
  split <;> grind

end Exec
end EcmaScript
