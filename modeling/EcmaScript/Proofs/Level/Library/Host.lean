import EcmaScript.Library.Error
import EcmaScript.Library.Function
import EcmaScript.Library.Host
import EcmaScript.Library.Json
import EcmaScript.Library.Native
import EcmaScript.Proofs.Level.Library.Array
import EcmaScript.Proofs.Level.Library.Value
import EcmaScript.Proofs.Parser.Statement

/-! Functions on the console, errors, functions and timers leave the call stack as they find it. A function
made from texts is lawful since it was parsed. -/
namespace EcmaScript.Exec
variable {P : Watch} {W : Prop}

@[grind ←] theorem shown_level {a : Option String} : Level P W (shown a) := by
  cases a with
  | none => exact halt_level nofun
  | some t => exact .pure

@[grind ←] theorem inspect_level {v : Value} : Level P W (inspect v) := by
  grind [inspect]

@[grind ←] theorem display_level {v : Value} : Level P W (display v) := by
  grind [display]

@[grind ←] theorem changeConsole_level {f : ConsoleData → ConsoleData} :
    Level P W (changeConsole f) := .change fun _ _ hs => hs.aside rfl rfl rfl rfl

@[grind ←] theorem emit_level {level : ConsoleLevel} {message : String} :
    Level P W (emit level message) := by
  grind [emit]

@[grind ←] theorem message_level {args : List Value} : Level P W (message args) := by
  grind [message]

@[grind ←] theorem labelOf_level {args : Array Value} : Level P W (labelOf args) := by
  grind [labelOf]

@[grind ←] theorem traceText_level {header : String} : Level P W (traceText header) := by
  grind [traceText]

@[grind ←] theorem showClock_level {label : String} : Level P W (showClock label) := by
  grind [showClock]

@[grind ←] theorem consoleCall_level {f : ConsoleFunction} {args : Array Value} :
    Level P W (consoleCall f args) := by
  unfold consoleCall
  grind

@[grind ←] theorem consoleFunction_level {f : ConsoleFunction} {args : Array Value} :
    Level P W (consoleFunction f args) := by
  grind [consoleFunction]

@[grind ←] theorem buildError_level {prototype : ObjectId} {args : Array Value} :
    Level P W (buildError prototype args) := by
  unfold buildError
  refine .bind (by grind) fun _ => ?_
  split <;> grind

@[grind ←] theorem errorText_level {this : Value} : Level P W (errorText this) := by
  unfold errorText
  split <;> grind

@[grind ←] theorem captureStack_level {args : Array Value} : Level P W (captureStack args) := by
  unfold captureStack
  split
  · refine checkObjectWrite_level.bind fun _ => ?_
    extract_lets rest
    have hrest stop : Level P W (rest stop) := by
      refine .bind .look fun header => ?_
      extract_lets finish
      have hfinish header : Level P W (finish header) :=
        .bind .look fun stack => .bind (modifyObject_kind fun _ => rfl) fun _ =>
          defineOrThrow_level.bind fun _ => .pure
      split
      · exact .bind .pure hfinish
      · exact toText_level.bind hfinish
    split
    · exact object_bind fun _ => .bind .pure hrest
    · exact .bind .pure hrest
  · grind

@[grind ←] theorem constructError_level {kind : ErrorKind} {args : Array Value}
    {newTarget : ObjectId} : Level P W (constructError kind args newTarget) := by
  grind [constructError]

@[grind ←] theorem errorFunction_level {f : ErrorFunction} {this : Value} {args : Array Value} :
    Level P W (errorFunction f this args) := by
  unfold errorFunction
  grind

@[grind ←] theorem bindFunction_level {this : Value} {args : Array Value} :
    Level P W (bindFunction this args) := by
  unfold bindFunction
  split
  · refine isCallable_level.bind fun _ => ?_
    extract_lets bound named rest
    have hnamed length : Level P W (named length) := by
      refine getNamed_level.bind fun name => ?_
      extract_lets finish
      have hfinish name : Level P W (finish name) :=
        prototypeOf_level.bind fun _ => .bind (allocate_kind (by simp)) fun _ => .pure
      split <;> exact .bind .pure hfinish
    have hrest : Level P W (rest ()) := by
      refine hasOwn_level.bind fun _ => ?_
      refine .ite (fun _ => getNamed_level.bind fun length => ?_) fun _ => .bind .pure hnamed
      split <;> exact .bind .pure hnamed
    exact .ite (fun _ => throwType_level.bind fun _ => hrest) fun _ => hrest
  · grind

@[grind ←] theorem functionFromText_level {args : Array Value} :
    Level P W (functionFromText args) := by
  unfold functionFromText
  refine .bind (by grind) fun texts => ?_
  extract_lets params source
  cases h : parseFunction source with
  | error e => cases e <;> grind
  | ok node =>
    refine .bind (.update fun _ _ hs => hs.aside rfl rfl rfl rfl) fun script => .within ?_
    refine .bind .context fun _ => .bind ?_ fun _ => .pure
    grind [FunctionNode.Lawful, parseFunction_lawful h]

@[grind ←] theorem functionFunction_level {f : FunctionFunction} {this : Value}
    {args : Array Value} : Level P W (functionFunction f this args) := by
  unfold functionFunction
  grind

@[grind ←] theorem requireCallback_level {v : Value} : Level P W (requireCallback v) := by
  grind [requireCallback]

@[grind ←] theorem scheduleTimer_level {args : Array Value} {repeats : Bool} :
    Level P W (scheduleTimer args repeats) := by
  refine (requireCallback_level).bind fun _ => globalObject_level.bind fun _ => ?_
  refine checkObjectWrite_level.bind fun _ => ?_
  extract_lets finish
  have hfinish delay : Level P W (finish delay) :=
    .bind (.update fun _ _ hs => hs.aside rfl rfl rfl rfl) fun _ => .pure
  split
  · exact .bind .pure hfinish
  · exact .bind (.map toNumber_level) hfinish

@[grind ←] theorem timerFunction_level {f : TimerFunction} {args : Array Value} :
    Level P W (timerFunction f args) := by
  cases f with
  | clear =>
    simp only [timerFunction]
    split
    · refine globalObject_level.bind fun _ => checkObjectWrite_level.bind fun _ => ?_
      exact .bind (.change fun _ _ hs => hs.aside rfl rfl rfl rfl) fun _ => .pure
    · exact .pure
  | _ => grind [timerFunction]

@[grind ←] theorem runTimer_level {t : Timer} : Level P W (runTimer t) := by
  unfold runTimer
  extract_lets rest
  have hrest : Level P W (rest ()) := by
    refine .bind (.attempt call_level) fun r => ?_
    split <;> grind
  split
  · exact .bind (.change fun _ _ hs => hs.aside rfl rfl rfl rfl) fun _ => hrest
  · exact hrest

end EcmaScript.Exec

/-! Reading and writing JSON leaves the call stack as it finds it. -/
namespace EcmaScript.Exec
variable {P : Watch} {W : Prop} {α : Type}

@[grind ←] theorem createProperty_level {id : ObjectId} {key : PropertyKey} {v : Value} :
    Level P W (createProperty id key v) := by
  grind [createProperty]

mutual

theorem fromJson_level {json : Json} : Level P W (fromJson json) := by
  cases json with
  | array items => exact (fromJsonItems_level).bind fun _ => newArray_level.bind fun _ => .pure
  | object members => exact newObject_level.bind fun _ => (fromJsonMembers_level).bind fun _ => .pure
  | _ => exact .pure
termination_by structural json

theorem fromJsonItems_level {items : List Json} {out : Array Value} :
    Level P W (fromJsonItems items out) := by
  cases items with
  | nil => exact .pure
  | cons item rest => exact (fromJson_level).bind fun _ => fromJsonItems_level
termination_by structural items

theorem fromJsonMembers_level {id : ObjectId} {members : List (String × Json)} :
    Level P W (fromJsonMembers id members) := by
  match members with
  | [] => exact .pure
  | (name, item) :: rest =>
    exact (fromJson_level).bind fun _ => (createProperty_level).bind fun _ => fromJsonMembers_level
termination_by structural members

end

attribute [grind ←] fromJson_level

@[grind ←] theorem revivedKeys_level {id : ObjectId} : Level P W (revivedKeys id) := by
  grind [revivedKeys]

@[grind ←] theorem revive_level {reviver : Value} {fuel : Nat} {holder : ObjectId}
    {key : PropertyKey} : Level P W (revive reviver fuel holder key) := by
  induction fuel generalizing holder key with
  | zero => exact .exhausted
  | succ fuel ih =>
    refine get_level.bind fun v => ?_
    extract_lets finish
    have hfinish : Level P W (finish ()) := call_level
    split
    · refine (revivedKeys_level).bind fun keys => .bind (.forM fun k _ => ?_) fun _ => hfinish
      refine ih.bind fun revived => ?_
      grind
    · exact hfinish

@[grind ←] theorem jsonFault_level {text : String} {fault : Json.Fault} :
    Level P W (jsonFault text fault : Exec α) := by
  grind [jsonFault]

@[grind ←] theorem jsonParse_level {args : Array Value} : Level P W (jsonParse args) := by
  unfold jsonParse
  grind

@[grind ←] theorem preparedValue_level {style : JsonStyle} {holder : Value} {key : PropertyKey} :
    Level P W (preparedValue style holder key) := by
  refine getOf_level.bind fun v => ?_
  extract_lets unwrap replace
  have hunwrap {v : Value} : Level P W (unwrap v) := by grind
  have hreplace {v : Value} : Level P W (replace v) := by grind
  grind

@[grind ←] theorem serialize_level {style : JsonStyle} {fuel : Nat} {indent : String}
    {around : List ObjectId} {holder : Value} {key : PropertyKey} :
    Level P W (serialize style fuel indent around holder key) := by
  induction fuel generalizing indent around holder key with
  | zero => exact .exhausted
  | succ fuel ih =>
    refine (preparedValue_level).bind fun v => ?_
    split
    case h_5 id =>
      refine isCallable_level.bind fun callable => .ite (fun _ => .pure) fun _ => ?_
      extract_lets inner members write
      have hmembers {keys : List PropertyKey} : Level P W (members keys) :=
        .bind (.filterMapM fun k _ => ih.bind fun _ => .pure) fun _ => .pure
      have hwrite : Level P W (write ()) := by
        refine .bind .look fun isArray => .ite (fun _ => ?_) fun _ => ?_
        · refine lengthOf_level.bind fun length => .bind (collect_level fun i => ?_) fun parts => .pure
          exact checkInterrupts_level.bind fun _ => ih.bind fun _ => .pure
        · split
          · exact .bind .pure fun _ => hmembers
          · exact enumerableKeys_level.bind fun _ => hmembers
      exact .ite (fun _ => throwType_level.bind fun _ => hwrite) fun _ => hwrite
    all_goals exact .pure

@[grind ←] theorem allowedKeys_level {v : Value} : Level P W (allowedKeys v) := by
  refine getOf_level.bind fun _ => toLength_level.bind fun length => ?_
  refine .bind (.loop fun state => ?_) fun _ => .pure
  dsimp only
  refine .ite (fun _ => .pure) fun _ => getOf_level.bind fun item => ?_
  grind

@[grind ←] theorem gapOf_level {space : Value} : Level P W (gapOf space) := by
  unfold gapOf
  grind

@[grind ←] theorem jsonStringify_level {args : Array Value} : Level P W (jsonStringify args) := by
  refine (gapOf_level).bind fun gap => ?_
  extract_lets replacer write
  have hwrite {style : JsonStyle} : Level P W (write style) := by
    refine newObject_level.bind fun wrapper => .bind .fuel fun limit => (serialize_level).bind fun text => ?_
    split <;> exact .pure
  refine isCallable_level.bind fun callable => .bind .look fun isArray => ?_
  refine .ite (fun _ => .bind .pure fun _ => hwrite) fun _ => .ite (fun _ => ?_) fun _ => ?_
  · exact (allowedKeys_level).bind fun _ => .bind .pure fun _ => hwrite
  · exact .bind .pure fun _ => hwrite

@[grind ←] theorem jsonFunction_level {f : JsonFunction} {args : Array Value} :
    Level P W (jsonFunction f args) := by
  unfold jsonFunction
  grind

end EcmaScript.Exec

/-! Functions on promises leave the call stack as they find it, and so does every built-in function. -/
namespace EcmaScript.Exec
variable {P : Watch} {W : Prop}

@[grind ←] theorem incompatiblePromise_level {name : String} {this : Value} :
    Level P W (incompatiblePromise name this : Exec α) := by
  grind [incompatiblePromise]

@[grind ←] theorem speciesOf_level {promise : ObjectId} : Level P W (speciesOf promise) := by
  grind [speciesOf]

@[grind ←] theorem promiseThen_level {this : Value} {args : Array Value} :
    Level P W (promiseThen this args) := by
  unfold promiseThen
  grind

@[grind ←] theorem invokeThen_level {this onFulfilled onRejected : Value} :
    Level P W (invokeThen this onFulfilled onRejected) := by
  grind [invokeThen]

@[grind ←] theorem promiseFinally_level {this : Value} {args : Array Value} :
    Level P W (promiseFinally this args) := by
  unfold promiseFinally
  grind

@[grind ←] theorem passAfter_level {callback constructor : Value} {fulfilled : Bool}
    {outcome : Value} : Level P W (passAfter callback constructor fulfilled outcome) := by
  grind [passAfter]

@[grind ←] theorem aggregateError_level {errors : Value} : Level P W (aggregateError errors) := by
  grind [aggregateError]

@[grind ←] theorem finishOne_level {aggregate : Nat} {how : Combinator} :
    Level P W (finishOne aggregate how) := by
  refine .bind (.change fun _ _ hs => hs.aside rfl rfl rfl rfl) fun _ => .bind .look fun a => ?_
  split <;> grind

@[grind ←] theorem settledRecord_level {fulfilled : Bool} {v : Value} :
    Level P W (settledRecord fulfilled v) := by
  grind [settledRecord]

@[grind ←] theorem reportElement_level {aggregate index latch : Nat} {how : Combinator}
    {fulfilled : Bool} {v : Value} :
    Level P W (reportElement aggregate index latch how fulfilled v) := by
  refine turnLatch_level.bind fun _ => ?_
  extract_lets report
  have hreport v : Level P W (report v) :=
    .bind (.change fun _ _ hs => hs.aside rfl rfl rfl rfl) fun _ => finishOne_level
  refine .ite (fun _ => .pure) fun _ => ?_
  exact .ite (fun _ => (settledRecord_level).bind hreport) fun _ => .bind .pure hreport

@[grind ←] theorem elementReporter_level {aggregate index : Nat} {how : Combinator}
    {fulfilled : Bool} : Level P W (elementReporter aggregate index how fulfilled) := by
  grind [elementReporter]

@[grind ←] theorem elementHandlers_level {aggregate index : Nat} {how : Combinator}
    {capability : Capability} : Level P W (elementHandlers aggregate index how capability) := by
  refine .ite (fun _ => .pure) fun _ => ?_
  refine .bind (.change fun _ _ hs => hs.aside rfl rfl rfl rfl) fun _ => ?_
  cases how <;> grind

@[grind ←] theorem askElements_level {constructor iterable : Value} {how : Combinator}
    {capability : Capability} : Level P W (askElements constructor iterable how capability) := by
  refine getOf_level.bind fun toPromise => isCallable_level.bind fun _ => ?_
  extract_lets rest
  have hrest : Level P W (rest ()) := by
    refine .bind (.update fun _ _ hs => hs.aside rfl rfl rfl rfl) fun aggregate => ?_
    refine getIterator_level.bind fun r => .bind (.loop fun index => ?_) fun _ => by grind
    refine step_level.bind fun item => ?_
    split
    · exact .pure
    · refine .bind (.attempt (by grind)) fun asked => ?_
      split
      · exact .pure
      · exact closeOnError_level trivial
  exact .ite (fun _ => throwType_level.bind fun _ => hrest) fun _ => hrest

@[grind ←] theorem combine_level {constructor iterable : Value} {how : Combinator} :
    Level P W (combine constructor iterable how) := by
  grind [combine]

@[grind ←] theorem constructPromise_level {args : Array Value} {newTarget : ObjectId} :
    Level P W (constructPromise args newTarget) := by
  refine isCallable_level.bind fun _ => ?_
  extract_lets rest
  have hrest : Level P W (rest ()) := by
    refine intrinsics_level.bind fun _ => prototypeFor_level.bind fun _ => ?_
    refine .bind (newOfKind_level (by simp)) fun id => newResolvers_level.bind fun x => ?_
    grind
  grind

@[grind ←] theorem promiseFunction_level {f : PromiseFunction} {this : Value} {args : Array Value}
    : Level P W (promiseFunction f this args) := by
  unfold promiseFunction
  grind

@[grind ←] theorem takeResolvers_level {cell : Nat} {args : Array Value} :
    Level P W (takeResolvers cell args) := by
  refine .bind .look fun x => ?_
  extract_lets rest
  have hrest : Level P W (rest ()) :=
    .bind (.change fun _ _ hs => hs.aside rfl rfl rfl rfl) fun _ => .pure
  exact .ite (fun _ => throwType_level.bind fun _ => hrest) fun _ => hrest

@[grind ←] theorem revokeProxy_level {id : ObjectId} : Level P W (revokeProxy id) := by
  refine object_bind fun o => ?_
  split
  · exact checkObjectWrite_level.bind fun _ =>
      modifyObject_level fun _ _ => Object.lawful_of_kind (by simp)
  · exact .pure

@[grind ←] theorem capturingFunction_level {f : CapturingFunction} {args : Array Value} :
    Level P W (capturingFunction f args) := by
  unfold capturingFunction
  grind

@[grind ←] theorem callNative_level {f : Native} {this : Value} {args : Array Value} :
    Level P W (callNative f this args) := by
  unfold callNative
  grind

@[grind ←] theorem constructNative_level {f : Native} {args : Array Value} {newTarget : ObjectId}
    : Level P W (constructNative f args newTarget) := by
  unfold constructNative
  grind

end EcmaScript.Exec
