import EcmaScript.Library.Promise
import EcmaScript.Proofs.Safety.Promise
import EcmaScript.Proofs.Safety.Reference

/-! The functions of the library on promises are safe. Only outside of dry runs are reactions
registered. -/
namespace EcmaScript
open Exec

variable {P : Pairing} {c : Context} {w : World} {this : Value} {args : Array Value}

theorem incompatiblePromise_safe {α : Type} {Q : α → World → Prop} {name : String} :
    Safe P c w (incompatiblePromise name this) Q := .look_bind fun _ => throwType_safe

section Aggregates
variable {aggregate : Nat} {how : Combinator}

theorem modifyAggregate_safe {f : Aggregate → Aggregate} (hf : ∀ a, Met w a → Met w (f a)) :
    Safe P c w (change fun s => { s with aggregates := s.aggregates.modify aggregate f }) Known :=
  .change (fun hw => .of_act (.aggregates (within_modify hw.closed.aggregates hf)))
    fun _ => trivial

theorem settledRecord_safe {fulfilled : Bool} {v : Value} (hv : Met w v) :
    Safe P c w (settledRecord fulfilled v) Known := by
  refine .bind (newObject_safe ?_) fun _ _ _ hid => .pure hid.met
  split <;> exact .cons ⟨trivial, trivial⟩ (.cons ⟨trivial, hv⟩ .nil)

theorem elementReporter_safe {index : Nat} {fulfilled : Bool} :
    Safe P c w (elementReporter aggregate index how fulfilled) Known :=
  .bind newLatch_safe fun _ _ _ _ => newCapturing_safe trivial rfl

theorem elementHandlers_safe {index : Nat} {capability : Capability} (hc : Met w capability) :
    Safe P c w (elementHandlers aggregate index how capability) Known := by
  refine .ite (fun _ => .pure hc.2) fun _ => ?_
  refine .bind (modifyAggregate_safe fun a ha => ⟨within_push ha.1 trivial, ha.2⟩) fun _ w₁ h₁ _ => ?_
  have hc := h₁.met hc
  cases how with
  | all => exact .bind elementReporter_safe fun _ _ h₂ hf => .pure ⟨hf, (h₂.met hc).2.2⟩
  | any => exact .bind elementReporter_safe fun _ _ h₂ hf => .pure ⟨(h₂.met hc).2.1, hf⟩
  | _ =>
    exact .bind elementReporter_safe fun _ _ _ hf =>
      .bind elementReporter_safe fun _ _ h₃ hr => .pure ⟨h₃.met hf, hr⟩

theorem aggregateError_safe {errors : Value} (he : Met w errors) :
    Safe P c w (aggregateError errors) Known := by
  refine .bind newError_safe fun id w₁ h₁ hid => ?_
  refine .bind (buildObject_safe hid.toMade rfl fun hw => ?_) fun _ _ h₂ _ => .pure (h₂.new hid).met
  exact met_put (met_put (met_object hw.closed id) trivial) (h₁.met he)

end Aggregates

theorem takeResolvers_safe {cell : Nat} (ha : Met w args) :
    Safe P c w (takeResolvers cell args) Known := by
  refine .look_bind fun hw => .ite (fun _ => .raise_bind trivial) fun _ => ?_
  have hpair : Met w (argument args 0, argument args 1) := ⟨met_argument ha, met_argument ha⟩
  refine .change_bind (fun _ => .of_act (.resolvers ?_)) (.pure trivial)
  exact within_setIfInBounds hw.closed.resolvers hpair

theorem revokeProxy_safe [Serves P] {id : ObjectId} : Safe P c w (revokeProxy id) Known := by
  refine .look_bind fun _ => ?_
  split
  · rename_i p hk
    refine checkObjectWrite_bind fun hid => modifyObject_safe hid (fun _ => .kind .refl ?_) fun hw => ?_
    · rw [hk]
      exact .revoke (some p)
    · exact ⟨trivial, (met_object hw.closed id).2⟩
  · exact .pure trivial

variable [Serves P]

theorem speciesOf_safe {promise : ObjectId} (hp : Met w promise) :
    Safe P c w (speciesOf promise) Known := by
  refine .bind promiseConstructor_safe fun default w₁ h₁ hd => ?_
  refine .bind (getNamed_safe (h₁.met hp)) fun v w₂ h₂ hv => ?_
  cases v with
  | undefined => exact .pure (h₂.met hd)
  | object id =>
    refine .bind (get_safe hv) fun species w₃ h₃ hs => .ite (fun _ => .pure ((h₂.trans h₃).met hd)) fun _ => ?_
    exact .look_bind fun _ => .ite (fun _ => .pure hs) fun _ => throwType_safe
  | _ => exact throwType_safe

theorem promiseThen_safe (hopen : w.isOpen) (ht : Met w this) (ha : Met w args) :
    Safe P c w (promiseThen this args) Known := by
  cases this with
  | object id =>
    refine .look_bind fun _ => .ite (fun _ => ?_) fun _ => ?_
    · exact .bind (Q := fun _ _ => False) incompatiblePromise_safe (by simp)
    refine .bind (speciesOf_safe ht) fun species w₁ h₁ hs => ?_
    refine .bind (newCapability_safe hs) fun capability w₂ h₂ hc => ?_
    have hargs := (h₁.trans h₂).met ha
    refine .bind (performThen_safe ((h₁.trans h₂).isOpen hopen) (met_argument hargs)
      (met_argument hargs) hc) fun _ w₃ h₃ _ => .pure (h₃.met hc).1
  | _ => exact incompatiblePromise_safe

theorem invokeThen_safe {onFulfilled onRejected : Value} (ht : Met w this)
    (hf : Met w onFulfilled) (hr : Met w onRejected) :
    Safe P c w (invokeThen this onFulfilled onRejected) Known :=
  .bind (getOf_safe ht) fun _ _ h hthen => call_safe hthen (h.met ht) (.two (h.met hf) (h.met hr))

theorem promiseFinally_safe (ht : Met w this) (ha : Met w args) :
    Safe P c w (promiseFinally this args) Known := by
  cases this with
  | object id =>
    have hfirst : Met w (argument args 0) := met_argument ha
    refine .look_bind fun _ => .ite (fun _ => invokeThen_safe ht hfirst hfirst) fun _ => ?_
    refine .bind (speciesOf_safe ht) fun species w₁ h₁ hs => ?_
    refine .bind (newCapturing_safe ⟨h₁.met hfirst, hs⟩ rfl) fun onFulfilled w₂ h₂ hf => ?_
    refine .bind (newCapturing_safe ⟨(h₁.trans h₂).met hfirst, h₂.met hs⟩ rfl) fun onRejected w₃ h₃ hr => ?_
    exact invokeThen_safe ((h₁.trans (h₂.trans h₃)).met ht) (h₃.met hf) hr
  | _ => exact incompatiblePromise_safe

theorem passAfter_safe {callback constructor outcome : Value} {fulfilled : Bool}
    (hcallback : Met w callback) (hconstructor : Met w constructor) (ho : Met w outcome) :
    Safe P c w (passAfter callback constructor fulfilled outcome) Known := by
  refine .bind (call_safe hcallback trivial .empty) fun result w₁ h₁ hr => ?_
  refine .bind (promiseOf_safe (h₁.met hconstructor) hr) fun settled w₂ h₂ hs => ?_
  have hnext : Met w₂ (if fulfilled then CapturingFunction.giveBack outcome else .throwBack outcome) := by
    have ho := (h₁.trans h₂).met ho
    split <;> exact ho
  refine .bind (newCapturing_safe hnext (by split <;> rfl)) fun next w₃ h₃ hn => ?_
  exact invokeThen_safe (h₃.met hs) hn trivial

section Aggregates
variable {aggregate : Nat} {how : Combinator}

theorem finishOne_safe : Safe P c w (finishOne aggregate how) Known := by
  refine .bind (modifyAggregate_safe fun _ ha => ha) fun _ w₁ _ _ => .look_bind fun hw => ?_
  split
  · exact .pure trivial
  · rename_i a hget
    have ha : Met w₁ a := within_getElem? hw.closed.aggregates hget
    refine .ite (fun _ => ?_) fun _ => .pure trivial
    refine .bind (newArray_safe ha.1) fun values w₂ h₂ hv => .ite (fun _ => ?_) fun _ => ?_
    · have hvalues : Met w₂ (Value.object values) := hv.met
      refine .bind (aggregateError_safe hvalues) fun e w₃ h₃ he => ?_
      exact .bind (call_safe ((h₂.trans h₃).met ha).2.2.2 trivial (.one he)) fun _ _ _ _ => .pure trivial
    · exact .bind (call_safe (h₂.met ha).2.2.1 trivial (.one hv.met)) fun _ _ _ _ => .pure trivial

theorem reportElement_safe {index latch : Nat} {fulfilled : Bool} {v : Value} (hv : Met w v) :
    Safe P c w (reportElement aggregate index latch how fulfilled v) Known := by
  refine .bind turnLatch_safe fun _ w₁ h₁ _ => .ite (fun _ => .pure trivial) fun _ => ?_
  have hreport {w' : World} {v : Value} (hv : Met w' v) : Safe P c w' (do
      change fun s => { s with
        aggregates := s.aggregates.modify aggregate fun a => { a with
          values := a.values.setIfInBounds index v } }
      finishOne aggregate how) Known :=
    .bind (modifyAggregate_safe fun _ ha => ⟨within_setIfInBounds ha.1 hv, ha.2⟩)
      fun _ _ _ _ => finishOne_safe
  refine .ite (fun _ => ?_) fun _ => .pure_bind (hreport (h₁.met hv))
  exact .bind (settledRecord_safe (h₁.met hv)) fun _ _ _ hv => hreport hv

theorem askElements_safe {constructor iterable : Value} {capability : Capability}
    (hconstructor : Met w constructor) (hi : Met w iterable) (hc : Met w capability) :
    Safe P c w (askElements constructor iterable how capability) Known := by
  refine .bind (getOf_safe hconstructor) fun toPromise w₁ h₁ hp => ?_
  refine .look_bind fun _ => .ite (fun _ => .raise_bind trivial) fun _ => ?_
  refine .bind (Q := fun _ _ => True) (.update (fun hw => ?_) fun _ => trivial) fun aggregate w₂ h₂ _ => ?_
  · have hnew : Met w₁ (⟨#[], 1, capability⟩ : Aggregate) := ⟨Met.empty, h₁.met hc⟩
    exact .of_act (.aggregates (within_push hw.closed.aggregates hnew))
  refine .bind (getIterator_safe ((h₁.trans h₂).met hi)) fun r w₃ h₃ hr => ?_
  refine .bind (Q := fun _ _ => True) (.loop (I := fun _ _ => True) trivial fun index w₄ h₄ _ => ?_)
    fun _ _ _ _ => .ite (fun _ => finishOne_safe) fun _ => .pure trivial
  refine .bind (step_safe (h₄.met hr)) fun item w₅ h₅ hitem => ?_
  cases item with
  | none => exact .pure trivial
  | some item =>
    have hl := (h₃.trans h₄).trans h₅
    refine .attempt (Q := Known) (.bind (call_safe ((h₂.trans hl).met hp)
      ((h₁.trans (h₂.trans hl)).met hconstructor) (.one hitem)) fun promise w₆ h₆ hpromise => ?_)
      (fun _ _ _ _ hk => Safe.passes_raise hk) (fun _ _ _ _ => .pure trivial) fun e w₆ h₆ he => ?_
    · refine .bind (elementHandlers_safe ((h₁.trans (h₂.trans (hl.trans h₆))).met hc))
        fun (onFulfilled, onRejected) w₇ h₇ hh => ?_
      exact invokeThen_safe (h₇.met hpromise) hh.1 hh.2
    · exact closeOnError_safe ((h₄.trans (h₅.trans h₆)).met hr) he

theorem combine_safe {constructor iterable : Value} (hconstructor : Met w constructor)
    (hi : Met w iterable) : Safe P c w (combine constructor iterable how) Known := by
  refine .bind (newCapability_safe hconstructor) fun capability w₁ h₁ hc => ?_
  refine .attempt (askElements_safe (h₁.met hconstructor) (h₁.met hi) hc)
    (fun _ _ _ _ hk => Safe.passes_raise hk) (fun _ _ h₂ _ => .pure (h₂.met hc).1) fun e w₂ h₂ he => ?_
  refine .bind (thrownValue_safe he) fun reason w₃ h₃ hr => ?_
  exact .bind (call_safe ((h₂.trans h₃).met hc).2.2 trivial (.one hr)) fun _ _ h₄ _ =>
    .pure ((h₂.trans (h₃.trans h₄)).met hc).1

end Aggregates

theorem constructPromise_safe {newTarget : ObjectId} (ha : Met w args) (hn : Met w newTarget) :
    Safe P c w (constructPromise args newTarget) Known := by
  refine .look_bind fun _ => .ite (fun _ => .look_bind fun _ => .raise_bind trivial) fun _ => ?_
  refine .look_bind fun hw => ?_
  refine .bind (prototypeFor_safe hn (hw.intrinsic (by simp [Intrinsics.toList])))
    fun prototype w₁ h₁ hp => ?_
  refine .bind (newOfKind_safe hp ⟨trivial, within_nil, within_nil⟩ rfl) fun id w₂ h₂ hid => ?_
  refine .bind (newResolvers_safe hid.met) fun r w₃ h₃ hr => ?_
  obtain ⟨onResolve, onReject⟩ := r
  refine .attempt (call_safe ((h₁.trans (h₂.trans h₃)).met (met_argument ha)) trivial
    (.two hr.1 hr.2)) (fun _ _ _ _ hk => Safe.passes_raise hk)
    (fun _ _ h₄ _ => .pure ((h₃.trans h₄).new hid).met) fun e w₄ h₄ he => ?_
  refine .bind (thrownValue_safe he) fun reason w₅ h₅ hreason => ?_
  exact .bind (call_safe ((h₄.trans h₅).met hr.2) trivial (.one hreason)) fun _ _ h₆ _ =>
    .pure ((h₃.trans (h₄.trans (h₅.trans h₆))).new hid).met

theorem promiseFunction_safe {f : PromiseFunction} (hg : w.grants (.promise f) this)
    (ht : Met w this) (ha : Met w args) : Safe P c w (promiseFunction f this args) Known := by
  have hfirst : Met w (argument args 0) := met_argument ha
  unfold promiseFunction
  cases f with
  | construct => exact throwType_safe
  | «then» =>
    have hopen : w.isOpen := by
      cases hd : w.dry with
      | none => exact hd
      | some d => cases (hg.1 d hd).1
    exact promiseThen_safe hopen ht ha
  | «catch» => exact invokeThen_safe ht trivial hfirst
  | «finally» => exact promiseFinally_safe ht ha
  | resolve => exact .ite (fun _ => .raise_bind trivial) fun _ => promiseOf_safe ht hfirst
  | reject =>
    refine .bind (newCapability_safe ht) fun capability w₁ h₁ hc => ?_
    exact .bind (call_safe hc.2.2 trivial (.one (h₁.met hfirst))) fun _ _ h₂ _ => .pure (h₂.met hc).1
  | withResolvers =>
    refine .bind (newCapability_safe ht) fun c w₁ h₁ hc => ?_
    refine .bind (newObject_safe ?_) fun _ _ _ hid => .pure hid.met
    exact .cons ⟨trivial, hc.1⟩ (.cons ⟨trivial, hc.2.1⟩ (.cons ⟨trivial, hc.2.2⟩ .nil))
  | combine how => exact combine_safe ht hfirst
  | species => exact .pure ht

theorem capturingFunction_safe {f : CapturingFunction} (hg : w.grants (.capturing f) this)
    (hf : Met w f) (ha : Met w args) : Safe P c w (capturingFunction f args) Known := by
  have hfirst : Met w (argument args 0) := met_argument ha
  unfold capturingFunction
  cases f with
  | resolvePromise promise latch =>
    refine .bind turnLatch_safe fun _ w₁ h₁ _ => .ite (fun _ => ?_) fun _ => .pure trivial
    exact .bind (resolve_safe (h₁.met hf) (h₁.met hfirst)) fun _ _ _ _ => .pure trivial
  | rejectPromise promise latch =>
    refine .bind turnLatch_safe fun _ w₁ h₁ _ => .ite (fun _ => ?_) fun _ => .pure trivial
    exact .bind (reject_safe (h₁.met hfirst)) fun _ _ _ _ => .pure trivial
  | takeResolvers cell => exact takeResolvers_safe ha
  | passAfter callback constructor fulfilled => exact passAfter_safe hf.1 hf.2 hfirst
  | giveBack v => exact .pure hf
  | throwBack v => exact .raise hf
  | reportElement aggregate index latch how fulfilled =>
    exact .bind (reportElement_safe hfirst) fun _ _ _ _ => .pure trivial
  | wake slot fulfilled =>
    refine .bind (fillSlot_safe (fun ht => hg.2 ht slot rfl) ?_) fun _ _ _ _ => .pure trivial
    split <;> exact hfirst
  | revokeProxy proxy => exact .bind revokeProxy_safe fun _ _ _ _ => .pure trivial
  | refuseCallee => exact throwType_safe

end EcmaScript
