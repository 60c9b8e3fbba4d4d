import EcmaScript.Promise.Core
import EcmaScript.Proofs.Safety.Names

/-! Promises, jobs and tasks are safe. -/
namespace EcmaScript
open Exec

def State.handler (s : State) (f : Value) : Value := if s.callableValue f then f else .undefined

namespace Exec
variable {m : Machine} {c : Context} {s : State} {id : ObjectId} {p : PromiseData}

/-- Reactions are registered with a pending promise, and run at once by one that is settled. -/
theorem performThen_eq {onFulfilled onRejected : Value} {capability : Option Capability}
    (hk : (s.object id).kind = .promise p) :
    performThen id onFulfilled onRejected capability m c s =
      .value () (s.registered id p ⟨capability, true, s.handler onFulfilled⟩
        ⟨capability, false, s.handler onRejected⟩) := by
  simp only [performThen, Bind.bind, Exec.bind, isCallable, look, Pure.pure, Exec.pure, Step.bind,
    object, hk]
  unfold State.registered PromiseData.register PromiseData.due
  cases p.state <;> rfl

end Exec

variable {P : Pairing} {c : Context} {w : World}

theorem Later.isOpen {w' : World} (h : Later w w') (ho : w.isOpen) : w'.isOpen :=
  h.dry.trans ho

theorem World.isOpen.ownsScope (h : w.isOpen) (id : ScopeId) : w.ownsScope id := by
  intro d hd
  rw [h] at hd
  cases hd

theorem newPromise_safe : Safe P c w newPromise New :=
  .look_bind fun hw => newOfKind_safe (hw.intrinsic (by simp [Intrinsics.toList]))
    ⟨trivial, within_nil, within_nil⟩ rfl

theorem settle_safe [Serves P] {id : ObjectId} {state : PromiseState} (hs : Met w state) :
    Safe P c w (settle id state) Known := by
  refine checkObjectWrite_bind fun hid => .look_bind fun hw => ?_
  split
  · rename_i onFulfilled onRejected handled hk
    cases state with
    | pending => exact .pure trivial
    | fulfilled v =>
      exact .change (fun _ => .of_act (.settle hid hs hk rfl (.fulfilled v))) fun _ => trivial
    | rejected v =>
      exact .change (fun _ => .of_act (.settle hid hs hk rfl (.rejected v))) fun _ => trivial
  · exact .pure trivial

theorem fulfill_safe [Serves P] {id : ObjectId} {v : Value} (hv : Met w v) :
    Safe P c w (fulfill id v) Known := settle_safe hv

theorem reject_safe [Serves P] {id : ObjectId} {v : Value} (hv : Met w v) :
    Safe P c w (reject id v) Known := settle_safe hv

theorem newResolvers_safe {id : ObjectId} (hid : Met w id) :
    Safe P c w (newResolvers id) Known := by
  refine .bind newLatch_safe fun latch w₁ h₁ _ => ?_
  refine .bind (newCapturing_safe (h₁.met hid) rfl) fun onResolve w₂ h₂ hresolve => ?_
  refine .bind (newCapturing_safe ((h₁.trans h₂).met hid) rfl) fun onReject w₃ h₃ hreject => ?_
  exact .pure ⟨h₃.met hresolve, hreject⟩

/-- Registers two reactions that code has access to, or that wait for something. -/
theorem register_safe {id : ObjectId} {onFulfilled onRejected : Value}
    {capability : Option Capability} (hopen : w.isOpen)
    (hr : ∀ fulfilled, ∀ f ∈ [onFulfilled, onRejected],
      Met w (⟨capability, fulfilled, w.state.handler f⟩ : Reaction) ∧
        Reaction.Waking w.state ⟨capability, fulfilled, w.state.handler f⟩) :
    Safe P c w (performThen id onFulfilled onRejected capability) fun _ w' =>
      w'.state.awaits = w.state.awaits := by
  cases hk : (w.state.object id).kind with
  | promise p =>
    intro _ _
    rw [performThen_eq hk, performThen_eq hk]
    obtain ⟨hvalue, hwv⟩ := hr true onFulfilled (by simp)
    obtain ⟨hreason, hwr⟩ := hr false onRejected (by simp)
    have hacts := Acts.of_act (.register hopen hk hvalue hreason (fun _ => hwv) fun _ => hwr)
    exact Runs.value hacts rfl rfl
  | _ =>
    refine .look_bind fun _ => .look_bind fun _ => .look_bind fun _ => ?_
    rw [hk]
    exact throwType_safe

theorem performThen_safe {id : ObjectId} {onFulfilled onRejected : Value}
    {capability : Capability} (hopen : w.isOpen) (hf : Met w onFulfilled)
    (hr : Met w onRejected) (hc : Met w capability) :
    Safe P c w (performThen id onFulfilled onRejected (some capability)) Known := by
  have hhandler {f : Value} (h : Met w f) : Met w (w.state.handler f) := by
    unfold State.handler
    split
    · exact h
    · trivial
  have hcapability : Met w (some capability) := hc
  refine (register_safe hopen fun fulfilled f hf' => ⟨.inr ⟨hcapability, hhandler ?_⟩, ?_⟩).mono
    fun _ _ _ _ => trivial
  · rcases List.mem_pair.mp hf' with rfl | rfl
    · exact hf
    · exact hr
  · intro hnone
    cases hnone

def Wakes (v : Value) (slot : Nat) (w : World) : Prop :=
  ∃ id, v = .object id ∧ (w.state.object id).kind.wakes? = some slot

theorem Wakes.later {w' : World} {v : Value} {slot : Nat} (hv : Wakes v slot w) (h : Later w w') :
    Wakes v slot w' := by
  obtain ⟨id, rfl, hk⟩ := hv
  exact ⟨id, rfl, h.wakes id slot hk⟩

theorem Wakes.callable {v : Value} {slot : Nat} (hv : Wakes v slot w) :
    w.state.handler v = v := by
  obtain ⟨id, rfl, hk⟩ := hv
  refine if_pos ?_
  unfold ObjectKind.wakes? at hk
  unfold State.callableValue State.isCallable
  grind

theorem newWaker_safe {slot : Nat} {fulfilled : Bool} :
    Safe P c w (newCapturing 1 (.wake slot fulfilled)) fun v w' =>
      w'.state.awaits = w.state.awaits ∧ Wakes v slot w' := by
  refine .bind (Q := fun id w' => w'.state.awaits = w.state.awaits ∧ Wakes (.object id) slot w')
    (.look_bind fun hw _ _ => ?_) fun id w₁ _ hid => .pure hid
  have ho : Met w (nativeObject w.state.intrinsics "" 1 (.capturing (.wake slot fulfilled))) :=
    ⟨trivial, hw.intrinsic (by simp [Intrinsics.toList]), met_functionProperties, within_nil⟩
  have hacts : Acts w (w.push _) := .of_act (.allocate ho trivial)
  refine Runs.value hacts rfl ⟨rfl, _, rfl, ?_⟩
  rw [World.push, State.object_push, if_pos rfl]
  rfl

theorem promiseConstructor_safe : Safe P c w promiseConstructor Known := by
  refine .look fun hw => ?_
  split
  · rename_i f hf
    obtain ⟨p, hp, hv⟩ := Option.bind_eq_some_iff.mp hf
    exact met_value ((met_object hw.closed _).2.2.1 _ p hp) hv
  · trivial

theorem isPromiseConstructor_safe {v : Value} : Safe P c w (isPromiseConstructor v) Known :=
  .bind promiseConstructor_safe fun _ _ _ _ => .pure trivial

theorem fillSlot_safe {slot : Nat} {outcome : Outcome} (hs : w.tracked → w.filling slot)
    (ho : Met w outcome) : Safe P c w (fillSlot slot outcome) Known := by
  refine .change (fun _ => ?_) fun _ => trivial
  split
  · exact .of_act (.fill hs ‹_› ho)
  · exact .refl

theorem waitFor_safe {slot : Nat} (hslot : w.Awaits slot) : Safe P c w (waitFor slot) Known := by
  intro _ _
  refine .waiting .refl hslot (fun _ h => h) fun o w₂ hres ho => ?_
  cases o with
  | ok v => exact .value .refl hres.later.own ho
  | error v => exact .abrupt .refl hres.later.own ho

variable [Serves P]

theorem resolve_safe {id : ObjectId} {v : Value} (hid : Met w id) (hv : Met w v) :
    Safe P c w (resolve id v) Known := by
  cases v with
  | object o =>
    refine .ite (fun _ => .bind newError_safe fun _ _ _ he => reject_safe he.met) fun _ => ?_
    refine .attempt (getNamed_safe hv) (fun _ _ _ _ hk => Safe.passes_raise hk)
      (fun f w₁ h₁ hf => ?_) fun e w₁ h₁ he => ?_
    · refine .look_bind fun _ => .ite (fun _ => ?_) fun _ => fulfill_safe (h₁.met hv)
      exact enqueue_safe ⟨h₁.met hid, h₁.met hv, hf⟩ rfl
    · exact .bind (thrownValue_safe he) fun _ _ _ hr => reject_safe hr
  | _ => exact fulfill_safe hv

theorem newCapability_safe {f : Value} (hf : Met w f) : Safe P c w (newCapability f) Known := by
  refine .bind isPromiseConstructor_safe fun own w₁ h₁ _ => .ite (fun _ => ?_) fun _ => ?_
  · refine .bind newPromise_safe fun id w₂ _ hid => .bind (newResolvers_safe hid.met) fun r w₃ h₃ hr => ?_
    exact .pure ⟨(h₃.new hid).met, hr.1, hr.2⟩
  · refine .look_bind fun _ => .ite (fun _ => .look_bind fun _ => .raise_bind trivial) fun _ => ?_
    refine .bind (Q := Known) (.update (fun hw => ?_) fun _ => trivial) fun cell w₂ h₂ _ => ?_
    · have hcell : Met w₁ (Value.undefined, Value.undefined) := ⟨trivial, trivial⟩
      exact .of_act (.resolvers (within_push hw.closed.resolvers hcell))
    refine .bind (newCapturing_safe trivial rfl) fun executor w₃ h₃ he => ?_
    have hf₃ := ((h₁.trans h₂).trans h₃).met hf
    refine .bind (construct_safe hf₃ (.one he) hf₃) fun promise w₄ _ hp => .look_bind fun hw => ?_
    have hcell : Met w₄ (w₄.state.resolvers.getD cell (.undefined, .undefined)) :=
      within_getD hw.closed.resolvers ⟨trivial, trivial⟩
    refine .look_bind fun _ => .ite (fun _ => .raise_bind trivial) fun _ => ?_
    refine .look_bind fun _ => .ite (fun _ => .raise_bind trivial) fun _ => ?_
    exact .pure ⟨hp, hcell.1, hcell.2⟩

theorem promiseFor_safe {v : Value} (hv : Met w v) : Safe P c w (promiseFor v) Known := by
  have hfresh {w' : World} (hl : Later w w') : Safe P c w' (do
      let id ← newPromise
      resolve id v
      return id) Known := by
    refine .bind newPromise_safe fun id w₁ h₁ hid => ?_
    exact .bind (resolve_safe hid.met ((hl.trans h₁).met hv)) fun _ w₂ h₂ _ => .pure (h₂.met hid.met)
  cases v with
  | object id =>
    refine .look_bind fun _ => .ite (fun _ => ?_) fun _ => hfresh .refl
    refine .bind (getNamed_safe hv) fun f w₁ h₁ _ => .bind isPromiseConstructor_safe fun own w₂ h₂ _ => ?_
    exact .ite (fun _ => .pure ((h₁.trans h₂).met hv)) fun _ => hfresh (h₁.trans h₂)
  | _ => exact hfresh .refl

theorem promiseOf_safe {f v : Value} (hf : Met w f) (hv : Met w v) :
    Safe P c w (promiseOf f v) Known := by
  refine .bind isPromiseConstructor_safe fun own w₁ h₁ _ => .ite (fun _ => ?_) fun _ => ?_
  · exact .bind (promiseFor_safe (h₁.met hv)) fun _ _ _ hid => .pure hid
  · have hmake {w' : World} (hl : Later w w') : Safe P c w' (do
        let c ← newCapability f
        let _ ← call c.resolve .undefined #[v]
        return c.promise) Known := by
      refine .bind (newCapability_safe (hl.met hf)) fun cap w₂ h₂ hcap => ?_
      exact .bind (call_safe hcap.2.1 trivial (.one ((hl.trans h₂).met hv)))
        fun _ w₃ h₃ _ => .pure (h₃.met hcap).1
    cases v with
    | object id =>
      refine .look_bind fun _ => .ite (fun _ => ?_) fun _ => hmake h₁
      refine .bind (getNamed_safe (h₁.met hv)) fun g w₂ h₂ _ => ?_
      exact .ite (fun _ => .pure ((h₁.trans h₂).met hv)) fun _ => hmake (h₁.trans h₂)
    | _ => exact hmake h₁

theorem slotFor_safe {v : Value} (hv : Met w v) :
    Safe P c w (slotFor v) fun slot w' => w'.Awaits slot := by
  refine .context_bind fun hc => .ite (fun _ => halt_bind trivial) fun hdry => ?_
  have hopen : w.isOpen := by
    cases hd : w.dry with
    | none => exact hd
    | some d => simp [Context.isDryRun, (hc d hd).1] at hdry
  refine .bind (promiseFor_safe hv) fun id w₁ h₁ _ => ?_
  refine .bind (Q := fun slot w' => w'.state.awaits[slot]? = some {})
    (.update (fun _ => .of_act .newSlot) fun _ => by simp) fun slot w₂ h₂ hslot => ?_
  refine .bind newWaker_safe fun onFulfilled w₃ h₃ hf => .bind newWaker_safe fun onRejected w₄ h₄ hr => ?_
  have hopen₄ := (h₁.trans (h₂.trans (h₃.trans h₄))).isOpen hopen
  refine .bind (register_safe hopen₄ fun fulfilled f hf' => ⟨.inl rfl, fun _ => ?_⟩) fun _ w₅ h₅ h => ?_
  · have hwakes : Wakes f slot w₄ := by
      rcases List.mem_pair.mp hf' with rfl | rfl
      · exact hf.2.later h₄
      · exact hr.2
    obtain ⟨id, rfl, hk⟩ := hwakes
    exact ⟨id, slot, Wakes.callable ⟨id, rfl, hk⟩, hk⟩
  · refine .pure ⟨h₅.isOpen hopen₄, ?_⟩
    rwa [h, hr.1, hf.1]

theorem awaitValue_safe {v : Value} (hv : Met w v) : Safe P c w (awaitValue v) Known :=
  .bind (slotFor_safe hv) fun _ _ _ hslot => waitFor_safe hslot

/-! Functions whose callers do not wait. -/

theorem settleBy_safe {id : ObjectId} {x : Exec Value} (hid : Met w id)
    (hx : Safe P c w x Known) : Safe P c w (settleBy id x) Known := by
  refine .attempt hx (fun _ _ _ _ hk => Safe.passes_raise hk) (fun v w₁ h₁ hv => ?_)
    fun e w₁ h₁ he => ?_
  · exact resolve_safe (h₁.met hid) hv
  · refine .bind (onFrameExit_safe he) fun e w₂ _ he => ?_
    exact .bind (thrownValue_safe he) fun _ _ _ hv => reject_safe hv

theorem settleFrom_safe {id : ObjectId} {x : Exec Value} (hid : Met w id)
    (hx : Safe P c w x Known) : Safe P c w (settleFrom id x) Known := by
  have hsettle : Safe P c w (settleBy id x) Known := settleBy_safe hid hx
  refine .attempt hsettle (fun _ _ _ _ hk => Safe.passes_raise hk) (fun _ _ _ _ => .pure trivial)
    fun e w₁ _ he => ?_
  cases e with
  | condition k => exact .raise he
  | failure f => exact .pure trivial
  | thrown v => exact .look_bind fun _ => halt_safe trivial

/-- What follows on a task that was started. It has to pass on the conditions that the task ends
with. -/
theorem spawn_bind {α : Type} {Q : α → World → Prop} {frame : Frame} {body : Exec Unit}
    {g : Option Condition → Exec α}
    (hbody : ∀ T w', Later (w.handing T) w' → Safe P c w' body Known)
    (hg : ∀ k w', Later w w' → Met w' k → Safe P c w' (g k) Q)
    (hend : ∀ k w', Later w w' → w'.Inv → Met w' k ∧ P.ends w'.quiet k w'.state →
      ∃ k', Passes P c w' (g (some k)) k') : Safe P c w (spawn frame body >>= g) Q := by
  intro hc hw
  let id := w.state.lastTask + 1
  -- The world in which the task begins: it has its id for itself.
  let named : World := { w with state := { w.state with lastTask := id } }
  let w₁ : World := named.hide (.task id)
  let w₂ : World := { w₁ with state := { w₁.state with stack := frame :: w₁.state.stack } }
  let begun : World := w₂.handing fun h => h = .task id
  have hnew : ¬ w.state.Has (.task id) := Nat.not_succ_le_self _
  have hnamed : Acts w named := .of_act .name
  have h₁ : Acts w w₁ := hnamed.hide hnew
    ((hnamed.inv hw).hide (Nat.le_refl _) (Met.mono (hnamed.inv hw).closed fun other hk ht =>
      ⟨(hk ht).1, fun hh => hh.elim (hk ht).2.1 nofun, (hk ht).2.2⟩))
  have h₂ : Acts w w₂ := h₁.step .aside
  have hinv : begun.Inv := (h₂.inv hw).handing fun _ h => .inr h
  have happart : begun.Apart w.own := fun held hh =>
    ⟨.inl (hw.own held hh), fun he => hnew (he ▸ hw.hidden held (hw.own held hh)),
      h₂.grows.has (hw.hidden held (hw.own held hh))⟩
  have hlater {w' : World} (hg : Grows begun w') (ho : w'.own = w.own) :
      Later w w' := ⟨h₂.grows.trans { hg with }, ho⟩
  have hspawn (m : Machine) : (spawn frame body >>= g) m c w.state =
      if w.state.maxDepth ≤ w.state.stack.length then
        .abrupt (.failure ⟨.range, "Maximum call stack size exceeded", 0, 0⟩) named.state
      else ((body m c w₂.state).detach id w.state.stack.length).bind fun a s => g a m c s := by
    show Step.bind (spawn frame body m c w.state) _ = _
    unfold spawn
    dsimp only
    split <;> rfl
  rw [hspawn, hspawn]
  split
  · exact Runs.abrupt hnamed rfl trivial
  · have hrun := hbody (fun h => h = .task id) begun ⟨{ h₂.grows with }, rfl⟩ hc hinv
    refine Runs.after (Runs.detach hrun hinv happart rfl Serves.stack (fun k w' hgrows ho hw' hk => ?_)
      fun k w' y hgrows ho hw' hk => ?_) ?_
    · have hl := hlater hgrows ho
      have hnext := hg k w' hl hk (fun d hd => hc d (hl.dry ▸ hd)) hw'
      rwa [ho] at hnext
    · obtain ⟨k', w₃, hacts, hown, hk', hx⟩ := hend k w' (hlater hgrows ho) hw' hk
      rw [hx]
      exact .ended hacts (hown.trans ho) hk'
    · have hframe : begun.frame w.own = w₂ := rfl
      exact hframe ▸ h₂

omit [Serves P] in
theorem takeFatal_safe : Safe P c w takeFatal Known :=
  fun _ hw => Runs.value (Q := Known) (.of_act .takeFatal) rfl hw.closed.fatal

/-- Starts a task, and passes on the condition that it has left behind or ended with. -/
theorem spawn_safe {α : Type} {Q : α → World → Prop} {frame : Frame} {body : Exec Unit}
    {rest : Exec α}
    (hbody : ∀ T w', Later (w.handing T) w' → Safe P c w' body Known)
    (hrest : ∀ w', Later w w' → Safe P c w' rest Q) :
    Safe P c w (do
      let ended ← spawn frame body
      match (← takeFatal).or ended with
      | some condition => raise (.condition condition)
      | none => rest) Q := by
  refine spawn_bind hbody (fun ended w₁ h₁ he => .bind takeFatal_safe fun fatal w₂ h₂ hf => ?_)
    fun k w₁ _ hw₁ hk => ?_
  · split
    · rename_i k hk
      refine .raise ?_
      rcases Option.or_eq_some_iff.mp hk with rfl | ⟨-, rfl⟩
      · exact hf
      · exact h₂.met he
    · exact hrest w₂ (h₁.trans h₂)
  · obtain ⟨k', hk'⟩ : ∃ k', w₁.state.fatal.or (some k) = some k' := by
      cases w₁.state.fatal <;> simp
    have hmet : Met w₁ k' := by
      have hfatal := hw₁.closed.fatal
      rcases Option.or_eq_some_iff.mp hk' with hk' | ⟨-, hk'⟩
      · rwa [hk'] at hfatal
      · cases hk'
        exact hk.1
    refine ⟨k', { w₁ with state := { w₁.state with fatal := none } }, .of_act .takeFatal, rfl,
      ⟨(Acts.of_act .takeFatal).grows.met hmet, Serves.taken hk.2 hw₁.quiet hk'⟩, ?_⟩
    show (match w₁.state.fatal.or (some k) with
      | some condition => raise (.condition condition)
      | none => rest) P.machine c { w₁.state with fatal := none } = _
    rw [hk']
    rfl

/-! Jobs. -/

theorem runReaction_safe {r : Reaction} {v : Value} (hr : Met w r.capability) (hv : Met w v)
    (hcall : r.handler.isUndefined = false → Safe P c w (call r.handler .undefined #[v]) Known) :
    Safe P c w (runReaction r v) Known := by
  unfold runReaction
  extract_lets passing
  have hpassing {w' : World} (hl : Later w w') (outcome : Outcome) (ho : Met w' outcome) :
      Safe P c w' (passing outcome) Known := by
    have hcapability : Met w' r.capability := hl.met hr
    unfold passing
    cases hc : r.capability with
    | none => exact .pure trivial
    | some c =>
      rw [hc] at hcapability
      cases outcome with
      | ok v => exact .bind (call_safe hcapability.2.1 trivial (.one ho)) fun _ _ _ _ => .pure trivial
      | error v => exact .bind (call_safe hcapability.2.2 trivial (.one ho)) fun _ _ _ _ => .pure trivial
  refine .ite (fun _ => hpassing .refl _ ?_) fun hhandler => ?_
  · split
    · exact hv
    · exact hv
  · refine .attempt (hcall (by simpa using hhandler)) (fun _ _ _ _ hk => Safe.passes_raise hk)
      (fun v w₁ h₁ hv => hpassing h₁ (.ok v) hv) fun e w₁ h₁ he => ?_
    exact .bind (thrownValue_safe he) fun v w₂ h₂ hv => hpassing (h₁.trans h₂) (.error v) hv

def Job.isWaking : Job → Bool
  | .react r _ => r.capability.isNone
  | _ => false

theorem runJob_safe {job : Job} (hj : Met w job) (hn : job.isWaking = false) :
    Safe P c w (runJob job) Known := by
  cases job with
  | react r v =>
    obtain ⟨hr, hv⟩ := hj
    obtain hnone | ⟨hcapability, hhandler⟩ := hr
    · have hnone : r.capability = none := hnone
      simp [Job.isWaking, hnone] at hn
    · exact runReaction_safe hcapability hv fun _ => call_safe hhandler trivial (.one hv)
  | adopt promise thenable f =>
    obtain ⟨hp, ht, hf⟩ := hj
    refine .bind (newResolvers_safe hp) fun r w₁ h₁ hr => ?_
    refine .attempt (call_safe (h₁.met hf) (h₁.met ht) (.two hr.1 hr.2))
      (fun _ _ _ _ hk => Safe.passes_raise hk) (fun _ _ _ _ => .pure trivial) fun e w₂ h₂ he => ?_
    refine .bind (thrownValue_safe he) fun v w₃ h₃ hv => ?_
    exact .bind (call_safe ((h₂.trans h₃).met hr).2 trivial (.one hv)) fun _ _ _ _ => .pure trivial
  | callback f => exact .bind (call_safe hj trivial .empty) fun _ _ _ _ => .pure trivial

end EcmaScript
