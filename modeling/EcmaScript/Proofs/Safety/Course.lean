import EcmaScript.Evaluate.Machine
import EcmaScript.Function.Call
import EcmaScript.Library.Native
import EcmaScript.Proofs.Safety.Class
import EcmaScript.Proofs.Safety.Library.Array
import EcmaScript.Proofs.Safety.Library.Host
import EcmaScript.Proofs.Safety.Library.Json
import EcmaScript.Proofs.Safety.Library.Promise
import EcmaScript.Proofs.Safety.Library.Value
import EcmaScript.Proofs.Safety.Promise
import EcmaScript.Proofs.Safety.Statement

/-! Calling and constructing are safe. -/
namespace EcmaScript
open Exec

variable {P : Pairing} {c : Context} {w : World} {f : ObjectId} {closure : Closure}
  {args : Array Value}

theorem closureFrame_safe : Safe P c w (closureFrame f closure) fun _ _ => True :=
  .look_bind fun _ => .look_bind fun _ => .pure trivial

theorem bindThis_safe {strict : Bool} {this : Value} (ht : Met w this) :
    Safe P c w (bindThis strict this) Known := by
  refine .ite (fun _ => .pure ht) fun _ => .ite (fun _ => ?_) fun _ => ?_
  · refine .context_bind fun _ => .look_bind fun hw => ?_
    split
    · rename_i g hg
      have hkind : Met w (ScopeKind.global g) := hg ▸ (met_scope hw.closed _).1
      exact .pure hkind
    · exact .look_bind fun hw => .pure hw.closed.globalObject
  · exact .bind (toObject_safe ht) fun _ _ _ hid => .pure hid

theorem functionScope_safe {this : Option Value} {newTarget : Value} (hf : Met w f)
    (ht : Met w this) (hn : Met w newTarget) :
    Safe P c w (functionScope f closure this newTarget) fun id w' => w'.ownsScope id :=
  newScope_safe ⟨⟨ht, hn, hf⟩, within_nil⟩ nofun

theorem closureContext_safe {α : Type} {Q : α → World → Prop} {x : Exec α}
    (h : Safe P (closureContext closure c) w x Q) :
    Safe P c w (Exec.within (closureContext closure) x) Q := .within ⟨rfl, rfl, rfl⟩ h

theorem notAFunction_safe {α : Type} {Q : α → World → Prop} {v : Value} :
    Safe P c w (notAFunction v) Q := .look_bind fun _ => throwType_safe

theorem constructorText_safe : Safe P c w (constructorText f) fun _ _ => True :=
  .look_bind fun _ => .ite (fun _ => .pure trivial) fun _ => .look_bind fun _ => .pure trivial

variable [Serves P]

theorem runToEnd_safe {scope : ScopeId} (hs : w.ownsScope scope) (hf : Met w f)
    (ha : Met w args) : Safe P c w (runToEnd f closure scope args) Known := by
  refine .bind (.now (evaluateFunction_safe hs hf ha)) fun v w₁ _ hv => ?_
  split
  · exact .pure (hv _ rfl)
  · exact halt_safe trivial

theorem startAsync_safe {scope : ScopeId} (hs : w.ownsScope scope) (hf : Met w f)
    (ha : Met w args) : Safe P c w (startAsync f closure scope args) Known := by
  refine .bind newPromise_safe fun promise w₁ h₁ hp => .bind closureFrame_safe fun frame w₂ h₂ _ => ?_
  have h := h₁.trans h₂
  refine spawn_safe (fun _ w₃ h₃ => ?_) fun w₃ h₃ => .pure ((h₂.trans h₃).met hp.met)
  exact settleFrom_safe (h₃.met (h₂.met hp.met))
    (evaluateFunction_safe (h₃.ownsScope (h.ownsScope hs)) (h₃.met (h.met hf)) (h₃.met (h.met ha)))

theorem callClosure_safe {this : Value} (hf : Met w f) (ht : Met w this) (ha : Met w args) :
    Safe P c w (callClosure f closure this args) Known := by
  refine .ite (fun _ => .look_bind fun _ => .raise_bind trivial) fun _ => ?_
  refine .ite (fun _ => halt_bind trivial) fun _ => closureContext_safe ?_
  have hrun {w' : World} {this : Option Value} (hl : Later w w') (ht : Met w' this) :
      Safe P (closureContext closure c) w' (do
        let scope ← functionScope f closure this .undefined
        if closure.node.isAsync then startAsync f closure scope args
        else inFrame (← closureFrame f closure) (runToEnd f closure scope args)) Known := by
    refine .bind (functionScope_safe (hl.met hf) ht trivial) fun scope w₁ h₁ hs => ?_
    have h := hl.trans h₁
    refine .ite (fun _ => startAsync_safe hs (h.met hf) (h.met ha)) fun _ => ?_
    refine .bind closureFrame_safe fun frame w₂ h₂ _ => inFrame_safe fun w₃ h₃ => ?_
    have h' := h₂.trans h₃
    exact runToEnd_safe (h'.ownsScope hs) (h'.met (h.met hf)) (h'.met (h.met ha))
  refine .ite (fun _ => .pure_bind (hrun .refl trivial)) fun _ => ?_
  exact .bind (Q := Known) (.map (bindThis_safe ht) fun _ _ ht => ht) fun this w₁ h₁ ht => hrun h₁ ht

theorem callFunction_safe {f this : Value} (hf : Met w f) (ht : Met w this) (ha : Met w args) :
    Safe P c w (callFunction f this args) Known := by
  cases f with
  | object id =>
    refine .bind checkInterrupts_safe fun _ w₁ h₁ _ => .look_bind fun hw => ?_
    have hkind : Met w₁ (w₁.state.object id).kind := (met_object hw.closed id).1
    cases hk : (w₁.state.object id).kind with
    | proxy p =>
      rw [hk] at hkind
      cases p with
      | none => exact throwType_safe
      | some p =>
        exact .ite (fun _ => proxyCall_safe hkind (h₁.met ht) (h₁.met ha)) fun _ => notAFunction_safe
    | function callable =>
      rw [hk] at hkind
      refine checkCall_bind (h₁.met hf) fun hgrants => ?_
      cases callable with
      | native name native =>
        refine inFrame_safe fun w₂ h₂ => .request ?_ fun _ _ _ h => h
        have hnative : Met w₁ native := hkind
        exact ⟨h₂.grants (hgrants name native hk), h₂.met hnative,
          (h₁.trans h₂).met ht, (h₁.trans h₂).met ha⟩
      | bound target boundThis boundArgs =>
        exact call_safe hkind.1 hkind.2.1 (Met.append hkind.2.2 (h₁.met ha))
      | closure closure => exact callClosure_safe (h₁.met hf) (h₁.met ht) (h₁.met ha)
    | _ => exact notAFunction_safe
  | _ => exact notAFunction_safe

theorem runConstructor_safe {scope : ScopeId} {this : Option ObjectId} (hs : w.ownsScope scope)
    (hf : Met w f) (ht : Met w this) (ha : Met w args) :
    Safe P c w (runConstructor f closure scope this args) Known := by
  unfold runConstructor
  extract_lets finding running
  have hrunning {w' : World} (hl : Later w w') : Safe P c w' (running ⟨⟩) Known := by
    refine .bind (runToEnd_safe (hl.ownsScope hs) (hl.met hf) (hl.met ha)) fun result w₁ _ hr => ?_
    refine .ite (fun _ => .pure hr) fun _ => .ite (fun _ => .raise_bind trivial) fun _ => ?_
    refine .look_bind fun hw => ?_
    split
    · rename_i this h
      obtain ⟨a, ha, hthis⟩ := Option.bind_eq_some_iff.mp h
      have hthis' : Met w₁ a.this := (met_activation hw ha).1
      rw [hthis] at hthis'
      exact .pure hthis'
    · exact superRequired_safe
  split
  · exact .bind (addInstanceElements_safe ht) fun _ _ h₁ _ => hrunning h₁
  · exact hrunning .refl

theorem constructClosure_safe {newTarget : ObjectId} (hf : Met w f) (ha : Met w args)
    (hn : Met w newTarget) : Safe P c w (constructClosure f closure args newTarget) Known := by
  refine closureContext_safe ?_
  have hrun {w' : World} {this : Option ObjectId} (hl : Later w w') (ht : Met w' this) :
      Safe P (closureContext closure c) w' (do
        let scope ← functionScope f closure (this.map .object) (.object newTarget)
        inFrame (← closureFrame f closure) (runConstructor f closure scope this args)) Known := by
    have ht' : Met w' (this.map Value.object) := by
      cases this with
      | none => trivial
      | some id => exact ht
    refine .bind (functionScope_safe (hl.met hf) ht' (hl.met hn)) fun scope w₁ h₁ hs => ?_
    refine .bind closureFrame_safe fun frame w₂ h₂ _ => inFrame_safe fun w₃ h₃ => ?_
    have h := hl.trans (h₁.trans (h₂.trans h₃))
    exact runConstructor_safe ((h₂.trans h₃).ownsScope hs) (h.met hf)
      ((h₁.trans (h₂.trans h₃)).met ht) (h.met ha)
  refine .ite (fun _ => .pure_bind (hrun .refl trivial)) fun _ => .look_bind fun hw => ?_
  have hprototype : Met w w.state.intrinsics.objectPrototype :=
    hw.intrinsic (by simp [Intrinsics.toList])
  refine .bind (prototypeFor_safe hn hprototype) fun prototype w₁ h₁ hp => ?_
  refine .bind (Q := Known) (.map (allocate_safe ?_ trivial) fun _ _ hid => hid.met)
    fun this w₂ h₂ ht => hrun (h₁.trans h₂) ht
  exact ⟨trivial, hp, within_emptyTable, within_nil⟩

theorem constructWith_safe {f newTarget : Value} (hf : Met w f) (ha : Met w args)
    (hn : Met w newTarget) : Safe P c w (constructWith f args newTarget) Known := by
  cases f with
  | object id =>
    refine .bind checkInterrupts_safe fun _ w₁ h₁ _ => .look_bind fun _ => .ite (fun _ => ?_) fun _ => ?_
    · exact .bind constructorText_safe fun _ _ _ _ => .raise_bind trivial
    · refine .look_bind fun hw => ?_
      have hkind : Met w₁ (w₁.state.object id).kind := (met_object hw.closed id).1
      cases hk : (w₁.state.object id).kind with
      | proxy p =>
        rw [hk] at hkind
        cases p with
        | none => exact throwType_safe
        | some p => exact proxyConstruct_safe hkind (h₁.met ha) (h₁.met hn)
      | function callable =>
        rw [hk] at hkind
        refine checkCall_bind (h₁.met hf) fun _ => ?_
        cases newTarget with
        | object target =>
          cases callable with
          | native name native =>
            refine inFrame_safe fun w₂ h₂ => .request ?_ fun _ _ _ h => h
            have hnative : Met w₁ native := hkind
            exact ⟨h₂.met hnative, (h₁.trans h₂).met ha, (h₁.trans h₂).met hn⟩
          | bound inner boundThis boundArgs =>
            refine construct_safe hkind.1 (Met.append hkind.2.2 (h₁.met ha)) ?_
            split
            · exact hkind.1
            · exact h₁.met hn
          | closure closure => exact constructClosure_safe (h₁.met hf) (h₁.met ha) (h₁.met hn)
        | _ => exact halt_safe trivial
      | _ => exact .look_bind fun _ => throwType_safe
  | _ => exact .look_bind fun _ => throwType_safe

end EcmaScript

/-! Every function of the library is safe to call, as far as it may be called, and safe to construct. So
every answer to a request is safe, and so is the machine that gives the answers. -/
namespace EcmaScript
open Exec

section Library
variable {P : Pairing} [Serves P] {c : Context} {w : World} {f : Native} {args : Array Value}

theorem callNative_safe {this : Value} (hg : w.grants f this) (hf : Met w f) (ht : Met w this)
    (ha : Met w args) : Safe P c w (callNative f this args) Known := by
  unfold callNative
  cases f with
  | object f => exact objectFunction_safe ht ha
  | function f => exact functionFunction_safe ht ha
  | array f => exact arrayFunction_safe ht ha
  | iterator f => exact iteratorFunction_safe hg ht
  | string f => exact stringFunction_safe ht ha
  | number f => exact numberFunction_safe ha
  | boolean f => exact booleanFunction_safe
  | symbol f => exact symbolFunction_safe ha
  | math f => exact mathFunction_safe ha
  | json f => exact jsonFunction_safe ha
  | error f => exact errorFunction_safe ht ha
  | promise f => exact promiseFunction_safe hg ht ha
  | proxy f => exact proxyFunction_safe ha
  | reflect f => exact reflectFunction_safe ha
  | map f => exact mapFunction_safe ht ha
  | set f => exact setFunction_safe ht ha
  | weakMap f => exact weakMapFunction_safe ht ha
  | weakSet f => exact weakSetFunction_safe ht ha
  | weakRef f => exact weakRefFunction_safe
  | console f => exact consoleFunction_safe
  | timer f => exact timerFunction_safe ha
  | capturing f => exact capturingFunction_safe hg hf ha

theorem constructNative_safe {newTarget : ObjectId} (ha : Met w args) (hn : Met w newTarget) :
    Safe P c w (constructNative f args newTarget) Known := by
  have hsome : Met w (some newTarget) := hn
  unfold constructNative
  split
  · exact constructObject_safe ha hsome
  · exact functionFromText_safe ha
  · refine .look_bind fun hw => ?_
    exact .bind (prototypeFor_safe hn (hw.intrinsic (by simp [Intrinsics.toList])))
      fun _ _ h hp => constructArray_safe hp (h.met ha)
  · exact constructString_safe ha hn
  · exact constructNumber_safe ha hn
  · exact constructBoolean_safe hn
  · exact throwType_safe
  · exact constructError_safe ha hn
  · exact constructPromise_safe ha hn
  · exact .bind (newProxy_safe ha) fun _ _ _ hid => .pure hid.met
  · exact constructCollection_safe ha hn
  · exact constructCollection_safe ha hn
  · exact constructCollection_safe ha hn
  · exact constructCollection_safe ha hn
  · exact constructWeakRef_safe ha hn
  · exact .pure trivial

end Library

theorem answer_safe {P : Pairing} [Serves P] {c : Context} {w : World} {r : Request}
    (h : r.Allowed w) : Safe P c w (answer r) r.Yields := by
  cases r with
  | halt k => exact .raise h
  | call f this args => exact callFunction_safe h.1 h.2.1 h.2.2
  | construct f args newTarget => exact constructWith_safe h.1 h.2.1 h.2.2
  | native f this args => exact callNative_safe h.1 h.2.1 h.2.2.1 h.2.2.2
  | nativeConstruct f args newTarget => exact constructNative_safe h.2.1 h.2.2
  | expression scope e => exact evaluateExpression_safe
  | chain scope e => exact evaluateChain_safe
  | statement scope st labels => exact evaluateStatement_safe
  | bind scope pattern value mode => exact bindPattern_safe h
  | classDefinition scope node name => exact defineClass_safe
  | instanceOf value target => exact instanceOf_safe h.1 h.2
  | abandon source => exact closeSource_safe h
  | proxyGetOwn p key => exact proxyGetOwn_safe h
  | proxyDefine p key d => exact proxyDefine_safe h.1 h.2
  | proxyHas p key => exact proxyHas_safe h
  | proxyGet p key receiver => exact proxyGet_safe h.1 h.2
  | proxySet p key value receiver => exact proxySet_safe h.1 h.2.1 h.2.2
  | proxyDelete p key => exact proxyDelete_safe h
  | proxyOwnKeys p => exact (proxyOwnKeys_safe h).mono fun _ _ _ _ => trivial
  | proxyGetPrototype p => exact proxyGetPrototype_safe h
  | proxySetPrototype p prototype => exact proxySetPrototype_safe h.1 h.2
  | proxyIsExtensible p => exact proxyIsExtensible_safe h
  | proxyPreventExtensions p => exact proxyPreventExtensions_safe h

def Pairing.same (m : Machine) : Pairing := ⟨m, m, fun _ _ _ => False⟩

/-- By induction on how deep requests may nest. -/
instance machine_serves (fuel : Nat) : Serves (.same (machine fuel)) := by
  induction fuel with
  | zero =>
    exact {
      real := ⟨0, rfl⟩
      fuel := rfl
      answers := fun _ _ _ _ _ _ => .exhausted
      abandons := fun _ _ _ _ _ _ => .exhausted
      stack := fun _ h => h
      taken := fun h _ _ => h }
  | succ fuel ih =>
    exact {
      real := ⟨fuel + 1, rfl⟩
      fuel := rfl
      answers := fun r c w h hc hw => answer_safe (P := .same (machine fuel)) h hc hw
      abandons := fun source c w h hc hw =>
        (answer_safe (P := .same (machine fuel)) (r := .abandon source) h hc hw)
      stack := fun _ h => h
      taken := fun h _ _ => h }

end EcmaScript

/-! The states that a safe computation goes through. -/
namespace EcmaScript

/-- What a computation comes to, and in which state; there is no outcome when it has to wait. -/
def Step.outcome {α : Type} : Step α → Option (Option (Except Abrupt α) × State)
  | .value a s => some (some (.ok a), s)
  | .abrupt e s => some (some (.error e), s)
  | .waiting _ s _ => some (none, s)
  | .parked _ _ _ _ s next => (next s).outcome
  | .exhausted => none

/-- Two worlds in which the same is expected of those who change them. -/
structure World.Like (w w' : World) : Prop where
  tracked : w.tracked = w'.tracked
  dry : w.dry = w'.dry
  since : w.since = w'.since

/-- A sequence of changes leads from a world to a state; who hides what on the way is left open. -/
inductive Leads (w : World) : State → Prop where
  | refl : Leads w w.state
  | step {w' : World} {s : State} (h : Leads w w'.state) (hl : w'.Like w) (hs : Act w' s) : Leads w s

namespace World.Like
variable {w w₁ w₂ : World}

theorem trans (h : w.Like w₁) (h' : w₁.Like w₂) : w.Like w₂ :=
  ⟨h.tracked.trans h'.tracked, h.dry.trans h'.dry, h.since.trans h'.since⟩

end World.Like

theorem Grows.like {w w' : World} (h : Grows w w') : w'.Like w := ⟨h.tracked, h.dry, h.since⟩

namespace Leads
variable {w w₁ : World} {s : State}

theorem trans {s' : State} (h : Leads w s) (hs : w₁.state = s) (hl : w₁.Like w)
    (h' : Leads w₁ s') : Leads w s' := by
  subst hs
  induction h' with
  | refl => exact h
  | step _ hl' hs ih => exact ih.step (hl'.trans hl) hs

theorem size_le (h : Leads w s) : w.state.heap.size ≤ s.heap.size := by
  induction h with
  | refl => exact Nat.le_refl _
  | step _ _ hs ih => exact Nat.le_trans ih hs.size_le

theorem keeps {I : State → Prop} (h : Leads w s) (hw : I w.state)
    (hI : ∀ w' s, w'.Like w → w.state.heap.size ≤ w'.state.heap.size → Act w' s → I w'.state → I s) :
    I s := by
  induction h with
  | refl => exact hw
  | step h hl hs ih => exact hI _ _ hl h.size_le hs ih

theorem name_eq {id : ObjectId} (h : Leads w s) (hid : id.index < w.state.heap.size) :
    (s.object id).kind.name = (w.state.object id).kind.name :=
  h.keeps (I := fun s => (s.object id).kind.name = (w.state.object id).kind.name) rfl
    fun _ _ _ hle hs heq => (hs.keeps id (Nat.lt_of_lt_of_le hid hle)).name_eq.trans heq

theorem isProxy_eq {id : ObjectId} (h : Leads w s) (hid : id.index < w.state.heap.size) :
    (s.object id).isProxy = (w.state.object id).isProxy :=
  Object.isProxy_eq (h.name_eq hid)

theorem of_acts (h : Acts w w₁) : Leads w w₁.state := by
  induction h with
  | refl => exact .refl
  | step h hs ih => exact ih.step h.grows.like hs
  | hide _ _ _ ih => exact ih
  | reveal _ _ ih => exact ih

theorem of_runs {E : Endings} {O : Held → Prop} {α : Type} {Q : α → World → Prop} {x x' : Step α}
    {r : Option (Except Abrupt α)} (h : Runs E O Q w x' x) (hx : x.outcome = some (r, s)) :
    Leads w s := by
  induction h with
  | value h | abrupt h | ended h =>
    cases hx
    exact of_acts h
  | waiting h =>
    cases hx
    exact of_acts h
  | @parked w w₁ w₂ T _ _ _ _ _ _ _ h _ hc _ _ _ ih =>
    have hhanding : (w₁.handing T).Like w := ⟨h.grows.tracked, h.grows.dry, h.grows.since⟩
    have hfirst : Leads w w₂.state := (of_acts h).trans (by rfl) hhanding (of_acts hc)
    have hlike : (w₁.resumed T w₂).Like w := (World.resumed_grows hc).like.trans h.grows.like
    exact hfirst.trans (by rfl) hlike (ih hx)
  | exhausted => cases hx

end Leads

/-- A world in which nothing is expected of anybody. The moment that is looked back to is the
present. -/
def World.bare (s : State) : World where
  tracked := False
  dry := none
  hidden _ := False
  own _ := False
  filling _ := True
  quiet := False
  since := s.heap.size
  state := s

theorem World.met_bare {s : State} {α : Type} [Mentions α] {a : α} : Met (World.bare s) a :=
  Mentions.all fun _ h => h.elim

theorem World.bare_inv {s : State} : (World.bare s).Inv where
  closed := World.met_bare
  hidden _ h := h.elim
  own _ h := h
  since := Nat.le_refl _
  dry _ h := by cases h
  quiet h := h.elim
  numbered h := h.elim
  acyclic h := h.elim
  mapped h := h.elim
  waking h := h.elim
  named h := h.elim
  binds h := h.elim

theorem Runs.quiet_resumed {w w₁ w₂ : World} {T : Held → Prop} (h : Acts w w₁)
    (hc : Acts (w₁.handing T) w₂) : (w₁.resumed T w₂).quiet = w.quiet :=
  hc.quiet_eq.trans h.quiet_eq

/-- In a world in which nothing is expected of anybody, whatever a safe computation comes to is known:
computations that wait may go on in any later state. -/
theorem Runs.reaches {E : Endings} {O : Held → Prop} {α : Type} {Q : α → World → Prop} {w : World}
    {x x' : Step α} {r : Except Abrupt α} {s' : State} (h : Runs E O Q w x' x) (hx : x.Comes r s')
    (hw : w.Inv) (ht : ¬ w.tracked) (hd : w.dry = none) (hq : ¬ w.quiet) :
    ∃ w', w'.state = s' ∧ w.state.Before s' ∧ ∀ a, r = .ok a → Q a w' := by
  induction h with
  | @value w w' a h _ ha =>
    obtain ⟨rfl, rfl⟩ := Step.comes_value.mp hx
    exact ⟨w', rfl, h.grows.toBefore, fun _ he => Except.ok.inj he ▸ ha⟩
  | @abrupt w w' e h | @ended w w' x k h =>
    obtain ⟨rfl, rfl⟩ := Step.comes_abrupt.mp hx
    exact ⟨w', rfl, h.grows.toBefore, nofun⟩
  | @waiting w w₁ slot resume' resume h _ _ _ ih =>
    obtain _ | _ | @⟨_, _, s₁, _, _, o, _, hbefore, hr⟩ := hx
    have ht₁ : ¬ w₁.tracked := h.grows.tracked ▸ ht
    have hmet {α : Type} [Mentions α] {a : α} : Met { w₁ with state := s₁ } a :=
      Mentions.all fun _ h => absurd h ht₁
    have hw₁ := h.inv hw
    have hnone : w₁.dry = none := h.grows.dry.trans hd
    have hresumes : Resumes w₁ { w₁ with state := s₁ } := {
      later := ⟨{
        toBefore := hbefore
        tracked := rfl
        dry := rfl
        filling := rfl
        hidden := fun _ => .inl
        since := rfl
        supers := fun h => absurd h ht₁
        natives := fun h => absurd h ht₁ }, rfl⟩
      inv := {
        closed := hmet
        hidden := fun held hh => by
          cases held with
          | object id => exact Nat.lt_of_lt_of_le (hw₁.hidden _ hh) hbefore.objects
          | task id => exact Nat.le_trans (hw₁.hidden _ hh) hbefore.tasks
        own := hw₁.own
        since := Nat.le_trans hw₁.since hbefore.objects
        dry := fun d hd => by
          rw [show ({ w₁ with state := s₁ } : World).dry = none from hnone] at hd
          cases hd
        quiet := fun h' => absurd (h.quiet_eq ▸ h') hq
        numbered := fun h => absurd h ht₁
        acyclic := fun h => absurd h ht₁
        mapped := fun h => absurd h ht₁
        waking := fun h => absurd h ht₁
        named := fun h => absurd h ht₁
        binds := fun h => absurd h ht₁ } }
    obtain ⟨w', rfl, hbefore', hQ⟩ :=
      ih o _ hresumes hmet hr hresumes.inv ht₁ hnone (h.quiet_eq ▸ hq)
    exact ⟨w', rfl, (h.grows.toBefore.trans hbefore).trans hbefore', hQ⟩
  | @parked w w₁ w₂ T id slot frame task' task next' next h hT hc _ _ _ ih =>
    obtain _ | _ | _ | hn := hx
    have hg := h.grows.trans (World.resumed_grows hc)
    obtain ⟨w', rfl, hbefore, hQ⟩ := ih hn (World.resumed_inv (h.inv hw) hT hc) (hg.tracked ▸ ht)
      (hg.dry.trans hd) (Runs.quiet_resumed h hc ▸ hq)
    exact ⟨w', rfl, hg.toBefore.trans hbefore, hQ⟩
  | exhausted => cases hx

theorem Exec.Comes.reaches {fuel : Nat} {c : Context} {s s' : State} {α : Type} {x : Exec α}
    {Q : α → World → Prop} {r : Except Abrupt α} (h : x.Comes (machine fuel) c s r s')
    (hx : Safe (.same (machine fuel)) c (.bare s) x Q) :
    ∃ w', w'.state = s' ∧ s.Before s' ∧ ∀ a, r = .ok a → Q a w' :=
  (hx (fun _ hd => nomatch hd) World.bare_inv).reaches h World.bare_inv id rfl id

theorem Exec.Comes.before {fuel : Nat} {c : Context} {s s' : State} {α : Type} {x : Exec α}
    {Q : α → World → Prop} {r : Except Abrupt α} (h : x.Comes (machine fuel) c s r s')
    (hx : Safe (.same (machine fuel)) c (.bare s) x Q) : s.Before s' := by
  obtain ⟨w', -, hbefore, -⟩ := h.reaches hx
  exact hbefore

/-- Whatever a safe computation comes to, in any state and under any rules, is reached by allowed
changes. -/
theorem Leads.of_safe {fuel : Nat} {c : Context} {s s' : State} {α : Type} {x : Exec α}
    {Q : α → World → Prop} {r : Option (Except Abrupt α)}
    (hx : Safe (.same (machine fuel)) c (.bare s) x Q)
    (h : (x (machine fuel) c s).outcome = some (r, s')) : Leads (.bare s) s' :=
  of_runs (hx (fun _ hd => by cases hd) World.bare_inv) h

end EcmaScript
