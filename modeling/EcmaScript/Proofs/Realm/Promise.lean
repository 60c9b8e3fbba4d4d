import EcmaScript.Proofs.Realm.Integrity

/-! The life of a promise: it is settled once, and each pair of reactions that is registered with it
becomes one job. -/
namespace EcmaScript
open Exec

namespace Event

/-- Whether an event settles a promise. -/
def settles (id : ObjectId) : Event → Bool
  | settle id' .. => id' == id
  | _ => false

/-- The pair of reactions that an event registers with a promise. -/
def registered (id : ObjectId) : Event → List (Reaction × Reaction)
  | register id' onValue onReason _ => if id' = id then [(onValue, onReason)] else []
  | _ => []

def jobsOf (id : ObjectId) (e : Event) : List Job := if e.promise? = some id then e.enqueued else []

end Event

namespace PromiseState

def isPending : PromiseState → Bool
  | .pending => true
  | _ => false

/-- What becomes of a pair of reactions: one of the two, when the promise is settled. -/
def react : PromiseState → Reaction × Reaction → List Job
  | .pending, _ => []
  | .fulfilled v, pair => [.react pair.1 v]
  | .rejected v, pair => [.react pair.2 v]

end PromiseState

namespace PromiseData
variable {p p₁ p' : PromiseData} {id : ObjectId}

def pairs (p : PromiseData) : List (Reaction × Reaction) := p.onFulfilled.zip p.onRejected

/-- Reactions wait in pairs, and for promises only that are pending. -/
structure Orderly (p : PromiseData) : Prop where
  paired : p.onFulfilled.length = p.onRejected.length
  cleared : p.state.isPending = false → p.onFulfilled = [] ∧ p.onRejected = []

namespace Orderly

theorem empty : ({} : PromiseData).Orderly := ⟨rfl, nofun⟩

theorem settled {state : PromiseState} {handled : Bool} :
    ({ state, handled } : PromiseData).Orderly := ⟨rfl, fun _ => ⟨rfl, rfl⟩⟩

theorem register (h : p.Orderly) (onValue onReason : Reaction) :
    (p.register onValue onReason).Orderly := by
  unfold PromiseData.register
  split
  · rename_i hs
    exact ⟨by simp [h.paired], fun hne => by simp [PromiseState.isPending, hs] at hne⟩
  · exact ⟨h.paired, h.cleared⟩

theorem pairs_eq_nil (h : p.Orderly) (hs : p.state.isPending = false) : p.pairs = [] := by
  simp [pairs, (h.cleared hs).1]

theorem jobs_settles (h : p.Orderly) {state : PromiseState} {reactions : List Reaction}
    {argument : Value} {untracked : Bool} (hs : p.Settles state reactions argument untracked) :
    reactions.map (Job.react · argument) = p.pairs.flatMap state.react := by
  cases hs with
  | fulfilled =>
    have hmap : p.pairs.flatMap (PromiseState.fulfilled argument).react =
        (p.pairs.map Prod.fst).map (Job.react · argument) := by
      rw [List.map_map]
      exact List.flatMap_pure_eq_map _ _
    rw [hmap, pairs, List.map_fst_zip (Nat.le_of_eq h.paired)]
  | rejected =>
    have hmap : p.pairs.flatMap (PromiseState.rejected argument).react =
        (p.pairs.map Prod.snd).map (Job.react · argument) := by
      rw [List.map_map]
      exact List.flatMap_pure_eq_map _ _
    rw [hmap, pairs, List.map_snd_zip (Nat.le_of_eq h.paired.symm)]

end Orderly

theorem Settles.isPending_eq {state : PromiseState} {reactions : List Reaction} {argument : Value}
    {untracked : Bool} (h : p.Settles state reactions argument untracked) : state.isPending = false := by
  cases h <;> rfl

theorem state_register {onValue onReason : Reaction} : (p.register onValue onReason).state = p.state := by
  unfold register
  split <;> rfl

/-- What becomes of a promise in the course of events: it is settled at most once, and each pair of
reactions, whether it waited before or was registered later, becomes one job in its turn. -/
structure Becomes (id : ObjectId) (p : PromiseData) (es : List Event) (p' : PromiseData) : Prop where
  state : p.state.isPending = false → p'.state = p.state
  settled : es.countP (·.settles id) = if p.state.isPending && !p'.state.isPending then 1 else 0
  jobs : es.flatMap (·.jobsOf id) = (p.pairs ++ es.flatMap (·.registered id)).flatMap p'.state.react

theorem Orderly.becomes (h : p.Orderly) : p.Becomes id [] p where
  state _ := rfl
  settled := by cases p.state.isPending <;> rfl
  jobs := by
    rw [List.flatMap_nil, List.flatMap_nil, List.append_nil]
    cases hp : p.state with
    | pending => simp [PromiseState.react]
    | _ => rw [h.pairs_eq_nil (by rw [hp]; rfl), List.flatMap_nil]

theorem Becomes.same {e : Event} {es : List Event} (he : e.promise? ≠ some id)
    (h : p.Becomes id es p') : p.Becomes id (e :: es) p' := by
  have hsettles : e.settles id = false := by
    cases e with
    | settle => simpa [Event.promise?, Event.settles] using he
    | _ => rfl
  have hregistered : e.registered id = [] := by
    cases e with
    | register => simpa [Event.promise?, Event.registered] using he
    | _ => rfl
  exact {
    state := h.state
    settled := by rw [List.countP_cons, h.settled, hsettles]; rfl
    jobs := by
      rw [List.flatMap_cons, List.flatMap_cons, hregistered, show e.jobsOf id = [] from if_neg he, h.jobs]
      rfl }

theorem Becomes.settle {state : PromiseState} {reactions : List Reaction} {argument : Value}
    {untracked : Bool} {es : List Event} (ho : p.Orderly) (hp : p.state = .pending)
    (hs : p.Settles state reactions argument untracked)
    (h : ({ state, handled := p.handled } : PromiseData).Becomes id es p') :
    p.Becomes id (.settle id state (reactions.map (.react · argument)) :: es) p' := by
  have hstate : p'.state = state := h.state hs.isPending_eq
  exact {
    state := fun hne => by simp [hp, PromiseState.isPending] at hne
    settled := by
      rw [List.countP_cons, h.settled, hstate, hp]
      simp [Event.settles, hs.isPending_eq, show PromiseState.pending.isPending = true from rfl]
    jobs := by
      have hjobs := h.jobs
      rw [hstate] at hjobs ⊢
      rw [List.flatMap_cons, hjobs, List.flatMap_append, List.flatMap_append, ← ho.jobs_settles hs]
      simp [Event.jobsOf, Event.promise?, Event.enqueued, Event.registered, pairs] }

theorem Orderly.jobs_register (h : p.Orderly) (onValue onReason : Reaction) {state : PromiseState}
    (hs : p.state.isPending = false → state = p.state) :
    p.due onValue onReason ++ (p.register onValue onReason).pairs.flatMap state.react =
      (p.pairs ++ [(onValue, onReason)]).flatMap state.react := by
  unfold due PromiseData.register pairs
  cases hp : p.state with
  | pending => simp [List.zip_append h.paired]
  | fulfilled v =>
    obtain ⟨hv, hr⟩ := h.cleared (by rw [hp]; rfl)
    rw [hs (by rw [hp]; rfl), hp, hv, hr]
    rfl
  | rejected v =>
    obtain ⟨hv, hr⟩ := h.cleared (by rw [hp]; rfl)
    rw [hs (by rw [hp]; rfl), hp, hv, hr]
    rfl

theorem Becomes.register {onValue onReason : Reaction} {es : List Event} (ho : p.Orderly)
    (h : (p.register onValue onReason).Becomes id es p') :
    p.Becomes id (.register id onValue onReason (p.due onValue onReason) :: es) p' := by
  obtain ⟨hstate, hsettled, hjobs⟩ := h
  rw [state_register] at hstate hsettled
  refine ⟨hstate, by simpa [Event.settles] using hsettled, ?_⟩
  have hdue := ho.jobs_register onValue onReason hstate
  simp only [List.flatMap_cons, hjobs, List.flatMap_append] at hdue ⊢
  simp only [Event.jobsOf, Event.promise?, Event.enqueued, Event.registered, ↓reduceIte]
  rw [← List.append_assoc, hdue]
  simp

end PromiseData

def State.Orderly (s : State) : Prop := ∀ id p, (s.object id).promise? = some p → p.Orderly

theorem Event.OnPromise.becomes {e : Event} {id : ObjectId} {p? p₁? : Option PromiseData}
    (h : e.OnPromise id p? p₁?) (ho : ∀ p, p? = some p → p.Orderly) :
    (∀ p₁, p₁? = some p₁ → p₁.Orderly) ∧ ∀ es p', (p₁?.getD {}).Becomes id es p' →
      (p?.getD {}).Becomes id (e :: es) p' := by
  cases h with
  | settle hp hs he =>
    refine ⟨fun _ h => Option.some.inj h ▸ .settled, fun es p' h => ?_⟩
    rw [he]
    exact .settle (ho _ rfl) hp hs h
  | register he =>
    refine ⟨fun _ h => Option.some.inj h ▸ (ho _ rfl).register _ _, fun es p' h => ?_⟩
    rw [he]
    exact .register (ho _ rfl) h
  | same he => exact ⟨ho, fun _ _ h => h.same he⟩
  | born he => exact ⟨fun _ h => Option.some.inj h ▸ .empty, fun _ _ h => h.same he⟩

theorem History.becomes {s s' : State} {es : List Event} (h : History s es s') (hs : s.Orderly) :
    s'.Orderly ∧ ∀ id, ((s.object id).promise?.getD {}).Becomes id es ((s'.object id).promise?.getD {}) := by
  induction h with
  | @nil s =>
    refine ⟨hs, fun id => ?_⟩
    cases hp : (s.object id).promise? with
    | none => exact PromiseData.Orderly.empty.becomes
    | some p => exact (hs id p hp).becomes
  | cons h _ ih =>
    have hstep := fun id => (h.promise id).becomes (hs id)
    obtain ⟨hs', hbecomes⟩ := ih fun id p hp => (hstep id).1 p hp
    exact ⟨hs', fun id => (hstep id).2 _ _ (hbecomes id)⟩

theorem History.latches {s s' : State} {es : List Event} (h : History s es s') {latch : Nat}
    (hl : s.latches[latch]? = some true) : s'.latches[latch]? = some true := by
  induction h with
  | nil => exact hl
  | cons h _ ih => exact ih (h.latches.2 _ hl)

theorem Leads.history {w : World} {s : State} (h : Leads w s) :
    ∃ es, History w.state es s ∧ ∀ e ∈ es, e.isInner = true := by
  induction h with
  | refl => exact ⟨[], .nil, by simp⟩
  | step _ _ hs ih =>
    obtain ⟨es, hes, hi⟩ := ih
    obtain ⟨e, he, hinner, -⟩ := hs.changes
    exact ⟨es ++ [e], hes.append (.single he), by simpa [or_imp, forall_and] using ⟨hi, hinner⟩⟩

namespace CapturingFunction

/-- The latch that a function which settles a promise has in common with the other of its pair. -/
def latch? : CapturingFunction → Option Nat
  | .resolvePromise _ latch => some latch
  | .rejectPromise _ latch => some latch
  | _ => none

/-- How a function settles its promise. -/
def settling : CapturingFunction → Value → Exec Unit
  | .resolvePromise promise _, v => resolve promise v
  | .rejectPromise promise _, v => reject promise v
  | _, _ => pure ()

/-- A function settles its promise only while the latch is open, and closes it before it does so. -/
structure Once (f : CapturingFunction) (latch : Nat) : Prop where
  first : ∀ m c s args, s.latches[latch]? = some false → capturingFunction f args m c s =
    (f.settling (argument args 0) >>= fun _ => pure .undefined) m c
      { s with latches := s.latches.setIfInBounds latch true }
  again : ∀ m c s args, s.latches[latch]? = some true → capturingFunction f args m c s = .value .undefined s
  turned : ∀ n c s args o s', latch < s.latches.size →
    (capturingFunction f args (machine n) c s).outcome = some (o, s') → s'.latches[latch]? = some true

theorem settling_safe {f : CapturingFunction} {n : Nat} {c : Context} {s : State} {v : Value} :
    Safe (.same (machine n)) c (.bare s) (f.settling v) Known := by
  cases f with
  | resolvePromise => exact resolve_safe World.met_bare World.met_bare
  | rejectPromise => exact reject_safe World.met_bare
  | _ => exact .pure trivial

theorem once {f : CapturingFunction} {latch : Nat} (hf : f.latch? = some latch) : f.Once latch := by
  have hfirst (m : Machine) (c : Context) (s : State) (args : Array Value)
      (hs : s.latches[latch]? = some false) : capturingFunction f args m c s =
        (f.settling (argument args 0) >>= fun _ => pure .undefined) m c
          { s with latches := s.latches.setIfInBounds latch true } := by
    cases f with
    | resolvePromise | rejectPromise =>
      cases hf
      simp [capturingFunction, settling, turnLatch, Bind.bind, Exec.bind, Step.bind, hs]
    | _ => cases hf
  have hagain (m : Machine) (c : Context) (s : State) (args : Array Value)
      (hs : s.latches[latch]? = some true) : capturingFunction f args m c s = .value .undefined s := by
    have hsame : s.latches.setIfInBounds latch true = s.latches := by
      refine Array.ext Array.size_setIfInBounds fun i _ _ => ?_
      grind
    cases f with
    | resolvePromise | rejectPromise =>
      cases hf
      simp [capturingFunction, turnLatch, Bind.bind, Exec.bind, Step.bind, Pure.pure, Exec.pure, hs, hsame]
    | _ => cases hf
  refine ⟨hfirst, hagain, fun n c s args o s' hlt ho => ?_⟩
  cases hl : s.latches[latch] with
  | true =>
    rw [hagain _ _ _ _ (Array.getElem?_eq_some_iff.mpr ⟨hlt, hl⟩)] at ho
    cases ho
    exact Array.getElem?_eq_some_iff.mpr ⟨hlt, hl⟩
  | false =>
    rw [hfirst _ _ _ _ (Array.getElem?_eq_some_iff.mpr ⟨hlt, hl⟩)] at ho
    have hleads := Leads.of_safe (.bind settling_safe fun _ _ _ _ => .pure (Q := fun _ _ => True) trivial) ho
    obtain ⟨es, hes, -⟩ := hleads.history
    exact hes.latches (by simp [World.bare, hlt])

end CapturingFunction

namespace Exec
variable {m : Machine} {c : Context} {s : State} {id : ObjectId}

/-- The two functions of a pair have one latch, which is new and open. -/
theorem newResolvers_eq : ∃ s', newResolvers id m c s =
      .value (.object ⟨s.heap.size⟩, .object ⟨s.heap.size + 1⟩) s' ∧
    s.latches[s.latches.size]? = none ∧ s'.latches = s.latches.push false ∧
    (s'.object ⟨s.heap.size⟩).kind =
      .function (.native "" (.capturing (.resolvePromise id s.latches.size))) ∧
    (s'.object ⟨s.heap.size + 1⟩).kind =
      .function (.native "" (.capturing (.rejectPromise id s.latches.size))) := by
  let s₁ : State := { s with
    latches := s.latches.push false
    heap := (s.heap.push (nativeObject s.intrinsics "" 1 (.capturing (.resolvePromise id s.latches.size)))).push
      (nativeObject s.intrinsics "" 1 (.capturing (.rejectPromise id s.latches.size))) }
  refine ⟨s₁, ?_, by simp, rfl, ?_, ?_⟩
  · simp [newResolvers, newCapturing, newNative, newLatch, intrinsics, look, allocate, Bind.bind,
      Exec.bind, Step.bind, Pure.pure, Exec.pure, s₁]
  · simp [State.object, s₁, Array.getElem_push, nativeObject]
  · simp [State.object, s₁, Array.getElem_push, nativeObject]

/-- To register reactions with a promise is one event. -/
theorem performThen_changes {p : PromiseData} {f g : Value} {capability : Option Capability}
    (hp : (s.object id).promise? = some p) : ∃ onValue onReason s',
      performThen id f g capability m c s = .value () s' ∧
      (Event.register id onValue onReason (p.due onValue onReason)).Changes s s' ∧
      onValue = ⟨capability, true, s.handler f⟩ ∧ onReason = ⟨capability, false, s.handler g⟩ := by
  have hk := Object.promise?_eq_some.mp hp
  exact ⟨_, _, _, performThen_eq hk, Act.changes_registered (w := .bare s) hk, rfl, rfl⟩

end Exec

theorem State.Laid.orderly {s : State} (h : s.Laid) : s.Orderly := fun id p hp => by
  have hk := h.kind_isBasic id
  rw [Object.promise?_eq_some.mp hp] at hk
  cases hk

theorem Realm.Reachable.orderly {r : Realm} (h : r.Reachable) : r.state.Orderly := by
  obtain ⟨globals, as, hg, hc⟩ := h
  obtain ⟨es, hes, -⟩ := (initial_sound hg).history hc
  exact (hes.becomes (initial_laid hg).orderly).1

/-- Whatever is done in a realm is a sequence of events. In their course each promise is settled at most
once and then stays as it is, it holds reactions only while it is pending, and each pair of reactions
becomes one job, in turn, of the kind that fits. To register with a promise is one such event. Of the
two functions that settle a promise the first call alone does anything: it closes the latch of both,
which is never opened again. -/
theorem promise_lifecycle {r r' : Realm} {as : List Realm.Action} (hr : r.Reachable)
    (hc : r.Course as r') :
    (∃ es, History r.state es r'.state ∧ Realm.Action.Traces as es ∧
      ∀ job, .enqueue job ∈ es → job.isReaction = false) ∧
    (∀ before s after s', History r.state before s → History s after s' → s.Orderly ∧
      (∀ id, ((s.object id).promise?.getD {}).Becomes id after ((s'.object id).promise?.getD {})) ∧
      ∀ latch : Nat, s.latches[latch]? = some true → s'.latches[latch]? = some true) ∧
    (∀ id p f g capability m c s, (s.object id).promise? = some p → ∃ onValue onReason s',
      performThen id f g capability m c s = .value () s' ∧
      (Event.register id onValue onReason (p.due onValue onReason)).Changes s s' ∧
      onValue = ⟨capability, true, s.handler f⟩ ∧ onReason = ⟨capability, false, s.handler g⟩) ∧
    (∀ id m c s, ∃ s', newResolvers id m c s =
        .value (.object ⟨s.heap.size⟩, .object ⟨s.heap.size + 1⟩) s' ∧
      s.latches[s.latches.size]? = none ∧ s'.latches = s.latches.push false ∧
      (s'.object ⟨s.heap.size⟩).kind =
        .function (.native "" (.capturing (.resolvePromise id s.latches.size))) ∧
      (s'.object ⟨s.heap.size + 1⟩).kind =
        .function (.native "" (.capturing (.rejectPromise id s.latches.size)))) ∧
    ∀ (f : CapturingFunction) latch, f.latch? = some latch → f.Once latch := by
  refine ⟨?_, fun before s after s' hbefore hafter => ?_, fun _ _ _ _ _ _ _ _ => performThen_changes,
    fun _ _ _ _ => newResolvers_eq, fun _ _ => CapturingFunction.once⟩
  · obtain ⟨es, hes, htraces⟩ := hr.sound.history hc
    exact ⟨es, hes, htraces, fun _ => htraces.enqueue⟩
  · have hs := (hbefore.becomes hr.orderly).1
    exact ⟨hs, (hafter.becomes hs).2, fun _ => hafter.latches⟩

/-- A promise with which two pairs of reactions are registered, and that a later script settles. -/
def Trial.settled : Trial Realm.plain where
  source := "let settle; const p = new Promise(f => settle = f); p.then(String); p.then(Number); p"
  sees e r := (e.value?.bind (·.object?)).any fun id =>
    ((r.state.object id).promise?.any fun p => p.state.isPending && p.pairs.length == 2) &&
    (Run.evaluate (machine 20) "settle('x')" {} r).ends fun _ r' =>
      (r'.state.object id).promise?.any (!·.state.isPending)
  ends := by decide +kernel

/-- A later script settles it: it is settled once, and its reactions become jobs in the order in which they
were registered. -/
theorem lifecycle_of_pending : ∃ (id : ObjectId) (p p' : PromiseData) (r r' : Realm)
    (as : List Realm.Action) (es : List Event),
    Run.evaluate (machine 20) Trial.settled.source {} Realm.plain = .done (.complete (.object id)) r ∧
    r.Reachable ∧ r.Course as r' ∧ History r.state es r'.state ∧
    (r.state.object id).promise? = some p ∧ p.state.isPending = true ∧ p.pairs.length = 2 ∧
    (r'.state.object id).promise? = some p' ∧ p'.state.isPending = false ∧ es.countP (·.settles id) = 1 ∧
    es.flatMap (·.jobsOf id) = (p.pairs ++ es.flatMap (·.registered id)).flatMap p'.state.react := by
  obtain ⟨e, r, _, heval, hc₁, -, hsees⟩ := Trial.settled.run
  obtain ⟨id, hid, hends⟩ := (Option.any_eq_true ..).mp hsees
  obtain rfl : e = .complete (.object id) := by
    cases e with
    | pending => cases hid
    | complete v =>
      cases v with
      | object => exact congrArg (Evaluation.complete ∘ Value.object) (Option.some.inj hid)
      | _ => cases hid
  obtain ⟨hbefore, hends⟩ := Bool.and_eq_true_iff.mp hends
  obtain ⟨_, r', hsettle, hafter⟩ := Progress.exists_of_ends hends
  obtain ⟨p, hp, hpending⟩ := (Option.any_eq_true ..).mp hbefore
  obtain ⟨p', hp', hsettled⟩ := (Option.any_eq_true ..).mp hafter
  simp only [Bool.and_eq_true, beq_iff_eq] at hpending
  simp only [Bool.not_eq_true'] at hsettled
  obtain ⟨as, hc, -⟩ := (Run.evaluate_consists (n := 20) (o := {})).course r' (congrArg Progress.realm? hsettle)
  have hr : r.Reachable := Realm.reachable_plain.course hc₁
  obtain ⟨⟨es, hes, -⟩, hbecomes, -⟩ := promise_lifecycle hr hc
  obtain ⟨-, hcount, hjobs⟩ := (hbecomes [] _ es _ .nil hes).2.1 id
  simp only [hp, hp', Option.getD_some, hpending.1, hsettled] at hcount hjobs
  exact ⟨id, p, p', r, r', as, es, heval, hr, hc, hes, hp, hpending.1, hpending.2, hp', hsettled, hcount, hjobs⟩

end EcmaScript
