import EcmaScript.Proofs.Invariant

/-! What happens to promises, to jobs and to what waits, one event after the other. -/
namespace EcmaScript

/-- A change that later work depends on. -/
inductive Event where
  /-- A promise is settled, and its reactions become jobs. -/
  | settle (id : ObjectId) (state : PromiseState) (jobs : List Job)
  /-- A pair of reactions is registered with a promise. If that is settled, one becomes a job. -/
  | register (id : ObjectId) (onValue onReason : Reaction) (jobs : List Job)
  /-- A job that is no reaction is added. -/
  | enqueue (job : Job)
  | take (job : Job)
  /-- The rejections that nothing handles are shown. -/
  | report (shown : List ObjectId)
  /-- A slot is filled, and the task that waits for it can go on. -/
  | fill (slot : Nat) (waiter : Option Nat)
  /-- A task that can go on is taken. -/
  | wake (task : Nat)
  /-- A dry run is over: only the first jobs and the first rejections are kept. -/
  | discard (jobs rejections : Nat)
  | other

/-- What an object knows as a promise. -/
def Object.promise? (o : Object) : Option PromiseData :=
  match o.kind with
  | .promise p => some p
  | _ => none

/-- The promises among those rejected that nothing handles, in order. -/
def State.unhandled (s : State) : List ObjectId :=
  s.rejections.toList.filter fun id =>
    match (s.object id).promise? with
    | some { state := .rejected _, handled := false, .. } => true
    | _ => false

/-- Whether something handles the rejection of a promise. -/
def State.handles (s : State) (id : ObjectId) : Bool :=
  match (s.object id).promise? with
  | some p => p.handled
  | none => false

namespace Event

/-- The promise that an event is about. -/
def promise? : Event → Option ObjectId
  | settle id .. => some id
  | register id .. => some id
  | _ => none

/-- The slot that an event is about. -/
def slot? : Event → Option Nat
  | fill slot _ => some slot
  | _ => none

/-- The jobs that are kept. -/
def kept (jobs : List Job) : Event → List Job
  | discard n _ => jobs.take n
  | _ => jobs

def enqueued : Event → List Job
  | settle _ _ jobs => jobs
  | register _ _ _ jobs => jobs
  | enqueue job => [job]
  | _ => []

def taken : Event → List Job
  | take job => [job]
  | _ => []

def awakened : Event → List Nat
  | fill _ waiter => waiter.toList
  | _ => []

def woken : Event → List Nat
  | wake task => [task]
  | _ => []

/-- The rejections that are kept after an event. -/
def rejections (s : State) : Event → List ObjectId
  | settle id (.rejected _) _ =>
    if s.handles id then s.rejections.toList else s.rejections.toList ++ [id]
  | report _ => []
  | discard _ n => s.rejections.toList.take n
  | _ => s.rejections.toList

/-- Events that running code can cause. Work is taken and rejections are shown by the realm, and a
reaction becomes a job with its promise only. -/
def isInner : Event → Bool
  | take _ | report _ | wake _ | discard .. => false
  | enqueue job => !job.isReaction
  | _ => true

/-- Whether an event is the end of a dry run. -/
def isDiscard : Event → Bool
  | discard .. => true
  | _ => false

/-- What an event makes of a promise. -/
inductive OnPromise (e : Event) (id : ObjectId) : Option PromiseData → Option PromiseData → Prop where
  | settle {p : PromiseData} {state : PromiseState} {reactions : List Reaction} {argument : Value}
    {untracked : Bool} (hp : p.state = .pending) (h : p.Settles state reactions argument untracked)
    (he : e = .settle id state (reactions.map (.react · argument))) :
    OnPromise e id (some p) (some { state, handled := p.handled })
  | register {p : PromiseData} {onValue onReason : Reaction}
    (he : e = .register id onValue onReason (p.due onValue onReason)) :
    OnPromise e id (some p) (some (p.register onValue onReason))
  | same {p : Option PromiseData} (he : e.promise? ≠ some id) : OnPromise e id p p
  | born (he : e.promise? ≠ some id) : OnPromise e id none (some {})

/-- What an event makes of a slot. -/
inductive OnSlot (e : Event) (slot : Nat) : Option AwaitSlot → Option AwaitSlot → Prop where
  | fill {waiter : Option Nat} {outcome : Outcome} (he : e = .fill slot waiter) :
    OnSlot e slot (some ⟨none, waiter⟩) (some ⟨some outcome, none⟩)
  | same {a : Option AwaitSlot} (he : e.slot? ≠ some slot) : OnSlot e slot a a
  | born (he : e.slot? ≠ some slot) : OnSlot e slot none (some {})
  | wait {task : Nat} (he : e.slot? ≠ some slot) : OnSlot e slot (some {}) (some ⟨none, some task⟩)

/-- An event leads from one state to another. -/
structure Changes (e : Event) (s s' : State) : Prop where
  promise : ∀ id, e.OnPromise id (s.object id).promise? (s'.object id).promise?
  slot : ∀ slot : Nat, e.OnSlot slot s.awaits[slot]? s'.awaits[slot]?
  jobs : e.kept s.jobs.toList ++ e.enqueued = e.taken ++ s'.jobs.toList
  ready : s.ready.toList ++ e.awakened = e.woken ++ s'.ready.toList
  rejections : s'.rejections.toList = e.rejections s
  shown : ∀ ids, e = .report ids → ids = s.unhandled
  latches : Latches.Turn s.latches s'.latches

end Event

theorem Latches.Turn.refl {latches : Array Bool} : Latches.Turn latches latches :=
  ⟨Nat.le_refl _, fun _ h => h⟩

/-- Nothing has happened to the promises that there were, and no others but new ones have come
up. -/
def State.SamePromises (s s' : State) : Prop :=
  ∀ id, (s'.object id).promise? = (s.object id).promise? ∨
    (s.object id).promise? = none ∧ (s'.object id).promise? = some {}

/-- What keeps promises, jobs, rejections and what waits. -/
theorem Event.changes_other {s s' : State} (hp : s.SamePromises s')
    (hslots : ∀ slot : Nat, Event.other.OnSlot slot s.awaits[slot]? s'.awaits[slot]?)
    (hjobs : s'.jobs = s.jobs) (hready : s'.ready = s.ready) (hrejections : s'.rejections = s.rejections)
    (hlatches : Latches.Turn s.latches s'.latches) : Event.other.Changes s s' where
  promise id := by
    rcases hp id with h | ⟨h, h'⟩
    · rw [h]
      exact .same nofun
    · rw [h, h']
      exact .born nofun
  slot := hslots
  jobs := by simp [kept, enqueued, taken, hjobs]
  ready := by simp [awakened, woken, hready]
  rejections := by simp [rejections, hrejections]
  shown := nofun
  latches := hlatches

namespace State
variable {s s' : State} {id : ObjectId} {o : Object}

theorem SamePromises.of_heap (h : s'.heap = s.heap) : s.SamePromises s' :=
  fun id => .inl (by simp [object, h])

theorem SamePromises.replace (h : o.promise? = (s.object id).promise?) :
    s.SamePromises (s.replace id o) := fun other => by
  rw [object_replace]
  split
  case isTrue he =>
    obtain ⟨rfl, -⟩ := he
    exact .inl h
  case isFalse => exact .inl rfl

end State

theorem Event.changes_aside {s s' : State} (hheap : s'.heap = s.heap) (hawaits : s'.awaits = s.awaits)
    (hjobs : s'.jobs = s.jobs) (hready : s'.ready = s.ready) (hrejections : s'.rejections = s.rejections)
    (hlatches : s'.latches = s.latches) : Event.other.Changes s s' :=
  changes_other (.of_heap hheap) (fun _ => hawaits ▸ .same nofun) hjobs hready hrejections
    (hlatches ▸ .refl)

namespace Object
variable {o o' : Object}

theorem promise?_eq_some {p : PromiseData} : o.promise? = some p ↔ o.kind = .promise p := by
  unfold promise?
  split <;> simp_all

theorem promise?_of_kept (h : KindKept o.kind o'.kind) : o'.promise? = o.promise? := by
  refine Option.ext fun p => ?_
  rw [promise?_eq_some, promise?_eq_some]
  exact h.promise_iff

end Object

namespace Act
variable {w : World} {s : State}

theorem samePromises_push {o : Object} (hb : o.Begins w) :
    w.state.SamePromises { w.state with heap := w.state.heap.push o } := fun id => by
  rw [State.object_push]
  split
  case isTrue he =>
    have hnone : (w.state.object id).promise? = none := by
      rw [State.object_of_size_le (Nat.le_of_eq he.symm)]
      rfl
    rw [hnone]
    have hb := (Object.begins_iff.mp hb).2
    unfold Object.KindBegins at hb
    unfold Object.promise?
    split
    · rename_i p hk
      rw [hk] at hb
      exact .inr ⟨rfl, congrArg some hb⟩
    · exact .inl rfl
  case isFalse => exact .inl rfl

theorem changes_settled {id : ObjectId} {p : PromiseData} {state : PromiseState}
    {reactions : List Reaction} {argument : Value} {untracked : Bool}
    (hk : (w.state.object id).kind = .promise p) (hp : p.state = .pending)
    (h : p.Settles state reactions argument untracked) :
    (Event.settle id state (reactions.map (.react · argument))).Changes w.state
      (w.state.settled id state p.handled reactions argument untracked) where
  promise other := by
    rw [object_settled, State.object_replace]
    split
    case isTrue he =>
      obtain ⟨rfl, -⟩ := he
      simp only [Object.promise?, hk]
      exact .settle hp h rfl
    case isFalse hne =>
      refine .same fun he => hne ?_
      cases he
      exact ⟨rfl, State.lt_of_kind (by simp [hk])⟩
  slot _ := .same nofun
  jobs := (Queue.toList_foldl_push _ _ _).symm
  ready := List.append_nil _
  rejections := by
    have hhandles : w.state.handles id = p.handled := by simp [State.handles, Object.promise?, hk]
    cases h with
    | fulfilled => rfl
    | rejected =>
      cases hh : p.handled <;> simp [State.settled, Event.rejections, hhandles, hh]
  shown := nofun
  latches := .refl

theorem changes_registered {id : ObjectId} {p : PromiseData} {onValue onReason : Reaction}
    (hk : (w.state.object id).kind = .promise p) :
    (Event.register id onValue onReason (p.due onValue onReason)).Changes w.state
      (w.state.registered id p onValue onReason) where
  promise other := by
    rw [object_registered, State.object_replace]
    split
    case isTrue he =>
      obtain ⟨rfl, -⟩ := he
      simp only [Object.promise?, hk]
      exact .register rfl
    case isFalse hne =>
      refine .same fun he => hne ?_
      cases he
      exact ⟨rfl, State.lt_of_kind (by simp [hk])⟩
  slot _ := .same nofun
  jobs := by
    have h := Queue.toList_foldl_push (fun job => job) (p.due onValue onReason) w.state.jobs
    rw [List.map_id'] at h
    exact h.symm
  ready := List.append_nil _
  rejections := rfl
  shown := nofun
  latches := .refl

theorem changes_filled {slot : Nat} {waiter : Option Nat} {outcome : Outcome}
    (hs : w.state.awaits[slot]? = some ⟨none, waiter⟩) :
    (Event.fill slot waiter).Changes w.state (w.state.filled slot waiter outcome) where
  promise _ := .same nofun
  slot i := by
    simp only [State.filled, Array.getElem?_setIfInBounds]
    split
    · rename_i he
      subst he
      rw [if_pos (Array.getElem?_eq_some_iff.mp hs).1, hs]
      exact .fill rfl
    · exact .same fun he => ‹¬ _› (Option.some.inj he)
  jobs := List.append_nil _
  ready := by
    cases waiter with
    | none => exact List.append_nil _
    | some task => exact (Queue.toList_push _ _).symm
  rejections := rfl
  shown := nofun
  latches := .refl

theorem changes (h : Act w s) : ∃ e : Event, e.Changes w.state s ∧ e.isInner = true ∧
    ∀ slot waiter, e = .fill slot waiter → w.tracked → w.filling slot := by
  have hsame (h : Event.other.Changes w.state s) : ∃ e : Event, e.Changes w.state s ∧
      e.isInner = true ∧ ∀ slot waiter, e = .fill slot waiter → w.tracked → w.filling slot :=
    ⟨_, h, rfl, nofun⟩
  have hkept {id : ObjectId} {o : Object} (hk : Object.KindKept (w.state.object id).kind o.kind) :
      Event.other.Changes w.state (w.state.replace id o) :=
    Event.changes_other (.replace (Object.promise?_of_kept hk)) (fun _ => .same nofun) rfl rfl rfl .refl
  cases h with
  | allocate _ hb =>
    exact hsame (Event.changes_other (samePromises_push hb) (fun _ => .same nofun) rfl rfl rfl .refl)
  | object _ _ h => exact hsame (hkept h.kind_kept)
  | build _ _ _ _ h =>
    obtain ⟨stamp, h⟩ := h
    exact hsame (hkept (by rw [h]; exact .same _))
  | reparent => exact hsame (hkept (.same _))
  | settle _ _ hk hp h => exact ⟨_, changes_settled hk hp h, rfl, nofun⟩
  | register _ hk => exact ⟨_, changes_registered hk, rfl, nofun⟩
  | @enqueue job _ hn =>
    refine ⟨.enqueue job, ?_, by simp [Event.isInner, hn], nofun⟩
    exact {
      promise := fun _ => .same nofun
      slot := fun _ => .same nofun
      jobs := (Queue.toList_push _ _).symm
      ready := List.append_nil _
      rejections := rfl
      shown := nofun
      latches := .refl }
  | newSlot =>
    refine hsame (Event.changes_other (.of_heap rfl) (fun slot => ?_) rfl rfl rfl .refl)
    rw [Array.getElem?_push]
    split
    · rename_i he
      rw [Array.getElem?_eq_none (Nat.le_of_eq he.symm)]
      exact .born nofun
    · exact .same nofun
  | @wait slot task h =>
    refine hsame (Event.changes_other (.of_heap rfl) (fun i => ?_) rfl rfl rfl .refl)
    rw [State.setWaiter, Array.getElem?_modify]
    split
    · rename_i he
      rw [← he, h]
      exact .wait nofun
    · exact .same nofun
  | fill h hs => exact ⟨_, changes_filled hs, rfl, fun _ _ he => by cases he; exact h⟩
  | latches h => exact hsame (Event.changes_other (.of_heap rfl) (fun _ => .same nofun) rfl rfl rfl h)
  | _ => exact hsame (Event.changes_aside rfl rfl rfl rfl rfl rfl)

end Act

/-- A sequence of events leads from one state to another. -/
inductive History : State → List Event → State → Prop where
  | nil {s : State} : History s [] s
  | cons {s s₁ s' : State} {e : Event} {es : List Event} (h : e.Changes s s₁) (hs : History s₁ es s') :
    History s (e :: es) s'

namespace State

def Filled (s : State) (slot : Nat) : Prop := ∃ a o, s.awaits[slot]? = some a ∧ a.outcome = some o

def Waits (s : State) (task slot : Nat) : Prop :=
  s.awaits[slot]? = some ⟨none, some task⟩ ∨ s.Filled slot ∧ task ∈ s.ready.toList

end State

namespace Event.Changes
variable {e : Event} {s s' : State} {task slot : Nat}

theorem awaits_eq {a : AwaitSlot} {o : Outcome} (h : e.Changes s s') (hs : s.awaits[slot]? = some a)
    (ho : a.outcome = some o) : s'.awaits[slot]? = some a := by
  have hslot := h.slot slot
  rw [hs] at hslot
  generalize s'.awaits[slot]? = x at hslot
  cases hslot with
  | same => rfl
  | _ => cases ho

theorem filled (h : e.Changes s s') (hs : s.Filled slot) : s'.Filled slot := by
  obtain ⟨a, o, hs, ho⟩ := hs
  exact ⟨a, o, h.awaits_eq hs ho, ho⟩

theorem ready_eq (h : e.Changes s s') (hi : e.isInner = true) :
    s'.ready.toList = s.ready.toList ++ e.awakened := by
  have hready := h.ready
  have hwoken : e.woken = [] := by cases e <;> first | rfl | cases hi
  rw [hwoken] at hready
  exact hready.symm

theorem waits (h : e.Changes s s') (hi : e.isInner = true) (hw : s.Waits task slot) :
    s'.Waits task slot := by
  have hready := h.ready_eq hi
  rcases hw with hs | ⟨hs, hmem⟩
  · have hslot := h.slot slot
    rw [hs] at hslot
    generalize hx : s'.awaits[slot]? = x at hslot
    cases hslot with
    | @fill _ outcome he => exact .inr ⟨⟨_, outcome, hx, rfl⟩, by simp [hready, he, awakened]⟩
    | same => exact .inl hx
  · exact .inr ⟨h.filled hs, by simp [hready, hmem]⟩

end Event.Changes

namespace History
variable {s s₁ s' : State} {es es' : List Event} {e : Event} {task slot : Nat}

theorem single (h : e.Changes s s') : History s [e] s' := .cons h .nil

theorem append (h : History s es s₁) (h' : History s₁ es' s') : History s (es ++ es') s' := by
  induction h with
  | nil => exact h'
  | cons h _ ih => exact .cons h (ih h')

theorem filled (h : History s es s') (hs : s.Filled slot) : s'.Filled slot := by
  induction h with
  | nil => exact hs
  | cons h _ ih => exact ih (h.filled hs)

theorem waits (h : History s es s') (hi : ∀ e ∈ es, e.isInner = true) (hw : s.Waits task slot) :
    s'.Waits task slot := by
  induction h with
  | nil => exact hw
  | cons h _ ih =>
    exact ih (fun e he => hi e (List.mem_cons_of_mem _ he)) (h.waits (hi _ List.mem_cons_self) hw)

end History
end EcmaScript
