import EcmaScript.Proofs.Outcome
import EcmaScript.Proofs.Realm.Work

/-! Jobs that wake a task. The function that a waiting task has registered with a promise fills a
slot, and nothing else runs. -/
namespace EcmaScript
open Exec

def Step.IsFlat {α : Type} : Step α → Prop
  | .waiting .. | .parked .. => False
  | _ => True

theorem Step.IsFlat.handle {α β : Type} {x : Step α} {f : Except Abrupt α → State → Step β}
    (hx : x.IsFlat) (hvalue : ∀ a s, x = .value a s → (f (.ok a) s).IsFlat)
    (habrupt : ∀ e s, x = .abrupt e s → (f (.error e) s).IsFlat) : (x.handle f).IsFlat := by
  cases x with
  | value a s => exact hvalue a s rfl
  | abrupt e s => exact habrupt e s rfl
  | exhausted => trivial
  | _ => exact hx.elim

theorem Realm.follow_flat {α : Type} {x : Step α} {parked : List ParkedTask} {r : Except Abrupt α}
    {r' : Realm} (hx : x.IsFlat) (h : Realm.follow x parked = .done r r') :
    r'.tasks = parked ∧ Realm.follow x [] = .done r ⟨r'.state, []⟩ := by
  cases x with
  | value | abrupt =>
    cases h
    exact ⟨rfl, rfl⟩
  | exhausted => cases h
  | _ => exact hx.elim

/-- A computation of which no error comes that code could catch. -/
def Step.Condones {α : Type} : Step α → Prop
  | .abrupt e _ => ∃ k, e = .condition k
  | .parked _ _ _ _ _ next => ∀ s, (next s).Condones
  | _ => True

namespace Step.Condones
variable {α β : Type} {x : Step α}

theorem handle {f : Except Abrupt α → State → Step β} (hf : ∀ r s, (f r s).Condones) :
    (x.handle f).Condones := by
  induction x with
  | value | abrupt => exact hf _ _
  | parked _ _ _ _ _ _ ih => exact fun s => ih s
  | _ => trivial

theorem bind {f : α → State → Step β} (hx : x.Condones) (hf : ∀ a s, (f a s).Condones) :
    (x.bind f).Condones := by
  induction x with
  | value => exact hf _ _
  | abrupt => exact hx
  | parked _ _ _ _ _ _ ih => exact fun s => ih s (hx s)
  | _ => trivial

theorem of_follow {tasks : List ParkedTask} {e : Abrupt} {r : Realm} (h : x.Condones)
    (hx : Realm.follow x tasks = .done (.error e) r) : ∃ k, e = .condition k := by
  induction x generalizing tasks with
  | abrupt =>
    cases hx
    exact h
  | waiting =>
    cases hx
    exact ⟨_, rfl⟩
  | parked _ _ _ _ _ _ ih => exact ih _ (h _) hx
  | _ => cases hx

theorem of_comes {e : Abrupt} {s' : State} (h : x.Condones) (hflat : x.IsFlat)
    (hx : x.Comes (.error e) s') : ∃ k, e = .condition k := by
  cases x with
  | value => nomatch (Step.comes_value.mp hx).1
  | abrupt =>
    obtain ⟨he, -⟩ := Step.comes_abrupt.mp hx
    exact Except.error.inj he ▸ h
  | exhausted => cases hx
  | _ => exact hflat.elim

end Step.Condones

namespace Exec
variable {α β : Type} {n : Nat} {c : Context} {s : State}

def Flat (n : Nat) (x : Exec α) : Prop := ∀ c s, (x (machine n) c s).IsFlat

theorem bind_flat {x : Exec α} {f : α → Exec β} (hx : (x (machine n) c s).IsFlat)
    (hf : ∀ a s', x (machine n) c s = .value a s' → (f a (machine n) c s').IsFlat) :
    ((x >>= f) (machine n) c s).IsFlat := by
  show ((x (machine n) c s).bind fun a s => f a (machine n) c s).IsFlat
  rw [Step.bind_eq_handle]
  exact hx.handle hf fun _ _ _ => trivial

theorem attempt_flat {x : Exec α} {f : Except Abrupt α → Exec β} (hx : (x (machine n) c s).IsFlat)
    (hf : ∀ r, Flat n (f r)) : ((attempt x >>= f) (machine n) c s).IsFlat := by
  rw [show (attempt x >>= f) (machine n) c s =
    (x (machine n) c s).handle fun r s => f r (machine n) c s from handle_bind _]
  exact hx.handle (fun _ _ _ => hf _ _ _) fun _ _ _ => hf _ _ _

theorem Flat.bind {x : Exec α} {f : α → Exec β} (hx : Flat n x) (hf : ∀ a, Flat n (f a)) :
    Flat n (x >>= f) := fun c s => bind_flat (hx c s) fun a _ _ => hf a c _

theorem halt_flat {k : Condition} : Flat n (halt k : Exec α) := by
  refine .bind (fun c s => ?_) nofun
  cases n <;> trivial

theorem stampStack_flat {id : ObjectId} {skip : Nat} : Flat n (stampStack id skip) := by
  refine .bind (fun _ _ => trivial) fun o => ?_
  split <;> exact fun _ _ => trivial

theorem newError_flat {kind : ErrorKind} {message : String} : Flat n (newError kind message) :=
  .bind (fun _ _ => trivial) fun _ => .bind (fun _ _ => trivial) fun _ =>
    .bind stampStack_flat fun _ _ _ => trivial

theorem thrownValue_flat {e : Abrupt} : Flat n (thrownValue e) := by
  cases e with
  | failure f => exact .bind newError_flat fun _ _ _ => trivial
  | _ => exact fun _ _ => trivial

theorem onFrameExit_flat {e : Abrupt} : Flat n (onFrameExit e) := by
  cases e with
  | condition k => exact fun _ _ => trivial
  | failure f => exact .bind newError_flat fun _ _ _ => trivial
  | thrown v =>
    have hdone : Flat n (Pure.pure (Abrupt.thrown v) : Exec Abrupt) := fun _ _ => trivial
    cases v with
    | object id =>
      refine .bind (fun _ _ => trivial) fun c => .bind (fun _ _ => trivial) fun o => ?_
      split
      · split
        · exact .bind stampStack_flat fun _ => hdone
        · exact hdone
      · exact hdone
    | _ => exact hdone

theorem console_flat {level : ConsoleLevel} {message : String} : Flat n (console level message) := by
  refine .bind (fun _ _ => trivial) fun c => ?_
  split <;> exact fun _ _ => trivial

def checkDeadline : Exec Unit := do
  match (← context).deadline with
  | none => return
  | some d => if d.due ≤ (← look (·.clock)) then halt (.timeout d.millis)

theorem checkInterrupts_flat : Flat n checkInterrupts := by
  refine .bind (fun _ _ => trivial) fun _ => .bind (fun _ _ => trivial) fun interrupted => ?_
  have hdeadline : Flat n checkDeadline := by
    refine .bind (fun _ _ => trivial) fun c => ?_
    split
    · exact fun _ _ => trivial
    · refine .bind (fun _ _ => trivial) fun clock => ?_
      split
      · exact halt_flat
      · exact fun _ _ => trivial
  dsimp only
  split
  · exact .bind halt_flat fun _ => hdeadline
  · exact hdeadline

theorem gives_of_eq {m : Machine} {s' : State} {x : Exec α} {a : α} (h : x m c s = .value a s') :
    x.Gives m c s a s' := by
  rw [Gives, h]
  rfl

theorem gives_checkInterrupts {m : Machine} {s' : State} {u : Unit}
    (h : checkInterrupts.Gives m c s u s') : s' = { s with clock := s.clock + checkNanos } := by
  have hdeadline {s₁ : State} {u : Unit} (h : checkDeadline.Gives m c s₁ u s') : s' = s₁ := by
    obtain ⟨c', s₂, hc, hrest⟩ := gives_bind.mp h
    obtain ⟨rfl, rfl⟩ := gives_context.mp hc
    cases hd : c'.deadline with
    | none =>
      rw [hd] at hrest
      exact (gives_pure.mp hrest).2
    | some d =>
      rw [hd] at hrest
      rw [gives_look_bind] at hrest
      split at hrest
      · exact (gives_halt hrest).elim
      · exact (gives_pure.mp hrest).2
  obtain ⟨_, s₁, hclock, hrest⟩ := gives_bind.mp h
  rw [← gives_change.mp hclock]
  rw [gives_look_bind] at hrest
  dsimp only at hrest
  split at hrest
  · obtain ⟨_, _, hhalt, -⟩ := gives_bind.mp hrest
    exact (gives_halt hhalt).elim
  · exact hdeadline hrest

def Condoning (n : Nat) (x : Exec α) : Prop := ∀ c s, (x (machine n) c s).Condones

theorem Condoning.bind {x : Exec α} {f : α → Exec β} (hx : Condoning n x) (hf : ∀ a, Condoning n (f a)) :
    Condoning n (x >>= f) := fun c s => Step.Condones.bind (hx c s) fun a => hf a c

theorem halt_condones {k : Condition} : Condoning n (halt k : Exec α) := by
  refine .bind (fun c s => ?_) nofun
  cases n with
  | zero => trivial
  | succ n => exact ⟨k, rfl⟩

theorem checkInterrupts_condones : Condoning n checkInterrupts := by
  have hdeadline : Condoning n checkDeadline := by
    refine .bind (fun _ _ => trivial) fun c => ?_
    split
    · exact fun _ _ => trivial
    · refine .bind (fun _ _ => trivial) fun clock => ?_
      split
      · exact halt_condones
      · exact fun _ _ => trivial
  refine .bind (fun _ _ => trivial) fun _ => .bind (fun _ _ => trivial) fun interrupted => ?_
  dsimp only
  split
  · exact .bind halt_condones fun _ => hdeadline
  · exact hdeadline

theorem thrownValue_condones {e : Abrupt} : Condoning n (thrownValue e) := by
  cases e with
  | condition k => exact fun _ _ => ⟨k, rfl⟩
  | thrown v => exact fun _ _ => trivial
  | failure f =>
    refine .bind (.bind (fun _ _ => trivial) fun _ => .bind (fun _ _ => trivial) fun id => ?_)
      fun _ _ _ => trivial
    refine .bind (.bind (fun _ _ => trivial) fun o => ?_) fun _ _ _ => trivial
    split <;> exact fun _ _ => trivial

theorem inFrame_flat {frame : Frame} {x : Exec α} (hx : Flat n x) : Flat n (inFrame frame x) := by
  refine .bind (fun _ _ => trivial) fun depth => .bind (fun c s => ?_) fun _ => fun c s => ?_
  · unfold enterFrame
    split <;> trivial
  · refine attempt_flat (hx c s) fun r => ?_
    cases r with
    | ok a => exact fun _ _ => trivial
    | error e => exact .bind onFrameExit_flat fun _ _ _ => trivial

theorem checkCall_flat {f : ObjectId} {this : Value} {args : Array Value} :
    Flat n (checkCall f this args) := by
  refine .bind (fun _ _ => trivial) fun c => ?_
  split
  · exact fun _ _ => trivial
  · refine .bind (fun _ _ => trivial) fun limit => .bind (fun _ _ => trivial) fun refusal => ?_
    split
    · exact halt_flat
    · exact fun _ _ => trivial

theorem callWaker_flat {id : ObjectId} {slot : Nat} {this : Value} {args : Array Value}
    (hk : (s.object id).kind.wakes? = some slot) :
    (call (.object id) this args (machine n) c s).IsFlat := by
  cases n with
  | zero => trivial
  | succ n =>
    show (callFunction (.object id) this args (machine n) c s).IsFlat
    refine bind_flat (checkInterrupts_flat c s) fun _ s₁ hcheck => ?_
    have hobject : s₁.object id = s.object id := by
      rw [gives_checkInterrupts (gives_of_eq hcheck)]
      rfl
    refine bind_flat trivial fun o s₂ ho => ?_
    cases ho
    unfold ObjectKind.wakes? at hk
    split at hk
    · rename_i name native hkind
      simp only [hobject, hkind]
      refine Flat.bind checkCall_flat (fun _ => inFrame_flat fun c s => ?_) c s₁
      unfold Native.wakes? at hk
      split at hk
      · cases n <;> trivial
      · cases hk
    · cases hk

end Exec

/-- The slot that a job fills. -/
def Job.wakes? (s : State) : Job → Option Nat
  | .react ⟨none, _, .object id⟩ _ => (s.object id).kind.wakes?
  | _ => none

theorem Job.wakes?_of_isWaking {s : State} {job : Job} (h : job.isWaking = false) :
    job.wakes? s = none := by
  cases job with
  | react r v =>
    obtain ⟨capability, fulfilled, handler⟩ := r
    cases capability with
    | none => cases h
    | some => rfl
  | _ => rfl

theorem runReporting_flat {n : Nat} {c : Context} {s : State} {job : Job} {slot : Nat}
    (hj : job.wakes? s = some slot) : (runReporting job (machine n) c s).IsFlat := by
  refine attempt_flat ?_ fun r => ?_
  rotate_left
  · cases r with
    | ok _ => exact fun _ _ => trivial
    | error e =>
      exact .bind thrownValue_flat fun _ => .bind (fun _ _ => trivial) fun _ => console_flat
  unfold Job.wakes? at hj
  split at hj
  · refine attempt_flat (callWaker_flat hj) fun r => ?_
    cases r with
    | ok _ => exact fun _ _ => trivial
    | error e => exact .bind thrownValue_flat fun _ _ _ => trivial
  · cases hj

/-! What a job brings: the function that a waiting task has registered fills the slot with the outcome
of the job, and the task can go on. -/

/-- The slot that a job fills, and with what. -/
def Job.brings? (s : State) : Job → Option (Nat × Outcome)
  | .react ⟨none, _, .object id⟩ v =>
    match (s.object id).kind with
    | .function (.native _ (.capturing (.wake slot fulfilled))) =>
      some (slot, if fulfilled then .ok v else .error v)
    | _ => none
  | _ => none

theorem Job.wakes?_eq {s : State} {job : Job} : job.wakes? s = (job.brings? s).map (·.1) := by
  unfold wakes? brings? ObjectKind.wakes? Native.wakes?
  grind

/-- What a job brings comes to its slot where there is room for the frame of a call: then the slot holds
the outcome, and the task that waits for it can go on. -/
inductive State.Delivers (s : State) (slot : Nat) (outcome : Outcome) (s' : State) : Prop where
  | refused (hfull : s.maxDepth ≤ s.stack.length) (hawaits : s'.awaits = s.awaits)
    (hready : s'.ready = s.ready)
  | filled (hroom : s.stack.length < s.maxDepth)
    (h : ∀ task, s.awaits[slot]? = some ⟨none, some task⟩ →
      s'.awaits[slot]? = some ⟨some outcome, none⟩ ∧ s'.ready = s.ready.push task)

theorem State.Delivers.congr {s s₁ s' : State} {slot : Nat} {outcome : Outcome}
    (h : s.Delivers slot outcome s₁) (hawaits : s'.awaits = s₁.awaits) (hready : s'.ready = s₁.ready) :
    s.Delivers slot outcome s' := by
  cases h with
  | refused hfull ha hr => exact .refused hfull (hawaits.trans ha) (hready.trans hr)
  | filled hroom h => exact .filled hroom (by rwa [hawaits, hready])

namespace Exec
variable {α : Type} {n slot : Nat} {m : Machine} {c : Context} {s s' : State} {outcome : Outcome}

theorem comes_fillSlot {r : Except Abrupt Unit} {task : Nat} (h : (fillSlot slot outcome).Comes m c s r s')
    (hslot : s.awaits[slot]? = some ⟨none, some task⟩) :
    s'.awaits[slot]? = some ⟨some outcome, none⟩ ∧ s'.ready = s.ready.push task := by
  have hs' := (comes_change.mp h).2
  have hlt : slot < s.awaits.size := (Array.getElem?_eq_some_iff.mp hslot).1
  rw [hslot] at hs'
  rw [hs']
  exact ⟨by simp [hlt], rfl⟩

theorem comes_newError {kind : ErrorKind} {message : String} {r : Except Abrupt ObjectId}
    (h : (newError kind message).Comes m c s r s') : ∃ id heap, r = .ok id ∧ s' = { s with heap } := by
  have hstamp {id : ObjectId} {s₁ s₂ : State} {r : Except Abrupt Unit}
      (h : (stampStack id 0).Comes m c s₁ r s₂) : ∃ heap, r = .ok () ∧ s₂ = { s₁ with heap } := by
    rw [stampStack, object, comes_look_bind] at h
    split at h
    · obtain ⟨hr, rfl⟩ := comes_pure.mp h
      exact ⟨s₂.heap, hr, rfl⟩
    · rw [comes_look_bind] at h
      obtain ⟨hr, rfl⟩ := comes_change.mp h
      exact ⟨_, hr, rfl⟩
  rw [newError, intrinsics, comes_look_bind, comes_bind_value (show allocate _ m c s = .value _ _ from rfl)] at h
  obtain ⟨_, s₁, hstamped, h⟩ | ⟨e, hstamped, -⟩ := comes_bind.mp h
  · obtain ⟨heap, -, rfl⟩ := hstamp hstamped
    obtain ⟨hr, rfl⟩ := comes_pure.mp h
    exact ⟨_, heap, hr, rfl⟩
  · obtain ⟨_, he, -⟩ := hstamp hstamped
    cases he

/-- What is thrown as a value is no condition, and only an object is made for it. -/
theorem comes_thrownValue {e : Abrupt} {r : Except Abrupt Value} (h : (thrownValue e).Comes m c s r s') :
    (∃ k, e = .condition k ∧ r = .error e) ∨
      (∀ k, e ≠ .condition k) ∧ ∃ v heap, r = .ok v ∧ s' = { s with heap } := by
  cases e with
  | condition k => exact .inl ⟨k, rfl, (comes_raise.mp h).1⟩
  | thrown v =>
    obtain ⟨hr, rfl⟩ := comes_pure.mp h
    exact .inr ⟨nofun, v, s'.heap, hr, rfl⟩
  | failure f =>
    obtain ⟨id, s₁, herror, h⟩ | ⟨e, herror, -⟩ := comes_bind.mp h
    · obtain ⟨_, heap, -, rfl⟩ := comes_newError herror
      obtain ⟨hr, rfl⟩ := comes_pure.mp h
      exact .inr ⟨nofun, _, heap, hr, rfl⟩
    · obtain ⟨_, _, he, -⟩ := comes_newError herror
      cases he

theorem checkCall_condones {f : ObjectId} {this : Value} {args : Array Value} :
    Condoning n (checkCall f this args) := by
  refine .bind (fun _ _ => trivial) fun c => ?_
  split
  · exact fun _ _ => trivial
  · refine .bind (fun _ _ => trivial) fun limit => .bind (fun _ _ => trivial) fun refusal => ?_
    split
    · exact halt_condones
    · exact fun _ _ => trivial

theorem comes_checkCall {f : ObjectId} {this : Value} {args : Array Value} {r : Except Abrupt Unit}
    (h : (checkCall f this args).Comes (machine n) c s r s') : s' = s := by
  rw [checkCall, comes_context_bind] at h
  split at h
  · exact (comes_pure.mp h).2
  · rw [comes_bind_value (show fuel (machine n) c s = .value _ s from rfl), comes_look_bind] at h
    split at h
    · exact (comes_halt h).2
    · exact (comes_pure.mp h).2

/-- A function that cannot fail runs in a frame of its own, unless there is no room for that. -/
theorem comes_inFrame_or {x : Exec α} {frame : Frame} {r : Except Abrupt α}
    (hx : ∀ r s₁, x.Comes m c { s with stack := frame :: s.stack } r s₁ → ∃ a, r = .ok a)
    (h : (inFrame frame x).Comes m c s r s') :
    (s.maxDepth ≤ s.stack.length ∧ s' = s) ∨ s.stack.length < s.maxDepth ∧
      ∃ r₁ s₁, x.Comes m c { s with stack := frame :: s.stack } r₁ s₁ ∧ s' = s₁.leaveFrames s.stack.length := by
  rw [inFrame, comes_look_bind] at h
  by_cases hfull : s.maxDepth ≤ s.stack.length
  · have hrefuse : enterFrame frame m c s =
        .abrupt (.failure ⟨.range, "Maximum call stack size exceeded", 0, 0⟩) s := if_pos hfull
    obtain ⟨_, _, henter, -⟩ | ⟨e, henter, -⟩ := comes_bind.mp h
    · rw [Comes, hrefuse] at henter
      cases (Step.comes_abrupt.mp henter).1
    · rw [Comes, hrefuse] at henter
      exact .inl ⟨hfull, (Step.comes_abrupt.mp henter).2⟩
  · rw [comes_bind_value (show enterFrame frame m c s = .value () { s with stack := frame :: s.stack } from
      if_neg hfull)] at h
    obtain ⟨r₁, s₁, hrun, h⟩ := comes_attempt_bind.mp h
    obtain ⟨a, rfl⟩ := hx r₁ s₁ hrun
    refine .inr ⟨Nat.lt_of_not_le hfull, _, s₁, hrun, ?_⟩
    rw [comes_bind_value (show leaveFrames _ m c s₁ = .value () (s₁.leaveFrames s.stack.length) from rfl)] at h
    exact (comes_pure.mp h).2

variable {fulfilled : Bool} {id : ObjectId} {v : Value}

/-- A call of a function that fills a slot. -/
theorem comes_callWaker {name : String} {r : Except Abrupt Value}
    (hk : (s.object id).kind = .function (.native name (.capturing (.wake slot fulfilled))))
    (h : (call (.object id) .undefined #[v]).Comes (machine n) c s r s') :
    (∃ k, r = .error (.condition k)) ∨ s.Delivers slot (if fulfilled then .ok v else .error v) s' := by
  obtain ⟨n, rfl, h⟩ := comes_request.mp h
  replace h : (callFunction (.object id) .undefined #[v]).Comes (machine n) c s r s' := h
  obtain ⟨_, s₁, hcheck, h⟩ | ⟨e, hcheck, rfl⟩ := comes_bind.mp h
  rotate_left
  · obtain ⟨k, rfl⟩ := (checkInterrupts_condones c s).of_comes (checkInterrupts_flat c s) hcheck
    exact .inl ⟨k, rfl⟩
  obtain rfl := comes_checkInterrupts hcheck
  rw [object, comes_look_bind] at h
  simp only [show (State.object { s with clock := s.clock + checkNanos } id).kind = _ from hk] at h
  obtain ⟨_, s₁, hcall, h⟩ | ⟨e, hcall, rfl⟩ := comes_bind.mp h
  rotate_left
  · obtain ⟨k, rfl⟩ := (checkCall_condones c _).of_comes (checkCall_flat c _) hcall
    exact .inl ⟨k, rfl⟩
  obtain rfl := comes_checkCall hcall
  -- What runs in the frame.
  have hnative {s₁ s₂ : State} {r : Except Abrupt Value}
      (h : (request (.native (.capturing (.wake slot fulfilled)) .undefined #[v])).Comes (machine n) c s₁ r s₂) :
      r = .ok .undefined ∧ ∀ task, s₁.awaits[slot]? = some ⟨none, some task⟩ →
        s₂.awaits[slot]? = some ⟨some (if fulfilled then .ok v else .error v), none⟩ ∧
          s₂.ready = s₁.ready.push task := by
    obtain ⟨n, rfl, h⟩ := comes_request.mp h
    obtain ⟨_, s₂, hfill, h⟩ | ⟨e, hfill, -⟩ := comes_bind.mp h
    · obtain ⟨hr, rfl⟩ := comes_pure.mp h
      exact ⟨hr, fun _ => comes_fillSlot hfill⟩
    · cases (comes_change.mp hfill).1
  obtain ⟨hfull, rfl⟩ | ⟨hroom, r₁, s₁, hrun, rfl⟩ := comes_inFrame_or (fun r₁ s₁ h => ⟨_, (hnative h).1⟩) h
  · exact .inr (.refused hfull rfl rfl)
  · exact .inr (.filled hroom (hnative hrun).2)

/-- A job that comes of a waiting task fails for a condition only, which is not shown. -/
theorem comes_runReaction {fulfilled' : Bool} {name : String} {r : Except Abrupt Unit}
    (hk : (s.object id).kind = .function (.native name (.capturing (.wake slot fulfilled))))
    (h : (runReaction ⟨none, fulfilled', .object id⟩ v).Comes (machine n) c s r s') :
    (∃ k, r = .error (.condition k)) ∨
      r = .ok () ∧ s.Delivers slot (if fulfilled then .ok v else .error v) s' := by
  rw [runReaction, if_neg (by exact Bool.false_ne_true)] at h
  obtain ⟨r₁, s₁, hcall, h⟩ := comes_attempt_bind.mp h
  cases r₁ with
  | ok v =>
    obtain ⟨hr, rfl⟩ := comes_pure.mp h
    exact .inr ⟨hr, (comes_callWaker hk hcall).resolve_left nofun⟩
  | error e =>
    obtain ⟨_, s₂, hthrown, h⟩ | ⟨e', hthrown, rfl⟩ := comes_bind.mp h
    · obtain ⟨_, -, he⟩ | ⟨hother, _, heap, -, rfl⟩ := comes_thrownValue hthrown
      · cases he
      obtain ⟨hr, rfl⟩ := comes_pure.mp h
      have hdelivers := (comes_callWaker hk hcall).resolve_left fun ⟨k, he⟩ => hother k (Except.error.inj he)
      exact .inr ⟨hr, hdelivers.congr rfl rfl⟩
    · obtain ⟨k, rfl, he⟩ | ⟨-, _, _, he, -⟩ := comes_thrownValue hthrown
      · exact .inl ⟨k, by rw [Except.error.inj he]⟩
      · cases he

/-- A job that was taken fills the slot of the task that waits for what it brings. -/
theorem comes_runReporting {job : Job} (hj : job.brings? s = some (slot, outcome))
    (h : (runReporting job).Comes (machine n) c s (.ok ()) s') : s.Delivers slot outcome s' := by
  unfold Job.brings? at hj
  split at hj
  · split at hj
    · rename_i hk
      cases hj
      obtain ⟨r, s₁, hjob, h⟩ := comes_attempt_bind.mp h
      obtain ⟨k, rfl⟩ | ⟨rfl, hdelivers⟩ := comes_runReaction hk hjob
      · obtain ⟨_, _, hthrown, -⟩ := comes_bind_ok.mp h
        nomatch (comes_raise.mp hthrown).1
      · obtain ⟨-, rfl⟩ := comes_pure.mp h
        exact hdelivers
    · cases hj
  · cases hj

theorem newCapturing_eq {length : Nat} {f : CapturingFunction} : newCapturing length f m c s =
    .value (.object ⟨s.heap.size⟩)
      { s with heap := s.heap.push (nativeObject s.intrinsics "" length (.capturing f)) } := rfl

/-- To await a value is to register reactions with a promise for it. Their jobs bring the value of the
promise, or the reason of its rejection, to a slot that is new. -/
inductive Awaits (m : Machine) (c : Context) (s : State) (v : Value) (slot : Nat) (s' : State) : Prop where
  | intro {id : ObjectId} {p : PromiseData} {onValue onReason : Reaction} {s₀ s₁ : State}
    (hpromise : (promiseFor v).Gives m c s id s₀) (hslot : slot = s₀.awaits.size)
    (hempty : s'.awaits[slot]? = some {}) (hkind : (s₁.object id).kind = .promise p)
    (hregistered : s' = s₁.registered id p onValue onReason)
    (hvalue : ∀ a, (Job.react onValue a).brings? s' = some (slot, .ok a))
    (hreason : ∀ a, (Job.react onReason a).brings? s' = some (slot, .error a))

theorem gives_performThen {id : ObjectId} {f g : Value} {capability : Option Capability} {u : Unit}
    (h : (performThen id f g capability).Gives m c s u s') : ∃ p, (s.object id).kind = .promise p ∧
      s' = s.registered id p ⟨capability, true, s.handler f⟩ ⟨capability, false, s.handler g⟩ := by
  cases hk : (s.object id).kind with
  | promise p => exact ⟨p, rfl, ((gives_value (performThen_eq hk)).mp h).2⟩
  | _ => simp [performThen, Bind.bind, Exec.bind, isCallable, look, Pure.pure, Exec.pure, Step.bind, object, hk,
      throwType, fail, raise, Gives, Step.outcome] at h

/-- A function that fills a slot is left alone when it is registered, and its jobs bring what they carry. -/
theorem brings?_registered {name : String} {f id : ObjectId} {p : PromiseData} {b : Bool}
    {onValue onReason : Reaction} (hk : (s.object id).kind = .promise p)
    (hf : (s.object f).kind = .function (.native name (.capturing (.wake slot fulfilled)))) :
    (Job.react ⟨none, b, s.handler (.object f)⟩ v).brings? (s.registered id p onValue onReason) =
      some (slot, if fulfilled then .ok v else .error v) := by
  have hne : f ≠ id := by
    rintro rfl
    cases hk.symm.trans hf
  have hobject : (s.registered id p onValue onReason).object f = s.object f := by
    show ({ s with heap := s.heap.modify id.index _ } : State).object f = _
    rw [State.heap_modify]
    exact State.object_replace_ne hne
  have hhandler : s.handler (.object f) = .object f := if_pos (by simp [State.callableValue, State.isCallable, hf])
  rw [hhandler, Job.brings?, hobject, hf]

theorem object_pushed {o o' : Object} :
    ({ s with heap := (s.heap.push o).push o' } : State).object ⟨s.heap.size⟩ = o ∧
    ({ s with heap := (s.heap.push o).push o' } : State).object ⟨(s.heap.push o).size⟩ = o' := by
  let s₁ : State := { s with heap := s.heap.push o }
  have hfirst : (⟨s.heap.size⟩ : ObjectId).index ≠ s₁.heap.size := by simp [s₁]
  exact ⟨((State.object_push (s := s₁)).trans (if_neg hfirst)).trans (State.object_push.trans (if_pos rfl)),
    (State.object_push (s := s₁)).trans (if_pos rfl)⟩

theorem gives_slotFor (h : (slotFor v).Gives m c s slot s') : Awaits m c s v slot s' := by
  have hrest (h : (do
      let id ← promiseFor v
      let slot ← update fun s => (s.awaits.size, { s with awaits := s.awaits.push {} })
      let onFulfilled ← newCapturing 1 (.wake slot true)
      let onRejected ← newCapturing 1 (.wake slot false)
      performThen id onFulfilled onRejected none
      return slot : Exec Nat).Gives m c s slot s') : Awaits m c s v slot s' := by
    obtain ⟨id, s₀, hpromise, h⟩ := gives_bind.mp h
    obtain ⟨_, _, hslot, h⟩ := gives_bind.mp h
    obtain ⟨rfl, rfl⟩ := gives_update.mp hslot
    dsimp only at h
    rw [gives_bind_value newCapturing_eq, gives_bind_value newCapturing_eq] at h
    obtain ⟨_, s₂, hthen, h⟩ := gives_bind.mp h
    obtain ⟨rfl, rfl⟩ := gives_pure.mp h
    obtain ⟨p, hkind, rfl⟩ := gives_performThen hthen
    exact .intro hpromise rfl Array.getElem?_push_size hkind rfl
      (fun a => brings?_registered hkind (congrArg Object.kind object_pushed.1))
      fun a => brings?_registered hkind (congrArg Object.kind object_pushed.2)
  rw [slotFor, gives_context_bind] at h
  split at h
  · obtain ⟨_, _, hrefuse, -⟩ := gives_bind.mp h
    exact (gives_halt hrefuse).elim
  · exact hrest h

end Exec

section Safety
variable {P : Pairing} [Serves P] {c : Context} {w : World}

theorem checkCall_safe {f : ObjectId} {this : Value} {args : Array Value} :
    Safe P c w (checkCall f this args) Known := by
  refine .context_bind fun _ => ?_
  split
  · exact .pure trivial
  · refine .bind (Q := Known) (.fuel trivial) fun limit _ _ _ => .look_bind fun _ => ?_
    split
    · exact halt_safe trivial
    · exact .pure trivial

theorem callWaker_safe {n : Nat} {id : ObjectId} {slot : Nat} {this : Value} {args : Array Value}
    (hopen : w.isOpen) (hslot : w.filling slot) (hk : (w.state.object id).kind.wakes? = some slot)
    (hthis : Met w this) (ha : Met w args) :
    Safe (.same (machine n)) c w (call (.object id) this args) Known := by
  cases n with
  | zero => exact fun _ _ => .exhausted
  | succ n =>
    have hcall : Safe (.same (machine n)) c w (callFunction (.object id) this args) Known := by
      refine .bind checkInterrupts_safe fun _ w₁ h₁ _ => .look_bind fun hw => ?_
      have hk₁ := h₁.wakes id slot hk
      have hkind : Met w₁ (w₁.state.object id).kind := (met_object hw.closed id).1
      unfold ObjectKind.wakes? at hk₁
      split at hk₁
      · rename_i name native hnative
        rw [hnative] at hkind
        simp only [hnative]
        refine .bind checkCall_safe fun _ w₂ h₂ _ => inFrame_safe fun w₃ h₃ => ?_
        have h := h₁.trans (h₂.trans h₃)
        refine .request ⟨⟨fun d hd => ?_, fun _ slot' hs => ?_⟩, ?_, h.met hthis, h.met ha⟩
          fun _ _ _ h => h
        · rw [show w₃.dry = none from h.dry.trans hopen] at hd
          cases hd
        · rw [hk₁] at hs
          cases hs
          rw [h.filling]
          exact hslot
        · have hnative : Met w₁ native := hkind
          exact (h₂.trans h₃).met hnative
      · cases hk₁
    exact fun hc hw => hcall hc hw

theorem runReporting_safe {m : Machine} [Serves (.same m)] {job : Job}
    (h : Safe (.same m) c w (runJob job) Known) : Safe (.same m) c w (runReporting job) Known := by
  refine .attempt h (fun _ _ _ _ hk => hk.2.elim) (fun _ _ _ _ => .pure trivial) fun e w₁ _ he => ?_
  exact .bind (thrownValue_safe he) fun _ _ _ _ => .look_bind fun _ => console_safe

theorem runWaking_safe {n : Nat} {job : Job} {slot : Nat} (hopen : w.isOpen) (hslot : w.filling slot)
    (hj : job.wakes? w.state = some slot) (hv : Met w job) :
    Safe (.same (machine n)) c w (runJob job) Known := by
  unfold Job.wakes? at hj
  split at hj
  · rename_i fulfilled id v
    have hv : Met w v := hv.2
    have hnone : Met w (none : Option Capability) := trivial
    have hthis : Met w Value.undefined := trivial
    have hcall : Safe (.same (machine n)) c w (call (.object id) .undefined #[v]) Known :=
      callWaker_safe hopen hslot hj hthis (.one hv)
    exact runReaction_safe (r := ⟨none, fulfilled, .object id⟩) hnone hv fun _ => hcall
  · cases hj

end Safety

theorem World.Tends.empty {w : World} {O : Nat → Held → Prop} : w.Tends O [] :=
  ⟨by simp, by simp, by simp, by simp⟩

/-- What is left by work that comes of a waiting task: at most its slot has been filled. -/
structure Woke (w : World) (parked : List ParkedTask) (slot : Nat) (w' : World) (r' : Realm) : Prop
    extends Works w parked w' parked where
  realm : r' = ⟨w'.state, parked⟩
  history : ∃ es, History w.state es w'.state ∧
    ∀ e ∈ es, e.isOrdinary = true ∨ ∃ waiter, e = .fill slot waiter

theorem Woke.trans {w w₁ w' : World} {parked : List ParkedTask} {slot : Nat} {r₁ r' : Realm}
    (h : Woke w parked slot w₁ r₁) (h' : Woke w₁ parked slot w' r') : Woke w parked slot w' r' := by
  obtain ⟨es, hes, ho⟩ := h.history
  obtain ⟨es', hes', ho'⟩ := h'.history
  exact { h.toWorks.trans h'.toWorks with
    realm := h'.realm
    history := ⟨es ++ es', hes.append hes', List.forall_mem_append.mpr ⟨ho, ho'⟩⟩ }

def Progress.Wakes {α : Type} (w : World) (parked : List ParkedTask) (slot : Nat) : Progress α → Prop
  | .done _ r' => ∃ w', Woke w parked slot w' r'
  | .stopped e r' => ∃ w', Woke w parked slot w' r' ∧ Met w' e
  | .exhausted => True

namespace Run
variable {α β : Type} {w : World} {parked : List ParkedTask} {n slot : Nat} {c : Context}

def Waking (slot : Nat) (x : Run α) (w : World) (parked : List ParkedTask) : Prop :=
  (x ⟨w.state, parked⟩).Wakes w parked slot

theorem Waking.bind {x : Run α} {f : α → Run β} (hx : x.Waking slot w parked)
    (hf : ∀ a w' r', Woke w parked slot w' r' → (f a).Waking slot w' parked) :
    (x >>= f).Waking slot w parked := by
  show (Run.bind x f ⟨w.state, parked⟩).Wakes w parked slot
  unfold Waking at hx
  unfold Run.bind
  cases hx' : x ⟨w.state, parked⟩ with
  | done a r₁ =>
    rw [hx'] at hx
    obtain ⟨w₁, hwoke⟩ := hx
    have hrest := hf a w₁ r₁ hwoke
    unfold Waking at hrest
    rw [hwoke.realm]
    dsimp only
    generalize f a ⟨w₁.state, parked⟩ = p at hrest
    cases p with
    | done b r₂ => exact hrest.imp fun _ h => hwoke.trans h
    | stopped e r₂ => exact hrest.imp fun _ h => ⟨hwoke.trans h.1, h.2⟩
    | exhausted => trivial
  | stopped e r₁ =>
    rw [hx'] at hx
    exact hx
  | exhausted => trivial

theorem Waking.execute {x : Exec α} {Q : α → World → Prop} (hw : w.Rests)
    (ht : ∃ O, w.Tends O parked) (hflat : (x (machine n) c w.state).IsFlat)
    (hsafe : Safe (.same (machine n)) c { w with filling := fun slot' => slot' = slot } x Q) :
    (execute (machine n) c x).Waking slot w parked := by
  -- The world in which the slot may be filled.
  let w₁ : World := { w with filling := fun slot' => slot' = slot }
  have hinv : w₁.Inv := { hw.inv with }
  have hruns := hsafe (fun d hd => by rw [show w₁.dry = none from hw.isOpen] at hd; cases hd) hinv
  show (Run.bind (attempt (machine n) c x) _ ⟨w.state, parked⟩).Wakes w parked slot
  unfold Run.bind
  cases hx : attempt (machine n) c x ⟨w.state, parked⟩ with
  | exhausted => trivial
  | stopped e r' => exact absurd hx Realm.follow_ne_stopped
  | done r r' =>
    obtain ⟨htasks, hfollow⟩ := Realm.follow_flat hflat hx
    obtain ⟨es, w₂, hgoes, hs, hown, -, herror⟩ :=
      Realm.follow_goes hruns hinv ⟨fun _ _ => False, .empty⟩ hfollow
    obtain ⟨O, ht⟩ := ht
    let w' : World := { w₂ with filling := w.filling }
    have hgrows : Grows w w' := { hgoes.toGrows with filling := rfl }
    have hwoke : Woke w parked slot w' r' := {
      toGrows := hgrows
      rests := {
        tracked := hgoes.tracked ▸ hw.tracked
        isOpen := hgoes.dry.trans hw.isOpen
        own := hown.trans hw.own
        filling := hw.filling
        quiet := hgoes.quiet ▸ hw.quiet
        inv := { hgoes.inv with } }
      tends := ⟨O, { ht with holds := fun t hmem => {
        apart := hgoes.apart _ (ht.holds t hmem).apart
        named := (ht.holds t hmem).named
        waits := hgoes.history.waits hgoes.inner (ht.holds t hmem).waits
        resume := fun o w'' hg => (ht.holds t hmem).resume o w'' (hgrows.trans hg) } }⟩
      filled := fun _ => hgoes.history.filled
      joined := fun _ => .inl
      realm := by rw [show w'.state = r'.state from hs, ← htasks]
      history := ⟨es, hgoes.history, fun e he => by
        have hinner := hgoes.inner e he
        cases e with
        | fill slot' waiter =>
          obtain rfl : slot' = slot := hgoes.fills hw.tracked slot' waiter he
          exact .inr ⟨waiter, rfl⟩
        | enqueue job => exact .inl hinner
        | _ => first | exact .inl rfl | cases hinner⟩ }
    cases r with
    | ok => exact ⟨w', hwoke⟩
    | error e => cases e <;> exact ⟨w', hwoke, herror _ rfl⟩

end Run

theorem Grows.wakes? {w w' : World} {job : Job} {slot : Nat} (h : Grows w w')
    (hj : job.wakes? w.state = some slot) : job.wakes? w'.state = some slot := by
  unfold Job.wakes? at hj ⊢
  split at hj
  · exact h.wakes _ _ hj
  · cases hj

theorem Run.Waking.perform {w : World} {parked : List ParkedTask} {n slot : Nat} {c : Context} {job : Job}
    (hw : w.Rests) (ht : ∃ O, w.Tends O parked) (hj : job.wakes? w.state = some slot) (hv : Met w job) :
    (perform (machine n) c job).Waking slot w parked := by
  refine .bind (.execute hw ht (checkInterrupts_flat c _) checkInterrupts_safe)
    fun _ w₁ r₁ hwoke => ?_
  have hj₁ := hwoke.toGrows.wakes? hj
  have hv₁ : Met { w₁ with filling := fun slot' => slot' = slot } job := hwoke.toGrows.met hv
  exact .execute hwoke.rests hwoke.tends (runReporting_flat hj₁)
    (runReporting_safe (runWaking_safe hwoke.rests.isOpen rfl hj₁ hv₁))

end EcmaScript
