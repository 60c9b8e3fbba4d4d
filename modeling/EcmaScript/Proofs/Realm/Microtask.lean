import EcmaScript.Proofs.Realm.Quiescence

/-! To wait for a promise comes to the same as a job that lets the task go on which waits. -/
namespace EcmaScript
open Exec

namespace Realm

/-- The task that waits for what a job brings, with the outcome that the job brings. A job brings nothing
where there is no room for the frame of a call. -/
def awaiting? (r : Realm) (job : Job) : Option (ParkedTask × Outcome) :=
  if r.state.maxDepth ≤ r.state.stack.length then none
  else (job.brings? r.state).bind fun e => (r.tasks.find? (·.slot == e.1)).map (·, e.2)

/-- Lets a task go on with an outcome, whatever its slot holds. -/
def resume (t : ParkedTask) (outcome : Outcome) : Run Unit := fun r =>
  advance t.id r.state.stack.length (t.resume outcome { r.state with stack := t.frame :: r.state.stack })
    (r.tasks.filter (·.id != t.id))

end Realm

namespace Run.Direct

/-- Runs jobs in turn. A task that waits for what a job brings goes on directly after that job; which
tasks can go on is not kept anywhere. -/
def runJobs (m : Machine) (c : Context) : (fuel : Nat) → Run Unit
  | 0 => exhausted
  | fuel + 1 => do
    raiseFatal
    match ← look (·.jobs.pop?) with
    | none => execute m c Exec.reportRejections
    | some (job, rest) =>
      change fun s => { s with jobs := rest }
      let waiting ← fun r => .done (r.awaiting? job) r
      perform m c job
      raiseFatal
      change fun s => { s with ready := {} }
      waiting.forM fun e => Realm.resume e.1 e.2
      runJobs m c fuel

/-! All other work of a realm is as it was, but has jobs run in this way. -/

def runDueTimer (m : Machine) (c : Context) : Run Bool := do
  match ← takeTimer with
  | none => return false
  | some t =>
    execute m c (Exec.runTimer t)
    runJobs m c m.fuel
    return true

def runAll (m : Machine) (c : Context) : (fuel : Nat) → Run Unit
  | 0 => exhausted
  | fuel + 1 => do
    runJobs m c m.fuel
    if ← runDueTimer m c then runAll m c fuel
    else
      match ← look (·.timers.nextDue?) with
      | none => return
      | some due =>
        execute m c Exec.checkInterrupts
        change (·.waitUntil due)
        runAll m c fuel

def awaitOutcome (m : Machine) (c : Context) (slot : Nat) : (fuel : Nat) → Run Value
  | 0 => exhausted
  | fuel + 1 => do
    runJobs m c m.fuel
    match ← look fun s => (s.outcomes[slot]?).join with
    | some (.ok v) => return v
    | some (.error e) => stop e
    | none =>
      execute m c Exec.checkInterrupts
      if ← runDueTimer m c then awaitOutcome m c slot fuel
      else
        match nextWake (← look (·.timers.nextDue?)) c.deadline with
        | none => stop (.condition .stalled)
        | some time =>
          change (·.waitUntil time)
          awaitOutcome m c slot fuel

def evaluate (m : Machine) (source : String) (o : EvaluateOptions) : Run Evaluation := do
  match parseScript source with
  | .error e => stop e.toEvaluationError
  | .ok script =>
    let (c, slot) ← begin m source script o
    raiseFatal
    match ← look fun s => (s.outcomes[slot]?).join with
    | none => return .pending c slot
    | some (.error e) => stop e
    | some (.ok v) =>
      if !o.dryRun then runJobs m c m.fuel
      return .complete v

def finish (m : Machine) : Evaluation → Run Value
  | .complete v => return v
  | .pending c slot => awaitOutcome m c slot m.fuel

def runEventLoop (m : Machine) : Run Unit := do
  runAll m (← look (·.baseContext)) m.fuel

end Run.Direct

theorem Queue.eq_empty {α : Type} {q : Queue α} (h : q.toList = []) : q = {} := by
  obtain ⟨front, back⟩ := q
  simpa [toList] using h

theorem Event.still_of_ordinary {e : Event} (h : e.isOrdinary = true) : e.awakened = [] ∧ e.woken = [] := by
  cases e with
  | fill | wake => cases h
  | _ => exact ⟨rfl, rfl⟩

namespace Event.Changes
variable {e : Event} {s s' : State}

theorem fill {slot : Nat} {waiter : Option Nat} (h : (Event.fill slot waiter).Changes s s') :
    ¬ s.Filled slot ∧ s'.Filled slot ∧ s'.ready.toList = s.ready.toList ++ waiter.toList := by
  have hslot := h.slot slot
  generalize hx : s.awaits[slot]? = x at hslot
  generalize hx' : s'.awaits[slot]? = x' at hslot
  cases hslot with
  | @fill _ outcome he =>
    cases he
    refine ⟨?_, ⟨_, outcome, hx', rfl⟩, h.ready.symm⟩
    rintro ⟨a, o, ha, ho⟩
    rw [hx] at ha
    cases ha
    cases ho
  | same hne | born hne | wait hne => exact absurd rfl hne

theorem ready_still (h : e.Changes s s') (he : e.awakened = [] ∧ e.woken = []) :
    s'.ready.toList = s.ready.toList := by
  have hready := h.ready
  rw [he.1, he.2, List.append_nil, List.nil_append] at hready
  exact hready.symm

end Event.Changes

namespace History
variable {s s' : State} {es : List Event} {slot : Nat}

theorem ready_still (h : History s es s') (he : ∀ e ∈ es, e.awakened = [] ∧ e.woken = []) :
    s'.ready.toList = s.ready.toList := by
  induction h with
  | nil => rfl
  | cons h _ ih =>
    obtain ⟨he, hes⟩ := List.forall_mem_cons.mp he
    exact (ih hes).trans (h.ready_still he)

theorem ready_ordinary (h : History s es s') (ho : ∀ e ∈ es, e.isOrdinary = true) :
    s'.ready.toList = s.ready.toList :=
  h.ready_still fun e he => Event.still_of_ordinary (ho e he)

/-- A slot is filled once, so that at most one task is woken. Who waits for another slot goes on to do
so. -/
theorem fills_once (h : History s es s')
    (ho : ∀ e ∈ es, e.isOrdinary = true ∨ ∃ waiter, e = .fill slot waiter) :
    (∃ woken : List Nat, s'.ready.toList = s.ready.toList ++ woken ∧ woken.length ≤ 1 ∧
      (s.Filled slot → woken = [])) ∧
    ∀ other task, other ≠ slot → s.awaits[other]? = some ⟨none, some task⟩ →
      s'.awaits[other]? = some ⟨none, some task⟩ := by
  induction h with
  | nil => exact ⟨⟨[], by simp⟩, fun _ _ _ h => h⟩
  | @cons s s₁ s' e es h _ ih =>
    obtain ⟨he, hes⟩ := List.forall_mem_cons.mp ho
    obtain ⟨⟨woken, hready, hlength, hnone⟩, hothers⟩ := ih hes
    refine ⟨?_, fun other task hne hs => hothers other task hne ?_⟩
    · rcases he with he | ⟨waiter, rfl⟩
      · exact ⟨woken, by rw [hready, h.ready_still (Event.still_of_ordinary he)], hlength, fun hf => hnone (h.filled hf)⟩
      · obtain ⟨hempty, hfilled, hready₁⟩ := h.fill
        refine ⟨waiter.toList, ?_, by cases waiter <;> simp, fun hf => absurd hf hempty⟩
        rw [hready, hready₁, hnone hfilled, List.append_nil]
    · have hslot := h.slot other
      rw [hs] at hslot
      generalize s₁.awaits[other]? = x at hslot ⊢
      cases hslot with
      | fill hfill =>
        rcases he with he | ⟨waiter, rfl⟩
        · rw [hfill] at he
          cases he
        · cases hfill
          exact absurd rfl hne
      | same => rfl

end History

namespace Realm
variable {r r' : Realm} {n : Nat} {c : Context} {t : ParkedTask}

theorem Sound.waits (h : r.Sound) (ht : t ∈ r.tasks) : r.state.Waits t.id t.slot := by
  obtain ⟨w, -, hs, O, htends⟩ := h
  exact hs ▸ (htends.holds t ht).waits

theorem Sound.ids (h : r.Sound) : (r.tasks.map (·.id)).Nodup := by
  obtain ⟨w, -, -, O, htends⟩ := h
  exact htends.ids

/-- What a job leaves that was taken: if a task waits for what it brings, only the slot of that task has
been filled. -/
theorem Sound.perform {job : Job} {rest : Queue Job} (h : r.Sound)
    (hp : r.state.jobs.pop? = some (job, rest))
    (hx : Run.perform (machine n) c job { r with state := { r.state with jobs := rest } } = .done () r') :
    ∃ es, History { r.state with jobs := rest } es r'.state ∧
      (job.wakes? r.state = none ∧ (∀ e ∈ es, e.isOrdinary = true) ∨
      ∃ slot, job.wakes? r.state = some slot ∧ r'.tasks = r.tasks ∧
        ∀ e ∈ es, e.isOrdinary = true ∨ ∃ waiter, e = .fill slot waiter) := by
  obtain ⟨w, hw, hs, ht⟩ := h
  obtain ⟨s, parked⟩ := r
  cases hs
  obtain ⟨hworks, -⟩ := Action.takes_job hw ht hp
  have hjob : Met w job := within_of_mem hw.inv.closed.jobs (by simp [Queue.toList_of_pop? hp])
  cases hwaking : job.isWaking with
  | false =>
    have hplain := Action.perform_plain (n := n) (c := c) hworks.rests hworks.tends (hworks.met hjob) hwaking
    obtain ⟨w', hcame, -⟩ := hplain.done hx
    obtain ⟨es, hes, ho⟩ := hcame.ordinary
    exact ⟨es, hes, .inl ⟨Job.wakes?_of_isWaking hwaking, ho⟩⟩
  | true =>
    obtain ⟨slot, hslot⟩ := Action.wakes_of_isWaking hw hp hwaking
    have hwoke : (Run.perform (machine n) c job).Waking slot _ parked :=
      .perform hworks.rests hworks.tends (hworks.toGrows.wakes? hslot) (hworks.met hjob)
    unfold Run.Waking at hwoke
    rw [hx] at hwoke
    obtain ⟨w', hwoke⟩ := hwoke
    obtain ⟨es, hes, ho⟩ := hwoke.history
    rw [hwoke.realm]
    exact ⟨es, hes, .inr ⟨slot, hslot, rfl, ho⟩⟩

end Realm

namespace Run
variable {n : Nat} {c : Context} {r r' : Realm}

theorem pollReady_none {fuel : Nat} (h : r.state.ready.toList = []) :
    pollReady (fuel + 1) r = .done () r := by
  rw [pollReady, takeReady_bind, Queue.pop?_eq_none.mpr h]
  rfl

theorem pollReady_one {fuel id : Nat} (hr : r.Sound) (h : r.state.ready.toList = [id]) :
    pollReady (fuel + 2) r = Realm.poll id { r with state := { r.state with ready := {} } } := by
  have hpop : r.state.ready.pop? = some (id, {}) := by
    cases hp : r.state.ready.pop? with
    | none => simp [Queue.pop?_eq_none.mp hp] at h
    | some p =>
      obtain ⟨id', rest⟩ := p
      rw [Queue.toList_of_pop? hp, List.cons.injEq] at h
      rw [h.1, Queue.eq_empty h.2]
  rw [pollReady, takeReady_bind, hpop]
  show Run.bind _ _ _ = _
  unfold Run.bind
  cases hx : Realm.poll id { r with state := { r.state with ready := {} } } with
  | exhausted => rfl
  | stopped e r' => exact (Realm.poll_ne_stopped hx).elim
  | done _ r' =>
    obtain ⟨w, hw, hs, ht⟩ := hr
    obtain ⟨s, parked⟩ := r
    cases hs
    obtain ⟨es, w', -, -, hes, ho, -⟩ := Realm.poll_works hw ht hpop hx
    cases hes with
    | cons hwake hes =>
      have hready := hwake.ready
      simp only [Queue.toList_of_pop? hpop, Event.awakened, Event.woken, List.append_nil,
        List.singleton_append, List.cons.injEq, true_and] at hready
      exact pollReady_none ((hes.ready_ordinary ho).trans hready.symm)

end Run

/-- What a job has left: the task that waits for what it brings can go on with that, and no other one. -/
inductive Realm.Brought (r : Realm) : Option (ParkedTask × Outcome) → Prop where
  | nothing (hready : r.state.ready.toList.length ≤ 1)
    (h : ∀ t ∈ r.tasks, r.state.awaits[t.slot]? = some ⟨none, some t.id⟩) : Brought r none
  | outcome {t : ParkedTask} {o : Outcome} (ht : t ∈ r.tasks) (hready : r.state.ready.toList = [t.id])
    (h : r.state.awaits[t.slot]? = some ⟨some o, none⟩) : Brought r (some (t, o))

namespace Realm
variable {r : Realm} {t : ParkedTask}

theorem poll_empty (hfind : r.tasks.find? (·.id == t.id) = some t)
    (h : r.state.awaits[t.slot]? = some ⟨none, some t.id⟩) : poll t.id r = .done () r := by
  obtain ⟨s, tasks⟩ := r
  have hfind : tasks.find? (·.id == t.id) = some t := hfind
  have h : s.awaits[t.slot]? = some ⟨none, some t.id⟩ := h
  simp [poll, hfind, h, State.setWaiter_eq h]

theorem poll_eq_resume {o : Outcome} (hfind : r.tasks.find? (·.id == t.id) = some t)
    (h : r.state.awaits[t.slot]? = some ⟨some o, none⟩) : poll t.id r = resume t o r := by
  obtain ⟨s, tasks⟩ := r
  have hfind : tasks.find? (·.id == t.id) = some t := hfind
  have h : s.awaits[t.slot]? = some ⟨some o, none⟩ := h
  simp [poll, resume, hfind, h]

theorem find?_of_nodup {β : Type} [DecidableEq β] {f : ParkedTask → β} {tasks : List ParkedTask}
    (h : (tasks.map f).Nodup) (ht : t ∈ tasks) : tasks.find? (f · == f t) = some t := by
  have hsome : (tasks.find? (f · == f t)).isSome := List.find?_isSome.mpr ⟨t, ht, beq_self_eq_true _⟩
  obtain ⟨t', ht'⟩ := Option.isSome_iff_exists.mp hsome
  have he : f t' = f t := by simpa using List.find?_some ht'
  rw [ht', List.inj_on_of_nodup_map h (List.mem_of_find?_eq_some ht') ht he]

/-- After a job the task goes on that waits for what the job brings. -/
theorem Sound.delivers {waiting : Option (ParkedTask × Outcome)} {fuel : Nat} (hr : r.Sound)
    (hb : r.Brought waiting) : Run.pollReady (fuel + 2) r = (do
      Run.change fun s => { s with ready := {} }
      waiting.forM fun e => Realm.resume e.1 e.2 : Run Unit) r := by
  let r₁ : Realm := { r with state := { r.state with ready := {} } }
  show _ = (waiting.forM fun e => Realm.resume e.1 e.2 : Run Unit) r₁
  cases hb with
  | nothing hready hempty =>
    show _ = Progress.done () r₁
    match hlist : r.state.ready.toList with
    | [] =>
      rw [Run.pollReady_none hlist, show r₁ = { r with state := { r.state with ready := {} } } from rfl,
        ← Queue.eq_empty hlist]
    | [id] =>
      rw [Run.pollReady_one hr hlist]
      show poll id r₁ = _
      cases hfind : r.tasks.find? (·.id == id) with
      | none => simp [poll, show r₁.tasks.find? (·.id == id) = none from hfind]
      | some t =>
        have ht := List.mem_of_find?_eq_some hfind
        obtain rfl : t.id = id := by simpa using List.find?_some hfind
        exact poll_empty (r := r₁) hfind (hempty t ht)
    | _ :: _ :: _ => simp [hlist] at hready
  | @outcome t o ht hready hfilled =>
    rw [Run.pollReady_one hr hready]
    exact poll_eq_resume (r := r₁) (find?_of_nodup hr.ids ht) hfilled

end Realm

theorem Run.perform_delivers {n : Nat} {c : Context} {r r' : Realm} {job : Job} {slot : Nat}
    {outcome : Outcome} (hj : job.brings? r.state = some (slot, outcome))
    (hx : perform (machine n) c job r = .done () r') : r.state.Delivers slot outcome r'.state := by
  obtain ⟨_, r₁, hcheck, hrun⟩ := bind_eq_done.mp hx
  have hstate := check_done hcheck
  have hj₁ : job.brings? r₁.state = some (slot, outcome) := by rw [hstate]; exact hj
  obtain ⟨o, r₂, hattempt, hdone⟩ := bind_eq_done.mp hrun
  cases o with
  | error e => cases e <;> cases hdone
  | ok u =>
    cases hdone
    have hdelivers := comes_runReporting hj₁ (Step.comes_of_outcome (Realm.outcome_of_follow hattempt))
    rw [hstate] at hdelivers
    cases hdelivers with
    | refused hfull hawaits hready => exact .refused hfull hawaits hready
    | filled hroom h => exact .filled hroom h

namespace Realm
variable {r : Realm}

theorem Sound.brings {n : Nat} {c : Context} {r' : Realm} {job : Job} {rest : Queue Job} (h : r.Sound)
    (hp : r.state.jobs.pop? = some (job, rest)) (hready : r.state.ready.toList = []) (h' : r'.Sound)
    (hx : Run.perform (machine n) c job { r with state := { r.state with jobs := rest } } = .done () r') :
    Brought { r' with state := { r'.state with fatal := none } } (r.awaiting? job) := by
  have hempty {t : ParkedTask} (ht : t ∈ r.tasks) : r.state.awaits[t.slot]? = some ⟨none, some t.id⟩ :=
    (h.waits ht).resolve_right fun hin => by simp [hready] at hin
  obtain ⟨es, hes, ⟨hnone, ho⟩ | ⟨slot, hslot, htasks, ho⟩⟩ := h.perform hp hx
  · have hready' : r'.state.ready.toList = [] := (hes.ready_ordinary ho).trans hready
    have hwaiting : r.awaiting? job = none := by
      rw [Job.wakes?_eq, Option.map_eq_none_iff] at hnone
      simp [awaiting?, hnone]
    rw [hwaiting]
    exact .nothing (by simp [hready']) fun t ht => (h'.waits ht).resolve_right fun hin => by
      simp [hready'] at hin
  · rw [Job.wakes?_eq] at hslot
    obtain ⟨⟨slot, outcome⟩, hbrings, rfl⟩ := Option.map_eq_some_iff.mp hslot
    dsimp only at ho
    have htasks' {t : ParkedTask} (ht : t ∈ r'.tasks) : t ∈ r.tasks := htasks ▸ ht
    have hdelivers := Run.perform_delivers (r := { r with state := { r.state with jobs := rest } }) hbrings hx
    cases hdelivers with
    | refused hfull hawaits hready₁ =>
      rw [awaiting?, if_pos hfull]
      refine .nothing ?_ fun t ht => ?_
      · simp [hready₁, hready]
      · exact (congrArg (·[t.slot]?) hawaits).trans (hempty (htasks' ht))
    | filled hroom hfilled =>
      rw [awaiting?, if_neg (Nat.not_le_of_lt hroom), hbrings, Option.bind_some]
      dsimp only
      cases hfind : r.tasks.find? (·.slot == slot) with
      | none =>
        obtain ⟨⟨woken, hwoken, hlength, -⟩, hothers⟩ := hes.fills_once ho
        refine .nothing ?_ fun t ht => hothers _ _ ?_ (hempty (htasks' ht))
        · rw [show r'.state.ready.toList = woken from hwoken.trans (by simp [hready])]
          exact hlength
        · simpa using List.find?_eq_none.mp hfind t (htasks' ht)
      | some t =>
        have ht := List.mem_of_find?_eq_some hfind
        obtain rfl : t.slot = slot := by simpa using List.find?_some hfind
        obtain ⟨hslot, hready₁⟩ := hfilled t.id (hempty ht)
        refine .outcome (htasks ▸ ht) ?_ hslot
        show r'.state.ready.toList = [t.id]
        rw [hready₁, Queue.toList_push, show r.state.ready.toList = [] from hready]
        rfl

end Realm

namespace Run
variable {α β : Type} {n fuel : Nat} {c : Context} {r r' : Realm}

theorem bind_congr_done {x y : Run α} {f g : α → Run β} (hxy : x r = y r)
    (h : ∀ a r₁, x r = .done a r₁ → f a r₁ = g a r₁) : (x >>= f) r = (y >>= g) r := by
  show Run.bind x f r = Run.bind y g r
  unfold Run.bind
  rw [← hxy]
  cases hx : x r with
  | done a r₁ => exact h a r₁ hx
  | _ => rfl

theorem pollReady_done (h : pollReady fuel r = .done () r') : r'.state.ready.toList = [] := by
  induction fuel generalizing r with
  | zero => cases h
  | succ fuel ih =>
    rw [pollReady, takeReady_bind] at h
    cases hp : r.state.ready.pop? with
    | none =>
      rw [hp] at h
      cases h
      exact Queue.pop?_eq_none.mp hp
    | some p =>
      simp only [hp] at h
      obtain ⟨_, r₁, -, h⟩ := bind_eq_done.mp h
      exact ih h

theorem pollReady_ne_stopped {e : EvaluationError} : pollReady fuel r ≠ .stopped e r' := by
  induction fuel generalizing r with
  | zero => nofun
  | succ fuel ih =>
    intro h
    rw [pollReady, takeReady_bind] at h
    cases hp : r.state.ready.pop? with
    | none =>
      rw [hp] at h
      cases h
    | some p =>
      simp only [hp] at h
      obtain h | ⟨_, r₁, -, h⟩ := bind_eq_stopped.mp h
      · exact Realm.poll_ne_stopped h
      · exact ih h

theorem raiseFatal_none (h : r.state.fatal = none) :
    raiseFatal r = .done () { r with state := { r.state with fatal := none } } := by
  simp [raiseFatal, Bind.bind, Run.bind, update, h, Pure.pure, Run.pure]

theorem raiseFatal_some {k : Condition} (h : r.state.fatal = some k) :
    raiseFatal r = .stopped (.condition k) { r with state := { r.state with fatal := none } } := by
  simp [raiseFatal, Bind.bind, Run.bind, update, h, Run.stop]

theorem raiseFatal_done (h : raiseFatal r = .done () r') :
    r' = { r with state := { r.state with fatal := none } } := by
  cases hf : r.state.fatal with
  | none =>
    rw [raiseFatal_none hf] at h
    exact (Progress.done.inj h).2.symm
  | some k =>
    rw [raiseFatal_some hf] at h
    cases h

theorem runJobs_polls : runJobs (machine (n + 3)) c fuel r =
    (pollReady (n + 2) >>= fun _ => runJobs (machine (n + 3)) c fuel) r := by
  cases fuel with
  | zero =>
    show _ = Run.bind _ _ _
    unfold Run.bind
    cases h : pollReady (n + 2) r with
    | stopped => exact (pollReady_ne_stopped h).elim
    | _ => rfl
  | succ fuel =>
    conv_lhs => unfold runJobs
    refine bind_congr_done rfl fun _ r₁ h => ?_
    show _ = Run.bind (pollReady (n + 2)) _ r₁
    unfold Run.bind
    rw [pollReady_none (pollReady_done h)]

theorem look_bind_of {f : State → α} {g : α → Run β} {a : α} (h : f r.state = a) :
    (look f >>= g) r = g a r := h ▸ rfl

theorem runJobs_eq_direct (hr : r.Sound) (hready : r.state.ready.toList = []) :
    runJobs (machine (n + 3)) c fuel r = Direct.runJobs (machine (n + 3)) c fuel r := by
  induction fuel generalizing r with
  | zero => rfl
  | succ fuel ih =>
    unfold runJobs Direct.runJobs
    show Run.bind (pollReady (n + 2)) _ r = _
    unfold Run.bind
    rw [pollReady_none hready]
    refine bind_congr_done rfl fun _ r₁ h => ?_
    have hr₁ : r₁.Sound := hr.course (.cons (a := .raiseFatal) (congrArg Progress.realm? h) .nil)
    have hready₁ : r₁.state.ready.toList = [] := by
      rw [raiseFatal_done h]
      exact hready
    rw [takeJob_bind]
    cases hp : r₁.state.jobs.pop? with
    | none =>
      rw [look_bind_of hp]
      dsimp only
      rw [look_bind_ite, if_pos (Queue.isEmpty_iff.mpr hready₁)]
    | some p =>
      obtain ⟨job, rest⟩ := p
      rw [look_bind_of hp]
      dsimp only
      let r₂ : Realm := { r₁ with state := { r₁.state with jobs := rest } }
      have hassoc {f : Unit → Run Unit} : (execute (machine (n + 3)) c checkInterrupts >>= fun _ =>
          execute (machine (n + 3)) c (runReporting job) >>= f) =
          (perform (machine (n + 3)) c job >>= f) := by
        rw [perform, LawfulMonad.bind_assoc]
      rw [hassoc]
      show _ = (perform (machine (n + 3)) c job >>= fun _ => raiseFatal >>= fun _ =>
        change (fun s => { s with ready := {} }) >>= fun _ =>
        (r₂.awaiting? job).forM (fun e => Realm.resume e.1 e.2) >>= fun _ => Direct.runJobs (machine (n + 3)) c fuel) r₂
      refine bind_congr_done rfl fun _ r₃ hperform => bind_congr_done rfl fun _ r₄ hfatal => ?_
      have hr₃ : r₃.Sound := by
        refine hr₁.course (.cons (a := .job (n + 3) c) ?_ .nil)
        rw [Realm.Action.run, takeJob_bind, hp]
        exact congrArg Progress.realm? hperform
      have hr₄ : r₄.Sound := hr₃.course (.cons (a := .raiseFatal) (congrArg Progress.realm? hfatal) .nil)
      have hbrought : r₄.Brought (r₂.awaiting? job) := by
        rw [raiseFatal_done hfatal]
        exact hr₁.brings hp hready₁ hr₃ hperform
      rw [← LawfulMonad.bind_assoc, runJobs_polls]
      refine bind_congr_done (hr₄.delivers hbrought) fun _ r₅ hpoll => ih ?_ (pollReady_done hpoll)
      exact (hr₄.wet pollReady_wet).2 _ _ hpoll

end Run

namespace Realm

/-- The slot with whose outcome a task goes on, if an action has one go on. -/
def resumed? (r : Realm) : Action → Option Nat
  | .wake => do
    let (id, _) ← r.state.ready.pop?
    let t ← r.tasks.find? (·.id == id)
    let _ ← (r.state.awaits[t.slot]?).bind (·.outcome)
    return t.slot
  | _ => none

/-- The slots with whose outcomes tasks go on, in turn. -/
def resumptions : Realm → List Action → List Nat
  | _, [] => []
  | r, a :: as => (r.resumed? a).toList ++
    match (a.run r).realm? with
    | some r' => r'.resumptions as
    | none => []

def Spent (r : Realm) (slot : Nat) : Prop := r.state.Filled slot ∧ ∀ t ∈ r.tasks, t.slot ≠ slot

variable {r r' : Realm} {a : Action} {slot : Nat}

theorem Sound.spent (h : r.Sound) (hr : (a.run r).realm? = some r') (hs : r.Spent slot) : r'.Spent slot := by
  obtain ⟨w, hw, hstate, ht⟩ := h
  obtain ⟨s, tasks⟩ := r
  cases hstate
  obtain ⟨w', hd⟩ := Action.did hw ht hr
  refine ⟨hd.state ▸ hd.filled slot hs.1, fun t ht he => ?_⟩
  rcases hd.joined t ht with hin | hempty
  · exact hs.2 t hin he
  · exact hempty (he ▸ hs.1)

theorem Sound.resumed (h : r.Sound) (hs : r.resumed? a = some slot) :
    ¬ r.Spent slot ∧ ∀ r', (a.run r).realm? = some r' → r'.Spent slot := by
  cases a with
  | wake =>
    obtain ⟨⟨id, rest⟩, hpop, hs⟩ := Option.bind_eq_some_iff.mp hs
    obtain ⟨t, hfind, hs⟩ := Option.bind_eq_some_iff.mp hs
    obtain ⟨o, houtcome, hs⟩ := Option.bind_eq_some_iff.mp hs
    obtain rfl : t.slot = slot := Option.some.inj hs
    obtain ⟨b, hb, ho⟩ := Option.bind_eq_some_iff.mp houtcome
    have hfilled : r.state.Filled t.slot := ⟨b, o, hb, ho⟩
    refine ⟨fun hspent => hspent.2 t (List.mem_of_find?_eq_some hfind) rfl, fun r' hr => ?_⟩
    rw [Action.run, Run.takeReady_bind, hpop] at hr
    cases hx : poll id { r with state := { r.state with ready := rest } } with
    | exhausted => simp [hx, Progress.realm?] at hr
    | stopped e r₁ => exact (poll_ne_stopped hx).elim
    | done u r₁ =>
      simp only [hx, Progress.realm?, Option.some.injEq] at hr
      subst hr
      obtain ⟨w, hw, hstate, ht⟩ := h
      obtain ⟨s, tasks⟩ := r
      cases hstate
      obtain ⟨es, w', hworks, hs', -, -, hnone⟩ := poll_works hw ht hpop hx
      exact ⟨hs' ▸ hworks.filled _ hfilled, hnone t hfind hfilled⟩
  | _ => cases hs

theorem Sound.resumptions_nodup (h : r.Sound) (as : List Action) :
    (r.resumptions as).Nodup ∧ ∀ slot ∈ r.resumptions as, ¬ r.Spent slot := by
  induction as generalizing r with
  | nil => exact ⟨List.nodup_nil, by simp [resumptions]⟩
  | cons a as ih =>
    have hfirst : ∀ slot ∈ (r.resumed? a).toList, ¬ r.Spent slot := fun slot hslot =>
      (h.resumed (Option.mem_toList.mp hslot)).1
    have hsingle : (r.resumed? a).toList.Nodup := by cases r.resumed? a <;> simp
    unfold resumptions
    cases hr : (a.run r).realm? with
    | none =>
      rw [List.append_nil]
      exact ⟨hsingle, hfirst⟩
    | some r' =>
      obtain ⟨hnodup, hrest⟩ := ih (h.action hr).1
      refine ⟨List.nodup_append.mpr ⟨hsingle, hnodup, ?_⟩, fun slot hslot => ?_⟩
      · rintro slot hslot _ hslot' rfl
        exact hrest slot hslot' ((h.resumed (Option.mem_toList.mp hslot)).2 r' hr)
      · rcases List.mem_append.mp hslot with hslot | hslot
        · exact hfirst slot hslot
        · exact fun hspent => hrest slot hslot (h.spent hr hspent)

end Realm

/-! Errors that the realm does not show end what it does only if they are conditions. -/

namespace Exec
variable {n : Nat}

theorem console_condones {level : ConsoleLevel} {message : String} :
    Condoning n (console level message) := fun c s => by
  rw [console_eq]
  trivial

theorem runReporting_condones {job : Job} : Condoning n (runReporting job) := by
  refine .bind (fun _ _ => .handle fun _ _ => trivial) fun r => ?_
  cases r with
  | ok => exact fun _ _ => trivial
  | error e => exact .bind thrownValue_condones fun _ => .bind (fun _ _ => trivial) fun _ => console_condones

end Exec

namespace Run
variable {α : Type} {n fuel : Nat} {c : Context} {r r' : Realm} {e : EvaluationError}

theorem execute_stopped {x : Exec α} (h : Condoning n x)
    (hx : execute (machine n) c x r = .stopped e r') : ∃ k, e = .condition k := by
  rcases bind_eq_stopped.mp hx with hx | ⟨o, r₁, hx, hstop⟩
  · exact (Realm.follow_ne_stopped hx).elim
  · cases o with
    | ok => cases hstop
    | error e' =>
      obtain ⟨k, rfl⟩ := (h c r.state).of_follow hx
      cases hstop
      exact ⟨k, rfl⟩

theorem raiseFatal_stopped (h : raiseFatal r = .stopped e r') : ∃ k, e = .condition k := by
  cases hf : r.state.fatal with
  | none =>
    rw [raiseFatal_none hf] at h
    cases h
  | some k =>
    rw [raiseFatal_some hf] at h
    cases h
    exact ⟨k, rfl⟩

theorem runJobs_stopped (h : runJobs (machine n) c fuel r = .stopped e r') : ∃ k, e = .condition k := by
  induction fuel generalizing r with
  | zero => cases h
  | succ fuel ih =>
    obtain hstop | ⟨_, r₁, -, h⟩ := bind_eq_stopped.mp h
    · exact (pollReady_ne_stopped hstop).elim
    obtain hstop | ⟨_, r₂, -, h⟩ := bind_eq_stopped.mp h
    · exact raiseFatal_stopped hstop
    rw [takeJob_bind] at h
    cases hp : r₂.state.jobs.pop? with
    | some p =>
      simp only [hp] at h
      obtain hstop | ⟨_, r₃, -, h⟩ := bind_eq_stopped.mp h
      · exact execute_stopped checkInterrupts_condones hstop
      obtain hstop | ⟨_, r₄, -, h⟩ := bind_eq_stopped.mp h
      · exact execute_stopped runReporting_condones hstop
      obtain hstop | ⟨_, r₅, -, h⟩ := bind_eq_stopped.mp h
      · exact raiseFatal_stopped hstop
      exact ih h
    | none =>
      simp only [hp] at h
      rw [look_bind_ite] at h
      split at h
      · obtain ⟨interrupted, sinks, hreport⟩ := report_eq (m := machine n) (c := c) (r := r₂)
        rw [hreport] at h
        cases h
      · exact ih h

end Run

namespace Realm

/-- Whether an action is a turn in which a job or a task runs that can go on. -/
def Action.isTurn : Action → Bool
  | .wake | .job .. => true
  | _ => false

/-- A realm in which jobs and tasks have only ever run in turn, until none were left. -/
inductive Attended : Realm → Prop where
  | initial {globals : List (String × Value)} (hg : ∀ g ∈ globals, g.2.object? = none) :
    Attended (initial globals)
  | action {r r' : Realm} {a : Action} (h : Attended r) (ha : a.isTurn = false)
    (hr : (a.run r).realm? = some r') : Attended r'
  | jobs {r r' : Realm} {n fuel : Nat} {c : Context} (h : Attended r)
    (hr : Run.runJobs (machine n) c fuel r = .done () r') : Attended r'

namespace Attended
variable {r : Realm}

theorem reachable (h : r.Attended) : r.Reachable := by
  induction h with
  | initial hg => exact ⟨_, [], hg, .nil⟩
  | action _ _ hr ih => exact ih.course (.cons hr .nil)
  | @jobs r _ n fuel c _ hr ih =>
    have hwet : (Run.runJobs (machine n) c fuel).Wet (fun _ => True) r := Run.runJobs_wet
    obtain ⟨as, hc, -⟩ := hwet.course _ (congrArg Progress.realm? hr)
    exact ih.course hc

theorem ready (h : r.Attended) : r.state.ready.toList = [] := by
  induction h with
  | initial hg =>
    rw [(initial_laid hg).rest]
    rfl
  | @action r r' a h ha hr ih =>
    obtain ⟨es, hes, hcauses⟩ := (h.reachable.sound.action hr).2
    refine (hes.ready_still fun e he => ?_).trans ih
    cases hcauses with
    | ordinary _ h => exact Event.still_of_ordinary (h e he)
    | dry _ h =>
      rcases h e he with ho | hd
      · exact Event.still_of_ordinary ho
      · cases e with
        | discard => exact ⟨rfl, rfl⟩
        | _ => cases hd
    | report h =>
      rcases List.mem_cons.mp he with rfl | he
      · exact ⟨rfl, rfl⟩
      · exact Event.still_of_ordinary (h e he)
    | wake | job => cases ha
  | jobs _ hr _ => exact Queue.isEmpty_iff.mp (Run.runJobs_done hr).2

end Attended
end Realm

namespace Run
variable {α β : Type} {n fuel : Nat} {c : Context} {r : Realm}

def Matches (x y : Run α) (r : Realm) : Prop := r.Attended → x r = y r ∧ ∀ r', (x r).realm? = some r' →
  (∀ k, x r ≠ .stopped (.condition k) r') → r'.Attended

namespace Matches
variable {x y x' y' : Run α}

theorem congr (hx : x r = x' r) (hy : y r = y' r) (h : x'.Matches y' r) : x.Matches y r := by
  unfold Matches
  rw [hx, hy]
  exact h

theorem pure {a : α} : (Pure.pure a : Run α).Matches (Pure.pure a) r :=
  fun hr => ⟨rfl, fun _ h _ => Option.some.inj h ▸ hr⟩

theorem stop {e : EvaluationError} : (Run.stop e : Run α).Matches (Run.stop e) r :=
  fun hr => ⟨rfl, fun _ h _ => Option.some.inj h ▸ hr⟩

theorem exhausted : (Run.exhausted : Run α).Matches Run.exhausted r :=
  fun _ => ⟨rfl, fun _ h => (Option.some_ne_none _ h.symm).elim⟩

theorem bind {f g : α → Run β} (hx : x.Matches y r) (hf : ∀ a r, (f a).Matches (g a) r) :
    (x >>= f).Matches (y >>= g) r := by
  intro hr
  obtain ⟨hsame, hattended⟩ := hx hr
  show Run.bind x f r = Run.bind y g r ∧ ∀ r', (Run.bind x f r).realm? = some r' →
    (∀ k, Run.bind x f r ≠ .stopped (.condition k) r') → r'.Attended
  unfold Run.bind
  rw [← hsame]
  cases hx' : x r with
  | done a r₁ => exact hf a r₁ (hattended r₁ (by rw [hx']; rfl) (by simp [hx']))
  | stopped e r₁ =>
    refine ⟨rfl, fun r' h hk => ?_⟩
    cases h
    exact hattended r₁ (by rw [hx']; rfl) (by simpa [hx'] using hk)
  | exhausted => exact ⟨rfl, fun _ h => (Option.some_ne_none _ h.symm).elim⟩

theorem look_bind {f : State → α} {g g' : α → Run β} (h : ∀ a, (g a).Matches (g' a) r) :
    (look f >>= g).Matches (look f >>= g') r := h _

theorem ite {b : Prop} [Decidable b] (hx : x.Matches x' r) (hy : y.Matches y' r) :
    (if b then x else y).Matches (if b then x' else y') r := by
  split
  · exact hx
  · exact hy

theorem of_action {a : Realm.Action} (ha : a.isTurn = false) (h : (a.run r).realm? = (x r).realm?) :
    x.Matches x r := fun hr => ⟨rfl, fun _ hr' _ => .action hr ha (h.trans hr')⟩

theorem action {a : Realm.Action} (ha : a.isTurn = false) : a.run.Matches a.run r := .of_action ha rfl

end Matches

theorem runJobs_matches : (runJobs (machine (n + 3)) c fuel).Matches
    (Direct.runJobs (machine (n + 3)) c fuel) r := by
  refine fun hr => ⟨runJobs_eq_direct hr.reachable.sound hr.ready, fun r' h hk => ?_⟩
  cases hx : runJobs (machine (n + 3)) c fuel r with
  | done _ r₁ =>
    rw [hx] at h
    cases h
    exact .jobs hr hx
  | stopped e r₁ =>
    obtain ⟨k, rfl⟩ := runJobs_stopped hx
    rw [hx] at h
    cases h
    exact (hk k hx).elim
  | exhausted =>
    rw [hx] at h
    cases h

theorem Direct.runDueTimer_none (h : r.state.timers.popDue r.state.clock = none) :
    Direct.runDueTimer (machine n) c r = (Pure.pure false : Run Bool) r := by
  rw [Direct.runDueTimer, takeTimer_bind, h]

theorem Direct.runDueTimer_some {p : Timer × TimerQueue}
    (h : r.state.timers.popDue r.state.clock = some p) :
    Direct.runDueTimer (machine n) c r = (do
      (Realm.Action.timer n c).run
      Direct.runJobs (machine n) c (machine n).fuel
      return true : Run Bool) r := by
  rw [Direct.runDueTimer, takeTimer_bind, h, Realm.Action.run, LawfulMonad.bind_assoc, takeTimer_bind, h]

theorem runDueTimer_matches : (runDueTimer (machine (n + 3)) c).Matches
    (Direct.runDueTimer (machine (n + 3)) c) r := by
  cases hp : r.state.timers.popDue r.state.clock with
  | none => exact .congr (runDueTimer_none hp) (Direct.runDueTimer_none hp) .pure
  | some p =>
    exact .congr (runDueTimer_some hp) (Direct.runDueTimer_some hp)
      (.bind (.action rfl) fun _ _ => .bind runJobs_matches fun _ _ => .pure)

theorem runAll_matches : (runAll (machine (n + 3)) c fuel).Matches
    (Direct.runAll (machine (n + 3)) c fuel) r := by
  induction fuel generalizing r with
  | zero => exact .exhausted
  | succ fuel ih =>
    refine .bind runJobs_matches fun _ _ => .bind runDueTimer_matches fun again r =>
      .ite ih (.look_bind fun due => ?_)
    cases due with
    | none => exact .pure
    | some due =>
      exact .bind (.action (a := .check (n + 3) c) rfl) fun _ _ => .bind (.action (a := .wait due) rfl)
        fun _ _ => ih

theorem awaitOutcome_matches {slot : Nat} : (awaitOutcome (machine (n + 3)) c slot fuel).Matches
    (Direct.awaitOutcome (machine (n + 3)) c slot fuel) r := by
  induction fuel generalizing r with
  | zero => exact .exhausted
  | succ fuel ih =>
    refine .bind runJobs_matches fun _ r => .look_bind fun outcome => ?_
    rcases outcome with _ | e | v
    · refine .bind (.action (a := .check (n + 3) c) rfl) fun _ _ => .bind runDueTimer_matches fun _ r => ?_
      refine .ite ih (.look_bind fun timer => ?_)
      cases nextWake timer c.deadline with
      | none => exact .stop
      | some time => exact .bind (.action (a := .wait time) rfl) fun _ _ => ih
    · exact .stop
    · exact .pure

theorem finish_matches {e : Evaluation} : (finish (machine (n + 3)) e).Matches
    (Direct.finish (machine (n + 3)) e) r := by
  cases e with
  | complete v => exact .pure
  | pending c slot => exact awaitOutcome_matches

theorem runEventLoop_matches : (runEventLoop (machine (n + 3))).Matches
    (Direct.runEventLoop (machine (n + 3))) r := .look_bind fun _ => runAll_matches

theorem evaluate_matches {source : String} {o : EvaluateOptions} :
    (evaluate (machine (n + 3)) source o).Matches (Direct.evaluate (machine (n + 3)) source o) r := by
  rw [evaluate_eq, Direct.evaluate]
  cases parseScript source with
  | error => exact .stop
  | ok script =>
    refine .bind (.of_action rfl begin_realm?) fun _ _ => .bind (.action (a := .raiseFatal) rfl)
      fun _ r => .look_bind fun outcome => ?_
    rcases outcome with _ | e | v
    · exact .pure
    · exact .stop
    · exact .ite (.bind runJobs_matches fun _ _ => .pure) .pure

end Run

/-- To wait for a promise comes to the same as a job that lets the task go on: whatever is evaluated,
waited for or run from a realm that is attended, and it leaves one that is attended unless a condition
arises. At every moment a task waits for a slot that is empty or is among those that can go on, and
none goes on twice with one outcome. To wait registers functions with the promise, whose jobs bring what
it comes to to a slot that is new, and such a job leaves it there and lets the task go on that waits. The
job that came first is taken first. -/
theorem await_as_microtask {r : Realm} (hr : r.Attended) {n : Nat} :
    (∀ c fuel, Run.runJobs (machine (n + 3)) c fuel r = Run.Direct.runJobs (machine (n + 3)) c fuel r) ∧
    (∀ source o, (Run.evaluate (machine (n + 3)) source o).Matches
      (Run.Direct.evaluate (machine (n + 3)) source o) r) ∧
    (∀ e, (Run.finish (machine (n + 3)) e).Matches (Run.Direct.finish (machine (n + 3)) e) r) ∧
    (Run.runEventLoop (machine (n + 3))).Matches (Run.Direct.runEventLoop (machine (n + 3))) r ∧
    (∀ as, (r.resumptions as).Nodup ∧
      ∀ r', r.Course as r' → ∀ t ∈ r'.tasks, r'.state.Waits t.id t.slot) ∧
    (∀ c v s slot s', (slotFor v).Gives (machine n) c s slot s' → Awaits (machine n) c s v slot s') ∧
    (∀ c job slot outcome (r₀ r' : Realm), job.brings? r₀.state = some (slot, outcome) →
      Run.perform (machine n) c job r₀ = .done () r' → r₀.state.Delivers slot outcome r'.state) ∧
    ∀ (jobs rest : Queue Job) job, (jobs.push job).toList = jobs.toList ++ [job] ∧
      (jobs.pop? = some (job, rest) → jobs.toList = job :: rest.toList) :=
  ⟨fun _ _ => (Run.runJobs_matches hr).1, fun _ _ => Run.evaluate_matches, fun _ => Run.finish_matches,
    Run.runEventLoop_matches, fun as => ⟨(hr.reachable.sound.resumptions_nodup as).1, fun _ hs _ =>
      (hr.reachable.sound.course hs).waits⟩, fun _ _ _ _ _ => gives_slotFor,
    fun _ _ _ _ _ _ => Run.perform_delivers, fun _ _ _ => ⟨Queue.toList_push _ _, Queue.toList_of_pop?⟩⟩

/-- A function that waits is called twice, and the script waits as well. Its value is whether all went on in
the order in which they came to wait. -/
def Trial.turns : Trial Realm.plain where
  source :=
    "let s = ''; async function f(x) \x7b s += x; await 1; s += x \x7d f('a'); f('b'); await 1; s === 'abab'"
  sees e r := e.isPending && (Run.finish (machine 20) e r).ends fun v _ => v.truthy
  ends := by decide +kernel

/-- The script comes to wait and then to its value, and jobs that let the tasks go on themselves take the
same course. -/
theorem await_in_turns : ∃ (e : Evaluation) (v : Value) (r r' : Realm), Realm.plain.Attended ∧
    Run.evaluate (machine 20) Trial.turns.source {} Realm.plain = .done e r ∧ e.isPending = true ∧
    Run.Direct.evaluate (machine 20) Trial.turns.source {} Realm.plain = .done e r ∧ r.Attended ∧
    Run.finish (machine 20) e r = .done v r' ∧ v.truthy = true ∧
    Run.Direct.finish (machine 20) e r = .done v r' := by
  have hplain : Realm.plain.Attended := .action (.initial (List.forall_mem_nil _)) rfl Realm.realm?_plain
  obtain ⟨e, r, _, heval, -, -, hsees⟩ := Trial.turns.run
  obtain ⟨hpending, hends⟩ := Bool.and_eq_true_iff.mp hsees
  obtain ⟨v, r', hfinish, htruthy⟩ := Progress.exists_of_ends hends
  obtain ⟨hdirect, hattended⟩ := (await_as_microtask hplain (n := 17)).2.1 Trial.turns.source {} hplain
  have hr : r.Attended := hattended r (congrArg Progress.realm? heval) fun k hk => by
    rw [show Run.evaluate (machine (17 + 3)) Trial.turns.source {} Realm.plain = _ from heval] at hk
    cases hk
  have hfinished := ((await_as_microtask hr (n := 17)).2.2.1 e hr).1
  exact ⟨e, v, r, r', hplain, heval, hpending, hdirect ▸ heval, hr, hfinish, htruthy, hfinished ▸ hfinish⟩

end EcmaScript
