import EcmaScript.Proofs.Realm.Rejection

/-! When work in a realm ends, and when it is said to be stalled, nothing is left to do. -/
namespace EcmaScript
open Exec

theorem TimerQueue.isEmpty_iff {q : TimerQueue} : q.isEmpty = true ↔ q.nextDue? = none := by
  simp [isEmpty, nextDue?]

theorem Realm.outcome_of_follow {α : Type} {x : Step α} {tasks : List ParkedTask} {a : α} {r : Realm}
    (h : follow x tasks = .done (.ok a) r) : x.outcome = some (some (.ok a), r.state) := by
  induction x generalizing tasks with
  | value => cases h; rfl
  | parked _ _ _ _ _ _ ih => exact ih _ h
  | _ => cases h

namespace Run
variable {α β : Type} {x : Run α} {f : α → Run β} {r r' : Realm} {e : EvaluationError} {m : Machine}
  {c : Context}

theorem bind_eq_done {b : β} :
    (x >>= f) r = .done b r' ↔ ∃ a r₁, x r = .done a r₁ ∧ f a r₁ = .done b r' := by
  show Run.bind x f r = _ ↔ _
  unfold Run.bind
  cases x r <;> simp

theorem bind_eq_stopped :
    (x >>= f) r = .stopped e r' ↔
      x r = .stopped e r' ∨ ∃ a r₁, x r = .done a r₁ ∧ f a r₁ = .stopped e r' := by
  show Run.bind x f r = _ ↔ _
  unfold Run.bind
  cases x r <;> simp

theorem look_bind_ite {p : State → Bool} {y z : Run α} : (look p >>= fun b => if b then y else z) r =
    if p r.state then y r else z r := by
  show (if p r.state then y else z) r = _
  split <;> rfl

theorem execute_eq {x : Exec α} {a : α} {s : State} (h : x m c r.state = .value a s) :
    execute m c x r = .done a { r with state := s } := by
  have hattempt : attempt m c x r = .done (.ok a) { r with state := s } :=
    congrArg (Realm.follow · r.tasks) h
  show Run.bind (attempt m c x) _ r = _
  unfold Run.bind
  rw [hattempt]
  rfl

theorem report_eq : ∃ interrupted sinks, execute m c reportRejections r =
    .done () { r with state := { r.state with rejections := #[], interrupted, sinks } } := by
  obtain ⟨interrupted, sinks, h⟩ := State.exists_showing { r.state with rejections := #[] } c.sink
    (r.state.unhandled.map fun id => (.error, r.state.rejectionText id))
  exact ⟨interrupted, sinks, h ▸ execute_eq reportRejections_eq⟩

theorem runJobs_done {fuel : Nat} (h : runJobs m c fuel r = .done () r') :
    r'.state.jobs.isEmpty = true ∧ r'.state.ready.isEmpty = true := by
  induction fuel generalizing r with
  | zero => cases h
  | succ fuel ih =>
    obtain ⟨_, r₁, -, h⟩ := (bind_eq_done).mp h
    obtain ⟨_, r₂, -, h⟩ := (bind_eq_done).mp h
    rw [takeJob_bind] at h
    cases hp : r₂.state.jobs.pop? with
    | some p =>
      simp only [hp] at h
      obtain ⟨_, r₃, -, h⟩ := (bind_eq_done).mp h
      obtain ⟨_, r₄, -, h⟩ := (bind_eq_done).mp h
      obtain ⟨_, r₅, -, h⟩ := (bind_eq_done).mp h
      exact ih h
    | none =>
      simp only [hp] at h
      rw [look_bind_ite] at h
      split at h
      case isTrue hready =>
        obtain ⟨interrupted, sinks, hreport⟩ := report_eq (m := m) (c := c) (r := r₂)
        rw [hreport] at h
        cases h
        exact ⟨Queue.isEmpty_iff.mpr (Queue.pop?_eq_none.mp hp), hready⟩
      case isFalse => exact ih h

theorem runDueTimer_done {b : Bool} (h : runDueTimer m c r = .done b r') : b = true ∨ b = false ∧ r' = r := by
  unfold runDueTimer at h
  rw [takeTimer_bind] at h
  split at h
  · obtain ⟨_, r₁, -, h⟩ := (bind_eq_done).mp h
    obtain ⟨_, r₂, -, h⟩ := (bind_eq_done).mp h
    cases h
    exact .inl rfl
  · cases h
    exact .inr ⟨rfl, rfl⟩

theorem runAll_done {fuel : Nat} (h : runAll m c fuel r = .done () r') :
    r'.state.hasPendingWork = false := by
  induction fuel generalizing r with
  | zero => cases h
  | succ fuel ih =>
    obtain ⟨_, r₁, hjobs, htimers⟩ := (bind_eq_done).mp h
    obtain ⟨again, r₂, htimer, hnext⟩ := (bind_eq_done).mp htimers
    obtain rfl | ⟨rfl, rfl⟩ := runDueTimer_done htimer
    · exact ih hnext
    · cases hdue : r₂.state.timers.nextDue? with
      | none =>
        obtain ⟨hj, hr⟩ := runJobs_done hjobs
        obtain ⟨due, r₃, hlook, hnext⟩ := (bind_eq_done).mp hnext
        cases hlook
        simp only [hdue] at hnext
        cases hnext
        simp [State.hasPendingWork, hj, hr, (TimerQueue.isEmpty_iff).mpr hdue]
      | some due =>
        obtain ⟨due, r₃, hlook, hnext⟩ := (bind_eq_done).mp hnext
        cases hlook
        simp only [hdue] at hnext
        obtain ⟨_, r₄, -, hnext⟩ := (bind_eq_done).mp hnext
        obtain ⟨_, r₅, -, hnext⟩ := (bind_eq_done).mp hnext
        exact ih hnext

theorem runEventLoop_done (h : runEventLoop m r = .done () r') : r'.state.hasPendingWork = false := by
  obtain ⟨c, r₁, -, h⟩ := (bind_eq_done).mp h
  exact runAll_done h

theorem check_done (h : execute m c checkInterrupts r = .done () r') :
    r'.state = { r.state with clock := r.state.clock + checkNanos } := by
  obtain ⟨o, r₁, hattempt, hdone⟩ := (bind_eq_done).mp h
  cases o with
  | error e => cases e <;> cases hdone
  | ok u =>
    cases hdone
    exact gives_checkInterrupts (Realm.outcome_of_follow hattempt)

theorem nextWake_eq_none {timer : Option Nat} {deadline : Option Deadline} :
    nextWake timer deadline = none ↔ timer = none ∧ deadline = none := by
  cases timer <;> cases deadline <;> simp [nextWake]

end Run

namespace Realm
variable {r r' : Realm} {e : EvaluationError}

theorem Sound.ne_stalled {a : Action} (h : r.Sound) (hx : a.run r = .stopped e r') :
    e ≠ .condition .stalled := by
  obtain ⟨w, hw, hs, ht⟩ := h
  obtain ⟨s, tasks⟩ := r
  cases hs
  have hends := a.ends hw ht
  rw [hx] at hends
  obtain ⟨w', hd, he⟩ := hends
  rintro rfl
  have hknown : w'.knows ⟨w'.state.heap.size⟩ := he ⟨w'.state.heap.size⟩
  exact Nat.lt_irrefl _ (hknown hd.rests.tracked).1

theorem Sound.wet {α : Type} {x : Run α} (h : r.Sound) (hx : x.Wet (fun _ => False) r) :
    (∀ e r', x r = .stopped e r' → e ≠ .condition .stalled) ∧ ∀ a r', x r = .done a r' → r'.Sound := by
  refine ⟨fun e r' hstop => ?_, fun a r' hdone => ?_⟩
  · obtain hfalse | ⟨as, r₁, a, hc, ha⟩ := hx.stopped e r' hstop
    · exact hfalse.elim
    · exact (h.course hc).ne_stalled ha
  · obtain ⟨as, hc, -⟩ := hx.course r' (by rw [hdone]; rfl)
    exact h.course hc

theorem Sound.outcome {slot : Nat} (h : r.Sound)
    (he : (r.state.outcomes[slot]?).join = some (.error e)) : e ≠ .condition .stalled := by
  obtain ⟨w, hw, hs, -⟩ := h
  obtain ⟨s, tasks⟩ := r
  cases hs
  have hmem : some (.error e) ∈ w.state.outcomes := Array.mem_of_getElem? (Option.join_eq_some_iff.mp he)
  have hknown : Met w (some (.error e) : Option (Except EvaluationError Value)) :=
    hw.inv.closed.outcomes _ hmem
  rintro rfl
  exact Nat.lt_irrefl _ ((hknown ⟨w.state.heap.size⟩ : w.knows _) hw.tracked).1

end Realm

namespace Run
variable {r r' : Realm} {c : Context} {n : Nat}

/-- An evaluation is found to be stalled when it has come to nothing, and nothing is left to do or to
wait for. -/
theorem awaitOutcome_stalled {slot fuel : Nat} (hr : r.Sound)
    (h : awaitOutcome (machine n) c slot fuel r = .stopped (.condition .stalled) r') :
    (r'.state.outcomes[slot]?).join = none ∧ r'.state.hasPendingWork = false ∧ c.deadline = none := by
  induction fuel generalizing r with
  | zero => cases h
  | succ fuel ih =>
    have hjobs := hr.wet (x := runJobs (machine n) c (machine n).fuel) runJobs_wet
    obtain hstop | ⟨_, r₁, hjobs₁, h⟩ := (bind_eq_stopped).mp h
    · exact (hjobs.1 _ _ hstop rfl).elim
    have hr₁ := hjobs.2 _ _ hjobs₁
    obtain ⟨hnojobs, hnoready⟩ := runJobs_done hjobs₁
    obtain hstop | ⟨outcome, r₂, hlook, h⟩ := (bind_eq_stopped).mp h
    · cases hstop
    cases hlook
    cases houtcome : (r₁.state.outcomes[slot]?).join with
    | some o =>
      simp only [houtcome] at h
      cases o with
      | ok v => cases h
      | error e =>
        cases h
        exact (hr₁.outcome houtcome rfl).elim
    | none =>
      simp only [houtcome] at h
      obtain hstop | ⟨_, r₂, hcheck, htimers⟩ := (bind_eq_stopped).mp h
      · exact (hr₁.ne_stalled (a := .check n c) hstop rfl).elim
      have hr₂ : r₂.Sound := hr₁.course (.cons (a := .check n c) (congrArg Progress.realm? hcheck) .nil)
      obtain hstop | ⟨again, r₃, htimer, hnext⟩ := (bind_eq_stopped).mp htimers
      · exact ((hr₂.wet runDueTimer_wet).1 _ _ hstop rfl).elim
      have hr₃ := (hr₂.wet runDueTimer_wet).2 _ _ htimer
      obtain rfl | ⟨rfl, rfl⟩ := runDueTimer_done htimer
      · exact ih hr₃ hnext
      obtain hstop | ⟨due, r₄, hlook, hwait⟩ := (bind_eq_stopped).mp hnext
      · cases hstop
      cases hlook
      cases hwake : nextWake r₃.state.timers.nextDue? c.deadline with
      | none =>
        simp only [hwake] at hwait
        cases hwait
        obtain ⟨htimers, hdeadline⟩ := (nextWake_eq_none).mp hwake
        have hstate := check_done hcheck
        refine ⟨by rw [hstate]; exact houtcome, ?_, hdeadline⟩
        have hempty := (TimerQueue.isEmpty_iff).mpr htimers
        rw [hstate] at hempty ⊢
        simp [State.hasPendingWork, hnojobs, hnoready, show r₁.state.timers.isEmpty = true from hempty]
      | some time =>
        simp only [hwake] at hwait
        obtain hstop | ⟨_, r₅, hchange, hagain⟩ := (bind_eq_stopped).mp hwait
        · cases hstop
        cases hchange
        exact ih (hr₃.course (.cons (a := .wait time) rfl .nil)) hagain

theorem finish_stalled {e : Evaluation} (hr : r.Sound)
    (h : finish (machine n) e r = .stopped (.condition .stalled) r') : ∃ c slot, e = .pending c slot ∧
      (r'.state.outcomes[slot]?).join = none ∧ r'.state.hasPendingWork = false ∧ c.deadline = none := by
  cases e with
  | complete => cases h
  | pending c slot => exact ⟨c, slot, rfl, awaitOutcome_stalled hr h⟩

end Run

/-- When jobs have run, no job is left and no task can go on; when all work in a realm is over, nothing
is left to do. An evaluation is said to be stalled only if it waits and has come to nothing, nothing is
left to do, and it has no deadline. -/
theorem quiescent_when_done {r : Realm} (hr : r.Reachable) {n : Nat} :
    (∀ m c fuel (r₀ r' : Realm), Run.runJobs m c fuel r₀ = .done () r' →
      r'.state.jobs.isEmpty = true ∧ r'.state.ready.isEmpty = true) ∧
    (∀ m (r₀ r' : Realm), Run.runEventLoop m r₀ = .done () r' → r'.state.hasPendingWork = false) ∧
    ∀ e r', Run.finish (machine n) e r = .stopped (.condition .stalled) r' →
      ∃ c slot, e = .pending c slot ∧ (r'.state.outcomes[slot]?).join = none ∧
        r'.state.hasPendingWork = false ∧ c.deadline = none :=
  ⟨fun _ _ _ _ _ => Run.runJobs_done, fun _ _ _ => Run.runEventLoop_done, fun _ _ =>
    Run.finish_stalled hr.sound⟩

def Progress.stalls {α : Type} : Progress α → Bool
  | .stopped (.condition .stalled) _ => true
  | _ => false

theorem Progress.exists_of_stalls {α : Type} {x : Progress α} (h : x.stalls = true) :
    ∃ r, x = .stopped (.condition .stalled) r := by
  unfold stalls at h
  split at h
  · exact ⟨_, rfl⟩
  · exact (Bool.false_ne_true h).elim

/-- A script that waits for a promise which is never settled. -/
def Trial.stalled : Trial Realm.plain where
  source := "await new Promise(() => \x7b \x7d)"
  sees e r := (Run.finish (machine 20) e r).stalls
  ends := by decide +kernel

/-- The script comes to wait, and to wait for it finds it stalled, with nothing left to do. -/
theorem quiescent_when_stalled : ∃ (c : Context) (slot : Nat) (r r' : Realm), r.Reachable ∧
    Run.evaluate (machine 20) Trial.stalled.source {} Realm.plain = .done (.pending c slot) r ∧
    Run.finish (machine 20) (.pending c slot) r = .stopped (.condition .stalled) r' ∧
    (r'.state.outcomes[slot]?).join = none ∧ r'.state.hasPendingWork = false ∧ c.deadline = none := by
  obtain ⟨e, r, as, heval, hc, -, hstalls⟩ := Trial.stalled.run
  have hr : r.Reachable := Realm.reachable_plain.course hc
  obtain ⟨r', hfinish⟩ := Progress.exists_of_stalls hstalls
  obtain ⟨c, slot, rfl, hidle⟩ := (quiescent_when_done hr).2.2 e r' hfinish
  exact ⟨c, slot, r, r', hr, heval, hfinish, hidle⟩

end EcmaScript
