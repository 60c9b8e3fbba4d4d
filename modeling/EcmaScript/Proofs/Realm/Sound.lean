import EcmaScript.Proofs.Realm.Initial
import EcmaScript.Proofs.Timer

/-! Every action leaves the realm in order. -/
namespace EcmaScript
open Exec

namespace Realm.Action

/-- Whether an action shows the rejections that nothing handles. -/
def isReport : Action → Bool
  | .report .. => true
  | _ => false

/-- The events that an action can consist of. -/
inductive Causes : Action → List Event → Prop where
  | ordinary {a : Action} {es : List Event} (ha : a.isReport = false)
    (h : ∀ e ∈ es, e.isOrdinary = true) : Causes a es
  | dry {a : Action} {es : List Event} (ha : a.isDry = true)
    (h : ∀ e ∈ es, e.isOrdinary = true ∨ e.isDiscard = true) : Causes a es
  | wake {id : Nat} {es : List Event} (h : ∀ e ∈ es, e.isOrdinary = true) : Causes .wake (.wake id :: es)
  | job {fuel : Nat} {c : Context} {job : Job} {es : List Event}
    (h : ∀ e ∈ es, e.isOrdinary = true ∨ ∃ slot waiter, e = .fill slot waiter) :
    Causes (.job fuel c) (.take job :: es)
  | report {fuel : Nat} {c : Context} {shown : List ObjectId} {es : List Event}
    (h : ∀ e ∈ es, e.isOrdinary = true) : Causes (.report fuel c) (.report shown :: es)

/-- An action leads from one state of affairs to another. -/
structure Did (a : Action) (w : World) (parked : List ParkedTask) (w' : World) (r' : Realm) : Prop
    extends Works w parked w' r'.tasks where
  state : w'.state = r'.state
  history : ∃ es, History w.state es r'.state ∧ a.Causes es

def Ends (a : Action) (w : World) (parked : List ParkedTask) : Progress Unit → Prop
  | .done _ r' => ∃ w', a.Did w parked w' r'
  | .stopped e r' => ∃ w', a.Did w parked w' r' ∧ Met w' e
  | .exhausted => True

end Realm.Action

namespace World
variable {w : World} {parked : List ParkedTask}

/-- What the realm itself does with its queues. -/
theorem works_outer (jobs : Queue Job) (timers : TimerQueue) (rejections : Array ObjectId)
    (maxDepth : Nat) (effectTables : Array EffectTable) (hw : w.Rests) (ht : ∃ O, w.Tends O parked)
    (hjobs : ∀ j ∈ jobs.toList, j ∈ w.state.jobs.toList) (htimers : Met w timers) (hn : timers.Numbered) :
    Works w parked { w with state := { w.state with
      jobs, timers, rejections, maxDepth, effectTables } } parked := by
  have hgrows : Grows w { w with state := { w.state with
      jobs, timers, rejections, maxDepth, effectTables } } := .outer rfl rfl rfl rfl
  obtain ⟨O, ht⟩ := ht
  exact {
    toGrows := hgrows
    rests := { hw with
      inv := hw.inv.outer hw.isOpen hw.quiet hjobs htimers hn hw.inv.closed.fatal }
    tends := ⟨O, ht.congr hgrows rfl rfl fun t hmem => (ht.holds t hmem).waits⟩
    filled := fun _ h => h
    joined := fun _ => .inl }

end World

theorem Event.changes_discard {s : State} {marks : Marks} :
    (Event.discard marks.jobs marks.rejections).Changes s (s.discardAfter marks) where
  promise _ := .same nofun
  slot _ := .same nofun
  jobs := by
    show s.jobs.toList.take marks.jobs ++ [] = [] ++ (s.jobs.truncate marks.jobs).toList
    simp [Queue.toList_truncate]
  ready := List.append_nil _
  rejections := by
    show (s.rejections.shrink marks.rejections).toList = s.rejections.toList.take marks.rejections
    simp
  shown := nofun
  latches := .refl

namespace Run.Plain
variable {α : Type} {wet : Prop} {w : World} {parked : List ParkedTask}

theorem discardAfter {marks : Marks} (hw : w.Rests) (ht : ∃ O, w.Tends O parked) (hwet : ¬ wet) :
    (Run.change (·.discardAfter marks)).Plain wet w parked fun _ _ => True :=
  ⟨{ w with state := w.state.discardAfter marks }, {
    toWorks := World.works_outer _ _ _ _ _ hw ht
      (fun _ hj => List.mem_of_mem_take (Queue.toList_truncate _ _ ▸ hj))
      (within_of_subset hw.inv.closed.timers fun _ he => List.mem_of_mem_filter he)
      fun e he => hw.inv.numbered hw.tracked e (List.mem_of_mem_filter he)
    state := rfl
    history := ⟨_, .single Event.changes_discard, by simp [hwet, Event.isDiscard]⟩ }, trivial⟩

end Run.Plain

def Exec.reportRejection (id : ObjectId) : Exec Unit := do
  match (← object id).kind with
  | .promise { state := .rejected reason, handled := false, .. } =>
    console .error ("Uncaught (in promise) " ++ (← look (·.describeThrown reason)))
  | _ => return

namespace Realm.Action
variable {a : Action} {w : World} {parked : List ParkedTask} {n : Nat} {c : Context}

theorem Causes.of_came {es : List Event} (ha : a.isReport = false)
    (h : ∀ e ∈ es, e.isOrdinary = true ∨ ¬ a.isDry = false ∧ e.isDiscard = true) : a.Causes es := by
  cases hdry : a.isDry with
  | false => exact .ordinary ha fun e he => (h e he).resolve_right fun hd => hd.1 hdry
  | true => exact .dry hdry fun e he => (h e he).imp_right And.right

theorem Ends.of_plain {x : Run Unit} {Q : Unit → World → Prop} (ha : a.isReport = false)
    (h : x.Plain (a.isDry = false) w parked Q) (hx : a.run ⟨w.state, parked⟩ = x ⟨w.state, parked⟩) :
    a.Ends w parked (a.run ⟨w.state, parked⟩) := by
  have hdid {w' : World} {r' : Realm} (hc : Came (a.isDry = false) w parked w' r') :
      a.Did w parked w' r' := { hc with
    history := hc.history.imp fun es hes => ⟨hes.1, .of_came ha hes.2⟩ }
  rw [hx]
  unfold Run.Plain at h
  generalize x ⟨w.state, parked⟩ = p at h
  cases p with
  | done _ r' => exact h.imp fun _ hc => hdid hc.1
  | stopped e r' => exact h.imp fun _ hc => ⟨hdid hc.1, hc.2⟩
  | exhausted => trivial

/-- Work that follows on a first event. -/
theorem Ends.after {x : Run Unit} {Q : Unit → World → Prop} {e : Event} {w₁ : World}
    (hworks : Works w parked w₁ parked) (he : e.Changes w.state w₁.state)
    (h : x.Plain True w₁ parked Q)
    (hcauses : ∀ es : List Event, (∀ e ∈ es, e.isOrdinary = true) → a.Causes (e :: es)) :
    a.Ends w parked (x ⟨w₁.state, parked⟩) := by
  have hdid {w' : World} {r' : Realm} (hc : Came True w₁ parked w' r') : a.Did w parked w' r' := by
    obtain ⟨es, hes, ho⟩ := hc.ordinary
    exact { hworks.trans hc.toWorks with
      state := hc.state
      history := ⟨_, .cons he hes, hcauses es ho⟩ }
  unfold Run.Plain at h
  generalize x ⟨w₁.state, parked⟩ = p at h
  cases p with
  | done _ r' => exact h.imp fun _ hc => hdid hc.1
  | stopped e r' => exact h.imp fun _ hc => ⟨hdid hc.1, hc.2⟩
  | exhausted => trivial

theorem Ends.after_other {x : Run Unit} {Q : Unit → World → Prop} {w₁ : World}
    (ha : a.isReport = false) (hworks : Works w parked w₁ parked) (he : Event.other.Changes w.state w₁.state)
    (h : x.Plain True w₁ parked Q) : a.Ends w parked (x ⟨w₁.state, parked⟩) := by
  refine .after hworks he h fun es hes => .ordinary ha fun e he => ?_
  rcases List.mem_cons.mp he with rfl | he
  · rfl
  · exact hes e he

end Realm.Action

namespace Run
variable {w : World} {parked : List ParkedTask} {n : Nat}

theorem spawnScript_safe {m : Machine} [Serves (.same m)] {c : Context} {frame : Frame}
    {slot : Nat} {scope : ScopeId} {body : List Statement} (hs : w.ownsScope scope) :
    Safe (.same m) c w (spawn frame (evaluateInto slot scope body)) Known := by
  rw [← bind_pure (spawn frame (evaluateInto slot scope body))]
  exact spawn_bind (fun T w' h => evaluateInto_safe (h.ownsScope hs)) (fun k w' _ hk => .pure hk)
    fun k w' _ _ hk => hk.2.elim

theorem begin_plain {source : String} {script : Script} {o : EvaluateOptions} (hw : w.Rests)
    (ht : ∃ O, w.Tends O parked) :
    (begin (machine n) source script o).Plain (o.dryRun = false) w parked fun _ _ => True := by
  unfold begin
  refine .bind (Q := fun _ _ => True) (.update hw ht (.of_act .aside) trivial)
    fun c w₁ parked₁ _ hw₁ ht₁ _ => ?_
  extract_lets evaluating
  have hevaluating {w₂ : World} {parked₂ : List ParkedTask} (scope : ScopeId) (hw₂ : w₂.Rests)
      (ht₂ : ∃ O, w₂.Tends O parked₂) :
      (evaluating scope).Plain (o.dryRun = false) w₂ parked₂ fun _ _ => True := by
    refine .bind (Q := fun _ _ => True) (.look hw₂ ht₂ trivial) fun marks w₃ parked₃ _ hw₃ ht₃ _ => ?_
    refine .bind (Q := fun _ _ => True)
      (.update hw₃ ht₃ (.of_act (.outcomes (within_push hw₃.inv.closed.outcomes trivial))) trivial)
      fun slot w₄ parked₄ _ hw₄ ht₄ _ => ?_
    refine .bind (.attempt hw₄ ht₄ (spawnScript_safe (hw₄.isOpen.ownsScope _)))
      fun spawned w₅ parked₅ _ hw₅ ht₅ hspawned => ?_
    extract_lets ending
    have hending {w₆ : World} {parked₆ : List ParkedTask} (u : Unit) (hg : Grows w₅ w₆) (hw₆ : w₆.Rests)
        (ht₆ : ∃ O, w₆.Tends O parked₆) :
        (ending u).Plain (o.dryRun = false) w₆ parked₆ fun _ _ => True := by
      unfold ending
      cases spawned with
      | ok => exact .pure hw₆ ht₆ trivial
      | error e => exact .stopFor hw₆ ht₆ (hg.met (hspawned.2 e rfl))
    split
    · rename_i hdry
      exact .bind (.discardAfter hw₅ ht₅ (by simp [hdry])) fun u w₆ parked₆ hg hw₆ ht₆ _ =>
        hending u hg hw₆ ht₆
    · exact hending () .refl hw₅ ht₅
  split
  · refine .bind (Q := fun _ _ => True) (.update hw₁ ht₁ (.of_act (.newScope ⟨?_, within_nil⟩ nofun)) trivial)
      fun scope w₂ parked₂ _ hw₂ ht₂ _ => hevaluating scope hw₂ ht₂
    exact ⟨hw₁.inv.closed.globalObject, trivial, trivial⟩
  · exact hevaluating _ hw₁ ht₁

end Run

namespace Realm
variable {parked : List ParkedTask} {e : EvaluationError} {r : Realm}

theorem advance_ne_stopped {id depth : Nat} {task : Task} :
    Realm.advance id depth task parked ≠ .stopped e r := by
  induction task generalizing parked with
  | parked _ _ _ _ _ _ _ ih => exact ih _
  | _ => nofun

theorem poll_ne_stopped {id : Nat} {s : State} : Realm.poll id ⟨s, parked⟩ ≠ .stopped e r := by
  unfold Realm.poll
  dsimp only
  split
  · nofun
  · split
    · nofun
    · exact advance_ne_stopped

end Realm

namespace Realm.Action
variable {w : World} {parked : List ParkedTask} {n : Nat} {c : Context}

theorem begin_ends {source : String} {script : Script} {o : EvaluateOptions} (hw : w.Rests)
    (ht : ∃ O, w.Tends O parked) :
    (begin n source script o).Ends w parked ((begin n source script o).run ⟨w.state, parked⟩) := by
  have hplain : (Run.begin (machine n) source script o).Plain (o.dryRun = false) w parked
      fun _ _ => True := Run.begin_plain hw ht
  exact .of_plain rfl (.bind hplain fun _ _ _ _ hw' ht' _ => .pure (Q := fun _ _ => True) hw' ht' trivial) rfl

theorem wake_ends (hw : w.Rests) (ht : ∃ O, w.Tends O parked) :
    wake.Ends w parked (wake.run ⟨w.state, parked⟩) := by
  rw [run, Run.takeReady_bind]
  dsimp only
  cases hp : w.state.ready.pop? with
  | none =>
    exact ⟨w, { Works.refl hw ht with state := rfl, history := ⟨[], .nil, .ordinary rfl (by simp)⟩ }⟩
  | some p =>
    obtain ⟨id, rest⟩ := p
    dsimp only
    cases hx : Realm.poll id ⟨{ w.state with ready := rest }, parked⟩ with
    | done _ r' =>
      obtain ⟨es, w', hworks, hs, hes, ho, -⟩ := poll_works hw ht hp hx
      exact ⟨w', { hworks with state := hs, history := ⟨_, hes, .wake ho⟩ }⟩
    | stopped e r' => exact (poll_ne_stopped hx).elim
    | exhausted => trivial

theorem takes_job {job : Job} {rest : Queue Job} (hw : w.Rests) (ht : ∃ O, w.Tends O parked)
    (hp : w.state.jobs.pop? = some (job, rest)) :
    Works w parked { w with state := { w.state with jobs := rest } } parked ∧
      (Event.take job).Changes w.state { w.state with jobs := rest } :=
  ⟨World.works_outer _ _ _ _ _ hw ht (fun j hj => by simp [Queue.toList_of_pop? hp, hj])
    hw.inv.closed.timers (hw.inv.numbered hw.tracked), {
    promise := fun _ => .same nofun
    slot := fun _ => .same nofun
    jobs := by simp [Event.kept, Event.enqueued, Event.taken, Queue.toList_of_pop? hp]
    ready := List.append_nil _
    rejections := rfl
    shown := nofun
    latches := .refl }⟩

theorem wakes_of_isWaking {job : Job} {rest : Queue Job} (hw : w.Rests)
    (hp : w.state.jobs.pop? = some (job, rest)) (hj : job.isWaking = true) :
    ∃ slot, job.wakes? w.state = some slot := by
  have hmem : job ∈ w.state.jobs.toList := by simp [Queue.toList_of_pop? hp]
  cases job with
  | react r v =>
    have hnone : r.capability = none := by simpa [Job.isWaking] using hj
    obtain ⟨id, slot, hh, hs⟩ := hw.inv.waking hw.tracked r (.job v hmem) hnone
    obtain ⟨capability, fulfilled, handler⟩ := r
    cases hnone
    cases hh
    exact ⟨slot, hs⟩
  | _ => cases hj

theorem perform_plain {taken : Job} (hw : w.Rests) (ht : ∃ O, w.Tends O parked) (hjob : Met w taken)
    (hwaking : taken.isWaking = false) : (Run.perform (machine n) c taken).Plain True w parked Known :=
  .bind (.execute (Q := Known) hw ht checkInterrupts_safe) fun _ _ _ hg hw₁ ht₁ _ =>
    .execute hw₁ ht₁ (runReporting_safe (runJob_safe (hg.met hjob) hwaking))

theorem waking_ends {taken : Job} {slot : Nat} {w₁ : World} (hworks : Works w parked w₁ parked)
    (htake : (Event.take taken).Changes w.state w₁.state) (hjob : Met w taken)
    (hslot : taken.wakes? w.state = some slot) :
    (job n c).Ends w parked (Run.perform (machine n) c taken ⟨w₁.state, parked⟩) := by
  have hdid {w' : World} {r' : Realm} (hwoke : Woke w₁ parked slot w' r') :
      (job n c).Did w parked w' r' := by
    obtain ⟨es, hes, ho⟩ := hwoke.history
    rw [hwoke.realm]
    exact { hworks.trans hwoke.toWorks with
      state := rfl
      history := ⟨_, .cons htake hes, .job fun e he =>
        (ho e he).imp_right fun ⟨waiter, he⟩ => ⟨slot, waiter, he⟩⟩ }
  have hwaking : (Run.perform (machine n) c taken).Waking slot w₁ parked :=
    .perform hworks.rests hworks.tends (hworks.toGrows.wakes? hslot) (hworks.met hjob)
  unfold Run.Waking at hwaking
  generalize Run.perform (machine n) c taken ⟨w₁.state, parked⟩ = p at hwaking
  cases p with
  | done _ r' => exact hwaking.imp fun _ => hdid
  | stopped e r' => exact hwaking.imp fun _ h => ⟨hdid h.1, h.2⟩
  | exhausted => trivial

theorem job_ends (hw : w.Rests) (ht : ∃ O, w.Tends O parked) :
    (job n c).Ends w parked ((job n c).run ⟨w.state, parked⟩) := by
  rw [run, Run.takeJob_bind]
  dsimp only
  cases hp : w.state.jobs.pop? with
  | none =>
    exact ⟨w, { Works.refl hw ht with state := rfl, history := ⟨[], .nil, .ordinary rfl (by simp)⟩ }⟩
  | some p =>
    obtain ⟨taken, rest⟩ := p
    dsimp only
    obtain ⟨hworks, htake⟩ := takes_job hw ht hp
    have hjob : Met w taken := within_of_mem hw.inv.closed.jobs (by simp [Queue.toList_of_pop? hp])
    cases hwaking : taken.isWaking with
    | false =>
      exact .after hworks htake (perform_plain hworks.rests hworks.tends (hworks.met hjob) hwaking)
        fun es hes => .job fun e he => .inl (hes e he)
    | true =>
      obtain ⟨slot, hslot⟩ := wakes_of_isWaking hw hp hwaking
      exact waking_ends hworks htake hjob hslot

theorem timer_ends (hw : w.Rests) (ht : ∃ O, w.Tends O parked) :
    (timer n c).Ends w parked ((timer n c).run ⟨w.state, parked⟩) := by
  rw [run, Run.takeTimer_bind]
  dsimp only
  cases hp : w.state.timers.popDue w.state.clock with
  | none =>
    exact ⟨w, { Works.refl hw ht with state := rfl, history := ⟨[], .nil, .ordinary rfl (by simp)⟩ }⟩
  | some p =>
    obtain ⟨t, rest⟩ := p
    obtain ⟨e, he, rfl, -, hrest⟩ := TimerQueue.popDue_eq_some.mp hp
    have hnumbered := hw.inv.numbered hw.tracked
    have hmem : e ∈ w.state.timers.entries := by simp [he]
    have hsub : ∀ f ∈ rest.entries, f ∈ w.state.timers.entries := fun f hf => by simp [he, hf]
    have hlast : rest.lastId = w.state.timers.lastId := by rw [hrest]
    have hworks := World.works_outer w.state.jobs rest w.state.rejections w.state.maxDepth
      w.state.effectTables hw ht (fun _ h => h) (within_of_subset hw.inv.closed.timers hsub)
        fun f hf => hlast ▸ hnumbered f (hsub f hf)
    have hentry : Met w e := within_of_mem hw.inv.closed.timers hmem
    have htimer : Met w e.timer := hentry
    exact .after_other rfl hworks
      (Event.changes_aside rfl rfl rfl rfl rfl rfl)
      (.execute hworks.rests hworks.tends
        (runTimer_safe hw.isOpen (hworks.met htimer) fun _ => hlast ▸ hnumbered e hmem))

theorem reportRejection_safe {P : Pairing} [Serves P] {id : ObjectId} :
    Safe P c w (reportRejection id) Known := by
  refine .look_bind fun _ => ?_
  split
  · exact .look_bind fun _ => console_safe
  · exact .pure trivial

theorem report_ends (hw : w.Rests) (ht : ∃ O, w.Tends O parked) :
    (report n c).Ends w parked ((report n c).run ⟨w.state, parked⟩) := by
  have hworks := World.works_outer w.state.jobs w.state.timers #[] w.state.maxDepth
    w.state.effectTables hw ht (fun _ h => h) hw.inv.closed.timers (hw.inv.numbered hw.tracked)
  have hreport : (Event.report w.state.unhandled).Changes w.state { w.state with rejections := #[] } := {
    promise := fun _ => .same nofun
    slot := fun _ => .same nofun
    jobs := List.append_nil _
    ready := List.append_nil _
    rejections := rfl
    shown := fun _ h => by cases h; rfl
    latches := .refl }
  exact Ends.after hworks hreport
    (x := Run.execute (machine n) c (w.state.rejections.toList.forM reportRejection)) (Q := Known)
    (.execute hworks.rests hworks.tends
      (.forM (fun _ _ _ _ => reportRejection_safe) fun _ _ => trivial)) fun es hes => .report hes

theorem ends (a : Action) (hw : w.Rests) (ht : ∃ O, w.Tends O parked) :
    a.Ends w parked (a.run ⟨w.state, parked⟩) := by
  cases a with
  | begin n source script o => exact begin_ends hw ht
  | wake => exact wake_ends hw ht
  | job n c => exact job_ends hw ht
  | timer n c => exact timer_ends hw ht
  | report n c => exact report_ends hw ht
  | check n c => exact .of_plain rfl (.execute (Q := Known) hw ht checkInterrupts_safe) rfl
  | raiseFatal => exact .of_plain rfl (.raiseFatal (Q := fun _ _ => True) hw ht fun _ _ => trivial) rfl
  | wait time =>
    exact .of_plain rfl (x := Run.change (·.waitUntil time)) (Q := fun _ _ => True)
      (.change hw ht (.of_act .aside) trivial) rfl
  | configure maxDepth interrupted sinks effectTables =>
    have hworks := World.works_outer w.state.jobs w.state.timers w.state.rejections maxDepth
      effectTables hw ht (fun _ h => h) hw.inv.closed.timers (hw.inv.numbered hw.tracked)
    exact Ends.after_other (x := Run.change fun s => { s with interrupted, sinks })
      (Q := fun _ _ => True) rfl hworks
      (Event.changes_aside rfl rfl rfl rfl rfl rfl)
      (.change hworks.rests hworks.tends (.of_act .aside) trivial)
  | addScope =>
    have hscope : Met w ({ kind := .global w.state.globalObject, parent := none } : Scope) :=
      ⟨hw.inv.closed.globalObject, within_nil⟩
    exact .of_plain rfl (x := Run.change fun s =>
        { s with scopes := s.scopes.push { kind := .global s.globalObject, parent := none } })
      (Q := fun _ _ => True) (.change hw ht (.of_act (.newScope hscope nofun)) trivial) rfl

theorem did {a : Action} {r' : Realm} (hw : w.Rests) (ht : ∃ O, w.Tends O parked)
    (hr : (a.run ⟨w.state, parked⟩).realm? = some r') : ∃ w', a.Did w parked w' r' := by
  have h := a.ends hw ht
  generalize a.run ⟨w.state, parked⟩ = p at h hr
  cases p with
  | done _ r => exact Option.some.inj hr ▸ h
  | stopped e r => exact Option.some.inj hr ▸ h.imp fun _ hd => hd.1
  | exhausted => cases hr

/-- The events that a sequence of actions consists of. -/
inductive Traces : List Action → List Event → Prop where
  | nil : Traces [] []
  | cons {a : Action} {as : List Action} {es es' : List Event} (h : a.Causes es) (hs : Traces as es') :
    Traces (a :: as) (es ++ es')

theorem Causes.enqueue {a : Action} {es : List Event} (h : a.Causes es) {job : Job}
    (he : .enqueue job ∈ es) : job.isReaction = false := by
  have hordinary {es : List Event} (h : ∀ e ∈ es, e.isOrdinary = true) (he : .enqueue job ∈ es) :
      job.isReaction = false := by simpa [Event.isOrdinary] using h _ he
  cases h with
  | ordinary _ h => exact hordinary h he
  | dry _ h => simpa [Event.isOrdinary, Event.isDiscard] using h _ he
  | wake h | report h => exact hordinary h (by simpa using he)
  | job h =>
    rcases h _ (by simpa using he) with h | ⟨_, _, h⟩
    · simpa [Event.isOrdinary] using h
    · cases h

theorem Traces.enqueue {as : List Action} {es : List Event} (h : Traces as es) {job : Job}
    (he : .enqueue job ∈ es) : job.isReaction = false := by
  induction h with
  | nil => cases he
  | cons h _ ih => exact (List.mem_append.mp he).elim h.enqueue ih

end Realm.Action

namespace Realm
variable {r r' : Realm} {as : List Action}

def Sound (r : Realm) : Prop := ∃ w : World, w.Rests ∧ w.state = r.state ∧ ∃ O, w.Tends O r.tasks

theorem initial_laid {globals : List (String × Value)} (hg : ∀ g ∈ globals, g.2.object? = none) :
    (initial globals).state.Laid := by
  unfold initial
  dsimp only
  exact State.laid_initial hg

theorem Sound.of_laid (h : r.state.Laid) (ht : r.tasks = []) : r.Sound :=
  ⟨.fresh r.state, h.rests, rfl, fun _ _ => False, ht ▸ .empty⟩

theorem initial_sound {globals : List (String × Value)} (hg : ∀ g ∈ globals, g.2.object? = none) :
    (initial globals).Sound :=
  .of_laid (initial_laid hg) rfl

theorem Sound.action {a : Action} (h : r.Sound) (hr : (a.run r).realm? = some r') :
    r'.Sound ∧ ∃ es, History r.state es r'.state ∧ a.Causes es := by
  obtain ⟨w, hw, hs, ht⟩ := h
  obtain ⟨s, tasks⟩ := r
  cases hs
  obtain ⟨w', hd⟩ := Action.did hw ht hr
  exact ⟨⟨w', hd.rests, hd.state, hd.tends⟩, hd.history⟩

theorem Sound.course (h : r.Sound) (hc : r.Course as r') : r'.Sound := by
  induction hc with
  | nil => exact h
  | cons hr _ ih => exact ih (h.action hr).1

theorem Sound.keepsNatives (h : r.Sound) (hc : r.Course as r') : r.state.KeepsNatives r'.state := by
  induction hc with
  | nil => exact .refl
  | @cons r r₁ r' a as hr _ ih =>
    have hrest := ih (h.action hr).1
    obtain ⟨w, hw, hs, ht⟩ := h
    obtain ⟨s, tasks⟩ := r
    cases hs
    obtain ⟨w', hd⟩ := Action.did hw ht hr
    exact (hd.state ▸ hd.natives hw.tracked : w.state.KeepsNatives r₁.state).trans hrest

theorem Reachable.sound (h : r.Reachable) : r.Sound := by
  obtain ⟨globals, as, hg, hc⟩ := h
  exact (initial_sound hg).course hc

theorem Sound.history (h : r.Sound) (hc : r.Course as r') :
    ∃ es, History r.state es r'.state ∧ Action.Traces as es := by
  induction hc with
  | nil => exact ⟨[], .nil, .nil⟩
  | cons hr _ ih =>
    obtain ⟨hsound, es, hes, hcauses⟩ := h.action hr
    obtain ⟨es', hes', htraces⟩ := ih hsound
    exact ⟨es ++ es', hes.append hes', .cons hcauses htraces⟩

end Realm
end EcmaScript
