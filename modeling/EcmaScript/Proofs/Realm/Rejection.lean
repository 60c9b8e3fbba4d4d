import EcmaScript.Proofs.Realm.Promise

/-! Rejections that nothing handles are shown once, in the order in which they came up. -/
namespace EcmaScript
open Exec

namespace Event

/-- Whether an event registers reactions with a promise. -/
def registers (id : ObjectId) : Event → Bool
  | register id' .. => id' == id
  | _ => false

/-- The promises whose rejections an event shows. -/
def shown : Event → List ObjectId
  | report ids => ids
  | _ => []

def isReport : Event → Bool
  | report _ => true
  | _ => false

/-- The promises that were rejected since rejections were shown. -/
def rejectedSince (ids : List ObjectId) : Event → List ObjectId
  | settle id (.rejected _) _ => ids ++ [id]
  | report _ => []
  | _ => ids

end Event

/-- The reason for which a promise is rejected. -/
def PromiseState.reason? : PromiseState → Option Value
  | .rejected reason => some reason
  | _ => none

namespace State
variable {s s' : State} {id : ObjectId} {shown : List ObjectId}

def reason? (s : State) (id : ObjectId) : Option Value :=
  (s.object id).promise?.bind (·.state.reason?)

def rejectionText (s : State) (id : ObjectId) : String :=
  "Uncaught (in promise) " ++ s.describeThrown ((s.reason? id).getD .undefined)

/-- Promises are tracked once, and only when they are rejected. Those that were shown already are not
tracked again. -/
structure Tracks (s : State) (shown : List ObjectId) : Prop where
  nodup : (shown ++ s.rejections.toList).Nodup
  rejected : ∀ id ∈ shown ++ s.rejections.toList, (s.reason? id).isSome

theorem unhandled_eq : s.unhandled =
    s.rejections.toList.filter fun id => (s.reason? id).isSome && !s.handles id := by
  refine List.filter_congr fun id _ => ?_
  unfold reason? handles
  cases (s.object id).promise? with
  | none => rfl
  | some p =>
    obtain ⟨state, onFulfilled, onRejected, handled⟩ := p
    cases state <;> cases handled <;> rfl

theorem unhandled_sublist : s.unhandled.Sublist s.rejections.toList := List.filter_sublist

theorem Tracks.unhandled_eq (h : s.Tracks shown) :
    s.unhandled = s.rejections.toList.filter fun id => !s.handles id := by
  rw [State.unhandled_eq]
  refine List.filter_congr fun id hid => ?_
  rw [h.rejected id (List.mem_append_right _ hid), Bool.true_and]

end State

namespace Event.Changes
variable {e : Event} {s s' : State} {id : ObjectId} {shown : List ObjectId}

theorem handles (h : e.Changes s s') (id : ObjectId) : s'.handles id = (s.handles id || e.registers id) := by
  have hp := h.promise id
  have hregisters (hne : e.promise? ≠ some id) : e.registers id = false := by
    cases e with
    | register => simpa [Event.promise?, registers] using hne
    | _ => rfl
  unfold State.handles
  generalize (s.object id).promise? = p? at hp
  generalize (s'.object id).promise? = p?' at hp
  cases hp with
  | settle _ _ he => simp [he, registers]
  | @register p onValue onReason he =>
    have hhandled : (p.register onValue onReason).handled = true := by
      unfold PromiseData.register
      split <;> rfl
    simp [he, registers, hhandled]
  | same hne => simp [hregisters hne]
  | born hne => simp [hregisters hne]

theorem reason (h : e.Changes s s') (hr : (s.reason? id).isSome) : (s'.reason? id).isSome := by
  have hp := h.promise id
  unfold State.reason? at hr ⊢
  generalize (s.object id).promise? = p? at hp hr
  generalize (s'.object id).promise? = p?' at hp
  cases hp with
  | settle hpending =>
    rw [Option.bind_some, hpending] at hr
    cases hr
  | register =>
    rw [Option.bind_some, PromiseData.state_register]
    exact hr
  | same => exact hr
  | born => cases hr

theorem shown_sublist (h : e.Changes s s') :
    (e.shown ++ s'.rejections.toList).Sublist s.rejections.toList ∨
    ∃ id, e.shown ++ s'.rejections.toList = s.rejections.toList ++ [id] ∧ s.reason? id = none ∧
      (s'.reason? id).isSome := by
  have hrejections := h.rejections
  cases e with
  | settle id state jobs =>
    cases state with
    | rejected reason =>
      dsimp only [Event.rejections] at hrejections
      split at hrejections
      · exact .inl (hrejections ▸ .refl _)
      · refine .inr ⟨id, hrejections, ?_⟩
        have hp := h.promise id
        unfold State.reason?
        generalize (s.object id).promise? = p? at hp
        generalize (s'.object id).promise? = p?' at hp
        cases hp with
        | settle hpending _ he =>
          cases he
          rw [Option.bind_some, hpending]
          exact ⟨rfl, rfl⟩
        | register he => cases he
        | same hne => exact (hne rfl).elim
        | born hne => exact (hne rfl).elim
    | _ => exact .inl (hrejections ▸ .refl _)
  | report ids =>
    refine .inl ?_
    rw [show s'.rejections.toList = [] from hrejections, List.append_nil, h.shown ids rfl]
    exact State.unhandled_sublist
  | discard => exact .inl (hrejections ▸ List.take_sublist _ _)
  | _ => exact .inl (hrejections ▸ .refl _)

theorem tracks (h : e.Changes s s') (ht : s.Tracks shown) : s'.Tracks (shown ++ e.shown) := by
  rcases h.shown_sublist with hsub | ⟨id, heq, hnone, hsome⟩
  · have hsub := hsub.append_left shown
    rw [← List.append_assoc] at hsub
    exact ⟨ht.nodup.sublist hsub, fun id hid => h.reason (ht.rejected id (hsub.mem hid))⟩
  · have heq : shown ++ e.shown ++ s'.rejections.toList = shown ++ s.rejections.toList ++ [id] := by
      rw [List.append_assoc, heq, List.append_assoc]
    have hnew : id ∉ shown ++ s.rejections.toList := fun hid => by
      simpa [hnone] using ht.rejected id hid
    refine ⟨heq ▸ List.nodup_append.mpr ⟨ht.nodup, List.nodup_singleton _, by grind⟩, fun id' hid => ?_⟩
    rw [heq] at hid
    rcases List.mem_append.mp hid with hid | hid
    · exact h.reason (ht.rejected id' hid)
    · exact List.mem_singleton.mp hid ▸ hsome

theorem filter_handles (h : e.Changes s s') (hd : e.isDiscard = false) {ids : List ObjectId}
    (hids : s.rejections.toList.filter (!s.handles ·) = ids.filter (!s.handles ·)) :
    s'.rejections.toList.filter (!s'.handles ·) = (Event.rejectedSince ids e).filter (!s'.handles ·) := by
  have hboth : ∀ ids : List ObjectId, ids.filter (!s'.handles ·) =
      (ids.filter (!s.handles ·)).filter (!e.registers ·) := fun ids => by
    rw [List.filter_filter]
    exact List.filter_congr fun id _ => by rw [h.handles, Bool.not_or, Bool.and_comm]
  have hsame : s.rejections.toList.filter (!s'.handles ·) = ids.filter (!s'.handles ·) := by
    rw [hboth, hboth, hids]
  rw [h.rejections]
  cases e with
  | settle id state jobs =>
    cases state with
    | rejected reason =>
      dsimp only [Event.rejections, Event.rejectedSince]
      have hhandles := h.handles id
      split
      · rename_i hhandled
        simp [List.filter_append, hsame, hhandles, hhandled]
      · simp [List.filter_append, hsame]
    | _ => exact hsame
  | discard => cases hd
  | report => rfl
  | _ => exact hsame

end Event.Changes

namespace History
variable {s s' : State} {es : List Event} {id : ObjectId} {shown : List ObjectId}

theorem handles (h : History s es s') : s'.handles id = (s.handles id || es.any (·.registers id)) := by
  induction h with
  | nil => simp
  | cons h _ ih => rw [ih, h.handles, List.any_cons, Bool.or_assoc]

theorem tracks (h : History s es s') (ht : s.Tracks shown) : s'.Tracks (shown ++ es.flatMap (·.shown)) := by
  induction h generalizing shown with
  | nil => simpa using ht
  | cons h _ ih =>
    rw [List.flatMap_cons, ← List.append_assoc]
    exact ih (h.tracks ht)

theorem filter_handles (h : History s es s') (hd : ∀ e ∈ es, e.isDiscard = false) {ids : List ObjectId}
    (hids : s.rejections.toList.filter (!s.handles ·) = ids.filter (!s.handles ·)) :
    s'.rejections.toList.filter (!s'.handles ·) =
      (es.foldl Event.rejectedSince ids).filter (!s'.handles ·) := by
  induction h generalizing ids with
  | nil => exact hids
  | cons h _ ih =>
    obtain ⟨he, hes⟩ := List.forall_mem_cons.mp hd
    exact ih hes (h.filter_handles he hids)

/-- What is left to be shown: what was rejected since rejections were shown, less that with which
reactions were registered. -/
theorem unhandled_eq (h : History s es s') (hd : ∀ e ∈ es, e.isDiscard = false) (ht : s.Tracks shown) :
    s'.unhandled = (es.foldl Event.rejectedSince s.rejections.toList).filter fun id =>
      !(s.handles id || es.any (·.registers id)) := by
  rw [(h.tracks ht).unhandled_eq, h.filter_handles hd rfl]
  exact List.filter_congr fun id _ => by rw [h.handles]

theorem split {before after : List Event} {e : Event} (h : History s (before ++ e :: after) s') :
    ∃ s₁ s₂, History s before s₁ ∧ e.Changes s₁ s₂ ∧ History s₂ after s' := by
  induction before generalizing s with
  | nil =>
    cases h with
    | cons he hafter => exact ⟨s, _, .nil, he, hafter⟩
  | cons _ _ ih =>
    cases h with
    | cons hfirst hrest =>
      obtain ⟨s₁, s₂, hbefore, he, hafter⟩ := ih hrest
      exact ⟨s₁, s₂, .cons hfirst hbefore, he, hafter⟩

end History

namespace Realm.Action
variable {a : Action} {as : List Action} {es : List Event}

theorem isReport_of_isDry (h : a.isDry = true) : a.isReport = false := by
  cases a with
  | begin => rfl
  | _ => cases h

theorem Causes.countP_isReport (h : a.Causes es) :
    es.countP (·.isReport) = if a.isReport then 1 else 0 := by
  have hnone {es : List Event} (h : ∀ e ∈ es, e.isReport = false) : es.countP (·.isReport) = 0 :=
    List.countP_eq_zero.mpr fun e he => by simp [h e he]
  have hordinary {e : Event} (h : e.isOrdinary = true) : e.isReport = false := by
    cases e with
    | report => cases h
    | _ => rfl
  cases h with
  | ordinary ha h => rw [ha, hnone fun e he => hordinary (h e he), if_neg Bool.false_ne_true]
  | dry ha h =>
    rw [isReport_of_isDry ha, if_neg Bool.false_ne_true]
    refine hnone fun e he => (h e he).elim hordinary fun hd => ?_
    cases e with
    | discard => rfl
    | _ => cases hd
  | wake h => exact (List.countP_cons_of_neg Bool.false_ne_true).trans (hnone fun e he => hordinary (h e he))
  | job h =>
    refine (List.countP_cons_of_neg Bool.false_ne_true).trans (hnone fun e he => (h e he).elim hordinary ?_)
    rintro ⟨_, _, rfl⟩
    rfl
  | report h =>
    exact (List.countP_cons_of_pos rfl).trans
      (congrArg (· + 1) (hnone fun e he => hordinary (h e he)))

theorem Traces.countP_isReport (h : Traces as es) :
    es.countP (·.isReport) = as.countP (·.isReport) := by
  induction h with
  | nil => rfl
  | cons h _ ih => rw [List.countP_append, List.countP_cons, h.countP_isReport, ih, Nat.add_comm]

theorem Causes.isDiscard (h : a.Causes es) (ha : a.isDry = false) : ∀ e ∈ es, e.isDiscard = false := by
  have hordinary {e : Event} (h : e.isOrdinary = true) : e.isDiscard = false := by
    cases e with
    | discard => cases h
    | _ => rfl
  intro e he
  cases h with
  | ordinary _ h => exact hordinary (h e he)
  | dry hdry => simp [ha] at hdry
  | wake h | report h =>
    rcases List.mem_cons.mp he with rfl | he
    · rfl
    · exact hordinary (h e he)
  | job h =>
    rcases List.mem_cons.mp he with rfl | he
    · rfl
    · rcases h e he with h | ⟨_, _, rfl⟩
      · exact hordinary h
      · rfl

theorem Traces.isDiscard (h : Traces as es) (has : ∀ a ∈ as, a.isDry = false) :
    ∀ e ∈ es, e.isDiscard = false := by
  induction h with
  | nil => simp
  | cons h _ ih =>
    obtain ⟨ha, has⟩ := List.forall_mem_cons.mp has
    exact List.forall_mem_append.mpr ⟨h.isDiscard ha, ih has⟩

end Realm.Action

theorem Realm.Reachable.tracks {r : Realm} (h : r.Reachable) : r.state.Tracks [] := by
  obtain ⟨globals, as, hg, hc⟩ := h
  obtain ⟨es, hes, -⟩ := (initial_sound hg).history hc
  have hnone : (initial globals).state.rejections = #[] := by rw [(initial_laid hg).rest]; rfl
  have htracks : r.state.Tracks ([] ++ es.flatMap (·.shown)) :=
    hes.tracks ⟨by simp [hnone], by simp [hnone]⟩
  exact ⟨htracks.nodup.sublist (List.sublist_append_right _ _),
    fun id hid => htracks.rejected id (List.mem_append_right _ hid)⟩

namespace Sink
variable {sink : Sink} {messages messages' : List (ConsoleLevel × String)}

def showing (sink : Sink) (messages : List (ConsoleLevel × String)) : Sink :=
  { sink with console := sink.console ++ messages.toArray }

theorem showing_nil : sink.showing [] = sink := by simp [showing]

@[simp] theorem interruptOn_showing : (sink.showing messages).interruptOn = sink.interruptOn := rfl

theorem showing_append : (sink.showing messages).showing messages' = sink.showing (messages ++ messages') := by
  simp [showing]

end Sink

namespace State
variable {s s' : State}

theorem peekFrom_of_heap (h : s'.heap = s.heap) (key : PropertyKey) (fuel : Nat) (id : ObjectId) :
    s'.peekFrom key fuel id = s.peekFrom key fuel id := by
  have hobject (id : ObjectId) : s'.object id = s.object id := by simp [object, h]
  induction fuel generalizing id with
  | zero => rfl
  | succ fuel ih => simp only [peekFrom, hobject, ih]

theorem describeThrown_of_heap (h : s'.heap = s.heap) (v : Value) :
    s'.describeThrown v = s.describeThrown v := by
  unfold describeThrown errorHeader? peek object
  rw [h]
  simp only [peekFrom_of_heap h]

/-- What is left of messages that have been shown. The observer of an evaluation, if there is one, has them
behind those that it had, in their order, and interrupts the evaluation when it waits for one of them. -/
def showing (s : State) (observer? : Option Nat) (messages : List (ConsoleLevel × String)) : State :=
  match observer? with
  | none => s
  | some i =>
    { s with
      interrupted := s.interrupted ||
        (s.sinks[i]?).any fun sink => messages.any fun message => sink.interruptOn == some message.2
      sinks := s.sinks.modify i (·.showing messages) }

variable {observer? : Option Nat} {messages messages' : List (ConsoleLevel × String)}

theorem showing_nil : s.showing observer? [] = s := by
  cases observer? with
  | none => rfl
  | some i =>
    have hsame : s.sinks.modify i (·.showing []) = s.sinks := by
      refine Array.ext_getElem? fun j => ?_
      rw [Array.getElem?_modify]
      split <;> simp [Sink.showing_nil]
    simp [showing, hsame]

theorem showing_append : (s.showing observer? messages).showing observer? messages' =
    s.showing observer? (messages ++ messages') := by
  cases observer? with
  | none => rfl
  | some i =>
    have hsinks : (s.sinks.modify i (·.showing messages)).modify i (·.showing messages') =
        s.sinks.modify i (·.showing (messages ++ messages')) := by
      refine Array.ext_getElem? fun j => ?_
      simp only [Array.getElem?_modify]
      split <;> simp [Function.comp_def, Sink.showing_append]
    cases hi : s.sinks[i]? <;>
      simp only [showing, hi, hsinks, Array.getElem?_modify, if_true, Option.map, Option.any, Bool.or_false,
        Bool.or_assoc, List.any_append, Sink.interruptOn_showing]

/-- The observer alone knows of messages. -/
theorem exists_showing (s : State) (observer? : Option Nat) (messages : List (ConsoleLevel × String)) :
    ∃ interrupted sinks, s.showing observer? messages = { s with interrupted, sinks } := by
  cases observer? with
  | none => exact ⟨s.interrupted, s.sinks, rfl⟩
  | some i => exact ⟨_, _, rfl⟩

end State

namespace Exec
variable {m : Machine} {c : Context} {s s' : State}

theorem console_eq {level : ConsoleLevel} {message : String} :
    console level message m c s = .value () (s.showing c.sink [(level, message)]) := by
  simp only [console, Bind.bind, Exec.bind, context, Step.bind, State.showing]
  cases c.sink with
  | none => rfl
  | some i =>
    simp only [change, List.any_cons, List.any_nil, Bool.or_false]
    cases s.sinks[i]? <;> simp [Sink.showing]

theorem forM_console_eq {α : Type} {level : ConsoleLevel} {message : α → String} {as : List α} :
    (as.forM fun a => console level (message a)) m c s =
      .value () (s.showing c.sink (as.map fun a => (level, message a))) := by
  induction as generalizing s with
  | nil => exact congrArg (Step.value ()) State.showing_nil.symm
  | cons a as ih =>
    show (console level (message a) m c s).bind
      (fun _ => as.forM (fun a => console level (message a)) m c) = _
    rw [console_eq, Step.bind, ih, State.showing_append]
    rfl

theorem reportRejection_eq (h : s'.heap = s.heap) (id : ObjectId) : reportRejection id m c s' =
    (if (s.reason? id).isSome && !s.handles id then console .error (s.rejectionText id) else pure ())
      m c s' := by
  have hobject : s'.object id = s.object id := by simp [State.object, h]
  simp only [reportRejection, Bind.bind, Exec.bind, object, look, Step.bind, hobject]
  unfold State.rejectionText State.reason? State.handles Object.promise?
  cases hk : (s.object id).kind with
  | promise p =>
    obtain ⟨state, onFulfilled, onRejected, handled⟩ := p
    cases state with
    | rejected reason =>
      cases handled with
      | false =>
        show console .error ("Uncaught (in promise) " ++ s'.describeThrown reason) m c s' = _
        rw [State.describeThrown_of_heap h]
        rfl
      | true => rfl
    | _ => rfl
  | _ => rfl

theorem forM_reportRejection (ids : List ObjectId) (h : s'.heap = s.heap) :
    ids.forM reportRejection m c s' =
      ((ids.filter fun id => (s.reason? id).isSome && !s.handles id).forM fun id =>
        console .error (s.rejectionText id)) m c s' := by
  induction ids generalizing s' with
  | nil => rfl
  | cons id ids ih =>
    show (reportRejection id m c s').bind (fun _ => ids.forM reportRejection m c) = _
    rw [reportRejection_eq h, List.filter_cons]
    split
    · obtain ⟨interrupted, sinks, hs₁⟩ :=
        s'.exists_showing c.sink [(.error, s.rejectionText id)]
      show _ = (console .error (s.rejectionText id) m c s').bind _
      rw [console_eq, hs₁]
      exact ih h
    · exact ih h

theorem reportRejections_eq : reportRejections m c s = .value ()
    (({ s with rejections := #[] } : State).showing c.sink
      (s.unhandled.map fun id => (.error, s.rejectionText id))) := by
  rw [State.unhandled_eq, ← forM_console_eq]
  exact forM_reportRejection s.rejections.toList rfl

end Exec

/-- From a realm that any work has led to, whatever is done: rejections are shown by the actions that
are there for it, and no rejection is shown twice. Without dry runs, what is shown each time, and what
would be shown in the end, is what was rejected since the last time, in order, less the promises with
which reactions had been registered. Of each the reason is shown. -/
theorem rejections_shown_once {r r' : Realm} {as : List Realm.Action} (hr : r.Reachable)
    (hc : r.Course as r') : ∃ es, History r.state es r'.state ∧ Realm.Action.Traces as es ∧
      es.countP (·.isReport) = as.countP (·.isReport) ∧
      (es.flatMap (·.shown) ++ r'.state.unhandled).Nodup ∧
      ((∀ a ∈ as, a.isDry = false) →
        (∀ before ids after, es = before ++ .report ids :: after →
          ids = (before.foldl Event.rejectedSince r.state.rejections.toList).filter fun id =>
            !(r.state.handles id || before.any (·.registers id))) ∧
        r'.state.unhandled = (es.foldl Event.rejectedSince r.state.rejections.toList).filter fun id =>
          !(r.state.handles id || es.any (·.registers id))) ∧
      ∀ m c, reportRejections m c r'.state = .value ()
        (({ r'.state with rejections := #[] } : State).showing c.sink
          (r'.state.unhandled.map fun id => (.error, r'.state.rejectionText id))) := by
  obtain ⟨es, hes, htraces⟩ := hr.sound.history hc
  have hshown : r'.state.Tracks (es.flatMap (·.shown)) := hes.tracks hr.tracks
  refine ⟨es, hes, htraces, htraces.countP_isReport, ?_, fun hwet => ⟨?_, ?_⟩, fun _ _ => reportRejections_eq⟩
  · exact hshown.nodup.sublist (State.unhandled_sublist.append_left _)
  · rintro before ids after rfl
    obtain ⟨s₁, s₂, hbefore, hreport, -⟩ := hes.split
    have hkept : ∀ e ∈ before, e.isDiscard = false := fun e he =>
      htraces.isDiscard hwet e (List.mem_append_left _ he)
    rw [hreport.shown ids rfl, hbefore.unhandled_eq hkept hr.tracks]
  · exact hes.unhandled_eq (htraces.isDiscard hwet) hr.tracks

/-- A realm with an observer that has no messages. -/
def Realm.observed : Realm := { plain with state := { plain.state with sinks := #[{}] } }

theorem Realm.reachable_observed : observed.Reachable :=
  reachable_plain.course (.cons (a := .configure 100 false #[{}] #[[]]) rfl .nil)

/-- Two promises are rejected, and one of them is handled. The script waits before any of them is shown. -/
def Trial.rejected : Trial Realm.observed where
  source := "Promise.reject(1); Promise.reject(2).catch(() => 0); await 0"
  sees _ r := r.state.rejections.size == 2 && r.state.sinks[0]?.any (·.console.isEmpty) &&
    r.state.unhandled.map r.state.rejectionText == ["Uncaught (in promise) 1"]
  ends := by decide +kernel

/-- The one that is not handled is shown then. -/
theorem rejections_shown_observed : ∃ (e : Evaluation) (r : Realm) (as : List Realm.Action) (es : List Event)
    (s : State), Run.evaluate (machine 20) Trial.rejected.source {} Realm.observed = .done e r ∧
    Realm.observed.Reachable ∧ Realm.observed.Course as r ∧ (∀ a ∈ as, a.isDry = false) ∧
    History Realm.observed.state es r.state ∧ r.state.rejections.size = 2 ∧
    r.state.unhandled = (es.foldl Event.rejectedSince Realm.observed.state.rejections.toList).filter (fun id =>
      !(Realm.observed.state.handles id || es.any (·.registers id))) ∧
    reportRejections (machine 20) { r.state.baseContext with sink := some 0 } r.state = .value () s ∧
    s.sinks[0]?.map (·.console) = some #[(.error, "Uncaught (in promise) 1")] := by
  obtain ⟨e, r, as, heval, hc, has, hsees⟩ := Trial.rejected.run
  simp only [Trial.rejected, Bool.and_eq_true, beq_iff_eq] at hsees
  obtain ⟨⟨hsize, hsink⟩, htexts⟩ := hsees
  have hwet : ∀ a ∈ as, a.isDry = false := fun a ha => (has a ha).2
  obtain ⟨es, hes, -, -, -, hunhandled, hreport⟩ := rejections_shown_once Realm.reachable_observed hc
  refine ⟨e, r, as, es, _, heval, Realm.reachable_observed, hc, hwet, hes, hsize, (hunhandled hwet).2, hreport _ _,
    ?_⟩
  cases hi : r.state.sinks[0]? with
  | none => simp [hi] at hsink
  | some sink =>
    have hempty : sink.console = #[] := by simpa [hi] using hsink
    have hmessages : (r.state.unhandled.map fun id => (ConsoleLevel.error, r.state.rejectionText id)) =
        [(.error, "Uncaught (in promise) 1")] := by
      simpa [Function.comp_def] using congrArg (List.map (ConsoleLevel.error, ·)) htexts
    simp only [hmessages, State.showing, Array.getElem?_modify, hi, if_true, Option.map_some, Sink.showing, hempty]
    rfl

end EcmaScript
