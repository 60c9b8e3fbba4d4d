import EcmaScript.Proofs.Realm.Effects
import EcmaScript.Proofs.Realm.Microtask

/-! A dry run changes nothing that is older than itself. -/
namespace EcmaScript
open Exec

/-- A scope is as it was, except that an activation without a `this` may have been given one, by a call of
`super`. -/
inductive State.SparesScope (s s' : State) (id : ScopeId) : Prop where
  | same (h : s'.scope id = s.scope id)
  | activated {s₁ : State} {a : Activation} {this : ObjectId} (hk : (s.scope id).kind = .function a)
    (hnone : a.this = none) (hsuper : s₁.SuperReturns id this)
    (h : s'.scope id = { s.scope id with kind := .function { a with this := some (.object this) } })

/-- How far a dry run has come: all that is older is as it was, and what has been added to the queues
stands behind it. -/
structure DryRun.Spares (d : DryRun) (s s' : State) : Prop where
  objects : d.firstObject ≤ s'.heap.size
  scopes : d.firstScope ≤ s'.scopes.size
  object : ∀ id, id.index < d.firstObject → s'.object id = s.object id
  scope : ∀ id, id.index < d.firstScope → s.SparesScope s' id
  jobs : s.jobs.toList <+: s'.jobs.toList
  rejections : s.rejections.toList <+: s'.rejections.toList
  timers : s'.timers = s.timers

theorem DryRun.Spares.refl {d : DryRun} {s : State} (ho : d.firstObject ≤ s.heap.size)
    (hs : d.firstScope ≤ s.scopes.size) : d.Spares s s :=
  ⟨ho, hs, fun _ _ => rfl, fun _ _ => .same rfl, List.prefix_rfl, List.prefix_rfl, rfl⟩

namespace Act
variable {w : World} {s : State} {d : DryRun}

theorem Keeps.of_dry {id : ObjectId} {o : Object} (h : Keeps w id o) (hd : w.dry = some d)
    (hid : id.index < d.firstObject) : o = w.state.object id := by
  have hold : ¬ w.owns id := fun howns => Nat.not_le.mpr hid (howns d hd)
  cases h with
  | same h => exact h
  | alters howns | build howns | reparent howns | settle howns => exact absurd howns hold
  | register hopen => cases hd.symm.trans hopen

theorem sparesScope (h : Act w s) (hd : w.dry = some d) {id : ScopeId} (hid : id.index < d.firstScope)
    (hsize : d.firstScope ≤ w.state.scopes.size) : w.state.SparesScope s id := by
  have hother {id' : ScopeId} (howns : w.ownsScope id') (sc : Scope) :
      (w.state.replaceScope id' sc).scope id = w.state.scope id := by
    have hle : d.firstScope ≤ id'.index := howns d hd
    rw [State.scope_replace, if_neg]
    rintro ⟨rfl, -⟩
    omega
  cases h with
  | newScope =>
    refine .same ?_
    rw [State.scope_push, if_neg (by omega)]
  | scope howns => exact .same (hother howns _)
  | declarePrivate howns => exact .same (hother howns _)
  | @activate id' this _ hsuper =>
    by_cases he : id = id'
    · subst he
      have ⟨_, _, _, _, _, hnone⟩ := hsuper
      have hactivated : (w.state.activated id this).scope id =
          { w.state.scope id with kind := (w.state.scope id).kind.activated this } := by
        rw [State.activated, State.scope_replace, if_pos ⟨rfl, by omega⟩]
      cases hk : (w.state.scope id).kind with
      | function a =>
        refine .activated hk ?_ hsuper (by rw [hactivated, hk]; rfl)
        simpa [Scope.activation?, hk] using hnone
      | _ =>
        have hkept : (w.state.scope id).kind.activated this = (w.state.scope id).kind := by
          rw [hk]
          rfl
        exact .same (by rw [hactivated, hkept])
    · refine .same ?_
      rw [State.activated, State.scope_replace, if_neg fun h => he h.1]
  | _ => exact .same rfl

end Act

theorem State.SparesScope.trans {s s₁ s₂ : State} {id : ScopeId} (h : s.SparesScope s₁ id)
    (h' : s₁.SparesScope s₂ id) : s.SparesScope s₂ id := by
  cases h with
  | same h =>
    cases h' with
    | same h' => exact .same (h'.trans h)
    | activated hk hnone hsuper h' => exact .activated (h ▸ hk) hnone hsuper (by rw [h', h])
  | activated hk hnone hsuper h =>
    cases h' with
    | same h' => exact .activated hk hnone hsuper (h'.trans h)
    | activated hk' hnone' =>
      rw [h] at hk'
      cases hk'
      cases hnone'

namespace Act
variable {w : World} {s : State} {d : DryRun}

theorem jobs_prefix (h : Act w s) : w.state.jobs.toList <+: s.jobs.toList := by
  cases h with
  | settle =>
    rw [State.settled, Queue.toList_foldl_push (Job.react · _)]
    exact List.prefix_append _ _
  | register =>
    rw [State.registered, Queue.toList_foldl_push fun job => job]
    exact List.prefix_append _ _
  | enqueue =>
    rw [Queue.toList_push]
    exact List.prefix_append _ _
  | _ => exact List.prefix_rfl

theorem rejections_prefix (h : Act w s) : w.state.rejections.toList <+: s.rejections.toList := by
  cases h with
  | settle =>
    rw [State.settled]
    dsimp only
    split
    · simp
    · exact List.prefix_rfl
  | _ => exact List.prefix_rfl

/-- What a dry run does next spares what is older as well. -/
theorem spares {s₀ : State} (h : Act w s) (hd : w.dry = some d) (hs : d.Spares s₀ w.state) :
    d.Spares s₀ s where
  objects := Nat.le_trans hs.objects h.size_le
  scopes := Nat.le_trans hs.scopes h.scopes_le
  object id hid :=
    ((h.keeps id (Nat.lt_of_lt_of_le hid hs.objects)).of_dry hd hid).trans (hs.object id hid)
  scope id hid := (hs.scope id hid).trans (h.sparesScope hd hid hs.scopes)
  jobs := hs.jobs.trans h.jobs_prefix
  rejections := hs.rejections.trans h.rejections_prefix
  timers := by
    cases h with
    | timers hopen => cases hd.symm.trans hopen
    | _ => exact hs.timers

end Act

theorem Runs.follow_of_dry {E : Endings} {O : Held → Prop} {α : Type} {Q : α → World → Prop} {w : World}
    {x x' : Step α} {d : DryRun} {s₀ : State} {parked : List ParkedTask} {result : Except Abrupt α}
    {r : Realm} (h : Runs E O Q w x' x) (hd : w.dry = some d) (hs : d.Spares s₀ w.state)
    (hr : Realm.follow x parked = .done result r) : r.tasks = parked ∧ d.Spares s₀ r.state := by
  have hspares {w' : World} (h : Acts w w') : d.Spares s₀ w'.state :=
    (Leads.of_acts h).keeps hs fun w₁ s hl _ hs => hs.spares (hl.dry.trans hd)
  cases h with
  | value h | abrupt h | ended h =>
    cases hr
    exact ⟨rfl, hspares h⟩
  | @waiting _ w₁ _ _ _ h hslot =>
    have hopen : w₁.dry = none := hslot.1
    cases (h.grows.dry.trans hd).symm.trans hopen
  | @parked _ w₁ w₂ T _ _ _ _ _ _ _ h hT hc hpark =>
    have hopen : w₂.dry = none := hpark.1
    have hdry : w₂.dry = (w₁.handing T).dry := hc.grows.dry
    cases (hdry.trans (h.grows.dry.trans hd)).symm.trans hopen
  | exhausted => cases hr

def State.dryRun (s : State) (table : Nat) : DryRun := ⟨table, s.heap.size, s.scopes.size⟩

theorem World.Inv.dryRun {w : World} {table : Nat} (hw : w.Inv) (ht : w.tracked)
    (h : w.state.Honest table) : ({ w with dry := some (w.state.dryRun table) } : World).Inv :=
  { hw with
    dry := fun d hd => by
      obtain rfl : w.state.dryRun table = d := Option.some.inj hd
      exact {
        objects := Nat.le_refl _
        scopes := Nat.le_refl _
        global := (hw.closed.globalObject ht).1
        arguments := fun id shared hid hk => by
          have hnew : (w.state.object id).kind = .ordinary := by rw [State.object_of_size_le hid]; rfl
          cases hk.symm.trans hnew
        table := h } }

def State.prepared (s : State) (source : String) (strict : Bool) (o : EvaluateOptions) : State :=
  { (s.enter source strict o).2 with
    scopes := s.scopes.push
      { kind := .function
          { this := some (.object s.globalObject), newTarget := .undefined, function := none
            home := none, isArrow := false }
        parent := some (o.scope.getD s.globalScope) }
    outcomes := s.outcomes.push none }

namespace Run
variable {m : Machine} {source : String} {o : EvaluateOptions} {r r' : Realm}

/-- A script is begun as a dry run, and what it has left in the queues is dropped. -/
theorem begin_of_dry {script : Script} (hdry : o.dryRun = true)
    (h : (begin m source script o r).realm? = some r') : ∃ result r₁,
      Realm.follow (spawn ⟨"", none, .script o.filename 1 1⟩
        (evaluateInto r.state.outcomes.size ⟨r.state.scopes.size⟩ script.body) m
        (r.state.enter source script.strict o).1 (r.state.prepared source script.strict o)) r.tasks =
          .done result r₁ ∧
      r' = ⟨r₁.state.discardAfter r.state.marks, r₁.tasks⟩ := by
  unfold begin at h
  simp only [hdry] at h
  generalize hf : Realm.follow (spawn ⟨"", none, .script o.filename 1 1⟩
    (evaluateInto r.state.outcomes.size ⟨r.state.scopes.size⟩ script.body) m
    (r.state.enter source script.strict o).1 (r.state.prepared source script.strict o)) r.tasks = p
  have h : (match p with
      | .done (.error e) r₁ => (stopFor e : Run (Context × Nat)) ⟨r₁.state.discardAfter r.state.marks, r₁.tasks⟩
      | .done (.ok _) r₁ => .done ((r.state.enter source script.strict o).1, r.state.outcomes.size)
        ⟨r₁.state.discardAfter r.state.marks, r₁.tasks⟩
      | .stopped e r₁ => .stopped e r₁
      | .exhausted => .exhausted).realm? = some r' := by
    subst hf
    refine (congrArg _ ?_).trans h
    show _ = Run.bind (attempt m (r.state.enter source script.strict o).1 _) _
      ⟨r.state.prepared source script.strict o, r.tasks⟩
    unfold Run.bind attempt
    dsimp only
    generalize Realm.follow _ _ = p
    rcases p with ⟨_ | _⟩ | _ | _ <;> rfl
  cases p with
  | done result r₁ =>
    refine ⟨result, r₁, rfl, ?_⟩
    cases result with
    | error e => cases e <;> exact (Option.some.inj h).symm
    | ok k => exact (Option.some.inj h).symm
  | stopped e r₁ => exact absurd hf Realm.follow_ne_stopped
  | exhausted => cases h

theorem evaluate_of_dry (hdry : o.dryRun = true) (h : (evaluate m source o r).realm? = some r') :
    r' = r ∨ ∃ script r₁ fatal, (begin m source script o r).realm? = some r₁ ∧
      r' = ⟨{ r₁.state with fatal }, r₁.tasks⟩ := by
  rw [evaluate_eq] at h
  split at h
  · exact .inl (Option.some.inj h).symm
  · rename_i script _
    refine .inr ⟨script, ?_⟩
    have h : (Run.bind (begin m source script o) _ r).realm? = some r' := h
    unfold Run.bind at h
    cases hb : begin m source script o r with
    | done p r₁ =>
      rw [hb] at h
      have h : (Run.bind raiseFatal _ r₁).realm? = some r' := h
      refine ⟨r₁, none, rfl, ?_⟩
      unfold Run.bind at h
      cases hf : r₁.state.fatal with
      | some k =>
        rw [raiseFatal_some hf] at h
        exact (Option.some.inj h).symm
      | none =>
        rw [raiseFatal_none hf] at h
        have h : (Run.bind (look _) _ _).realm? = some r' := h
        simp only [Run.bind, look, hdry] at h
        rcases hv : (r₁.state.outcomes[p.2]?).join with _ | _ | v <;>
        · rw [hv] at h
          exact (Option.some.inj h).symm
    | stopped e r₁ =>
      rw [hb] at h
      cases h
      exact ⟨r', r'.state.fatal, rfl, rfl⟩
    | exhausted =>
      rw [hb] at h
      cases h

end Run

/-- What a dry run leaves of a state: objects and scopes are as they were, but that an activation without a
`this` may have been given one, and the queues hold what they held. -/
structure State.Spared (s s' : State) : Prop where
  object : ∀ id, id.index < s.heap.size → s'.object id = s.object id
  scope : ∀ id, id.index < s.scopes.size → s.SparesScope s' id
  jobs : s'.jobs.toList = s.jobs.toList
  timers : s'.timers = s.timers
  rejections : s'.rejections = s.rejections

theorem State.Spared.refl {s : State} : s.Spared s :=
  ⟨fun _ _ => rfl, fun _ _ => .same rfl, rfl, rfl, rfl⟩

/-- In the end a dry run drops what it has added to the queues. -/
theorem DryRun.Spares.discardAfter {table : Nat} {s s' : State} (h : (s.dryRun table).Spares s s')
    (hn : s.timers.Numbered) : s.Spared (s'.discardAfter s.marks) where
  object := h.object
  scope id hid := (h.scope id hid).trans (.same rfl)
  jobs := by
    obtain ⟨new, hnew⟩ := h.jobs
    show (s'.jobs.truncate s.jobs.size).toList = _
    have hsize : s.jobs.size = s.jobs.toList.length := by simp [Queue.size, Queue.toList]
    rw [Queue.toList_truncate, ← hnew, hsize, List.take_left]
  timers := by
    have hall : s.timers.entries.filter (·.timer.id < s.timers.lastId + 1) = s.timers.entries :=
      List.filter_eq_self.mpr fun e he => by simpa using Nat.lt_succ_of_le (hn e he)
    show s'.timers.discardFrom (s.timers.lastId + 1) = s.timers
    rw [h.timers, TimerQueue.discardFrom, hall]
  rejections := by
    obtain ⟨new, hnew⟩ := h.rejections
    show s'.rejections.shrink s.rejections.size = _
    apply Array.ext'
    simp [← hnew]

/-- A dry run spares what was there before it. Whatever script is evaluated, and whether it comes to a value
or to an error, objects are left as they were, and so are the queues, the tasks and the scopes; only a call
of `super` may give a `this` to an activation that has none. -/
theorem dryRun_spares {r r' : Realm} {n : Nat} {source : String} {o : EvaluateOptions} (hr : r.Reachable)
    (hdry : o.dryRun = true) (ht : r.state.Honest o.table)
    (h : (Run.evaluate (machine n) source o r).realm? = some r') :
    r.state.Spared r'.state ∧ r'.tasks = r.tasks := by
  obtain ⟨w, hw, hs, -⟩ := hr.sound
  obtain ⟨s, parked⟩ := r
  subst hs
  rcases Run.evaluate_of_dry hdry h with rfl | ⟨script, r₁, fatal, hbegin, rfl⟩
  · exact ⟨.refl, rfl⟩
  · obtain ⟨result, r₂, hfollow, rfl⟩ := Run.begin_of_dry hdry hbegin
    -- The world in which the script is begun, and the one in which it runs.
    let begun : World := { w with dry := some (w.state.dryRun o.table) }
    let running : World := { begun with state := w.state.prepared source script.strict o }
    have hbegun : begun.Inv := hw.inv.dryRun hw.tracked ht
    let entered : World := { begun with state := (w.state.enter source script.strict o).2 }
    let parted : World := { entered with state := { entered.state with scopes := running.state.scopes } }
    have hentered : Acts begun entered := .of_act .aside
    have hscoped : Acts entered parted := by
      refine .of_act (.newScope ⟨?_, within_nil⟩ nofun)
      exact ⟨hbegun.closed.globalObject, trivial, trivial⟩
    have hrunning : Acts parted running :=
      .of_act (.outcomes (within_push hbegun.closed.outcomes trivial))
    have hacts : Acts begun running := (hentered.trans hscoped).trans hrunning
    have hstart : (w.state.dryRun o.table).Spares w.state running.state :=
      (Leads.of_acts hacts).keeps (.refl (Nat.le_refl _) (Nat.le_refl _)) fun _ _ hl _ hs =>
        hs.spares hl.dry
    have hfits : running.Fits (w.state.enter source script.strict o).1 := by
      rintro d hd
      obtain rfl : w.state.dryRun o.table = d := Option.some.inj hd
      exact ⟨if_pos hdry, rfl, rfl⟩
    have hscope : running.ownsScope ⟨w.state.scopes.size⟩ := by
      rintro d hd
      obtain rfl : w.state.dryRun o.table = d := Option.some.inj hd
      exact Nat.le_refl _
    obtain ⟨htasks, hspares⟩ :=
      (Run.spawnScript_safe hscope hfits (hacts.inv hbegun)).follow_of_dry rfl hstart hfollow
    have hspared := hspares.discardAfter (hw.inv.numbered hw.tracked)
    exact ⟨{ hspared with scope := fun id hid => (hspared.scope id hid).trans (.same rfl) }, htasks⟩

theorem Realm.initial_honest {globals : List (String × Value)} (hg : ∀ g ∈ globals, g.2.object? = none) :
    (Realm.initial globals).state.Honest 0 := by
  unfold Realm.initial
  dsimp only
  exact State.initial_honest hg

/-- A dry run that goes by the table that a new realm has spares what was there before it, whatever the
realm has done since. -/
theorem standard_dryRun_spares {globals : List (String × Value)} {as : List Realm.Action} {r r' : Realm}
    {n : Nat} {source : String} {o : EvaluateOptions} (hg : ∀ g ∈ globals, g.2.object? = none)
    (hc : (Realm.initial globals).Course as r)
    (ht : r.state.effectTables.getD o.table [] = (Realm.initial globals).state.effectTables.getD 0 [])
    (hdry : o.dryRun = true) (h : (Run.evaluate (machine n) source o r).realm? = some r') :
    r.state.Spared r'.state ∧ r'.tasks = r.tasks :=
  dryRun_spares ⟨globals, as, hg, hc⟩ hdry
    ((Realm.initial_honest hg).later ((Realm.initial_sound hg).keepsNatives hc) ht) h

end EcmaScript
