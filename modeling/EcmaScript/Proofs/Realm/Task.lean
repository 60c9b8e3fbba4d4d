import EcmaScript.Proofs.History
import EcmaScript.Proofs.Realm.Action
import EcmaScript.Proofs.Safety.Runs

/-! The tasks that wait in a realm. Each hides something that no other code reaches, and finds it
again when it goes on. -/
namespace EcmaScript

/-- Running code leads from one world to another, by events. What others hide stays hidden. -/
structure Onward (w : World) (es : List Event) (w' : World) : Prop extends Grows w w' where
  inv : w'.Inv
  quiet : w'.quiet = w.quiet
  history : History w.state es w'.state
  inner : ∀ e ∈ es, e.isInner = true
  fills : w.tracked → ∀ slot waiter, .fill slot waiter ∈ es → w.filling slot
  apart : ∀ O, w.Apart O → w'.Apart O

namespace Onward
variable {w w₁ w₂ : World} {es es' : List Event}

theorem refl (hw : w.Inv) : Onward w [] w where
  toGrows := .refl
  inv := hw
  quiet := rfl
  history := .nil
  inner _ he := by cases he
  fills _ _ _ he := by cases he
  apart _ h := h

theorem trans (h : Onward w es w₁) (h' : Onward w₁ es' w₂) : Onward w (es ++ es') w₂ where
  toGrows := h.toGrows.trans h'.toGrows
  inv := h'.inv
  quiet := h'.quiet.trans h.quiet
  history := h.history.append h'.history
  inner e he := by
    rcases List.mem_append.mp he with he | he
    · exact h.inner e he
    · exact h'.inner e he
  fills ht slot waiter he := by
    rcases List.mem_append.mp he with he | he
    · exact h.fills ht slot waiter he
    · exact h.filling ▸ h'.fills (h.tracked ▸ ht) slot waiter he
  apart O hO := h'.apart O (h.apart O hO)

end Onward

theorem Acts.onward {w w' : World} (h : Acts w w') (hw : w.Inv) : ∃ es, Onward w es w' := by
  induction h with
  | refl => exact ⟨[], .refl hw⟩
  | @step w₁ s h hs ih =>
    obtain ⟨es, hes⟩ := ih
    obtain ⟨e, he, hinner, hfill⟩ := hs.changes
    refine ⟨es ++ [e], hes.trans {
      toGrows := (Acts.of_act hs).grows
      inv := hs.inv hes.inv
      quiet := rfl
      history := .single he
      inner := by simpa using hinner
      fills := fun ht slot waiter hmem => hfill slot waiter (List.mem_singleton.mp hmem).symm ht
      apart := fun _ hO => hO.acts (.of_act hs) }⟩
  | hide h hnew hinv ih =>
    obtain ⟨es, hes⟩ := ih
    exact ⟨es, {
      toGrows := (h.hide hnew hinv).grows
      inv := hinv
      quiet := hes.quiet
      history := hes.history
      inner := hes.inner
      fills := hes.fills
      apart := fun _ hO => hO.acts (h.hide hnew hinv) }⟩
  | reveal h hA ih =>
    obtain ⟨es, hes⟩ := ih
    exact ⟨es, {
      toGrows := (h.reveal hA).grows
      inv := hes.inv.reveal
      quiet := hes.quiet
      history := hes.history
      inner := hes.inner
      fills := hes.fills
      apart := fun _ hO => hO.acts (h.reveal hA) }⟩

namespace World
variable {w w₁ w₂ : World} {T : Held → Prop}

theorem Apart.handing {O : Held → Prop} (h : w.Apart O) (hT : ∀ h, T h → w.own h) :
    (w.handing T).Apart O := fun held hh =>
  ⟨(h held hh).1, fun ht => (h held hh).2.1 (hT held ht), (h held hh).2.2⟩

theorem onward_handing (hw : w.Inv) (hT : ∀ h, T h → w.own h) (hc : Acts (w.handing T) w₁) :
    ∃ es, Onward w es w₁ := by
  obtain ⟨es, hes⟩ := hc.onward (hw.handing hT)
  exact ⟨es, { hes with apart := fun O hO => hes.apart O (hO.handing hT) }⟩

theorem onward_resumed {es : List Event} (hw : w.Inv) (hT : ∀ h, T h → w.own h)
    (hc : Acts (w.handing T) w₁) (h : Onward w es w₁) : Onward w es (w.resumed T w₁) :=
  { h with
    inv := World.resumed_inv hw hT hc
    apart := fun O hO held hh =>
      ⟨(h.apart O hO held hh).1, fun ho => (hO held hh).2.1 ho.1, (h.apart O hO held hh).2.2⟩ }

def idle (w : World) : World := { w with own := fun _ => False }

theorem Inv.idle (hw : w.Inv) : w.idle.Inv := { hw with own := nofun }

/-- A task that waits in a world. `O` is what it hides. -/
structure Holds (w : World) (O : Held → Prop) (t : ParkedTask) : Prop where
  apart : w.Apart O
  named : O (.task t.id)
  waits : w.state.Waits t.id t.slot
  resume : ∀ o w', Grows w w' → w'.own = O → w'.Inv → Met w' o →
    TaskRuns t.id w' (t.resume o w'.state)

/-- All the tasks that wait in a world. No two of them have the same id, wait for the same slot or
hide the same. -/
structure Tends (w : World) (O : Nat → Held → Prop) (tasks : List ParkedTask) : Prop where
  holds : ∀ t ∈ tasks, w.Holds (O t.id) t
  ids : (tasks.map (·.id)).Nodup
  slots : (tasks.map (·.slot)).Nodup
  disjoint : ∀ t ∈ tasks, ∀ t' ∈ tasks, t.id ≠ t'.id → ∀ h, O t.id h → ¬ O t'.id h

variable {O : Nat → Held → Prop} {t : ParkedTask} {tasks : List ParkedTask}

theorem Holds.onward {A : Held → Prop} {es : List Event} (h : w.Holds A t)
    (ho : Onward w es w₁) : w₁.Holds A t where
  apart := ho.apart A h.apart
  named := h.named
  waits := ho.history.waits ho.inner h.waits
  resume o w' hg := h.resume o w' (ho.toGrows.trans hg)

theorem Tends.onward {es : List Event} (h : w.Tends O tasks) (ho : Onward w es w₁) :
    w₁.Tends O tasks :=
  { h with holds := fun t ht => (h.holds t ht).onward ho }

/-- A task that begins to wait joins those that do. What it hides is what the computation hid that it
comes from; `own` is what the computation hides that goes on. -/
theorem Tends.park {own : Held → Prop} {frame : Frame} {id slot : Nat}
    {resume : Outcome → State → Task} (h : w.Tends O tasks) (hw : w.Inv) (hpark : w.Parks id slot)
    (hr : ∀ o w', Grows w w' → w'.own = w.own → w'.Inv → Met w' o →
      TaskRuns id w' (resume o w'.state))
    (hown : ∀ held, own held → ¬ w.own held)
    (htasks : ∀ t ∈ tasks, ({ w with own } : World).Apart (O t.id)) :
    ({ w with own } : World).Tends (Function.update O id w.own) (⟨id, slot, frame, resume⟩ :: tasks) := by
  obtain ⟨-, hid, hslot⟩ := hpark
  have hne (t : ParkedTask) (ht : t ∈ tasks) : t.id ≠ id := by
    rintro rfl
    exact ((h.holds t ht).apart _ (h.holds t ht).named).2.1 hid
  have hupdate (t : ParkedTask) (ht : t ∈ tasks) : Function.update O id w.own t.id = O t.id :=
    Function.update_of_ne (hne t ht) _ _
  have hold (t : ParkedTask) (ht : t ∈ tasks) (held : Held) (hh : O t.id held) : ¬ w.own held :=
    ((h.holds t ht).apart held hh).2.1
  refine ⟨fun t ht => ?_, ?_, ?_, fun t ht t' ht' hids held hh => ?_⟩
  · rcases List.mem_cons.mp ht with rfl | ht
    · rw [show Function.update O id w.own id = w.own from Function.update_self _ _ _]
      exact {
        apart := fun held hh => ⟨hw.own held hh, fun ho => hown held ho hh,
          hw.hidden held (hw.own held hh)⟩
        named := hid
        waits := .inl hslot
        resume := fun o w' hg => hr o w' { hg with } }
    · rw [hupdate t ht]
      exact {
        apart := htasks t ht
        named := (h.holds t ht).named
        waits := (h.holds t ht).waits
        resume := fun o w' hg => (h.holds t ht).resume o w' { hg with } }
  · refine List.nodup_cons.mpr ⟨fun hmem => ?_, h.ids⟩
    obtain ⟨t, ht, he⟩ := List.mem_map.mp hmem
    exact hne t ht he
  · refine List.nodup_cons.mpr ⟨fun hmem => ?_, h.slots⟩
    -- Whoever waits for the same slot is the one that is to be woken.
    obtain ⟨t, ht, he⟩ := List.mem_map.mp hmem
    rcases (h.holds t ht).waits with hw | ⟨⟨a, o, ha, ho⟩, -⟩
    · rw [he, hslot] at hw
      exact hne t ht (by simpa using hw.symm)
    · rw [he, hslot] at ha
      cases ha
      cases ho
  · rcases List.mem_cons.mp ht with rfl | ht <;> rcases List.mem_cons.mp ht' with rfl | ht'
    · exact absurd rfl hids
    · rw [hupdate t' ht']
      rw [show Function.update O id w.own id = w.own from Function.update_self _ _ _] at hh
      exact fun hh' => hold t' ht' held hh' hh
    · rw [show Function.update O id w.own id = w.own from Function.update_self _ _ _]
      rw [hupdate t ht] at hh
      exact hold t ht held hh
    · rw [hupdate t ht] at hh
      rw [hupdate t' ht']
      exact h.disjoint t ht t' ht' hids held hh

end World

/-- Running code leads from some parked to others. -/
structure Goes (w : World) (parked : List ParkedTask) (es : List Event) (w' : World)
    (parked' : List ParkedTask) : Prop extends Onward w es w' where
  tends : ∃ O, w'.Tends O parked'
  /-- Who has begun to wait does so for a slot that was empty. -/
  joined : ∀ t ∈ parked', t ∈ parked ∨ ¬ w.state.Filled t.slot

namespace Goes
variable {w w₁ w₂ : World} {parked parked₁ parked₂ : List ParkedTask} {es es' : List Event}

theorem of_onward {O : Nat → Held → Prop} (h : Onward w es w₁) (ht : w.Tends O parked) :
    Goes w parked es w₁ parked :=
  { h with
    tends := ⟨O, ht.onward h⟩
    joined := fun _ => .inl }

theorem trans (h : Goes w parked es w₁ parked₁) (h' : Goes w₁ parked₁ es' w₂ parked₂) :
    Goes w parked (es ++ es') w₂ parked₂ :=
  { h.toOnward.trans h'.toOnward with
    tends := h'.tends
    joined := fun t ht => (h'.joined t ht).elim (h.joined t) fun hf =>
      .inr fun hfilled => hf (h.history.filled hfilled) }

end Goes

/-- The computation that a task was started by goes on. -/
theorem World.Tends.parked {w w₁ w₂ : World} {O : Nat → Held → Prop} {parked : List ParkedTask}
    {T : Held → Prop} {id slot : Nat} {frame : Frame} {task : Outcome → State → Task} (h : Acts w w₁)
    (hw : w.Inv) (ht : w.Tends O parked) (hT : ∀ h, T h → w₁.own h) (hc : Acts (w₁.handing T) w₂)
    (hpark : w₂.Parks id slot)
    (hr : ∀ o w₃, Resumes w₂ w₃ → Met w₃ o → TaskRuns id w₃ (task o w₃.state)) :
    ∃ es, Goes w parked es (w₁.resumed T w₂) (⟨id, slot, frame, task⟩ :: parked) := by
  obtain ⟨es₁, h₁⟩ := h.onward hw
  obtain ⟨es₂, h₂⟩ := World.onward_handing h₁.inv hT hc
  have h₃ := World.onward_resumed h₁.inv hT hc h₂
  refine ⟨es₁ ++ es₂, { h₁.trans h₃ with
    tends := ⟨_, (ht.onward (h₁.trans h₂)).park h₂.inv hpark (fun o w' hg ho hw' hm => ?_)
      (fun held hh ho => ?_) fun t hmem => (h₁.trans h₃).apart _ (ht.holds t hmem).apart⟩
    joined := fun t hmem => ?_ }⟩
  · exact hr o w' ⟨⟨hg, ho⟩, hw'⟩ hm
  · rcases hc.own_new held ho with ht | hnew
    · exact hh.2 ht
    · exact hnew (h₁.inv.hidden held (h₁.inv.own held hh.1))
  · rcases List.mem_cons.mp hmem with rfl | hmem
    · refine .inr fun hf => ?_
      obtain ⟨a, o, ha, ho⟩ := (h₁.trans h₂).history.filled hf
      rw [hpark.2.2] at ha
      cases ha
      cases ho
    · exact .inl hmem

namespace Realm
variable {w : World} {O : Held → Prop} {parked parked' : List ParkedTask} {s' : State}

/-- A computation is followed to its end, and the parked that it leaves behind are kept. -/
theorem follow_goes {E : Endings} {α : Type} {Q : α → World → Prop} {x x' : Step α}
    {r : Except Abrupt α} (h : Runs E O Q w x' x) (hw : w.Inv) (ht : ∃ A, w.Tends A parked)
    (hx : Realm.follow x parked = .done r ⟨s', parked'⟩) :
    ∃ es w', Goes w parked es w' parked' ∧ w'.state = s' ∧ w'.own = O ∧ (∀ a, r = .ok a → Q a w') ∧
      ∀ e, r = .error e → Met w' e := by
  induction h generalizing parked with
  | value h ho hq =>
    cases hx
    obtain ⟨es, hes⟩ := h.onward hw
    obtain ⟨A, ht⟩ := ht
    exact ⟨es, _, .of_onward hes ht, rfl, ho, fun _ he => by cases he; exact hq, nofun⟩
  | abrupt h ho hm =>
    cases hx
    obtain ⟨es, hes⟩ := h.onward hw
    obtain ⟨A, ht⟩ := ht
    exact ⟨es, _, .of_onward hes ht, rfl, ho, nofun, fun _ he => by cases he; exact hm⟩
  | ended h ho hk =>
    cases hx
    obtain ⟨es, hes⟩ := h.onward hw
    obtain ⟨A, ht⟩ := ht
    exact ⟨es, _, .of_onward hes ht, rfl, ho, nofun, fun _ he => by cases he; exact hk.1⟩
  | @waiting w w₁ _ _ _ h _ ho =>
    cases hx
    -- What it hides beyond what it did at first is revealed, since nothing comes after.
    have hreveal := h.reveal (A := fun held => w₁.own held ∧ ¬ O held) fun _ hh => hh.1
    obtain ⟨es, hes⟩ := hreveal.onward hw
    obtain ⟨A, ht⟩ := ht
    refine ⟨es, _, .of_onward hes ht, rfl, ?_, nofun, fun _ he => by cases he; trivial⟩
    funext held
    have := ho held
    simp only [World.reveal]
    grind
  | parked h hT hc hpark hr _ ih =>
    obtain ⟨A, ht⟩ := ht
    obtain ⟨es, hes⟩ := ht.parked h hw hT hc hpark hr
    obtain ⟨es', w', hes', hrest⟩ := ih hes.inv hes.tends hx
    exact ⟨es ++ es', w', hes.trans hes', hrest⟩
  | exhausted => cases hx

end Realm

namespace World
variable {w : World} {O : Nat → Held → Prop} {parked : List ParkedTask}

/-- What the realm itself does with its queues leaves all in order: it takes jobs and adds none. -/
theorem Inv.outer {jobs : Queue Job} {timers : TimerQueue} {rejections : Array ObjectId}
    {ready : Queue Nat} {fatal : Option Condition} {maxDepth : Nat}
    {effectTables : Array EffectTable} (hw : w.Inv) (hopen : w.isOpen) (hq : ¬ w.quiet)
    (hjobs : ∀ j ∈ jobs.toList, j ∈ w.state.jobs.toList) (htimers : Met w timers)
    (hn : timers.Numbered) (hfatal : Met w fatal) :
    ({ w with state := { w.state with
      jobs, timers, rejections, ready, fatal, maxDepth, effectTables } } : World).Inv :=
  { hw with
    closed := { hw.closed with
      jobs := within_of_subset hw.closed.jobs hjobs
      timers := htimers
      fatal := hfatal }
    quiet := fun h => absurd h hq
    dry := fun d hd => by
      rw [show w.dry = none from hopen] at hd
      cases hd
    numbered := fun _ => hn
    waking := fun ht r hr => hw.waking ht r (by cases hr with
      | job v h => exact .job v (hjobs _ h)
      | promise id p hk h => exact .promise id p hk h)
    named := fun ht => { hw.named ht with } }

theorem Tends.congr {w' : World} (h : w.Tends O parked) (hg : Grows w w') (hhidden : w'.hidden = w.hidden)
    (hown : w'.own = w.own) (hwaits : ∀ t ∈ parked, w'.state.Waits t.id t.slot) : w'.Tends O parked :=
  { h with holds := fun t ht => {
      apart := fun held hh => by
        rw [hhidden, hown]
        exact ⟨((h.holds t ht).apart held hh).1, ((h.holds t ht).apart held hh).2.1,
          hg.has ((h.holds t ht).apart held hh).2.2⟩
      named := (h.holds t ht).named
      waits := hwaits t ht
      resume := fun o w'' hg' => (h.holds t ht).resume o w'' (hg.trans hg') } }

/-- Some of the tasks that wait. -/
theorem Tends.filter (h : w.Tends O parked) (p : ParkedTask → Bool) : w.Tends O (parked.filter p) where
  holds t ht := h.holds t (List.mem_of_mem_filter ht)
  ids := (List.filter_sublist.map _).nodup h.ids
  slots := (List.filter_sublist.map _).nodup h.slots
  disjoint t ht t' ht' :=
    h.disjoint t (List.mem_of_mem_filter ht) t' (List.mem_of_mem_filter ht')

/-- A condition is left behind. -/
theorem onward_fatal {fatal : Option Condition} (hw : w.Inv) (hq : ¬ w.quiet) (hf : Met w fatal) :
    Onward w [.other] { w with state := { w.state with fatal } } where
  toGrows := .outer rfl rfl rfl rfl
  inv := { hw with
    closed := { hw.closed with fatal := hf }
    quiet := fun h => absurd h hq
    dry := fun d hd => { hw.dry d hd with }
    waking := fun ht r hr => hw.waking ht r (by cases hr with
      | job v h => exact .job v h
      | promise id p hk h => exact .promise id p hk h)
    named := fun ht => { hw.named ht with } }
  quiet := rfl
  history := .single (Event.changes_aside rfl rfl rfl rfl rfl rfl)
  inner := by simp [Event.isInner]
  fills := by simp
  apart _ hO := hO

theorem onward_idle {w' : World} {es : List Event} (h : Onward w es w') : Onward w es w'.idle :=
  { h with
    inv := h.inv.idle
    apart := fun O hO held hh => ⟨(h.apart O hO held hh).1, nofun, (h.apart O hO held hh).2.2⟩ }

end World

namespace Realm
variable {w : World} {parked parked' : List ParkedTask} {s' : State}

theorem advance_goes {id depth : Nat} {task : Task} (h : TaskRuns id w task) (hw : w.Inv)
    (hq : ¬ w.quiet) (ht : ∃ O, w.Tends O parked)
    (hx : Realm.advance id depth task parked = .done () ⟨s', parked'⟩) :
    ∃ es w', Goes w parked es w' parked' ∧ w'.state = s' ∧ w'.own = fun _ => False := by
  induction h generalizing parked with
  | @finished _ w w₁ fatal h hf =>
    cases hx
    obtain ⟨O, ht⟩ := ht
    obtain ⟨es, hes⟩ := h.onward hw
    let w₂ : World := { w₁ with state := { w₁.state with fatal } }
    have hfatal : Onward w₁ [.other] w₂ := World.onward_fatal hes.inv (hes.quiet ▸ hq) hf
    -- What the task has hidden is revealed.
    have hleft : Acts w₂ { w₂ with state := w₂.state.leaveFrames depth } := .of_act .aside
    obtain ⟨es', hes'⟩ := (hleft.reveal (A := w₂.own) fun _ hh => hh).onward hfatal.inv
    refine ⟨_, _, .of_onward ((hes.trans hfatal).trans hes') ht, rfl, ?_⟩
    funext held
    simp [World.reveal]
  | @waiting id w w₁ slot resume h hslot ho hr =>
    cases hx
    obtain ⟨O, ht⟩ := ht
    let w₂ : World := { w₁ with state := (w₁.state.leaveFrames depth).setWaiter slot id }
    have hleft : Acts w { w₁ with state := w₁.state.leaveFrames depth } := h.step .aside
    have hacts : Acts w w₂ := hleft.step (.wait hslot.2)
    obtain ⟨es, hes⟩ := hacts.onward hw
    have hpark : w₂.Parks id slot := by
      refine ⟨hslot.1, ho, ?_⟩
      have hentry : (w₁.state.leaveFrames depth).awaits[slot]? = some {} := hslot.2
      simp [w₂, State.setWaiter, Array.getElem?_modify, hentry]
    have hidle := World.onward_idle hes
    have hresume (o : Outcome) (w' : World) (hg : Grows w₂ w') (hown : w'.own = w₂.own)
        (hw' : w'.Inv) (hm : Met w' o) : TaskRuns id w' (resume o w'.state) :=
      hr o w' ⟨⟨(show Grows w₁ w₂ from .outer rfl rfl rfl rfl).trans hg, hown⟩, hw'⟩ hm
    refine ⟨es, w₂.idle, { hidle with
      tends := ⟨_, (ht.onward hes).park hes.inv hpark hresume (fun _ => False.elim) fun t hmem =>
        hidle.apart _ (ht.holds t hmem).apart⟩
      joined := fun t hmem => ?_ }, rfl, rfl⟩
    rcases List.mem_cons.mp hmem with rfl | hmem
    · refine .inr fun hf => ?_
      obtain ⟨a, o, ha, ho⟩ := hes.history.filled hf
      rw [hpark.2.2] at ha
      cases ha
      cases ho
    · exact .inl hmem
  | parked h hT hc hpark hr _ _ ih =>
    obtain ⟨O, ht⟩ := ht
    obtain ⟨es, hes⟩ := ht.parked h hw hT hc hpark hr
    obtain ⟨es', w', hes', hrest⟩ := ih hes.inv (hes.quiet ▸ hq) hes.tends hx
    exact ⟨es ++ es', w', hes.trans hes', hrest⟩
  | exhausted => cases hx

end Realm

/-- A world in which no code runs: nothing is kept back but by the tasks that wait. -/
structure World.Rests (w : World) : Prop where
  tracked : w.tracked
  isOpen : w.isOpen
  own : w.own = fun _ => False
  filling : w.filling = fun _ => False
  quiet : ¬ w.quiet
  inv : w.Inv

/-- Work in a realm leads from some tasks that wait to others. -/
structure Works (w : World) (parked : List ParkedTask) (w' : World) (parked' : List ParkedTask) : Prop
    extends Grows w w' where
  rests : w'.Rests
  tends : ∃ O, w'.Tends O parked'
  filled : ∀ slot, w.state.Filled slot → w'.state.Filled slot
  joined : ∀ t ∈ parked', t ∈ parked ∨ ¬ w.state.Filled t.slot

namespace Works
variable {w w₁ w₂ : World} {parked parked₁ parked₂ : List ParkedTask} {es : List Event}

theorem refl (hw : w.Rests) (ht : ∃ O, w.Tends O parked) : Works w parked w parked where
  toGrows := .refl
  rests := hw
  tends := ht
  filled _ h := h
  joined _ := .inl

theorem trans (h : Works w parked w₁ parked₁) (h' : Works w₁ parked₁ w₂ parked₂) :
    Works w parked w₂ parked₂ where
  toGrows := h.toGrows.trans h'.toGrows
  rests := h'.rests
  tends := h'.tends
  filled slot hf := h'.filled slot (h.filled slot hf)
  joined t ht := (h'.joined t ht).elim (h.joined t) fun hf => .inr fun hfilled => hf (h.filled _ hfilled)

theorem of_goes (h : Goes w parked es w₁ parked₁) (hw : w.Rests) (hown : w₁.own = fun _ => False) :
    Works w parked w₁ parked₁ where
  toGrows := h.toGrows
  rests := {
    tracked := h.tracked ▸ hw.tracked
    isOpen := h.dry.trans hw.isOpen
    own := hown
    filling := h.filling.trans hw.filling
    quiet := h.quiet ▸ hw.quiet
    inv := h.inv }
  tends := h.tends
  filled _ := h.history.filled
  joined := h.joined

end Works

/-- Events that are of no concern to the realm: nothing that waits is touched, and no work is taken. -/
def Event.isOrdinary : Event → Bool
  | fill .. | take _ | report _ | wake _ | discard .. => false
  | enqueue job => !job.isReaction
  | _ => true

theorem Onward.ordinary {w w' : World} {es : List Event} (h : Onward w es w') (ht : w.tracked)
    (hf : w.filling = fun _ => False) : ∀ e ∈ es, e.isOrdinary = true := by
  intro e he
  have hinner := h.inner e he
  cases e with
  | fill slot waiter => exact (congrFun hf slot ▸ h.fills ht slot waiter he).elim
  | enqueue job => exact hinner
  | _ => first | rfl | cases hinner

namespace World
variable {w : World}

theorem changes_wake {id : Nat} {rest : Queue Nat} (hpop : w.state.ready.pop? = some (id, rest)) :
    (Event.wake id).Changes w.state { w.state with ready := rest } where
  promise _ := .same nofun
  slot _ := .same nofun
  jobs := List.append_nil _
  ready := by simp [Event.awakened, Event.woken, Queue.toList_of_pop? hpop]
  rejections := rfl
  shown := nofun
  latches := .refl

end World

theorem State.setWaiter_eq {s : State} {slot task : Nat} (h : s.awaits[slot]? = some ⟨none, some task⟩) :
    s.setWaiter slot task = s := by
  have hsame : s.awaits.modify slot (fun a => { a with waiter := some task }) = s.awaits := by
    apply Array.ext_getElem?
    intro i
    rw [Array.getElem?_modify]
    split
    · rename_i he
      subst he
      rw [h]
      rfl
    · rfl
  rw [State.setWaiter, hsame]

namespace Realm
variable {w : World} {parked parked' : List ParkedTask} {s' : State}

/-- A task that was woken goes on. After that nobody waits for its slot. -/
theorem poll_works {id : Nat} {rest : Queue Nat} (hw : w.Rests) (ht : ∃ O, w.Tends O parked)
    (hpop : w.state.ready.pop? = some (id, rest))
    (hx : Realm.poll id ⟨{ w.state with ready := rest }, parked⟩ = .done () ⟨s', parked'⟩) :
    ∃ es w', Works w parked w' parked' ∧ w'.state = s' ∧ History w.state (.wake id :: es) s' ∧
      (∀ e ∈ es, e.isOrdinary = true) ∧
      ∀ t, parked.find? (·.id == id) = some t → w.state.Filled t.slot → ∀ t' ∈ parked', t'.slot ≠ t.slot := by
  obtain ⟨O, ht⟩ := ht
  let w₁ : World := { w with state := { w.state with ready := rest } }
  have hinv : w₁.Inv := hw.inv.outer hw.isOpen hw.quiet (fun _ h => h) hw.inv.closed.timers
    (hw.inv.numbered hw.tracked) hw.inv.closed.fatal
  have hrests : w₁.Rests := { hw with inv := hinv }
  have hwake := World.changes_wake hpop
  have hgrows : Grows w w₁ := .outer rfl rfl rfl rfl
  -- Who has not been taken still waits or can go on.
  have hwaits (t : ParkedTask) (hmem : t ∈ parked) (hne : t.id ≠ id) : w₁.state.Waits t.id t.slot := by
    rcases (ht.holds t hmem).waits with hs | ⟨hf, hready⟩
    · exact .inl hs
    · rw [Queue.toList_of_pop? hpop] at hready
      exact .inr ⟨hf, (List.mem_cons.mp hready).resolve_left hne⟩
  have hstay (hwaits : ∀ t ∈ parked, w₁.state.Waits t.id t.slot) : Works w parked w₁ parked :=
    { toGrows := hgrows
      rests := hrests
      tends := ⟨O, ht.congr hgrows rfl rfl hwaits⟩
      filled := fun _ h => h
      joined := fun _ => .inl }
  unfold Realm.poll at hx
  dsimp only at hx
  split at hx
  · rename_i hfind
    cases hx
    refine ⟨[], w₁, hstay fun t hmem => hwaits t hmem ?_, rfl, .single hwake, by simp,
      fun t ht' => by rw [hfind] at ht'; cases ht'⟩
    rintro rfl
    simpa using List.find?_eq_none.mp hfind t hmem
  · rename_i t hfind
    have hmem := List.mem_of_find?_eq_some hfind
    obtain rfl : t.id = id := by simpa using List.find?_some hfind
    split at hx
    · rename_i houtcome
      -- It has been woken too early, and waits as before.
      have hslot : w.state.awaits[t.slot]? = some ⟨none, some t.id⟩ := by
        rcases (ht.holds t hmem).waits with hs | ⟨⟨a, o, ha, ho⟩, -⟩
        · exact hs
        · have houtcome : (w.state.awaits[t.slot]?).bind (·.outcome) = none := houtcome
          simp [ha, ho] at houtcome
      rw [State.setWaiter_eq (s := { w.state with ready := rest }) hslot] at hx
      cases hx
      refine ⟨[], w₁, hstay fun t' hmem' => ?_, rfl, .single hwake, by simp, fun t' ht' hf => ?_⟩
      rotate_left
      · obtain rfl : t = t' := Option.some.inj (hfind.symm.trans ht')
        obtain ⟨a, o, ha, ho⟩ := hf
        rw [hslot] at ha
        cases ha
        cases ho
      by_cases he : t'.id = t.id
      · obtain rfl : t' = t := List.inj_on_of_nodup_map ht.ids hmem' hmem he
        exact .inl hslot
      · exact hwaits t' hmem' he
    · rename_i o houtcome
      obtain ⟨a, ha, ho⟩ := Option.bind_eq_some_iff.mp houtcome
      have hholds := ht.holds t hmem
      -- It finds what it has hidden.
      let w₂ : World := w₁.handing (O t.id)
      let w₃ : World := { w₂ with state := { w₂.state with stack := t.frame :: w₂.state.stack } }
      have hinv₂ : w₂.Inv := { hinv with own := fun held hh => (hholds.apart held hh).1 }
      obtain ⟨es, h₃⟩ := (Acts.of_act (w := w₂) .aside : Acts w₂ w₃).onward hinv₂
      have hgrows₂ : Grows w w₂ := { hgrows with }
      have htends : w₂.Tends O (parked.filter (·.id != t.id)) := by
        refine { ht.filter _ with holds := fun t' hmem' => ?_ }
        obtain ⟨hmem', hne⟩ := List.mem_filter.mp hmem'
        have hne : t'.id ≠ t.id := by simpa using hne
        exact {
          apart := fun held hh => ⟨((ht.holds t' hmem').apart held hh).1,
            ht.disjoint t' hmem' t hmem hne held hh, ((ht.holds t' hmem').apart held hh).2.2⟩
          named := (ht.holds t' hmem').named
          waits := hwaits t' hmem' hne
          resume := fun o w' hg =>
            (ht.holds t' hmem').resume o w' (hgrows₂.trans hg) }
      have ho' : Met w o := by
        have hslot : Met w a := within_getElem? hw.inv.closed.awaits ha
        have hslot : Met w a.outcome := hslot
        rwa [ho] at hslot
      have hruns := hholds.resume o w₃ { hgrows.trans { h₃.toGrows with } with } rfl h₃.inv
        (Grows.met { hgrows.trans { h₃.toGrows with } with } ho')
      obtain ⟨es', w', hgoes, rfl, hown⟩ :=
        advance_goes hruns h₃.inv hrests.quiet ⟨O, htends.onward h₃⟩ hx
      have hall := (Goes.of_onward h₃ htends).trans hgoes
      refine ⟨es ++ es', w', ?_, rfl, .cons hwake hall.history, hall.ordinary hw.tracked hw.filling,
        fun t₁ ht₁ hf t' ht' he => ?_⟩
      rotate_left
      · obtain rfl : t = t₁ := Option.some.inj (hfind.symm.trans ht₁)
        rcases hall.joined t' ht' with hin | hunfilled
        · obtain ⟨hin, hne⟩ := List.mem_filter.mp hin
          rw [List.inj_on_of_nodup_map ht.slots hin hmem he] at hne
          simp at hne
        · exact hunfilled (he ▸ hf)
      exact {
        toGrows := { hgrows.trans { hall.toGrows with } with }
        rests := {
          tracked := hall.tracked ▸ hw.tracked
          isOpen := hall.dry.trans hw.isOpen
          own := hown
          filling := hall.filling.trans hw.filling
          quiet := hall.quiet ▸ hw.quiet
          inv := hall.inv }
        tends := hall.tends
        filled := fun slot hf => hall.history.filled hf
        joined := fun t' ht' => (hall.joined t' ht').imp_left List.mem_of_mem_filter }

end Realm

end EcmaScript
