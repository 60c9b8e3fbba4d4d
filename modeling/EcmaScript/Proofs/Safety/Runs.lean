import EcmaScript.Proofs.Invariant

/-! Safe computations: whatever they do is a sequence of allowed changes, and what they come to is
known. Each is run twice, by two machines that may answer requests differently; the runs agree until
the first one ends with a condition that the second is not told of. -/
namespace EcmaScript

namespace World

def handing (w : World) (T : Held → Prop) : World := { w with own := T }

def resumed (w : World) (T : Held → Prop) (w' : World) : World :=
  { w' with own := fun h => w.own h ∧ ¬ T h }

/-- The rules that an evaluation goes by are those of the dry run in progress. -/
def Fits (w : World) (c : Context) : Prop :=
  ∀ d ∈ w.dry, c.effects = some d.table ∧ c.firstObject = d.firstObject ∧
    c.firstScope = d.firstScope

end World

/-- What a computation finds that has waited. -/
structure Resumes (w w' : World) : Prop where
  later : Later w w'
  inv : w'.Inv

abbrev Endings := Prop → Condition → State → Prop

def World.Awaits (w : World) (slot : Nat) : Prop :=
  w.isOpen ∧ w.state.awaits[slot]? = some {}

def World.Parks (w : World) (id slot : Nat) : Prop :=
  w.isOpen ∧ w.own (.task id) ∧ w.state.awaits[slot]? = some ⟨none, some id⟩

/-- A run of the task with a certain id, which may leave a condition behind. `T` is what it hands over
to a task it leaves behind. -/
inductive TaskRuns : Nat → World → Task → Prop where
  | finished {id : Nat} {w w' : World} {fatal : Option Condition} (h : Acts w w')
    (hf : Met w' fatal) : TaskRuns id w (.finished { w'.state with fatal })
  | waiting {id : Nat} {w w₁ : World} {slot : Nat} {resume : Outcome → State → Task}
    (h : Acts w w₁) (hslot : w₁.Awaits slot) (ho : w₁.own (.task id))
    (hr : ∀ o w₂, Resumes w₁ w₂ → Met w₂ o → TaskRuns id w₂ (resume o w₂.state)) :
    TaskRuns id w (.waiting slot w₁.state resume)
  | parked {id : Nat} {w w₁ w₂ : World} {T : Held → Prop} {id' slot : Nat} {frame : Frame}
    {task : Outcome → State → Task} {next : State → Task} (h : Acts w w₁)
    (hT : ∀ h, T h → w₁.own h) (hc : Acts (w₁.handing T) w₂) (hpark : w₂.Parks id' slot)
    (ht : ∀ o w₃, Resumes w₂ w₃ → Met w₃ o → TaskRuns id' w₃ (task o w₃.state))
    (hn : TaskRuns id (w₁.resumed T w₂) (next w₂.state)) :
    TaskRuns id w (.parked id' slot frame task w₂.state next)
  | exhausted {id : Nat} {w : World} : TaskRuns id w .exhausted

/-- Two runs of a computation that agree. In the end `O` is what it hides, and a value satisfies
`Q`. -/
inductive Runs (E : Endings) (O : Held → Prop) {α : Type} (Q : α → World → Prop) :
    World → Step α → Step α → Prop where
  | value {w w' : World} {a : α} (h : Acts w w') (ho : w'.own = O) (ha : Q a w') :
    Runs E O Q w (.value a w'.state) (.value a w'.state)
  | abrupt {w w' : World} {e : Abrupt} (h : Acts w w') (ho : w'.own = O) (he : Met w' e) :
    Runs E O Q w (.abrupt e w'.state) (.abrupt e w'.state)
  | ended {w w' : World} {x : Step α} {k : Condition} (h : Acts w w') (ho : w'.own = O)
    (hk : Met w' k ∧ E w'.quiet k w'.state) : Runs E O Q w x (.abrupt (.condition k) w'.state)
  | waiting {w w₁ : World} {slot : Nat} {resume' resume : Outcome → State → Step α}
    (h : Acts w w₁) (hslot : w₁.Awaits slot) (ho : ∀ h, O h → w₁.own h)
    (hr : ∀ o w₂, Resumes w₁ w₂ → Met w₂ o →
      Runs E O Q w₂ (resume' o w₂.state) (resume o w₂.state)) :
    Runs E O Q w (.waiting slot w₁.state resume') (.waiting slot w₁.state resume)
  | parked {w w₁ w₂ : World} {T : Held → Prop} {id slot : Nat} {frame : Frame}
    {task' task : Outcome → State → Task} {next' next : State → Step α} (h : Acts w w₁)
    (hT : ∀ h, T h → w₁.own h) (hc : Acts (w₁.handing T) w₂) (hpark : w₂.Parks id slot)
    (ht : ∀ o w₃, Resumes w₂ w₃ → Met w₃ o → TaskRuns id w₃ (task o w₃.state))
    (hn : Runs E O Q (w₁.resumed T w₂) (next' w₂.state) (next w₂.state)) :
    Runs E O Q w (.parked id slot frame task' w₂.state next')
      (.parked id slot frame task w₂.state next)
  | exhausted {w : World} {x : Step α} : Runs E O Q w x .exhausted

/-- Two machines, and the conditions in which the first may end without the second. -/
structure Pairing where
  machine : Machine
  mate : Machine
  ends : Endings

def Pairing.locked (P : Pairing) : Pairing := { P with ends := fun _ _ _ => False }

def Safe (P : Pairing) (c : Context) {α : Type} (w : World) (x : Exec α) (Q : α → World → Prop) :
    Prop :=
  w.Fits c → w.Inv → Runs P.ends w.own Q w (x P.mate c w.state) (x P.machine c w.state)

namespace World
variable {w w₁ w₂ : World} {T : Held → Prop}

theorem Inv.handing (h : w.Inv) (hT : ∀ h, T h → w.own h) : (w.handing T).Inv :=
  { h with own := fun held hh => h.own held (hT held hh) }

theorem resumed_inv (h : w₁.Inv) (hT : ∀ h, T h → w₁.own h) (hc : Acts (w₁.handing T) w₂) :
    (w₁.resumed T w₂).Inv :=
  { hc.inv (h.handing hT) with
    own := fun held hh => hc.hidden_kept (h.own held hh.1) hh.2 (h.hidden held (h.own held hh.1)) }

def left (w : World) (O : Held → Prop) (depth : Nat) : World :=
  ({ w.frame O with state := w.state.leaveFrames depth } : World).reveal w.own

theorem Apart.frame {O : Held → Prop} (hO : w.Apart O) (hw : w.Inv) : (w.frame O).Inv :=
  { hw with own := fun id hid => hid.elim (fun h => (hO id h).1) (hw.own id) }

theorem left_acts {O : Held → Prop} {depth : Nat} (h : Acts w w₁) (hO : w.Apart O) :
    Acts (w.frame O) (w₁.left O depth) :=
  ((h.frame hO).step .aside).reveal fun _ hh => .inr hh

theorem left_own {O : Held → Prop} {depth : Nat} (hO : w.Apart O) : (w.left O depth).own = O := by
  funext held
  have := fun hh => (hO held hh).2.1
  simp only [left, frame, reveal]
  grind

theorem left_grows {O : Held → Prop} {depth : Nat} (h : Acts w w₁) : Grows w (w₁.left O depth) :=
  { (h.step .aside).grows with hidden := fun held hh => h.grows.hidden held hh.1 }

theorem reveal_grows {A : Held → Prop} : Grows w (w.reveal A) :=
  { Grows.refl (w := w) with hidden := fun _ hh => .inl hh.1 }

theorem resumed_grows (hc : Acts (w₁.handing T) w₂) : Grows w₁ (w₁.resumed T w₂) :=
  { hc.grows with }

end World

namespace Runs
variable {E F : Endings} {O : Held → Prop} {α β : Type} {Q Q₁ : α → World → Prop} {Q' : β → World → Prop}
  {w w₀ : World} {x x' : Step α}

theorem after (h : Runs E O Q w x' x) (ha : Acts w₀ w) : Runs E O Q w₀ x' x := by
  cases h with
  | value h ho hq => exact .value (ha.trans h) ho hq
  | abrupt h ho he => exact .abrupt (ha.trans h) ho he
  | ended h ho hk => exact .ended (ha.trans h) ho hk
  | waiting h hslot ho hr => exact .waiting (ha.trans h) hslot ho hr
  | parked h hT hc hpark ht hn => exact .parked (ha.trans h) hT hc hpark ht hn
  | exhausted => exact .exhausted

/-- What is done with an outcome, in both runs. -/
theorem handle {f' f : Except Abrupt α → State → Step β} (h : Runs F O Q w x' x)
    (hw : w.Inv)
    (hvalue : ∀ a w', Grows w w' → w'.own = O → w'.Inv → Q a w' →
      Runs E O Q' w' (f' (.ok a) w'.state) (f (.ok a) w'.state))
    (habrupt : ∀ e w', Grows w w' → w'.own = O → w'.Inv → Met w' e →
      Runs E O Q' w' (f' (.error e) w'.state) (f (.error e) w'.state))
    (hended : ∀ k w' y, Grows w w' → w'.own = O → w'.Inv → Met w' k ∧ F w'.quiet k w'.state →
      Runs E O Q' w' y (f (.error (.condition k)) w'.state)) :
    Runs E O Q' w (x'.handle f') (x.handle f) := by
  induction h with
  | value h ho hq => exact (hvalue _ _ h.grows ho (h.inv hw) hq).after h
  | abrupt h ho he => exact (habrupt _ _ h.grows ho (h.inv hw) he).after h
  | ended h ho hk => exact (hended _ _ _ h.grows ho (h.inv hw) hk).after h
  | waiting h hslot ho _ ih =>
    refine .waiting h hslot ho fun o w₂ hres ho => ?_
    have hg := h.grows.trans hres.later.toGrows
    exact ih o w₂ hres ho hres.inv (fun a w' hg' => hvalue a w' (hg.trans hg'))
      (fun e w' hg' => habrupt e w' (hg.trans hg')) (fun k w' y hg' => hended k w' y (hg.trans hg'))
  | parked h hT hc hpark ht _ ih =>
    have hg := h.grows.trans (World.resumed_grows hc)
    exact .parked h hT hc hpark ht (ih (World.resumed_inv (h.inv hw) hT hc)
      (fun a w' hg' => hvalue a w' (hg.trans hg')) (fun e w' hg' => habrupt e w' (hg.trans hg'))
      (fun k w' y hg' => hended k w' y (hg.trans hg')))
  | exhausted => exact .exhausted

theorem bind {f' f : α → State → Step β} (h : Runs E O Q w x' x) (hw : w.Inv)
    (hf : ∀ a w', Grows w w' → w'.own = O → w'.Inv → Q a w' →
      Runs E O Q' w' (f' a w'.state) (f a w'.state)) :
    Runs E O Q' w (x'.bind f') (x.bind f) := by
  rw [Step.bind_eq_handle, Step.bind_eq_handle]
  exact h.handle hw hf (fun _ _ _ ho _ he => .abrupt .refl ho he)
    fun _ _ _ _ ho _ hk => .ended .refl ho hk

theorem mono (h : Runs E O Q w x' x)
    (hQ : ∀ a w', Grows w w' → w'.own = O → Q a w' → Q₁ a w') : Runs E O Q₁ w x' x := by
  induction h with
  | value h ho hq => exact .value h ho (hQ _ _ h.grows ho hq)
  | abrupt h ho he => exact .abrupt h ho he
  | ended h ho hk => exact .ended h ho hk
  | waiting h hslot ho _ ih =>
    exact .waiting h hslot ho fun o w₂ hres ho => ih o w₂ hres ho fun a w' hg =>
      hQ a w' ((h.grows.trans hres.later.toGrows).trans hg)
  | parked h hT hc hpark ht _ ih =>
    exact .parked h hT hc hpark ht (ih fun a w' hg =>
      hQ a w' ((h.grows.trans (World.resumed_grows hc)).trans hg))
  | exhausted => exact .exhausted

theorem comes (h : Runs E O Q w x' x) :
    Runs E O (fun a w' => Q a w' ∧ x.Comes (.ok a) w'.state) w x' x := by
  induction h with
  | value h ho hq => exact .value h ho ⟨hq, .value⟩
  | abrupt h ho he => exact .abrupt h ho he
  | ended h ho hk => exact .ended h ho hk
  | waiting h hslot ho _ ih =>
    exact .waiting h hslot ho fun o w₂ hres hmet => (ih o w₂ hres hmet).mono
      fun _ _ _ _ hq => ⟨hq.1, .waiting hres.later.toBefore hq.2⟩
  | parked h hT hc hpark ht _ ih =>
    exact .parked h hT hc hpark ht (ih.mono fun _ _ _ _ hq => ⟨hq.1, .parked hq.2⟩)
  | exhausted => exact .exhausted

theorem now (h : Runs E O Q w x' x) :
    Runs E O (fun v w' => ∀ a, v = some a → Q a w') w x'.now x.now := by
  induction h with
  | value h ho hq =>
    refine .value h ho ?_
    rintro a ⟨⟩
    exact hq
  | abrupt h ho he => exact .abrupt h ho he
  | ended h ho hk => exact .ended h ho hk
  | @waiting _ w₁ _ _ _ h _ ho =>
    -- What is hidden on the way is revealed, since nothing comes after.
    have hreveal : Acts _ (w₁.reveal fun held => w₁.own held ∧ ¬ O held) :=
      h.reveal fun _ hh => hh.1
    have hown : (w₁.reveal fun held => w₁.own held ∧ ¬ O held).own = O := by
      funext held
      have := ho held
      simp only [World.reveal]
      grind
    have hrun := Runs.value (E := E) (Q := fun v w' => ∀ a, v = some a → Q a w') (a := none)
      hreveal hown fun _ h => by cases h
    exact hrun
  | parked h hT hc hpark ht _ ih => exact .parked h hT hc hpark ht ih
  | exhausted => exact .exhausted

theorem reveal {A : Held → Prop} (h : Runs E O Q w x' x) (hA : ∀ h, A h → O h)
    (hQ : ∀ a w', Grows w w' → w'.own = O → w'.Inv → Q a w' → Q₁ a (w'.reveal A)) (hw : w.Inv) :
    Runs E (fun h => O h ∧ ¬ A h) Q₁ w x' x := by
  have hacts {w w' : World} (h : Acts w w') (ho : w'.own = O) : Acts w (w'.reveal A) :=
    h.reveal fun held hh => ho ▸ hA held hh
  have hown {w' : World} (ho : w'.own = O) : (w'.reveal A).own = fun h => O h ∧ ¬ A h := by
    simp [World.reveal, ho]
  induction h with
  | value h ho hq =>
    have hrun := Runs.value (E := E) (hacts h ho) (hown ho) (hQ _ _ h.grows ho (h.inv hw) hq)
    exact hrun
  | @abrupt _ w' _ h ho he =>
    have hrun := Runs.abrupt (E := E) (Q := Q₁) (hacts h ho) (hown ho) ((World.reveal_grows).met he)
    exact hrun
  | @ended _ w' x' k h ho hk =>
    have hrun := Runs.ended (E := E) (Q := Q₁) (x := x') (hacts h ho) (hown ho)
      ⟨(World.reveal_grows).met hk.1, hk.2⟩
    exact hrun
  | waiting h hslot ho _ ih =>
    exact .waiting h hslot (fun held hh => ho held hh.1) fun o w₂ hres ho =>
      ih o w₂ hres ho (fun a w' hg => hQ a w' ((h.grows.trans hres.later.toGrows).trans hg)) hres.inv
  | parked h hT hc hpark ht _ ih =>
    exact .parked h hT hc hpark ht (ih (fun a w' hg =>
      hQ a w' ((h.grows.trans (World.resumed_grows hc)).trans hg))
      (World.resumed_inv (h.inv hw) hT hc))
  | exhausted => exact .exhausted

theorem toTask {x' x : Step Unit} {Q : Unit → World → Prop} {id : Nat} (h : Runs E O Q w x' x)
    (hw : w.Inv) (hid : O (.task id)) : TaskRuns id w x.toTask := by
  have hfatal {w w' : World} {k : Condition} (hw : w.Inv) (h : Acts w w') (hk : Met w' k) :
      Met w' (w'.state.fatal.or (some k)) := by
    have hfatal := (h.inv hw).closed.fatal
    cases hf : w'.state.fatal with
    | none => exact hk
    | some k' =>
      rw [hf] at hfatal
      exact hfatal
  induction h with
  | value h _ _ => exact .finished h (h.inv hw).closed.fatal
  | @abrupt _ _ e h _ he =>
    cases e with
    | condition k => exact .finished h (hfatal hw h he)
    | _ => exact .finished h (h.inv hw).closed.fatal
  | ended h _ hk => exact .finished h (hfatal hw h hk.1)
  | waiting h hslot ho _ ih =>
    exact .waiting h hslot (ho _ hid) fun o w₂ hres ho => ih o w₂ hres ho hres.inv
  | parked h hT hc hpark ht _ ih =>
    exact .parked h hT hc hpark ht (ih (World.resumed_inv (h.inv hw) hT hc))
  | exhausted => exact .exhausted

/-- A computation that goes on without another one, which has an id for itself. -/
theorem detach {x' x : Step Unit} {Q : Unit → World → Prop} {B : Held → Prop}
    {g' g : Option Condition → State → Step β} {id depth : Nat}
    (h : Runs F B Q w x' x) (hw : w.Inv) (hO : w.Apart O) (hid : B (.task id))
    (hstack : ∀ {q k s} stack, F q k s → F q k { s with stack })
    (hnext : ∀ k w', Grows w w' → w'.own = O → w'.Inv → Met w' k →
      Runs E O Q' w' (g' k w'.state) (g k w'.state))
    (hended : ∀ k w' y, Grows w w' → w'.own = O → w'.Inv → Met w' k ∧ F w'.quiet k w'.state →
      Runs E O Q' w' y (g (some k) w'.state)) :
    Runs E O Q' (w.frame O) ((x'.detach id depth).bind g') ((x.detach id depth).bind g) := by
  have hleft (k : Option Condition) {w w₁ : World} (h : Acts w w₁) (hk : Met w₁ k)
      (hw : w.Inv) (hO : w.Apart O)
      (hnext : ∀ k w', Grows w w' → w'.own = O → w'.Inv → Met w' k →
        Runs E O Q' w' (g' k w'.state) (g k w'.state)) :
      Runs E O Q' (w.frame O) (g' k (w₁.state.leaveFrames depth)) (g k (w₁.state.leaveFrames depth)) :=
    (hnext k _ (World.left_grows h) (World.left_own (hO.acts h)) ((World.left_acts h hO).inv
      (hO.frame hw)) ((World.left_grows .refl).met hk)).after (World.left_acts h hO)
  induction h with
  | value h ho _ => exact hleft none h trivial hw hO hnext
  | @abrupt _ _ e h ho he =>
    cases e with
    | condition k => exact hleft (some k) h he hw hO hnext
    | _ => exact hleft none h trivial hw hO hnext
  | ended h ho hk =>
    exact (hended _ _ _ (World.left_grows h) (World.left_own (hO.acts h)) ((World.left_acts h hO).inv
      (hO.frame hw)) ⟨(World.left_grows .refl).met hk.1, hstack _ hk.2⟩).after
      (World.left_acts h hO)
  | @waiting w w₁ slot _ _ h hslot ho hr =>
    -- What the computation hides goes with it.
    let w₂ : World := { w₁ with state := (w₁.state.leaveFrames depth).setWaiter slot id }
    have hleft : Acts w { w₁ with state := w₁.state.leaveFrames depth } := h.step .aside
    have hacts : Acts w w₂ := hleft.step (.wait hslot.2)
    have hown : (fun held => (O held ∨ w.own held) ∧ ¬ w.own held) = O := by
      funext held
      have := fun hh => (hO held hh).2.1
      grind
    have hT : ∀ held, w.own held → (w.frame O).own held := fun held hh => .inr hh
    have hpark : w₂.Parks id slot := by
      refine ⟨hslot.1, ho _ hid, ?_⟩
      have hentry : (w₁.state.leaveFrames depth).awaits[slot]? = some {} := hslot.2
      simp [w₂, State.setWaiter, Array.getElem?_modify, hentry]
    refine .parked .refl hT hacts hpark (fun o w₃ hres ho => ?_) ?_
    · have hgone : Acts w₁ { w₁ with state := w₁.state.leaveFrames depth } := .of_act .aside
      have hg := (hgone.step (.wait hslot.2)).grows.trans hres.later.toGrows
      exact (hr o w₃ ⟨⟨hg, hres.later.own⟩, hres.inv⟩ ho).toTask hres.inv hid
    · have hresumed := World.resumed_inv (hO.frame hw) hT hacts
      exact hnext none _ { hacts.grows with } hown hresumed trivial
  | @parked w w₁ w₂ T _ _ _ _ _ _ _ h hT hc hpark ht _ ih =>
    have hO₁ := hO.acts h
    have hg := h.grows.trans (World.resumed_grows hc)
    have heq : (w₁.frame O).resumed T w₂ = (w₁.resumed T w₂).frame O := by
      simp only [World.frame, World.resumed, World.mk.injEq, true_and, and_true]
      funext held
      have := fun hh => (hO₁ held hh).2.1
      have := hT held
      grind
    refine .parked (h.frame hO) (fun held hh => .inr (hT held hh)) hc hpark ht ?_
    rw [heq]
    refine ih (World.resumed_inv (h.inv hw) hT hc) (fun held hh => ?_)
      (fun k w' hg' => hnext k w' (hg.trans hg')) fun k w' y hg' => hended k w' y (hg.trans hg')
    obtain ⟨hhidden, hown, hold⟩ := hO₁ held hh
    exact ⟨hc.hidden_kept hhidden (fun h => hown (hT held h)) hold, fun h => hown h.1,
      hc.grows.has hold⟩
  | exhausted => exact .exhausted

/-- A loop keeps what each turn keeps, in both runs. -/
theorem loop {body' body : β → State → Step (β ⊕ α)} {I : β → World → Prop} (fuel : Nat)
    (hbody : ∀ b w', Grows w w' → w'.own = O → w'.Inv → I b w' →
      Runs E O (fun r w' => r.elim (I · w') (Q · w')) w' (body' b w'.state) (body b w'.state))
    {b : β} (hw : w.Inv) (hO : w.own = O) (hb : I b w) :
    Runs E O Q w (Step.loop body' fuel b w.state) (Step.loop body fuel b w.state) := by
  induction fuel generalizing w b with
  | zero => exact .exhausted
  | succ fuel ih =>
    rw [Step.loop_succ, Step.loop_succ]
    refine (hbody b w .refl hO hw hb).bind hw fun r w' hg ho hw' hr => ?_
    cases r with
    | inl b => exact ih (fun b w'' hg' => hbody b w'' (hg.trans hg')) hw' ho hr
    | inr a => exact .value .refl ho hr

end Runs

end EcmaScript
