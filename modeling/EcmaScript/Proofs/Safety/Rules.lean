import EcmaScript.Proofs.Safety.Runs

/-! Rules for showing that computations are safe, one for each way to put them together. -/
namespace EcmaScript

namespace Request

/-- What is expected of those who make a request. -/
def Allowed (w : World) : Request → Prop
  | .halt k => Met w k
  | .call f this args => Met w f ∧ Met w this ∧ Met w args
  | .construct f args newTarget => Met w f ∧ Met w args ∧ Met w newTarget
  | .native f this args => w.grants f this ∧ Met w f ∧ Met w this ∧ Met w args
  | .nativeConstruct f args newTarget => Met w f ∧ Met w args ∧ Met w newTarget
  | .expression .. => True
  | .chain .. => True
  | .statement .. => True
  | .bind _ _ value _ => Met w value
  | .classDefinition .. => True
  | .instanceOf value target => Met w value ∧ Met w target
  | .abandon source => Met w source
  | .proxyGetOwn p _ => Met w p
  | .proxyDefine p _ d => Met w p ∧ Met w d
  | .proxyHas p _ => Met w p
  | .proxyGet p _ receiver => Met w p ∧ Met w receiver
  | .proxySet p _ value receiver => Met w p ∧ Met w value ∧ Met w receiver
  | .proxyDelete p _ => Met w p
  | .proxyOwnKeys p => Met w p
  | .proxyGetPrototype p => Met w p
  | .proxySetPrototype p prototype => Met w p ∧ Met w prototype
  | .proxyIsExtensible p => Met w p
  | .proxyPreventExtensions p => Met w p

/-- Code can have access to what a request comes to. -/
def Yields : (r : Request) → r.Result → World → Prop
  | .call .., (v : Value), w => Met w v
  | .construct .., (v : Value), w => Met w v
  | .native .., (v : Value), w => Met w v
  | .nativeConstruct .., (v : Value), w => Met w v
  | .expression .., (v : Value), w => Met w v
  | .chain .., (v : Option (Value × Value)), w => Met w v
  | .statement .., (c : Completion), w => Met w c
  | .classDefinition .., (id : ObjectId), w => Met w id
  | .proxyGetOwn .., (p : Option Property), w => Met w p
  | .proxyGet .., (v : Value), w => Met w v
  | .proxyGetPrototype .., (p : Option ObjectId), w => Met w p
  | _, _, _ => True

end Request

/-- Both machines answer every request that is allowed safely. They abandon iterators alike. -/
class Serves (P : Pairing) : Prop where
  real : ∃ n, P.machine = machine n
  fuel : P.mate.fuel = P.machine.fuel
  answers : ∀ (r : Request) (c : Context) (w : World), r.Allowed w →
    Safe P c w (Exec.request r) r.Yields
  abandons : ∀ (source : ItemSource) (c : Context) (w : World), Met w source →
    Safe P.locked c w (Exec.request (.abandon source)) fun _ _ => True
  stack : ∀ {q : Prop} {k : Condition} {s : State} (stack : List Frame), P.ends q k s →
    P.ends q k { s with stack }
  taken : ∀ {q : Prop} {k k' : Condition} {s : State}, P.ends q k s → (q → s.fatal = none) →
    s.fatal.or (some k) = some k' → P.ends q k' { s with fatal := none }

/-- The first machine ends a computation with a condition that it has been told of. -/
def Passes (P : Pairing) (c : Context) {α : Type} (w : World) (x : Exec α) (k : Condition) : Prop :=
  ∃ w', Acts w w' ∧ w'.own = w.own ∧ (Met w' k ∧ P.ends w'.quiet k w'.state) ∧
    x P.machine c w.state = .abrupt (.condition k) w'.state

namespace Exec
variable {α β : Type}

theorem handle_bind {x : Step α} (f : Except Abrupt α → State → Step β) :
    (x.handle fun r s => .value r s).bind f = x.handle f := by
  induction x with
  | waiting slot s resume ih => exact congrArg _ (funext fun o => funext fun s => ih o s)
  | parked id slot frame resume s next ih => exact congrArg _ (funext fun s => ih s)
  | _ => rfl

end Exec

namespace World
variable {w : World} {o : Object}

def push (w : World) (o : Object) : World :=
  { w with state := { w.state with heap := w.state.heap.push o } }

theorem act_push (ho : Met w o) (hb : o.Begins w) : Act w (w.push o).state := .allocate ho hb

end World

abbrev Known {α : Type} [Mentions α] (a : α) (w : World) : Prop := Met w a

namespace Safe
variable {P : Pairing} {c : Context} {α β : Type} {Q Q₁ : α → World → Prop}
  {Q' : β → World → Prop} {w : World} {x : Exec α}

theorem pure {a : α} (h : Q a w) : Safe P c w (Pure.pure a) Q := fun _ _ => .value .refl rfl h

theorem raise {e : Abrupt} (he : Met w e) : Safe P c w (Exec.raise e) Q :=
  fun _ _ => .abrupt .refl rfl he

theorem exhausted : Safe P c w (Exec.exhausted : Exec α) Q := fun _ _ => .exhausted

theorem look {f : State → α} (h : w.Inv → Q (f w.state) w) : Safe P c w (Exec.look f) Q :=
  fun _ hw => .value .refl rfl (h hw)

theorem change {f : State → State} {Q : Unit → World → Prop}
    (h : w.Inv → Acts w { w with state := f w.state })
    (hq : w.Inv → Q () { w with state := f w.state }) : Safe P c w (Exec.change f) Q :=
  fun _ hw => Runs.value (Q := Q) (h hw) rfl (hq hw)

theorem update {f : State → α × State} (h : w.Inv → Acts w { w with state := (f w.state).2 })
    (hq : w.Inv → Q (f w.state).1 { w with state := (f w.state).2 }) :
    Safe P c w (Exec.update f) Q :=
  fun _ hw => Runs.value (Q := Q) (h hw) rfl (hq hw)

theorem mono (h : Safe P c w x Q) (hQ : ∀ a w', Later w w' → Q a w' → Q₁ a w') :
    Safe P c w x Q₁ :=
  fun hc hw => (h hc hw).mono fun a w' hg ho => hQ a w' ⟨hg, ho⟩

theorem comes (h : Safe P c w x Q) :
    Safe P c w x fun a w' => Q a w' ∧ x.Comes P.machine c w.state (.ok a) w'.state :=
  fun hc hw => (h hc hw).comes

theorem bind {f : α → Exec β} (hx : Safe P c w x Q)
    (hf : ∀ a w', Later w w' → Q a w' → Safe P c w' (f a) Q') : Safe P c w (x >>= f) Q' := by
  intro hc hw
  refine (hx hc hw).bind hw fun a w' hg ho hw' ha => ?_
  have hrun := hf a w' ⟨hg, ho⟩ ha (fun d hd => hc d (hg.dry ▸ hd)) hw'
  rwa [ho] at hrun

theorem map {f : α → β} (hx : Safe P c w x Q) (hf : ∀ a w', Q a w' → Q' (f a) w') :
    Safe P c w (f <$> x) Q' := hx.bind fun a w' _ ha => pure (hf a w' ha)

theorem ite {b : Prop} [Decidable b] {y : Exec α} (hx : b → Safe P c w x Q)
    (hy : ¬ b → Safe P c w y Q) : Safe P c w (if b then x else y) Q := by
  split
  · exact hx ‹_›
  · exact hy ‹_›

theorem look_bind {f : State → α} {g : α → Exec β}
    (h : w.Inv → Safe P c w (g (f w.state)) Q') : Safe P c w (Exec.look f >>= g) Q' :=
  fun hc hw => h hw hc hw

theorem change_bind {f : State → State} {g : Unit → Exec β}
    (h : w.Inv → Acts w { w with state := f w.state })
    (hg : Safe P c { w with state := f w.state } (g ()) Q') : Safe P c w (Exec.change f >>= g) Q' :=
  fun hc hw => (hg hc ((h hw).inv hw)).after (h hw)

theorem allocate_bind {o : Object} {g : ObjectId → Exec β} (ho : Met w o)
    (hb : o.Begins w)
    (hg : Safe P c (w.push o) (g ⟨w.state.heap.size⟩) Q') : Safe P c w (Exec.allocate o >>= g) Q' := by
  intro hc hw
  have hacts : Acts w (w.push o) := .of_act (World.act_push ho hb)
  exact (hg hc (hacts.inv hw)).after hacts

theorem context_bind {g : Context → Exec β} (h : w.Fits c → Safe P c w (g c) Q') :
    Safe P c w (Exec.context >>= g) Q' := fun hc hw => h hc hc hw

theorem pure_bind {a : α} {g : α → Exec β} (h : Safe P c w (g a) Q') :
    Safe P c w (Pure.pure a >>= g) Q' := h

theorem raise_bind {e : Abrupt} {g : α → Exec β} (he : Met w e) :
    Safe P c w (Exec.raise e >>= g) Q' := (raise (Q := fun _ _ => False) he).bind (by simp)

theorem passes_raise {k : Condition} (hk : Met w k ∧ P.ends w.quiet k w.state) :
    Passes P c w (Exec.raise (.condition k) : Exec α) k := ⟨w, .refl, rfl, hk, rfl⟩

/-- After an attempt, conditions that the first machine has been told of have to be passed on. -/
theorem attempt_ends {E : Endings} {f : Except Abrupt α → Exec β}
    (hx : Safe { P with ends := E } c w x Q)
    (hend : ∀ k w', Later w w' → w'.Inv → Met w' k ∧ E w'.quiet k w'.state →
      Passes P c w' (f (.error (.condition k))) k)
    (hok : ∀ a w', Later w w' → Q a w' → Safe P c w' (f (.ok a)) Q')
    (herror : ∀ e w', Later w w' → Met w' e → Safe P c w' (f (.error e)) Q') :
    Safe P c w (Exec.attempt x >>= f) Q' := by
  intro hc hw
  have hfits {w' : World} (hg : Grows w w') : w'.Fits c := fun d hd => hc d (hg.dry ▸ hd)
  have heq (m : Machine) : (Exec.attempt x >>= f) m c w.state =
      (x m c w.state).handle fun r s => f r m c s := Exec.handle_bind _
  rw [heq, heq]
  refine (hx hc hw).handle hw ?_ ?_ ?_
  · intro a w' hg ho hw' ha
    have hrun := hok a w' ⟨hg, ho⟩ ha (hfits hg) hw'
    rwa [ho] at hrun
  · intro e w' hg ho hw' he
    have hrun := herror e w' ⟨hg, ho⟩ he (hfits hg) hw'
    rwa [ho] at hrun
  · intro k w' y hg ho hw' hk
    obtain ⟨w'', hacts, hown, hk', hx⟩ := hend k w' ⟨hg, ho⟩ hw' hk
    rw [hx]
    exact .ended hacts (hown.trans ho) hk'

theorem attempt {f : Except Abrupt α → Exec β} (hx : Safe P c w x Q)
    (hend : ∀ k w', Later w w' → w'.Inv → Met w' k ∧ P.ends w'.quiet k w'.state →
      Passes P c w' (f (.error (.condition k))) k)
    (hok : ∀ a w', Later w w' → Q a w' → Safe P c w' (f (.ok a)) Q')
    (herror : ∀ e w', Later w w' → Met w' e → Safe P c w' (f (.error e)) Q') :
    Safe P c w (Exec.attempt x >>= f) Q' := attempt_ends hx hend hok herror

theorem attempt_locked {f : Except Abrupt α → Exec β} (hx : Safe P.locked c w x Q)
    (hok : ∀ a w', Later w w' → Q a w' → Safe P c w' (f (.ok a)) Q')
    (herror : ∀ e w', Later w w' → Met w' e → Safe P c w' (f (.error e)) Q') :
    Safe P c w (Exec.attempt x >>= f) Q' :=
  attempt_ends hx (fun _ _ _ _ hk => hk.2.elim) hok herror

theorem within {g : Context → Context} (hg : (g c).effects = c.effects ∧
    (g c).firstObject = c.firstObject ∧ (g c).firstScope = c.firstScope)
    (h : Safe P (g c) w x Q) : Safe P c w (Exec.within g x) Q := by
  intro hc hw
  refine h (fun d hd => ?_) hw
  obtain ⟨he, ho, hs⟩ := hc d hd
  exact ⟨hg.1.trans he, hg.2.1.trans ho, hg.2.2.trans hs⟩

theorem inv_hide {o : Object} (ho : Met w o) (hb : o.Begins w)
    (hw : w.Inv) : ((w.push o).hide (.object ⟨w.state.heap.size⟩)).Inv := by
  have hknows (id : ObjectId) (hid : w.knows id) :
      ((w.push o).hide (.object ⟨w.state.heap.size⟩)).knows id := by
    intro ht
    obtain ⟨hsize, hhidden, hsecret⟩ := hid ht
    refine ⟨by simp [World.hide, World.push]; omega, ?_, ?_⟩
    · rintro (hid | hid)
      · exact hhidden hid
      · cases hid
        simp at hsize
    · rwa [World.hide, World.push, State.object_push, if_neg (by omega)]
  have hk := hw.closed.mono hknows
  refine ((World.act_push ho hb).inv hw).hide (by simp [State.Has, World.push]) ?_
  exact { hk with heap := within_push hk.heap (ho.mono hknows) }

/-- Adds an object that is kept hidden until the computation has ended. -/
theorem allocate_hidden {o : Object} {f : ObjectId → Exec α} (ho : Met w o)
    (hb : o.Begins w)
    (h : Safe P c ((w.push o).hide (.object ⟨w.state.heap.size⟩)) (f ⟨w.state.heap.size⟩) Q₁)
    (hQ : ∀ a w', Grows ((w.push o).hide (.object ⟨w.state.heap.size⟩)) w' → w'.Inv → Q₁ a w' →
      Q a (w'.reveal (· = .object ⟨w.state.heap.size⟩))) :
    Safe P c w (Exec.allocate o >>= f) Q := by
  intro hc hw
  have hinv := inv_hide ho hb hw
  have hacts : Acts w ((w.push o).hide (.object ⟨w.state.heap.size⟩)) :=
    .hide (.of_act (World.act_push ho hb)) (Nat.lt_irrefl _) hinv
  have hrun := ((h hc hinv).reveal (A := (· = .object ⟨w.state.heap.size⟩)) (fun _ hh => .inr hh)
    (fun a w' hg _ hw' hq => hQ a w' hg hw' hq) hinv).after hacts
  -- What the computation hides in the end is what it did before.
  have hown : (fun held => ((w.push o).hide (.object ⟨w.state.heap.size⟩)).own held ∧
      ¬ held = .object ⟨w.state.heap.size⟩) = w.own := by
    funext held
    have hold (h : w.own held) : held ≠ .object ⟨w.state.heap.size⟩ := by
      rintro rfl
      exact Nat.lt_irrefl _ (hw.hidden _ (hw.own _ h))
    simp only [World.hide, World.push]
    grind
  rwa [hown] at hrun

section Lists
variable {l : List α}

theorem forM {f : α → Exec PUnit} {Q : PUnit → World → Prop}
    (h : ∀ a ∈ l, ∀ w', Later w w' → Safe P c w' (f a) Known)
    (hq : ∀ w', Later w w' → Q ⟨⟩ w') : Safe P c w (l.forM f) Q := by
  induction l generalizing w with
  | nil => exact pure (hq w .refl)
  | cons a rest ih =>
    refine (h a (by simp) w .refl).bind fun _ w' hl _ => ?_
    exact ih (fun b hb w'' hl' => h b (by simp [hb]) w'' (hl.trans hl'))
      fun w'' hl' => hq w'' (hl.trans hl')

theorem foldlM {f : β → α → Exec β} {b : β}
    (h : ∀ b, ∀ a ∈ l, ∀ w', Later w w' → Q' b w' → Safe P c w' (f b a) Q') (hb : Q' b w) :
    Safe P c w (l.foldlM f b) Q' := by
  induction l generalizing w b with
  | nil => exact pure hb
  | cons a rest ih =>
    refine (h b a (by simp) w .refl hb).bind fun b' w' hl hb' => ?_
    exact ih (fun b a ha w'' hl' => h b a (by simp [ha]) w'' (hl.trans hl')) hb'

theorem mapM [Mentions β] {f : α → Exec β}
    (h : ∀ a ∈ l, ∀ w', Later w w' → Safe P c w' (f a) Known) : Safe P c w (l.mapM f) Known := by
  induction l generalizing w with
  | nil => exact pure within_nil
  | cons a rest ih =>
    rw [List.mapM_cons]
    refine (h a (by simp) w .refl).bind fun b w₁ hl hb => ?_
    refine (ih fun a ha w₂ hl' => h a (by simp [ha]) w₂ (hl.trans hl')).bind fun bs w₂ hl' hbs => ?_
    exact pure (within_cons.mpr ⟨hl'.met hb, hbs⟩)

theorem filterMapM [Mentions β] {f : α → Exec (Option β)}
    (h : ∀ a ∈ l, ∀ w', Later w w' → Safe P c w' (f a) Known) :
    Safe P c w (l.filterMapM f) Known := by
  induction l generalizing w with
  | nil => exact pure within_nil
  | cons a rest ih =>
    have hrest {w₁ : World} (hl : Later w w₁) :=
      ih fun a ha w₂ hl' => h a (by simp [ha]) w₂ (hl.trans hl')
    rw [List.filterMapM_cons]
    refine (h a (by simp) w .refl).bind fun b w₁ hl hb => ?_
    cases b with
    | none => exact hrest hl
    | some b =>
      exact (hrest hl).bind fun bs w₂ hl' hbs => pure (within_cons.mpr ⟨hl'.met hb, hbs⟩)

theorem filterM {f : α → Exec Bool} {Q : List α → World → Prop}
    (h : ∀ a ∈ l, ∀ w', Later w w' → Safe P c w' (f a) Known)
    (hq : ∀ l' w', Later w w' → Q l' w') : Safe P c w (l.filterM f) Q := by
  have haux (acc : List α) : Safe P c w (l.filterAuxM f acc) fun _ _ => True := by
    clear hq
    induction l generalizing w acc with
    | nil => exact pure trivial
    | cons a rest ih =>
      refine (h a (by simp) w .refl).bind fun b w₁ hl _ => ?_
      exact ih (fun a ha w₂ hl' => h a (by simp [ha]) w₂ (hl.trans hl')) _
  exact (haux []).bind fun l' w' hl _ => pure (hq _ w' hl)

end Lists

theorem now (h : Safe P c w x Q) :
    Safe P c w (Exec.now x) fun v w' => ∀ a, v = some a → Q a w' :=
  fun hc hw => (h hc hw).now

variable [Serves P]

theorem fuel {Q : Nat → World → Prop} (h : Q P.machine.fuel w) : Safe P c w Exec.fuel Q := by
  intro _ _
  have hrun : Runs P.ends w.own Q w (.value P.machine.fuel w.state) (.value P.machine.fuel w.state) :=
    .value .refl rfl h
  rw [← Serves.fuel] at hrun
  simpa [Exec.fuel, Serves.fuel] using hrun

theorem loop {start : β} {body : β → Exec (β ⊕ α)} {I : β → World → Prop} (hb : I start w)
    (h : ∀ b w', Later w w' → I b w' →
      Safe P c w' (body b) fun r w' => r.elim (I · w') (Q · w')) :
    Safe P c w (Exec.loop start body) Q := by
  intro hc hw
  unfold Exec.loop
  rw [Serves.fuel]
  refine Runs.loop (I := I) P.machine.fuel (fun b w' hg ho hw' hb' => ?_) hw rfl hb
  have hrun := h b w' ⟨hg, ho⟩ hb' (fun d hd => hc d (hg.dry ▸ hd)) hw'
  rwa [ho] at hrun

theorem request {r : Request} {Q : r.Result → World → Prop} (h : r.Allowed w)
    (hQ : ∀ a w', Later w w' → r.Yields a w' → Q a w') : Safe P c w (Exec.request r) Q :=
  (Serves.answers r c w h).mono hQ

end Safe

end EcmaScript
