import EcmaScript.Realm.Evaluate

/-! What computations can come to, whatever happens while they wait. -/
namespace EcmaScript

/-- The slot that a native function fills, if it is one of those that wake what waits. -/
def Native.wakes? : Native → Option Nat
  | .capturing (.wake slot _) => some slot
  | _ => none

/-- The slot that an object fills when it is called. -/
def ObjectKind.wakes? : ObjectKind → Option Nat
  | .function (.native _ f) => f.wakes?
  | _ => none

namespace Object

def unstamped (o : Object) : Prop := o.kind = .error ∧ o.stamped = false

def secret (o : Object) : Prop := o.unstamped ∨ o.kind.wakes? ≠ none

end Object

def Activation.Becomes (a a' : Activation) : Prop :=
  a' = a ∨ a.this = none ∧ ∃ id, a' = { a with this := some (.object id) }

def State.privateName? (s : State) (id : ScopeId) (spelling : String) : Option PrivateName :=
  (s.scope id).privateNames.lookup spelling

def State.Declares (s : State) (name : PrivateName) : Prop :=
  ∃ id spelling, s.privateName? id spelling = some name

/-- A state comes before another one: whatever there is stays, objects are of the kind they were, scopes
stand where they stood, no activation loses its `this`, and a spelling of a private name keeps its
meaning. -/
structure State.Before (s s' : State) : Prop where
  objects : s.heap.size ≤ s'.heap.size
  scopes : s.scopes.size ≤ s'.scopes.size
  tasks : s.lastTask ≤ s'.lastTask
  privateNames : s.nextPrivateName ≤ s'.nextPrivateName
  kinds : ∀ id, id.index < s.heap.size → (s'.object id).kind.name = (s.object id).kind.name
  secrets : ∀ id, id.index < s.heap.size → (s'.object id).secret → (s.object id).secret
  wakes : ∀ id slot, (s.object id).kind.wakes? = some slot →
    (s'.object id).kind.wakes? = some slot
  parents : ∀ id, id.index < s.scopes.size → (s'.scope id).parent = (s.scope id).parent
  activations : ∀ id a, (s.scope id).kind = .function a →
    ∃ a', (s'.scope id).kind = .function a' ∧ a.Becomes a'
  spellings : ∀ id spelling name, s.privateName? id spelling = some name →
    s'.privateName? id spelling = some name

namespace Activation
variable {a a' a'' : Activation}

theorem Becomes.refl : a.Becomes a := .inl rfl

theorem Becomes.trans (h : a.Becomes a') (h' : a'.Becomes a'') : a.Becomes a'' := by
  rcases h with rfl | ⟨hnone, id, rfl⟩
  · exact h'
  · rcases h' with rfl | ⟨hnone', -⟩
    · exact .inr ⟨hnone, id, rfl⟩
    · cases hnone'

end Activation

namespace State.Before
variable {s s₁ s₂ : State}

theorem of_eq (hobjects : s₁.heap = s.heap) (hscopes : s₁.scopes = s.scopes)
    (htask : s₁.lastTask = s.lastTask) (hname : s₁.nextPrivateName = s.nextPrivateName) :
    s.Before s₁ := by
  have hobject (id : ObjectId) : s₁.object id = s.object id := by simp only [object, hobjects]
  have hscope (id : ScopeId) : s₁.scope id = s.scope id := by simp only [scope, hscopes]
  exact {
    objects := Nat.le_of_eq (by rw [hobjects])
    scopes := Nat.le_of_eq (by rw [hscopes])
    tasks := Nat.le_of_eq htask.symm
    privateNames := Nat.le_of_eq hname.symm
    kinds := fun id _ => by rw [hobject]
    secrets := fun id _ h => hobject id ▸ h
    wakes := fun id _ h => by rwa [hobject]
    parents := fun id _ => by rw [hscope]
    activations := fun id a h => ⟨a, by rwa [hscope], .refl⟩
    spellings := fun id spelling name h => by rwa [State.privateName?, hscope] }

theorem refl : s.Before s := .of_eq rfl rfl rfl rfl

theorem trans (h : s.Before s₁) (h' : s₁.Before s₂) : s.Before s₂ where
  objects := Nat.le_trans h.objects h'.objects
  scopes := Nat.le_trans h.scopes h'.scopes
  tasks := Nat.le_trans h.tasks h'.tasks
  privateNames := Nat.le_trans h.privateNames h'.privateNames
  kinds id hid := (h'.kinds id (Nat.lt_of_lt_of_le hid h.objects)).trans (h.kinds id hid)
  secrets id hid hs := h.secrets id hid (h'.secrets id (Nat.lt_of_lt_of_le hid h.objects) hs)
  wakes id slot hk := h'.wakes id slot (h.wakes id slot hk)
  parents id hid := (h'.parents id (Nat.lt_of_lt_of_le hid h.scopes)).trans (h.parents id hid)
  activations id a hk := by
    obtain ⟨a₁, hk₁, h₁⟩ := h.activations id a hk
    obtain ⟨a₂, hk₂, h₂⟩ := h'.activations id a₁ hk₁
    exact ⟨a₂, hk₂, h₁.trans h₂⟩
  spellings id spelling name h₁ := h'.spellings id spelling name (h.spellings id spelling name h₁)

theorem declares {name : PrivateName} (h : s.Before s₁) (hd : s.Declares name) : s₁.Declares name := by
  obtain ⟨id, spelling, hd⟩ := hd
  exact ⟨id, spelling, h.spellings id spelling name hd⟩

end State.Before

/-- A computation can come to a result: each time it waits, it goes on in some later state with some
outcome of what it waits for. -/
inductive Step.Comes {α : Type} : Step α → Except Abrupt α → State → Prop where
  | value {a : α} {s : State} : Comes (.value a s) (.ok a) s
  | abrupt {e : Abrupt} {s : State} : Comes (.abrupt e s) (.error e) s
  | waiting {slot : Nat} {s s₁ s' : State} {resume : Outcome → State → Step α} {o : Outcome}
    {r : Except Abrupt α} (h : s.Before s₁) (hr : (resume o s₁).Comes r s') :
    Comes (.waiting slot s resume) r s'
  | parked {id slot : Nat} {frame : Frame} {resume : Outcome → State → Task} {s s' : State}
    {next : State → Step α} {r : Except Abrupt α} (h : (next s).Comes r s') :
    Comes (.parked id slot frame resume s next) r s'

namespace Step
variable {α β : Type} {x : Step α} {s s' : State}

theorem comes_value {a : α} {r : Except Abrupt α} :
    (value a s).Comes r s' ↔ r = .ok a ∧ s' = s := by
  constructor
  · rintro ⟨⟩
    exact ⟨rfl, rfl⟩
  · rintro ⟨rfl, rfl⟩
    exact .value

theorem comes_abrupt {e : Abrupt} {r : Except Abrupt α} :
    (abrupt e s).Comes r s' ↔ r = .error e ∧ s' = s := by
  constructor
  · rintro ⟨⟩
    exact ⟨rfl, rfl⟩
  · rintro ⟨rfl, rfl⟩
    exact .abrupt

theorem comes_handle {f : Except Abrupt α → State → Step β} {r : Except Abrupt β} :
    (x.handle f).Comes r s' ↔ ∃ r₁ s₁, x.Comes r₁ s₁ ∧ (f r₁ s₁).Comes r s' := by
  constructor
  · intro h
    induction x with
    | value a s => exact ⟨_, _, .value, h⟩
    | abrupt e s => exact ⟨_, _, .abrupt, h⟩
    | waiting slot s resume ih =>
      obtain _ | _ | ⟨hbefore, hr⟩ := h
      obtain ⟨r₁, s₁, hx, hf⟩ := ih _ _ hr
      exact ⟨r₁, s₁, .waiting hbefore hx, hf⟩
    | parked id slot frame resume s next ih =>
      obtain _ | _ | _ | hn := h
      obtain ⟨r₁, s₁, hx, hf⟩ := ih _ hn
      exact ⟨r₁, s₁, .parked hx, hf⟩
    | exhausted => cases h
  · rintro ⟨r₁, s₁, hx, hf⟩
    induction hx with
    | value | abrupt => exact hf
    | waiting h _ ih => exact .waiting h (ih hf)
    | parked _ ih => exact .parked (ih hf)

theorem bind_eq_handle {f : α → State → Step β} : x.bind f = x.handle fun
    | .ok a => f a
    | .error e => .abrupt e := by
  induction x with
  | waiting slot s resume ih => exact congrArg _ (funext fun o => funext fun s => ih o s)
  | parked id slot frame resume s next ih => exact congrArg _ (funext fun s => ih s)
  | _ => rfl

theorem comes_bind {f : α → State → Step β} {r : Except Abrupt β} : (x.bind f).Comes r s' ↔
    (∃ a s₁, x.Comes (.ok a) s₁ ∧ (f a s₁).Comes r s') ∨
      ∃ e, x.Comes (.error e) s' ∧ r = .error e := by
  rw [bind_eq_handle, comes_handle]
  constructor
  · rintro ⟨r₁ | a, s₁, hx, hf⟩
    · obtain ⟨rfl, rfl⟩ := (comes_abrupt).mp hf
      exact .inr ⟨_, hx, rfl⟩
    · exact .inl ⟨a, s₁, hx, hf⟩
  · rintro (⟨a, s₁, hx, hf⟩ | ⟨e, hx, rfl⟩)
    · exact ⟨.ok a, s₁, hx, hf⟩
    · exact ⟨.error e, s', hx, .abrupt⟩

/-- A loop does one turn, and then the others. -/
theorem loop_succ {body : β → State → Step (β ⊕ α)} {fuel : Nat} {b : β} :
    loop body (fuel + 1) b s = (body b s).bind fun r s =>
      match r with
      | .inl b => loop body fuel b s
      | .inr a => .value a s := by
  rw [loop]
  cases body b s with
  | value r s => cases r <;> rfl
  | _ => rfl

end Step

namespace Exec
variable {α β γ : Type} {m : Machine} {c : Context} {s s' : State}

theorem step_bind_value (x : Step α) : (x.bind fun a s => .value a s) = x := by
  induction x with
  | waiting slot s resume ih => exact congrArg _ (funext fun o => funext fun s => ih o s)
  | parked id slot frame resume s next ih => exact congrArg _ (funext fun s => ih s)
  | _ => rfl

theorem step_bind_assoc {x : Step α} (f : α → State → Step β) (g : β → State → Step γ) :
    (x.bind f).bind g = x.bind fun a s => (f a s).bind g := by
  induction x with
  | waiting slot s resume ih => exact congrArg _ (funext fun o => funext fun s => ih o s)
  | parked id slot frame resume s next ih => exact congrArg _ (funext fun s => ih s)
  | _ => rfl

theorem bind_assoc (x : Exec α) (f : α → Exec β) (g : β → Exec γ) :
    x >>= f >>= g = x >>= fun a => f a >>= g := by
  funext m c s
  exact step_bind_assoc _ _

instance : LawfulMonad Exec := .mk' Exec
  (fun x => funext fun m => funext fun c => funext fun s => step_bind_value (x m c s))
  (fun _ _ => rfl) bind_assoc

theorem attempt_bind_pure {x : Exec α} {f : α → β} :
    attempt (x >>= fun a => pure (f a)) = attempt x >>= fun r => pure (r.map f) := by
  have hstep (x : Step α) : (x.bind fun a s => .value (f a) s).handle (fun r s => .value r s) =
      (x.handle fun r s => .value r s).bind fun r s => .value (r.map f) s := by
    induction x with
    | waiting slot s resume ih => exact congrArg _ (funext fun o => funext fun s => ih o s)
    | parked id slot frame resume s next ih => exact congrArg _ (funext fun s => ih s)
    | _ => rfl
  funext m c s
  exact hstep (x m c s)

/-- A computation can come to a result, and leave a state behind. -/
def Comes (x : Exec α) (m : Machine) (c : Context) (s : State) (r : Except Abrupt α) (s' : State) :
    Prop :=
  (x m c s).Comes r s'

section Rules
variable {r : Except Abrupt α} {r' : Except Abrupt β}

theorem comes_value {x : Exec α} {a : α} {s₁ : State} (h : x m c s = .value a s₁) :
    x.Comes m c s r s' ↔ r = .ok a ∧ s' = s₁ := by
  rw [Comes, h]
  exact Step.comes_value

@[simp] theorem comes_pure {a : α} :
    (pure a : Exec α).Comes m c s r s' ↔ r = .ok a ∧ s' = s := comes_value rfl

@[simp] theorem comes_raise {e : Abrupt} :
    (raise e : Exec α).Comes m c s r s' ↔ r = .error e ∧ s' = s := Step.comes_abrupt

theorem comes_within {x : Exec α} {f : Context → Context} :
    (within f x).Comes m c s r s' ↔ x.Comes m (f c) s r s' := .rfl

@[simp] theorem comes_change {f : State → State} {r : Except Abrupt Unit} :
    (change f).Comes m c s r s' ↔ r = .ok () ∧ s' = f s := comes_value rfl

@[simp] theorem comes_newScope {scope : Scope} {r : Except Abrupt ScopeId} :
    (newScope scope).Comes m c s r s' ↔
      r = .ok ⟨s.scopes.size⟩ ∧ s' = { s with scopes := s.scopes.push scope } := comes_value rfl

theorem comes_bind {x : Exec α} {f : α → Exec β} : (x >>= f).Comes m c s r' s' ↔
    (∃ a s₁, x.Comes m c s (.ok a) s₁ ∧ (f a).Comes m c s₁ r' s') ∨
      ∃ e, x.Comes m c s (.error e) s' ∧ r' = .error e := Step.comes_bind

theorem comes_bind_ok {x : Exec α} {f : α → Exec β} {b : β} : (x >>= f).Comes m c s (.ok b) s' ↔
    ∃ a s₁, x.Comes m c s (.ok a) s₁ ∧ (f a).Comes m c s₁ (.ok b) s' := by
  rw [comes_bind]
  exact ⟨fun h => h.elim id fun ⟨_, _, he⟩ => (nomatch he), .inl⟩

theorem comes_bind_value {x : Exec α} {f : α → Exec β} {a : α} {s₁ : State}
    (h : x m c s = .value a s₁) : (x >>= f).Comes m c s r' s' ↔ (f a).Comes m c s₁ r' s' := by
  change ((x m c s).bind _).Comes r' s' ↔ _
  rw [h]
  rfl

theorem comes_look_bind {f : State → α} {g : α → Exec β} :
    (look f >>= g).Comes m c s r' s' ↔ (g (f s)).Comes m c s r' s' := comes_bind_value rfl

theorem comes_context_bind {g : Context → Exec β} :
    (context >>= g).Comes m c s r' s' ↔ (g c).Comes m c s r' s' := comes_bind_value rfl

theorem comes_raise_bind {e : Abrupt} {f : α → Exec β} :
    (raise e >>= f).Comes m c s r' s' ↔ r' = .error e ∧ s' = s := Step.comes_abrupt

theorem comes_attempt {x : Exec α} {r : Except Abrupt (Except Abrupt α)} :
    (attempt x).Comes m c s r s' ↔ ∃ r₁, x.Comes m c s r₁ s' ∧ r = .ok r₁ := by
  rw [Comes, attempt, Step.comes_handle]
  constructor
  · rintro ⟨r₁, s₁, hx, hf⟩
    obtain ⟨rfl, rfl⟩ := (Step.comes_value).mp hf
    exact ⟨r₁, hx, rfl⟩
  · rintro ⟨r₁, hx, rfl⟩
    exact ⟨r₁, s', hx, .value⟩

theorem comes_attempt_bind {x : Exec α} {f : Except Abrupt α → Exec β} :
    (attempt x >>= f).Comes m c s r' s' ↔
      ∃ r₁ s₁, x.Comes m c s r₁ s₁ ∧ (f r₁).Comes m c s₁ r' s' := by
  rw [comes_bind]
  constructor
  · rintro (⟨r₁, s₁, hx, hf⟩ | ⟨e, hx, rfl⟩)
    · obtain ⟨r₂, hx, heq⟩ := (comes_attempt).mp hx
      cases heq
      exact ⟨r₁, s₁, hx, hf⟩
    · obtain ⟨r₂, -, heq⟩ := (comes_attempt).mp hx
      cases heq
  · rintro ⟨r₁, s₁, hx, hf⟩
    exact .inl ⟨r₁, s₁, (comes_attempt).mpr ⟨r₁, hx, rfl⟩, hf⟩

theorem comes_request {q : Request} {r : Except Abrupt q.Result} {fuel : Nat} :
    (request q).Comes (machine fuel) c s r s' ↔
      ∃ n, fuel = n + 1 ∧ (answer q).Comes (machine n) c s r s' := by
  cases fuel with
  | zero =>
    constructor
    · intro h
      cases h
    · rintro ⟨n, h, -⟩
      cases h
  | succ n =>
    constructor
    · exact fun h => ⟨n, rfl, h⟩
    · rintro ⟨n', h, hr⟩
      cases h
      exact hr

theorem comes_halt {k : Condition} {fuel : Nat}
    (h : (halt k : Exec α).Comes (machine fuel) c s r s') : r = .error (.condition k) ∧ s' = s := by
  obtain ⟨a, -⟩ | ⟨e, hx, rfl⟩ := (comes_bind).mp h
  · exact a.elim
  · obtain ⟨n, -, hx⟩ := (comes_request).mp hx
    obtain ⟨he, hs⟩ := (comes_raise).mp hx
    exact ⟨by rw [Except.error.inj he], hs⟩

theorem comes_checkInterrupts {fuel : Nat} {r : Except Abrupt Unit}
    (h : checkInterrupts.Comes (machine fuel) c s r s') : s' = { s with clock := s.clock + checkNanos } := by
  replace h := (comes_bind_value rfl).mp h
  rw [comes_look_bind] at h
  split at h
  · obtain ⟨_, _, hhalt, -⟩ | ⟨_, hhalt, -⟩ := (comes_bind).mp h
    · nomatch (comes_halt hhalt).1
    · exact (comes_halt hhalt).2
  · rw [comes_context_bind] at h
    split at h
    · exact ((comes_pure).mp h).2
    · rw [comes_look_bind] at h
      split at h
      · exact (comes_halt h).2
      · exact ((comes_pure).mp h).2

theorem comes_checkObjectWrite {id : ObjectId} {what : String} {fuel : Nat} {r : Except Abrupt Unit}
    (h : (checkObjectWrite id what).Comes (machine fuel) c s r s') : s' = s := by
  rw [checkObjectWrite, comes_context_bind] at h
  split at h
  · exact (comes_halt h).2
  · exact ((comes_pure).mp h).2

theorem Comes.forM {γ : Type} {f : γ → Exec PUnit} {l : List γ} {u : PUnit} {I : List γ → State → Prop}
    (h : (l.forM f).Comes m c s (.ok u) s') (hI : I l s)
    (step : ∀ a l s s₁, (f a).Comes m c s (.ok ⟨⟩) s₁ → I (a :: l) s → I l s₁) : I [] s' := by
  induction l generalizing s with
  | nil =>
    obtain ⟨-, rfl⟩ := (comes_pure).mp h
    exact hI
  | cons a l ih =>
    obtain ⟨_, s₁, ha, hl⟩ := (comes_bind_ok).mp h
    exact ih hl (step a l s s₁ ha hI)

/-- A loop that comes to a result has a last turn; what holds before that one, and before a turn if it
holds before the next one, holds at first. -/
theorem Comes.loop {body : β → Exec (β ⊕ α)} {b : β} {P : β → State → Prop}
    (h : (loop b body).Comes m c s r s')
    (next : ∀ b b' s s₁, (body b).Comes m c s (.ok (.inl b')) s₁ → P b' s₁ → P b s)
    (last : ∀ b s, (body b).Comes m c s (r.map .inr) s' → P b s) : P b s := by
  change (Step.loop (fun b s => body b m c s) m.fuel b s).Comes r s' at h
  generalize m.fuel = fuel at h
  induction fuel generalizing b s with
  | zero => cases h
  | succ fuel ih =>
    rw [Step.loop_succ, Step.comes_bind] at h
    rcases h with ⟨b' | a, s₁, hturn, h⟩ | ⟨e, hturn, rfl⟩
    · exact next _ _ _ _ hturn (ih h)
    · obtain ⟨rfl, rfl⟩ := (Step.comes_value).mp h
      exact last _ _ hturn
    · exact last _ _ hturn

end Rules

def Only (m : Machine) (x : Exec α) (P : α → Prop) : Prop :=
  ∀ c s a s', x.Comes m c s (.ok a) s' → P a

namespace Only
variable {x : Exec α} {f : α → Exec β} {P : α → Prop} {Q : β → Prop}

theorem pure {a : α} (h : P a) : Only m (Pure.pure a) P := by
  intro c s a' s' hx
  cases ((comes_pure).mp hx).1
  exact h

theorem raise {e : Abrupt} : Only m (raise e) P := fun _ _ _ _ hx => nomatch ((comes_raise).mp hx).1

theorem bind_of (hx : Only m x P) (hf : ∀ a, P a → Only m (f a) Q) : Only m (x >>= f) Q := by
  intro c s b s' h
  obtain ⟨a, s₁, ha, hb⟩ := (comes_bind_ok).mp h
  exact hf a (hx _ _ _ _ ha) _ _ _ _ hb

theorem bind (hf : ∀ a, Only m (f a) Q) : Only m (x >>= f) Q :=
  bind_of (P := fun _ => True) (fun _ _ _ _ _ => trivial) fun a _ => hf a

theorem raise_bind {e : Abrupt} : Only m (Exec.raise e >>= f) Q :=
  bind_of (P := fun _ => False) raise fun _ h => h.elim

theorem within {g : Context → Context} (h : Only m x P) : Only m (Exec.within g x) P :=
  fun c => h (g c)

theorem ite {p : Prop} [Decidable p] {x' : Exec α} (h : p → Only m x P) (h' : ¬ p → Only m x' P) :
    Only m (if p then x else x') P := by
  split
  · exact h ‹_›
  · exact h' ‹_›

end Only
end Exec
end EcmaScript
