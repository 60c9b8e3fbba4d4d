import EcmaScript.Proofs.Safety.Course

/-! What computations come to, read off from how they are put together. -/
namespace EcmaScript

theorem Step.outcome_bind {α β : Type} {x : Step α} {f : α → State → Step β} {b : β} {s' : State} :
    (x.bind f).outcome = some (some (.ok b), s') ↔
      ∃ a s, x.outcome = some (some (.ok a), s) ∧ (f a s).outcome = some (some (.ok b), s') := by
  induction x with
  | value a s => simp [bind, outcome]
  | abrupt e s => simp [bind, outcome]
  | waiting slot s resume => simp [bind, outcome]
  | parked id slot frame resume s next ih => simpa [bind, outcome] using ih s
  | exhausted => simp [bind, outcome]

theorem Step.comes_of_outcome {α : Type} {x : Step α} {r : Except Abrupt α} {s : State}
    (h : x.outcome = some (some r, s)) : x.Comes r s := by
  induction x with
  | value | abrupt =>
    cases h
    constructor
  | waiting | exhausted => cases h
  | parked id slot frame resume s next ih => exact .parked (ih _ h)

namespace Exec
variable {α β : Type} {m : Machine} {c : Context} {s s' : State} {a : α} {b : β}

def Gives (x : Exec α) (m : Machine) (c : Context) (s : State) (a : α) (s' : State) : Prop :=
  (x m c s).outcome = some (some (.ok a), s')

theorem Gives.unique {x : Exec α} {a' : α} {s₁ : State} (h : x.Gives m c s a s')
    (h' : x.Gives m c s a' s₁) : a = a' ∧ s' = s₁ := by
  simpa using Option.some.inj (h.symm.trans h')

theorem gives_bind {x : Exec α} {f : α → Exec β} :
    (x >>= f).Gives m c s b s' ↔ ∃ a s₁, x.Gives m c s a s₁ ∧ (f a).Gives m c s₁ b s' :=
  Step.outcome_bind

theorem bind_value {x : Exec α} {f : α → Exec β} (h : x m c s = .value a s') :
    (x >>= f) m c s = f a m c s' := by
  change (x m c s).bind _ = _
  rw [h]
  rfl

theorem gives_value {x : Exec α} {a' : α} {s₁ : State} (h : x m c s = .value a' s₁) :
    x.Gives m c s a s' ↔ a = a' ∧ s' = s₁ := by
  simp [Gives, h, Step.outcome, eq_comm]

theorem gives_bind_value {x : Exec α} {f : α → Exec β} {s₁ : State} (h : x m c s = .value a s₁) :
    (x >>= f).Gives m c s b s' ↔ (f a).Gives m c s₁ b s' := by
  simp [gives_bind, gives_value h]

@[simp] theorem gives_pure {a' : α} : (pure a' : Exec α).Gives m c s a s' ↔ a = a' ∧ s' = s :=
  gives_value rfl

@[simp] theorem gives_raise {e : Abrupt} : ¬ (raise e : Exec α).Gives m c s a s' := by
  simp [Gives, raise, Step.outcome]

@[simp] theorem gives_look {f : State → α} : (look f).Gives m c s a s' ↔ a = f s ∧ s' = s :=
  gives_value rfl

@[simp] theorem gives_context {c' : Context} : context.Gives m c s c' s' ↔ c' = c ∧ s' = s :=
  gives_value rfl

@[simp] theorem gives_change {f : State → State} {u : Unit} :
    (change f).Gives m c s u s' ↔ s' = f s := by
  rw [gives_value (show change f m c s = .value () (f s) from rfl)]
  simp

@[simp] theorem gives_update {f : State → α × State} :
    (update f).Gives m c s a s' ↔ a = (f s).1 ∧ s' = (f s).2 := gives_value rfl

theorem gives_look_bind {f : State → α} {g : α → Exec β} :
    (look f >>= g).Gives m c s b s' ↔ (g (f s)).Gives m c s b s' := by
  simp [gives_bind]

theorem gives_intrinsics_bind {f : Intrinsics → Exec β} :
    (intrinsics >>= f).Gives m c s b s' ↔ (f s.intrinsics).Gives m c s b s' := gives_look_bind

theorem gives_context_bind {f : Context → Exec β} :
    (context >>= f).Gives m c s b s' ↔ (f c).Gives m c s b s' := gives_bind_value rfl

theorem gives_allocate {o : Object} {id : ObjectId} :
    (allocate o).Gives m c s id s' ↔ id = ⟨s.heap.size⟩ ∧ s' = { s with heap := s.heap.push o } :=
  gives_value rfl

theorem gives_replaceWith {id : ObjectId} {f : Object → Option Object} {b : Bool} :
    (replaceWith id f).Gives m c s b s' ↔
      (f (s.object id) = none ∧ b = false ∧ s' = s) ∨
      ∃ o, f (s.object id) = some o ∧ b = true ∧ s' = s.replace id o := by
  cases h : f (s.object id) with
  | none => simp [gives_value (show replaceWith id f m c s = .value false s by simp [replaceWith, h])]
  | some o =>
    simp [gives_value (show replaceWith id f m c s = .value true (s.replace id o) by
      simp [replaceWith, h, State.replace])]

theorem gives_request {r : Request} {fuel : Nat} {a : r.Result} :
    (request r).Gives (machine (fuel + 1)) c s a s' ↔ (answer r).Gives (machine fuel) c s a s' := .rfl

theorem gives_halt {k : Condition} : ¬ (halt k : Exec α).Gives m c s a s' := by
  intro h
  obtain ⟨e, -⟩ := (Step.outcome_bind).mp h
  exact Empty.elim e

theorem gives_checkObjectWrite {id : ObjectId} {what : String} {u : Unit}
    (h : (checkObjectWrite id what).Gives m c s u s') : s' = s := by
  simp only [checkObjectWrite, gives_bind, gives_context] at h
  obtain ⟨c', s₁, ⟨rfl, rfl⟩, h⟩ := h
  split at h
  · exact (gives_halt h).elim
  · exact ((gives_pure).mp h).2

theorem gives_checked {id : ObjectId} {what : String} {x : Exec β}
    (h : (checkObjectWrite id what >>= fun _ => x).Gives m c s b s') : x.Gives m c s b s' := by
  obtain ⟨u, s₁, hcheck, hx⟩ := (gives_bind).mp h
  obtain rfl := gives_checkObjectWrite hcheck
  exact hx

theorem proxyOf_proxy {id : ObjectId} {p : ProxyData} {operation : String}
    (h : (s.object id).kind = .proxy (some p)) :
    proxyOf id operation m c s = .value (some p) s := by
  simp [proxyOf, Bind.bind, Exec.bind, object, look, Step.bind, h, Pure.pure, Exec.pure]

section Ordinary
variable {id : ObjectId} (h : (s.object id).isProxy = false)
include h

theorem proxyOf_ordinary {operation : String} : proxyOf id operation m c s = .value none s := by
  simp only [proxyOf, Bind.bind, Exec.bind, object, look, Step.bind]
  cases hk : (s.object id).kind with
  | proxy p => simp [Object.isProxy, hk] at h
  | _ => rfl

theorem getOwn_ordinary {key : PropertyKey} :
    getOwn id key m c s = .value (s.ownProperty? id key) s := by
  simp [getOwn, Bind.bind, Exec.bind, proxyOf_ordinary h, Step.bind, look]

theorem ownKeys_ordinary : ownKeys id m c s = .value (s.object id).ownKeys s := by
  simp [ownKeys, Bind.bind, Exec.bind, proxyOf_ordinary h, Step.bind, object, look, Pure.pure,
    Exec.pure]

theorem isExtensible_ordinary : isExtensible id m c s = .value (s.object id).extensible s := by
  simp [isExtensible, Bind.bind, Exec.bind, proxyOf_ordinary h, Step.bind, object, look, Pure.pure,
    Exec.pure]

theorem gives_define {key : PropertyKey} {d : Descriptor} {b : Bool} :
    (define id key d).Gives m c s b s' ↔ (defineOrdinary id key d).Gives m c s b s' := by
  rw [define, gives_bind]
  simp [gives_value (proxyOf_ordinary h)]

end Ordinary
end Exec
/-! The operations that change an object, as code can ask for them. -/

/-- Whether a computation comes to a certain answer. -/
def Step.answers (b : Bool) (x : Step Bool) : Bool :=
  match x.outcome with
  | some (some (.ok b'), _) => b' == b
  | _ => false

theorem Step.outcome_of_answers {b : Bool} {x : Step Bool} (h : x.answers b = true) :
    ∃ s, x.outcome = some (some (.ok b), s) := by
  unfold answers at h
  split at h
  · rename_i s hx
    exact ⟨s, by rw [hx, eq_of_beq h]⟩
  · cases h

/-- An operation on an object. -/
inductive Method where
  | define (key : PropertyKey) (d : Descriptor)
  | set (key : PropertyKey) (value receiver : Value)
  | delete (key : PropertyKey)
  | setPrototype (prototype : Option ObjectId)
  | preventExtensions
  | setIntegrity (level : Integrity)
deriving Inhabited

namespace Method
open Exec

/-- What an operation does to an object, and whether it succeeds. -/
def run (id : ObjectId) : Method → Exec Bool
  | define key d => Exec.define id key d
  | set key value receiver => do return (← setFor id key value receiver) == .done
  | delete key => Exec.delete id key
  | setPrototype prototype => Exec.setPrototype id prototype
  | preventExtensions => Exec.preventExtensions id
  | setIntegrity level => Exec.setIntegrity id level

theorem run_safe {P : Pairing} [Serves P] {c : Context} {s : State} {id : ObjectId} (m : Method) :
    Safe P c (.bare s) (m.run id) Known := by
  cases m with
  | define key d => exact define_safe World.met_bare
  | set key value receiver =>
    exact .bind (setFor_safe World.met_bare World.met_bare) fun _ _ _ _ => .pure trivial
  | delete key => exact delete_safe
  | setPrototype prototype => exact setPrototype_safe World.met_bare
  | preventExtensions => exact preventExtensions_safe
  | setIntegrity level => exact setIntegrity_safe

theorem leads {fuel : Nat} {c : Context} {s s' : State} {id : ObjectId} {m : Method}
    {r : Option (Except Abrupt Bool)}
    (h : (m.run id (machine fuel) c s).outcome = some (r, s')) : Leads (.bare s) s' :=
  .of_safe m.run_safe h

end Method
end EcmaScript
