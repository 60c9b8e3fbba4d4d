import EcmaScript.Machine.Exec

/-! Which objects a piece of data gives access to. The home of a function is left out: code reaches
the prototype of its home, never the home itself. -/
namespace EcmaScript

abbrev Sight := ObjectId → Prop

/-- Data that can give access to objects. -/
class Mentions (α : Type) where
  /-- All objects that the data give access to are in a set. -/
  within : Sight → α → Prop
  mono : ∀ {K K' : Sight} {a : α}, (∀ id, K id → K' id) → within K a → within K' a
  all : ∀ {K : Sight} {a : α}, (∀ id, K id) → within K a

export Mentions (within)

namespace Mentions

/-- Data that give access to what a part of them gives access to. -/
@[reducible] def of {α β : Type} [Mentions β] (part : α → β) : Mentions α where
  within K a := within K (part a)
  mono := mono
  all := all

end Mentions

instance (priority := 10) {α : Type} : Mentions α where
  within _ _ := True
  mono _ h := h
  all _ := trivial

section Containers
variable {α β : Type} [Mentions α] [Mentions β] {K : Sight}

instance : Mentions ObjectId where
  within K id := K id
  mono h := h _
  all h := h _

instance : Mentions (List α) where
  within K l := ∀ a ∈ l, within K a
  mono h hl a ha := Mentions.mono h (hl a ha)
  all h _ _ := Mentions.all h

instance : Mentions (Array α) where
  within K l := ∀ a ∈ l, within K a
  mono h hl a ha := Mentions.mono h (hl a ha)
  all h _ _ := Mentions.all h

instance : Mentions (α × β) where
  within K p := within K p.1 ∧ within K p.2
  mono h hp := ⟨Mentions.mono h hp.1, Mentions.mono h hp.2⟩
  all h := ⟨Mentions.all h, Mentions.all h⟩

instance : Mentions (α ⊕ β) where
  within K
    | .inl a => within K a
    | .inr b => within K b
  mono {_ _ x} h := match x with
    | .inl _ => Mentions.mono h
    | .inr _ => Mentions.mono h
  all {_ x} h := match x with
    | .inl _ => Mentions.all h
    | .inr _ => Mentions.all h

instance : Mentions (Option α) := .of fun
  | some a => (.inl a : α ⊕ Unit)
  | none => .inr ()

instance : Mentions (Except α β) := .of fun
  | .error e => (.inl e : α ⊕ β)
  | .ok a => .inr a

instance : Mentions (Queue α) := .of Queue.toList

end Containers

/-! The data of the language. -/

instance : Mentions Value := .of Value.object?

instance : Mentions Slot where
  within K
    | .data v _ => within K v
    | .accessor getter setter => within K (getter, setter)
  mono {_ _ a} h ha := by cases a <;> exact Mentions.mono h ha
  all {_ a} h := by cases a <;> exact Mentions.all h

instance : Mentions Property := .of Property.slot

instance : Mentions Descriptor := .of fun d => (d.value, d.getter, d.setter)

instance : Mentions PropertyTable where
  within K t := ∀ key p, t.get? key = some p → within K p
  mono h ht key p hp := Mentions.mono h (ht key p hp)
  all h _ _ _ := Mentions.all h

instance : Mentions PrivateElement where
  within K
    | .field v => within K v
    | .method f => within K f
    | .accessor getter setter => within K (getter, setter)
  mono {_ _ a} h ha := by cases a <;> exact Mentions.mono h ha
  all {_ a} h := by cases a <;> exact Mentions.all h

instance : Mentions InstanceElement where
  within K
    | .field _ initializer => within K initializer
    | .method _ element => within K element
  mono {_ _ a} h ha := by cases a <;> exact Mentions.mono h ha
  all {_ a} h := by cases a <;> exact Mentions.all h

instance : Mentions Closure := .of Closure.elements

instance : Mentions CapturingFunction where
  within K
    | .resolvePromise promise _ => within K promise
    | .rejectPromise promise _ => within K promise
    | .passAfter callback constructor _ => within K (callback, constructor)
    | .giveBack v => within K v
    | .throwBack v => within K v
    | .revokeProxy proxy => within K proxy
    | _ => True
  mono {_ _ a} h ha := by cases a <;> first | exact Mentions.mono h ha | trivial
  all {_ a} h := by cases a <;> first | exact Mentions.all h | trivial

instance : Mentions Native where
  within K
    | .capturing f => within K f
    | _ => True
  mono {_ _ a} h ha := by cases a <;> first | exact Mentions.mono h ha | trivial
  all {_ a} h := by cases a <;> first | exact Mentions.all h | trivial

instance : Mentions Callable where
  within K
    | .closure c => within K c
    | .native _ f => within K f
    | .bound target this args => within K (target, this, args)
  mono {_ _ a} h ha := by cases a <;> exact Mentions.mono h ha
  all {_ a} h := by cases a <;> exact Mentions.all h

instance : Mentions PromiseState where
  within K
    | .pending => True
    | .fulfilled v => within K v
    | .rejected v => within K v
  mono {_ _ a} h ha := by cases a <;> first | exact Mentions.mono h ha | trivial
  all {_ a} h := by cases a <;> first | exact Mentions.all h | trivial

instance : Mentions Capability := .of fun c => (c.promise, c.resolve, c.reject)

/-- What a reaction hands its outcome to, and the function that gives it. One without a capability
belongs to something that waits, and its function is reached through the reaction alone. -/
instance : Mentions Reaction where
  within K r := r.capability = none ∨ within K (r.capability, r.handler)
  mono h := Or.imp_right (Mentions.mono h)
  all h := .inr (Mentions.all h)

instance : Mentions PromiseData := .of fun p => (p.state, p.onFulfilled, p.onRejected)

instance : Mentions ProxyData := .of fun p => (p.target, p.handler)

instance : Mentions IteratorState where
  within K
    | .array target .. => within K target
    | .string _ => True
    | .keyed target .. => within K target
  mono {_ _ a} h ha := by cases a <;> first | exact Mentions.mono h ha | trivial
  all {_ a} h := by cases a <;> first | exact Mentions.all h | trivial

instance : Mentions KeyedTable := .of KeyedTable.slots

instance : Mentions ObjectKind where
  within K
    | .function c => within K c
    | .promise p => within K p
    | .proxy p => within K p
    | .map t => within K t
    | .set t => within K t
    | .weakMap t => within K t
    | .weakSet t => within K t
    | .weakRef target => within K target
    | .iterator s => within K s
    | _ => True
  mono {_ _ a} h ha := by cases a <;> first | exact Mentions.mono h ha | trivial
  all {_ a} h := by cases a <;> first | exact Mentions.all h | trivial

instance : Mentions Object := .of fun o => (o.kind, o.prototype, o.properties, o.privates)

instance : Mentions Binding := .of Binding.value

instance : Mentions Activation := .of fun a => (a.this, a.newTarget, a.function)

instance : Mentions ScopeKind where
  within K
    | .global object => within K object
    | .function a => within K a
    | .block => True
  mono {_ _ a} h ha := by cases a <;> first | exact Mentions.mono h ha | trivial
  all {_ a} h := by cases a <;> first | exact Mentions.all h | trivial

instance : Mentions Scope := .of fun s => (s.kind, s.bindings)

instance : Mentions Job where
  within K
    | .react r v => within K (r, v)
    | .adopt promise thenable f => within K (promise, thenable, f)
    | .callback f => within K f
  mono {_ _ a} h ha := by cases a <;> exact Mentions.mono h ha
  all {_ a} h := by cases a <;> exact Mentions.all h

instance : Mentions Timer := .of fun t => (t.callback, t.args)

instance : Mentions TimerEntry := .of TimerEntry.timer

instance : Mentions TimerQueue := .of TimerQueue.entries

instance : Mentions AwaitSlot := .of AwaitSlot.outcome

instance : Mentions Aggregate := .of fun a => (a.values, a.capability)

/-- That nothing is left to wait for is found out where no code runs: it is nothing that arises from
what code has access to. -/
instance : Mentions Condition where
  within K
    | .stalled => ∀ id, K id
    | _ => True
  mono {_ _ a} h ha := by cases a <;> first | exact fun id => h id (ha id) | trivial
  all {_ a} h := by cases a <;> first | exact h | trivial

instance : Mentions Abrupt where
  within K
    | .condition c => within K c
    | .thrown v => within K v
    | .failure _ => True
  mono {_ _ a} h ha := by cases a <;> first | exact Mentions.mono h ha | trivial
  all {_ a} h := by cases a <;> first | exact Mentions.all h | trivial

instance : Mentions EvaluationError where
  within K
    | .condition c => within K c
    | .uncaught v _ => within K v
    | .failure _ => True
  mono {_ _ a} h ha := by cases a <;> first | exact Mentions.mono h ha | trivial
  all {_ a} h := by cases a <;> first | exact Mentions.all h | trivial

instance : Mentions Completion where
  within K
    | .normal v => within K v
    | .return v => within K v
    | .break _ v => within K v
    | .continue _ v => within K v
  mono {_ _ a} h ha := by cases a <;> exact Mentions.mono h ha
  all {_ a} h := by cases a <;> exact Mentions.all h

instance : Mentions IteratorRecord := .of fun r => (r.iterator, r.next)

instance : Mentions ItemSource where
  within K
    | .plain r => within K r
    | .awaited r => within K r
    | .asynchronous r => within K r
  mono {_ _ a} h ha := by cases a <;> exact Mentions.mono h ha
  all {_ a} h := by cases a <;> exact Mentions.all h

/-- All the intrinsic objects. -/
def Intrinsics.toList (i : Intrinsics) : List ObjectId :=
  [i.objectPrototype, i.functionPrototype, i.arrayPrototype, i.stringPrototype, i.numberPrototype,
    i.booleanPrototype, i.symbolPrototype, i.errorPrototype, i.typeErrorPrototype,
    i.rangeErrorPrototype, i.referenceErrorPrototype, i.syntaxErrorPrototype, i.evalErrorPrototype,
    i.uriErrorPrototype, i.promisePrototype, i.mapPrototype, i.setPrototype, i.weakMapPrototype,
    i.weakSetPrototype, i.weakRefPrototype, i.iteratorPrototype, i.arrayIteratorPrototype,
    i.stringIteratorPrototype, i.mapIteratorPrototype, i.setIteratorPrototype]

instance : Mentions Intrinsics := .of Intrinsics.toList

/-- What the parts of a state give access to that code can read. -/
structure State.Within (K : Sight) (s : State) : Prop where
  heap : within K s.heap
  scopes : within K s.scopes
  intrinsics : within K s.intrinsics
  globalObject : within K s.globalObject
  jobs : within K s.jobs
  timers : within K s.timers
  fatal : within K s.fatal
  awaits : within K s.awaits
  outcomes : within K s.outcomes
  resolvers : within K s.resolvers
  aggregates : within K s.aggregates
  templates : within K s.templates
  /-- What a scope that does not exist is taken to belong to. -/
  first : within K (default : ObjectId)

instance : Mentions State where
  within K s := s.Within K
  mono h hs := {
    heap := Mentions.mono h hs.heap
    scopes := Mentions.mono h hs.scopes
    intrinsics := Mentions.mono h hs.intrinsics
    globalObject := Mentions.mono h hs.globalObject
    jobs := Mentions.mono h hs.jobs
    timers := Mentions.mono h hs.timers
    fatal := Mentions.mono h hs.fatal
    awaits := Mentions.mono h hs.awaits
    outcomes := Mentions.mono h hs.outcomes
    resolvers := Mentions.mono h hs.resolvers
    aggregates := Mentions.mono h hs.aggregates
    templates := Mentions.mono h hs.templates
    first := Mentions.mono h hs.first }
  all h := ⟨Mentions.all h, Mentions.all h, Mentions.all h, Mentions.all h, Mentions.all h,
    Mentions.all h, Mentions.all h, Mentions.all h, Mentions.all h, Mentions.all h, Mentions.all h,
    Mentions.all h, Mentions.all h⟩

section Parts
variable {K : Sight}

theorem within_object {o : Object} : within K o ↔
    within K o.kind ∧ within K o.prototype ∧ within K o.properties ∧ within K o.privates := Iff.rfl

theorem within_scope {s : Scope} : within K s ↔ within K s.kind ∧ within K s.bindings := Iff.rfl

end Parts

section Lists
variable {α β : Type} [Mentions α] [Mentions β] {K : Sight}

@[simp] theorem within_nil : within K ([] : List α) := by simp [within]

@[simp] theorem within_cons {a : α} {l : List α} :
    within K (a :: l) ↔ within K a ∧ within K l := by simp [within]

@[simp] theorem within_append {l l' : List α} :
    within K (l ++ l') ↔ within K l ∧ within K l' := by
  simp only [within, List.mem_append]
  grind

theorem within_of_mem {l : List α} {a : α} (h : within K l) (ha : a ∈ l) : within K a := h a ha

theorem within_of_subset {l l' : List α} (h : within K l) (hs : ∀ a ∈ l', a ∈ l) : within K l' :=
  fun a ha => h a (hs a ha)

theorem within_lookup [BEq β] {l : List (β × α)} {b : β} {a : α} (h : within K l)
    (ha : l.lookup b = some a) : within K a := by
  induction l with
  | nil => simp at ha
  | cons e rest ih =>
    obtain ⟨he, hrest⟩ := (within_cons).mp h
    rw [List.lookup_cons] at ha
    split at ha
    · cases ha
      exact he.2
    · exact ih hrest ha

theorem within_push {a : Array α} {x : α} (h : within K a) (hx : within K x) :
    within K (a.push x) := by
  intro y hy
  rcases Array.mem_push.mp hy with hy | rfl
  · exact h y hy
  · exact hx

theorem within_setIfInBounds {a : Array α} {i : Nat} {x : α} (h : within K a)
    (hx : within K x) : within K (a.setIfInBounds i x) := by
  intro y hy
  rcases Array.mem_or_eq_of_mem_setIfInBounds hy with hy | rfl
  · exact h y hy
  · exact hx

theorem within_modify {a : Array α} {i : Nat} {f : α → α} (h : within K a)
    (hf : ∀ x, within K x → within K (f x)) : within K (a.modify i f) := by
  intro y hy
  obtain ⟨j, hj, rfl⟩ := Array.mem_iff_getElem.mp hy
  have hold := h _ (Array.getElem_mem (by simpa using hj))
  rw [Array.getElem_modify]
  split
  · exact hf _ hold
  · exact hold

theorem within_getElem? {a : Array α} {i : Nat} {x : α} (h : within K a) (hx : a[i]? = some x) :
    within K x := h x (Array.mem_of_getElem? hx)

theorem within_getD {a : Array α} {i : Nat} {x : α} (h : within K a) (hx : within K x) :
    within K (a.getD i x) := by
  rw [Array.getD_eq_getD_getElem?]
  cases ha : a[i]? with
  | none => exact hx
  | some y => exact within_getElem? h ha

theorem within_toList {a : Array α} (h : within K a) : within K a.toList :=
  fun x hx => h x (Array.mem_def.mpr hx)

end Lists

end EcmaScript
