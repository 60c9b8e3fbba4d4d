import EcmaScript.Proofs.Mentions
import EcmaScript.Proofs.Prototype
import EcmaScript.Proofs.Result

/-! Everything a computation can do to the state, one change at a time. -/
namespace EcmaScript

def Native.advances : Native → Bool
  | .iterator .self => false
  | .iterator _ => true
  | _ => false

/-- Whether calling a native function registers reactions with its receiver. -/
def Native.registers : Native → Bool
  | .promise .then => true
  | _ => false

/-- What a computation can keep to itself: an object, or that a task has a certain id. -/
inductive Held where
  | object (id : ObjectId)
  | task (id : Nat)

def State.Has (s : State) : Held → Prop
  | .object id => id.index < s.heap.size
  | .task id => id ≤ s.lastTask

def TimerQueue.Numbered (q : TimerQueue) : Prop := ∀ e ∈ q.entries, e.timer.id ≤ q.lastId

/-- What a dry run goes by. -/
structure DryRun where
  table : Nat
  firstObject : Nat
  firstScope : Nat

/-- A state, with what is expected of those who change it. -/
structure World where
  /-- It is followed which objects code can have access to. -/
  tracked : Prop
  /-- The dry run in progress, if there is one. -/
  dry : Option DryRun
  /-- What no running code has access to. -/
  hidden : Held → Prop
  /-- What of that the present computation will reveal itself. -/
  own : Held → Prop
  /-- The slots that may be filled. -/
  filling : Nat → Prop
  /-- No task has left a condition behind. -/
  quiet : Prop
  /-- How many objects there were at a moment that is looked back to. -/
  since : Nat
  state : State

namespace World

def knows (w : World) : Sight := fun id => w.tracked →
  id.index < w.state.heap.size ∧ ¬ w.hidden (.object id) ∧ ¬ (w.state.object id).secret

def owns (w : World) (id : ObjectId) : Prop := ∀ d ∈ w.dry, d.firstObject ≤ id.index

def ownsScope (w : World) (id : ScopeId) : Prop := ∀ d ∈ w.dry, d.firstScope ≤ id.index

def grants (w : World) (f : Native) (this : Value) : Prop :=
  (∀ d ∈ w.dry, f.registers = false ∧
    (f.advances = true → ∀ id, this = .object id → d.firstObject ≤ id.index)) ∧
  (w.tracked → ∀ slot, f.wakes? = some slot → w.filling slot)

def isOpen (w : World) : Prop := w.dry = none

def Names (w : World) (name : PrivateName) : Prop := w.tracked → w.state.Declares name

def recent (w : World) (id : ObjectId) : Prop := w.since ≤ id.index

end World

def Met {α : Type} [Mentions α] (w : World) (a : α) : Prop := within w.knows a

namespace ArgumentMap

/-- The parameter that a key stands for. -/
def parameter? (shared : ArgumentMap) : PropertyKey → Option String
  | .index n => (shared.names[n.val]?).join
  | _ => none

def without (shared : ArgumentMap) (n : Nat) : ArgumentMap :=
  { shared with names := shared.names.setIfInBounds n none }

end ArgumentMap

/-- The private name of a field. -/
def FieldKey.name? : FieldKey → Option PrivateName
  | .hidden name => some name
  | .shared _ => none

/-- The private name that an element goes by. -/
def InstanceElement.name? : InstanceElement → Option PrivateName
  | .field key _ => key.name?
  | .method name _ => some name

/-- How the kind of an object can change. Elements go by names of which `N` holds. -/
inductive ObjectKind.Alters (N : PrivateName → Prop) : ObjectKind → ObjectKind → Prop where
  | closure (c : Closure) {elements : List InstanceElement}
    (h : ∀ e ∈ elements, ∀ name ∈ e.name?, N name) :
    Alters N (.function (.closure c)) (.function (.closure { c with elements }))
  | revoke (p : Option ProxyData) : Alters N (.proxy p) (.proxy none)
  | iterator (i i' : IteratorState) : Alters N (.iterator i) (.iterator i')
  | map (t t' : KeyedTable) : Alters N (.map t) (.map t')
  | set (t t' : KeyedTable) : Alters N (.set t) (.set t')
  | weakMap (t t' : KeyedTable) : Alters N (.weakMap t) (.weakMap t')
  | weakSet (t t' : KeyedTable) : Alters N (.weakSet t) (.weakSet t')
  | unmap (shared : ArgumentMap) (n : Nat) :
    Alters N (.arguments (some shared)) (.arguments (some (shared.without n)))

/-- The kind of a new object that code may have access to at once, and that stands for no parameters:
a promise has no history, and a function nothing to do to instances. -/
def ObjectKind.Fresh : ObjectKind → Prop
  | .promise p => p = {}
  | .arguments _ => False
  | .error => False
  | .function (.native _ f) => f.wakes? = none
  | .function (.closure c) => c.elements = []
  | _ => True

namespace Object

def Fresh (o : Object) : Prop :=
  match o.privates with
  | [] => o.kind.Fresh
  | _ => False

theorem fresh_iff {o : Object} : o.Fresh ↔ o.privates = [] ∧ o.kind.Fresh := by
  unfold Fresh
  split <;> simp_all

def isArguments (o : Object) : Bool :=
  match o.kind with
  | .arguments _ => true
  | _ => false

/-- Whether a key of an arguments object stands for a parameter. -/
def maps (o : Object) (key : PropertyKey) : Bool :=
  match o.kind with
  | .arguments (some shared) => (shared.parameter? key).isSome
  | _ => false

def MapsPlain (o : Object) : Prop :=
  ∀ key, o.maps key = true → ∃ v e c, o.own? key = some (.data v true e c)

/-- What is expected of the kind of a new object: a promise has no history, a function nothing to do to
instances, and an arguments object stands for the parameters of a scope that may change. -/
def KindBegins (w : World) (o : Object) : Prop :=
  match o.kind with
  | .promise p => p = {}
  | .function (.closure c) => c.elements = []
  | .arguments (some shared) => w.ownsScope shared.scope ∧ o.MapsPlain
  | _ => True

def Begins (w : World) (o : Object) : Prop :=
  match o.privates with
  | [] => o.KindBegins w
  | _ => False

theorem begins_iff {w : World} {o : Object} : o.Begins w ↔ o.privates = [] ∧ o.KindBegins w := by
  unfold Begins
  split <;> simp_all

def plainKey : PropertyKey → Bool
  | .index _ => false
  | key => key != lengthKey

/-- How the operations on objects change one, its prototype apart. A new private element goes by a name
of which `N` holds. -/
inductive Alters (N : PrivateName → Prop) (o : Object) : Object → Prop where
  | refl : Alters N o o
  | define {o' o'' : Object} {key : PropertyKey} {d : Descriptor} (h : Alters N o o')
    (hkey : o'.isArray = true → plainKey key = true ∨ key = lengthKey ∧ d.value = none)
    (hmap : o'.maps key = true → d.isAccessor = false ∧ d.writable ≠ some false)
    (hd : o'.define? key d = some o'') : Alters N o o''
  | element {o' o'' : Object} {n : ArrayIndex} {d : Descriptor} (h : Alters N o o')
    (ha : o'.isArray = true) (hd : o'.defineElement? n d = some o'') : Alters N o o''
  | length {o' : Object} {d : Descriptor} {length : Nat} (h : Alters N o o')
    (ha : o'.isArray = true) (hl : length < 2 ^ 32) : Alters N o (o'.defineLength length d).2
  | erase {o' : Object} {key : PropertyKey} {p : Property} (h : Alters N o o')
    (hp : o'.own? key = some p) (hc : p.configurable = true) (hmap : o'.maps key = false) :
    Alters N o { o' with properties := o'.properties.erase key }
  | putPrivate {o' : Object} {name : PrivateName} {element : PrivateElement} (h : Alters N o o')
    (hn : o'.hasPrivate name = true ∨ N name) :
    Alters N o (o'.putPrivate name element)
  | close {o' : Object} (h : Alters N o o') : Alters N o { o' with extensible := false }
  | stamp {o' : Object} (h : Alters N o o') : Alters N o { o' with stamped := true }
  | kind {o' : Object} {k : ObjectKind} (h : Alters N o o') (hk : o'.kind.Alters N k) :
    Alters N o { o' with kind := k }

def Built (o o' : Object) : Prop :=
  ∃ stamp, o' = { o with properties := o'.properties, stamped := stamp || o.stamped }

end Object

/-- How the bindings of a scope can change. -/
inductive Scope.Alters (s : Scope) : Scope → Prop where
  | refl : Alters s s
  | bind {s' : Scope} (name : String) (b : Binding) (h : Alters s s') : Alters s (s'.bind name b)
  | fill {s' : Scope} (name : String) (v : Value) (h : Alters s s') : Alters s (s'.fill name v)
  | assign {s' s'' : Scope} {name : String} {v : Value} {strict : Bool} (h : Alters s s')
    (ha : s'.assign name v strict = .ok s'') : Alters s s''
  | declare {s' s'' : Scope} {name : String} {kind : BindingKind} (h : Alters s s')
    (hd : s'.declare? name kind = some s'') : Alters s s''

namespace State

def settled (s : State) (id : ObjectId) (state : PromiseState) (handled : Bool)
    (reactions : List Reaction) (argument : Value) (untracked : Bool) : State :=
  { s with
    heap := s.heap.modify id.index fun o => { o with kind := .promise { state, handled } }
    rejections := if untracked then s.rejections.push id else s.rejections
    jobs := reactions.foldl (fun jobs r => jobs.push (.react r argument)) s.jobs }

end State

/-- A promise with one more pair of reactions; one that is settled keeps none. -/
def PromiseData.register (p : PromiseData) (onValue onReason : Reaction) : PromiseData :=
  match p.state with
  | .pending => { p with
      onFulfilled := p.onFulfilled ++ [onValue]
      onRejected := p.onRejected ++ [onReason]
      handled := true }
  | _ => { p with handled := true }

/-- The jobs that come at once of registering a pair of reactions. -/
def PromiseData.due (p : PromiseData) (onValue onReason : Reaction) : List Job :=
  match p.state with
  | .pending => []
  | .fulfilled v => [.react onValue v]
  | .rejected v => [.react onReason v]

namespace State

/-- Registers a pair of reactions with a promise. -/
def registered (s : State) (id : ObjectId) (p : PromiseData) (onValue onReason : Reaction) : State :=
  { s with
    heap := s.heap.modify id.index fun o => { o with kind := .promise (p.register onValue onReason) }
    jobs := (p.due onValue onReason).foldl .push s.jobs }

end State

def Reaction.Waking (s : State) (r : Reaction) : Prop :=
  r.capability = none → ∃ id slot, r.handler = .object id ∧ (s.object id).kind.wakes? = some slot

/-- A reaction waits for a promise, or for its turn. -/
inductive State.Registers (s : State) (r : Reaction) : Prop where
  | job (v : Value) (h : .react r v ∈ s.jobs.toList)
  | promise (id : ObjectId) (p : PromiseData) (hk : (s.object id).kind = .promise p)
    (h : r ∈ p.onFulfilled ∨ r ∈ p.onRejected)

/-- A job that comes of a reaction. -/
def Job.isReaction : Job → Bool
  | .react .. => true
  | _ => false

/-- How a promise that is pending is settled: the reactions that run, with which argument, and
whether the rejection is kept. -/
inductive PromiseData.Settles (p : PromiseData) :
    PromiseState → List Reaction → Value → Bool → Prop where
  | fulfilled (v : Value) : Settles p (.fulfilled v) p.onFulfilled v false
  | rejected (v : Value) : Settles p (.rejected v) p.onRejected v (!p.handled)

namespace State

def replace (s : State) (id : ObjectId) (o : Object) : State :=
  { s with heap := s.heap.setIfInBounds id.index o }

def replaceScope (s : State) (id : ScopeId) (scope : Scope) : State :=
  { s with scopes := s.scopes.setIfInBounds id.index scope }

def Childless (s : State) (id : ObjectId) : Prop := ∀ other, (s.object other).prototype ≠ some id

def Reparents (s : State) (id : ObjectId) (prototype : Option ObjectId) : Prop :=
  s.onChain id (s.heap.size + 1) prototype = false ∨ s.Childless id ∧ prototype ≠ some id

end State

namespace State

/-- Fills a slot and wakes the task that waits for it. -/
def filled (s : State) (slot : Nat) (waiter : Option Nat) (outcome : Outcome) : State :=
  { s with
    awaits := s.awaits.setIfInBounds slot { outcome := some outcome }
    ready := match waiter with
      | some task => s.ready.push task
      | none => s.ready }

end State

def Latches.Turn (latches latches' : Array Bool) : Prop :=
  latches.size ≤ latches'.size ∧ ∀ i : Nat, latches[i]? = some true → latches'[i]? = some true

/-- An activation with a `this`. -/
def ScopeKind.activated (this : ObjectId) : ScopeKind → ScopeKind
  | .function a => .function { a with this := some (.object this) }
  | kind => kind

namespace State

/-- Declares a private name in a scope. Nobody else has it. -/
def declared (s : State) (id : ScopeId) (spelling : String) : State :=
  { s.replaceScope id { s.scope id with
      privateNames := (spelling, ⟨s.nextPrivateName, "#" ++ spelling⟩) :: (s.scope id).privateNames } with
    nextPrivateName := s.nextPrivateName + 1 }

def activated (s : State) (id : ScopeId) (this : ObjectId) : State :=
  s.replaceScope id { s.scope id with kind := (s.scope id).kind.activated this }

/-- A call of `super` in an activation that has no `this` yet has constructed an object by the parent of
the function that runs. -/
inductive SuperReturns (id : ScopeId) (this : ObjectId) (s : State) : Prop where
  | intro {n : Nat} {c : Context} {scope : ScopeId} {args : Array Value} {a : Activation}
    {f parent : ObjectId} {s₀ s₁ : State} (hscope : s₀.thisScope scope = id)
    (ha : (s₀.scope id).kind = .function a) (hf : a.function = some f)
    (hparent : (Exec.prototypeOf f).Comes (machine n) c s₀ (.ok (some parent)) s₁)
    (hthis : (Exec.construct (.object parent) args a.newTarget).Comes (machine n) c s₁
      (.ok (.object this)) s)
    (hnone : (s.scope id).activation?.bind (·.this) = none)

/-- An activation without a `this` is given one by a call of `super` only. -/
def Supers (s s' : State) : Prop :=
  ∀ id a this, (s.scope id).kind = .function a → a.this = none →
    (s'.scope id).activation?.bind (·.this) = some this →
    ∃ s₁ v, this = .object v ∧ s.Before s₁ ∧ s₁.SuperReturns id v ∧ (s₁.activated id v).Before s'

end State

namespace Object

/-- A private name is that of an element that an object has, or that a constructor adds to
instances. -/
def Uses (o : Object) (name : PrivateName) : Prop :=
  name ∈ o.privates.map (·.1) ∨
    ∃ c, o.kind = .function (.closure c) ∧ ∃ e ∈ c.elements, name ∈ e.name?

end Object

/-- Private names have been declared before they are used, and differ by their identities. No object has
two elements with one name. -/
structure State.Named (s : State) : Prop where
  fresh : ∀ name, s.Declares name → name.id < s.nextPrivateName
  unique : ∀ name other, s.Declares name → s.Declares other → name.id = other.id → name = other
  used : ∀ id name, (s.object id).Uses name → s.Declares name
  nodup : ∀ id, ((s.object id).privates.map (·.1)).Nodup

/-- A bound function refers only to objects that are older than itself. -/
def State.BindsOlder (s : State) : Prop := ∀ id target this args,
  (s.object id).kind = .function (.bound target this args) →
    within (fun older => older.index < id.index) (target, this, args)

/-- One change of the state of a world. -/
inductive Act (w : World) : State → Prop where
  | allocate {o : Object} (ho : Met w o) (hb : o.Begins w) :
    Act w { w.state with heap := w.state.heap.push o }
  | object {id : ObjectId} {o : Object} (hid : w.owns id) (ho : Met w o)
    (h : (w.state.object id).Alters w.Names o) : Act w (w.state.replace id o)
  | build {id : ObjectId} {o : Object} (hid : w.owns id) (ho : Met w o)
    (hnew : w.recent id ∨ (w.state.object id).unstamped)
    (hk : (w.state.object id).isArguments = false) (h : (w.state.object id).Built o) : Act w (w.state.replace id o)
  | reparent {id : ObjectId} {prototype : Option ObjectId} (hid : w.owns id)
    (hp : Met w prototype) (hnew : w.recent id ∨ (w.state.object id).extensible = true)
    (h : w.tracked → w.state.Reparents id prototype) :
    Act w (w.state.replace id { w.state.object id with prototype })
  | settle {id : ObjectId} {p : PromiseData} {state : PromiseState} {reactions : List Reaction}
    {argument : Value} {untracked : Bool} (hid : w.owns id) (hs : Met w state)
    (hk : (w.state.object id).kind = .promise p) (hp : p.state = .pending)
    (h : p.Settles state reactions argument untracked) :
    Act w (w.state.settled id state p.handled reactions argument untracked)
  | register {id : ObjectId} {p : PromiseData} {onValue onReason : Reaction} (h : w.isOpen)
    (hk : (w.state.object id).kind = .promise p) (hv : Met w onValue) (hr : Met w onReason)
    (hwv : w.tracked → onValue.Waking w.state) (hwr : w.tracked → onReason.Waking w.state) :
    Act w (w.state.registered id p onValue onReason)
  | newScope {scope : Scope} (hs : Met w scope)
    (hn : ∀ spelling name, scope.privateNames.lookup spelling = some name → w.Names name) :
    Act w { w.state with scopes := w.state.scopes.push scope }
  | scope {id : ScopeId} {scope : Scope} (hid : w.ownsScope id) (hs : Met w scope)
    (h : (w.state.scope id).Alters scope) : Act w (w.state.replaceScope id scope)
  | declarePrivate {id : ScopeId} {spelling : String} (hid : w.ownsScope id)
    (hnew : w.state.privateName? id spelling = none) :
    Act w (w.state.declared id spelling)
  | activate {id : ScopeId} {this : ObjectId} (hv : Met w this) (h : w.state.SuperReturns id this) :
    Act w (w.state.activated id this)
  | enqueue {job : Job} (hj : Met w job) (hn : job.isReaction = false) :
    Act w { w.state with jobs := w.state.jobs.push job }
  | timers {timers : TimerQueue} (h : w.isOpen) (ht : Met w timers)
    (hn : w.tracked → timers.Numbered) :
    Act w { w.state with timers }
  | newSlot : Act w { w.state with awaits := w.state.awaits.push {} }
  /-- A task begins to wait for a slot that is new. -/
  | wait {slot task : Nat} (h : w.state.awaits[slot]? = some {}) :
    Act w (w.state.setWaiter slot task)
  | fill {slot : Nat} {waiter : Option Nat} {outcome : Outcome} (h : w.tracked → w.filling slot)
    (hs : w.state.awaits[slot]? = some ⟨none, waiter⟩) (ho : Met w outcome) :
    Act w (w.state.filled slot waiter outcome)
  | outcomes {outcomes : Array (Option (Except EvaluationError Value))} (h : Met w outcomes) :
    Act w { w.state with outcomes }
  | resolvers {resolvers : Array (Value × Value)} (h : Met w resolvers) :
    Act w { w.state with resolvers }
  | aggregates {aggregates : Array Aggregate} (h : Met w aggregates) :
    Act w { w.state with aggregates }
  | template {site : ScriptId × Nat} {id : ObjectId} (h : Met w id) :
    Act w { w.state with templates := (site, id) :: w.state.templates }
  | latches {latches : Array Bool} (h : Latches.Turn w.state.latches latches) :
    Act w { w.state with latches }
  /-- Nothing that code or later work has access to. -/
  | aside {scripts : Array ScriptText} {stack : List Frame} {interrupted : Bool} {clock : Nat}
    {sinks : Array Sink} {console : ConsoleData} {nextSymbol : Nat}
    {registry : List (String × Symbol)} {random : UInt64} :
    Act w { w.state with
      scripts, stack, interrupted, clock, sinks, console, nextSymbol, registry, random }
  /-- A task gets its id. -/
  | name : Act w { w.state with lastTask := w.state.lastTask + 1 }
  | takeFatal : Act w { w.state with fatal := none }

namespace World

/-- What a dry run relies on: the native functions that its table names do no more than the table
says, and what belongs to it refers to nothing older that it would change. -/
structure DryInv (d : DryRun) (s : State) : Prop where
  objects : d.firstObject ≤ s.heap.size
  scopes : d.firstScope ≤ s.scopes.size
  global : s.globalObject.index < d.firstObject
  arguments : ∀ id shared, d.firstObject ≤ id.index →
    (s.object id).kind = .arguments (some shared) → d.firstScope ≤ shared.scope.index
  table : ∀ id flags, (s.effectTables.getD d.table []).lookup id = some flags →
    flags.pure = true → ∃ name f, (s.object id).kind = .function (.native name f) ∧
      f.registers = false ∧ (f.advances = true → flags.changesReceiver = true)

/-- What holds of a world at all times. -/
structure Inv (w : World) : Prop where
  closed : Met w w.state
  hidden : ∀ h, w.hidden h → w.state.Has h
  own : ∀ h, w.own h → w.hidden h
  since : w.since ≤ w.state.heap.size
  dry : ∀ d ∈ w.dry, DryInv d w.state
  quiet : w.quiet → w.state.fatal = none
  numbered : w.tracked → w.state.timers.Numbered
  acyclic : w.tracked → w.state.Acyclic
  mapped : w.tracked → ∀ id, (w.state.object id).MapsPlain
  waking : w.tracked → ∀ r, w.state.Registers r → r.Waking w.state
  named : w.tracked → w.state.Named
  binds : w.tracked → w.state.BindsOlder

def hide (w : World) (h : Held) : World :=
  { w with
    hidden := fun other => w.hidden other ∨ other = h
    own := fun other => w.own other ∨ other = h }

def reveal (w : World) (A : Held → Prop) : World :=
  { w with hidden := fun h => w.hidden h ∧ ¬ A h, own := fun h => w.own h ∧ ¬ A h }

end World

/-- A sequence of changes. On the way, what is new can be kept hidden for a while. -/
inductive Acts : World → World → Prop where
  | refl {w : World} : Acts w w
  | step {w w' : World} {s : State} (h : Acts w w') (hs : Act w' s) : Acts w { w' with state := s }
  | hide {w w' : World} {held : Held} (h : Acts w w') (hnew : ¬ w.state.Has held)
    (hinv : (w'.hide held).Inv) : Acts w (w'.hide held)
  | reveal {w w' : World} {A : Held → Prop} (h : Acts w w') (hA : ∀ held, A held → w'.own held) :
    Acts w (w'.reveal A)

end EcmaScript
