import EcmaScript.Error.Object
import EcmaScript.Proofs.Level.Rules

/-! What computations are made of leaves the call stack as it finds it. Rules that have nothing to ask
for but that their parts do so are left to automation. -/
namespace EcmaScript

variable {P : Watch} {V W : Prop} {α β : Type} {x : Exec α} {Q Q₁ : α → Prop} {Q' : β → Prop}

namespace LevelWith

theorem mono (h : LevelWith P V x Q) (hW : V → W) (hQ : ∀ a, Q a → Q₁ a) : LevelWith P W x Q₁ :=
  fun hP c L s hL hs => (h hP c L s hL hs).mono hW hQ

theorem level (h : LevelWith P W x Q) : Level P W x := h.mono id fun _ _ => trivial

theorem pure {a : α} (h : Q a) : LevelWith P W (Pure.pure a) Q := fun _ _ _ _ _ hs => .value hs h

theorem raise {e : Abrupt} : LevelWith P W (Exec.raise e) Q := fun _ _ _ _ _ hs => .abrupt hs

theorem look {f : State → α} (h : ∀ s : State, (∀ id, (s.object id).Lawful) → Q (f s)) :
    LevelWith P W (Exec.look f) Q := fun _ _ _ s _ hs => .value hs (h s hs.lawful)

theorem bind {f : α → Exec β} (hx : LevelWith P W x Q) (hf : ∀ a, Q a → LevelWith P W (f a) Q') :
    LevelWith P W (x >>= f) Q' :=
  fun hP c L s hL hs =>
    (hx hP c L s hL hs).bind hL fun a L' s' hL' hs' ha => hf a ha hP c L' s' hL' hs'

theorem ite {b : Prop} [Decidable b] {y : Exec α} (hx : b → LevelWith P W x Q)
    (hy : ¬ b → LevelWith P W y Q) : LevelWith P W (if b then x else y) Q := by
  split
  · exact hx ‹_›
  · exact hy ‹_›

theorem update {f : State → α × State} (h : ∀ s L, s.Stands L → (f s).2.Stands L)
    (hQ : ∀ s, Q (f s).1) : LevelWith P W (Exec.update f) Q :=
  fun _ _ _ s _ hs => .value (h s _ hs) (hQ s)

theorem now (h : LevelWith P False x Q) :
    LevelWith P W (Exec.now x) fun v => ∃ a, v = some a ∧ Q a :=
  fun hP c L s hL hs => (h hP c L s hL hs).now

end LevelWith

namespace Level

theorem pure {a : α} : Level P W (Pure.pure a : Exec α) := LevelWith.pure trivial

theorem raise {e : Abrupt} : Level P W (Exec.raise e : Exec α) := LevelWith.raise

theorem look {f : State → α} : Level P W (Exec.look f) := LevelWith.look fun _ _ => trivial

theorem context : Level P W Exec.context := fun _ _ _ _ _ hs => .value hs trivial

theorem exhausted : Level P W (Exec.exhausted : Exec α) := fun _ _ _ _ _ _ => .exhausted

theorem bind_with {f : α → Exec β} (hx : LevelWith P W x Q) (hf : ∀ a, Q a → Level P W (f a)) :
    Level P W (x >>= f) := LevelWith.bind hx hf

theorem bind {f : α → Exec β} (hx : Level P W x) (hf : ∀ a, Level P W (f a)) :
    Level P W (x >>= f) := bind_with hx fun a _ => hf a

theorem map {f : α → β} (hx : Level P W x) : Level P W (f <$> x) := bind hx fun _ => pure

theorem ite {b : Prop} [Decidable b] {y : Exec α} (hx : b → Level P W x) (hy : ¬ b → Level P W y) :
    Level P W (if b then x else y) := LevelWith.ite hx hy

theorem attempt (hx : Level P W x) : Level P W (Exec.attempt x) :=
  fun hP c L s hL hs => (hx hP c L s hL hs).handle hL (fun _ _ _ _ hs _ => .value hs trivial)
    fun _ _ _ _ hs => .value hs trivial

theorem within {g : Context → Context} (hx : Level P W x) : Level P W (Exec.within g x) :=
  fun hP c L s hL hs => hx hP (g c) L s hL hs

theorem change {f : State → State} (h : ∀ s L, s.Stands L → (f s).Stands L) :
    Level P W (Exec.change f) := fun _ _ _ s _ hs => .value (h s _ hs) trivial

theorem update {f : State → α × State} (h : ∀ s L, s.Stands L → (f s).2.Stands L) :
    Level P W (Exec.update f) := LevelWith.update h fun _ => trivial

theorem ofExcept {r : Except Abrupt α} : Level P W (Exec.ofExcept r) := by
  cases r with
  | ok a => exact pure
  | error e => exact raise

section Lists
variable {l : List α}

theorem forM {f : α → Exec PUnit} (h : ∀ a ∈ l, Level P W (f a)) : Level P W (l.forM f) := by
  induction l with
  | nil => exact pure
  | cons a rest ih =>
    exact (h a (by simp)).bind fun _ => ih fun b hb => h b (by simp [hb])

theorem foldlM {f : β → α → Exec β} {b : β} (h : ∀ b, ∀ a ∈ l, Level P W (f b a)) :
    Level P W (l.foldlM f b) := by
  induction l generalizing b with
  | nil => exact pure
  | cons a rest ih => exact (h b a (by simp)).bind fun b => ih fun b a ha => h b a (by simp [ha])

theorem arrayFoldlM {items : Array α} {f : β → α → Exec β} {b : β} (h : ∀ b a, Level P W (f b a)) :
    Level P W (items.foldlM f b) := by
  rw [← Array.foldlM_toList]
  exact .foldlM fun b a _ => h b a

theorem mapM {f : α → Exec β} (h : ∀ a ∈ l, Level P W (f a)) : Level P W (l.mapM f) := by
  induction l with
  | nil => exact pure
  | cons a rest ih =>
    rw [List.mapM_cons]
    exact (h a (by simp)).bind fun _ => (ih fun a ha => h a (by simp [ha])).bind fun _ => pure

theorem filterMapM {f : α → Exec (Option β)} (h : ∀ a ∈ l, Level P W (f a)) :
    Level P W (l.filterMapM f) := by
  induction l with
  | nil => exact pure
  | cons a rest ih =>
    have hrest := ih fun a ha => h a (by simp [ha])
    rw [List.filterMapM_cons]
    refine (h a (by simp)).bind fun b => ?_
    cases b with
    | none => exact hrest
    | some b => exact hrest.bind fun _ => pure

theorem filterM {f : α → Exec Bool} (h : ∀ a ∈ l, Level P W (f a)) : Level P W (l.filterM f) := by
  have haux (acc : List α) : Level P W (l.filterAuxM f acc) := by
    induction l generalizing acc with
    | nil => exact pure
    | cons a rest ih =>
      exact (h a (by simp)).bind fun _ => ih (fun a ha => h a (by simp [ha])) _
  exact (haux []).bind fun _ => pure

end Lists

theorem request {r : Request} (h : r.Permitted P W) : Level P W (Exec.request r) :=
  fun hP => hP.answers W r h

theorem fuel : Level P W Exec.fuel := by
  intro hP c L s _ hs
  have h : Step.Abreast P.footings W (fun _ => True) L (.value P.machine.fuel s)
      (.value P.machine.fuel s) := .value hs trivial
  simpa only [Exec.fuel, hP.fuel] using h

theorem loop {b : β} {body : β → Exec (β ⊕ α)} (h : ∀ b, Level P W (body b)) :
    Level P W (Exec.loop b body) := by
  intro hP c L s hL hs
  unfold Exec.loop
  rw [hP.fuel]
  refine .loop (I := fun _ => True) P.machine.fuel (fun b L s hL hs _ => ?_) hL hs trivial
  exact (h b hP c L s hL hs).mono id fun r _ => by cases r <;> trivial

end Level

attribute [grind =] Request.Permitted

attribute [grind ←] Level.pure Level.raise Level.look Level.context Level.exhausted Level.bind Level.map
  Level.attempt Level.within Level.ofExcept Level.forM Level.foldlM Level.mapM Level.filterMapM
  Level.filterM Level.request Level.fuel Level.loop

namespace State.Stands
variable {s s' : State} {L : Footing}

/-- What is neither on the heap nor part of the footing may change. -/
theorem aside (h : s.Stands L) (hheap : s'.heap = s.heap) (hstack : s'.stack = s.stack)
    (hdepth : s'.maxDepth = s.maxDepth) (houtcomes : s'.outcomes = s.outcomes) : s'.Stands L where
  frames := hstack ▸ h.frames
  maxDepth := hdepth ▸ h.maxDepth
  outcomes := houtcomes ▸ h.outcomes
  lawful id := by
    have hobject : s'.object id = s.object id := by simp [State.object, hheap]
    exact hobject ▸ h.lawful id

theorem push {o : Object} (h : s.Stands L) (ho : o.Lawful) :
    ({ s with heap := s.heap.push o } : State).Stands L where
  frames := h.frames
  maxDepth := h.maxDepth
  outcomes := h.outcomes
  lawful id := by
    rw [State.object_push]
    split
    · exact ho
    · exact h.lawful id

theorem replace {id : ObjectId} {o : Object} (h : s.Stands L) (ho : o.Lawful) :
    (s.replace id o).Stands L where
  frames := h.frames
  maxDepth := h.maxDepth
  outcomes := h.outcomes
  lawful other := by
    rw [State.object_replace]
    split
    · exact ho
    · exact h.lawful other

end State.Stands

theorem Object.Lawful.of_kind {o o' : Object} (h : o.Lawful) (hk : o'.kind = o.kind) : o'.Lawful :=
  fun c hc => h c (hk ▸ hc)

theorem Object.lawful_of_kind {o : Object} (h : ∀ c, o.kind ≠ .function (.closure c)) : o.Lawful :=
  fun c hc => absurd hc (h c)

namespace Exec

theorem object_level {id : ObjectId} : LevelWith P W (object id) Object.Lawful :=
  .look fun _ h => h id

theorem allocate_level {o : Object} (h : o.Lawful) : Level P W (allocate o) :=
  fun _ _ _ _ _ hs => .value (hs.push h) trivial

@[grind ←] theorem allocate_kind {o : Object} (h : ∀ c, o.kind ≠ .function (.closure c)) :
    Level P W (allocate o) := allocate_level (Object.lawful_of_kind h)

theorem modifyObject_level {id : ObjectId} {f : Object → Object} (h : ∀ o, o.Lawful → (f o).Lawful) :
    Level P W (modifyObject id f) :=
  .change fun s L hs => by
    rw [State.heap_modify]
    exact hs.replace (h _ (hs.lawful id))

@[grind ←] theorem modifyObject_kind {id : ObjectId} {f : Object → Object}
    (h : ∀ o, (f o).kind = o.kind) : Level P W (modifyObject id f) :=
  modifyObject_level fun o ho => ho.of_kind (h o)

@[grind ←] theorem modifyKind_level {id : ObjectId} {f : ObjectKind → ObjectKind}
    (h : ∀ k c, f k = .function (.closure c) → k = .function (.closure c)) :
    Level P W (modifyObject id (·.modifyKind f)) :=
  modifyObject_level fun o ho c hc => ho c (h o.kind c hc)

@[grind ←] theorem object_bind {id : ObjectId} {f : Object → Exec β} (h : ∀ o, Level P W (f o)) :
    Level P W (object id >>= f) := .bind_with object_level fun o _ => h o

@[grind ←] theorem object_plain {id : ObjectId} : Level P W (object id) := (object_level).level

@[grind ←] theorem modifyScope_level {id : ScopeId} {f : Scope → Scope} :
    Level P W (modifyScope id f) := .change fun _ _ hs => hs.aside rfl rfl rfl rfl

@[grind ←] theorem newScope_level {scope : Scope} : Level P W (newScope scope) :=
  fun _ _ _ _ _ hs => .value (hs.aside rfl rfl rfl rfl) trivial

@[grind ←] theorem newBlock_level {parent : ScopeId} : Level P W (newBlock parent) := newScope_level

@[grind ←] theorem intrinsics_level : Level P W intrinsics := .look

@[grind ←] theorem globalObject_level : Level P W globalObject := .look

@[grind ←] theorem isCallable_level {v : Value} : Level P W (isCallable v) := .look

@[grind ←] theorem isConstructor_level {v : Value} : Level P W (isConstructor v) := .look

@[grind ←] theorem describe_level {v : Value} : Level P W (describe v) := .look

@[grind ←] theorem throwType_level {message : String} : Level P W (throwType message : Exec α) := .raise

@[grind ←] theorem throwRange_level {message : String} : Level P W (throwRange message : Exec α) := .raise

@[grind ←] theorem throwReference_level {message : String} :
    Level P W (throwReference message : Exec α) := .raise

@[grind ←] theorem throwSyntaxAt_level {span : Span} {message : String} :
    Level P W (throwSyntaxAt span message : Exec α) := .raise

@[grind ←] theorem newOfKind_level {prototype : ObjectId} {kind : ObjectKind}
    (h : ∀ c, kind ≠ .function (.closure c)) : Level P W (newOfKind prototype kind) :=
  allocate_level (Object.lawful_of_kind h)

@[grind ←] theorem newObject_level {properties : List (String × Value)} :
    Level P W (newObject properties) :=
  (intrinsics_level).bind fun _ => allocate_level (Object.lawful_of_kind (by simp))

@[grind ←] theorem console_level {level : ConsoleLevel} {message : String} :
    Level P W (console level message) := by
  refine .bind .context fun c => ?_
  split
  · exact .pure
  · exact .change fun _ _ hs => hs.aside rfl rfl rfl rfl

@[grind ←] theorem newLatch_level : Level P W newLatch :=
  fun _ _ _ _ _ hs => .value (hs.aside rfl rfl rfl rfl) trivial

@[grind ←] theorem turnLatch_level {latch : Nat} : Level P W (turnLatch latch) :=
  fun _ _ _ _ _ hs => .value (hs.aside rfl rfl rfl rfl) trivial

@[grind ←] theorem enqueue_level {job : Job} : Level P W (enqueue job) :=
  .change fun _ _ hs => hs.aside rfl rfl rfl rfl

@[grind ←] theorem atSpan_level {span : Span} : Level P W (atSpan span) := by
  refine .change fun s L hs => ?_
  split
  · rename_i hstack
    refine { hs with frames := ?_ }
    rw [← hs.frames, hstack]
    rfl
  · exact hs

@[grind ←] theorem halt_level {k : Condition} (h : k ≠ .suspended) : Level P W (halt k : Exec α) :=
  (Level.request (r := .halt k) h).bind nofun

theorem unsupported_ends {what : String} {Q : α → Prop} :
    LevelWith P W (unsupported what : Exec α) Q :=
  .bind (Level.request (r := .halt (.unsupported what)) nofun) nofun

@[grind ←] theorem unsupported_level {what : String} : Level P W (unsupported what : Exec α) :=
  halt_level nofun

@[grind ←] theorem refuseEffect_level {what : String} : Level P W (refuseEffect what : Exec α) :=
  halt_level nofun

@[grind ←] theorem call_level {f this : Value} {args : Array Value} : Level P W (call f this args) :=
  .request trivial

@[grind ←] theorem construct_level {f newTarget : Value} {args : Array Value} :
    Level P W (construct f args newTarget) := .request trivial

@[grind ←] theorem checkInterrupts_level : Level P W checkInterrupts := by
  have hclock : Level P W (change fun s => { s with clock := s.clock + checkNanos }) :=
    .change fun _ _ hs => hs.aside rfl rfl rfl rfl
  refine hclock.bind fun _ => ?_
  grind [Condition.suspended]

@[grind ←] theorem checkObjectWrite_level {id : ObjectId} {what : String} :
    Level P W (checkObjectWrite id what) := by
  grind [checkObjectWrite]

@[grind ←] theorem checkScopeWrite_level {id : ScopeId} {name : String} :
    Level P W (checkScopeWrite id name) := by
  grind [checkScopeWrite]

end Exec
end EcmaScript
