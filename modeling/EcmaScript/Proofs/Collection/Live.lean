import EcmaScript.Proofs.Collection.Iteration
import EcmaScript.Proofs.Realm.Wake

/-! Iterations see a collection as it is when they come by: through an iterator, and through the loop
that calls a function with each entry. -/
namespace EcmaScript
open Exec

/-! The loop over the entries. -/

/-- A call of the function that is called with each entry: the entry, and the states around the call. -/
structure Turn where
  visit : Visit
  before : State
  after : State

/-- The turns of the loop over the entries, from one place and state to another. -/
inductive Traverses (id : ObjectId) (f : Value → Value → Exec Unit) (m : Machine) (c : Context) :
    Nat → State → List Turn → Nat → State → Prop where
  | refl {p : Nat} {s : State} : Traverses id f m c p s [] p s
  | turn {p p' : Nat} {s s₁ s₂ s' : State} {y : Visit} {turns : List Turn}
    (hy : ((s.table? id).getD {}).entryFrom? p = some y)
    (hs₁ : s₁ = { s with clock := s.clock + checkNanos }) (hf : (f y.2.1 y.2.2).Gives m c s₁ () s₂)
    (h : Traverses id f m c (y.1 + 1) s₂ turns p' s') :
    Traverses id f m c p s (⟨y, s₁, s₂⟩ :: turns) p' s'

namespace Exec
variable {m : Machine} {c : Context} {s s' : State} {id : ObjectId} {v : Value}
  {f : Value → Value → Exec Unit}

theorem gives_loop {α β : Type} {body : β → Exec (β ⊕ α)} {a : α} {C : β → State → Prop}
    (hend : ∀ b s, (body b).Gives m c s (.inr a) s' → C b s)
    (hturn : ∀ b b' s s₁, (body b).Gives m c s (.inl b') s₁ → C b' s₁ → C b s) {b : β}
    (h : (loop b body).Gives m c s a s') : C b s := by
  replace h : (Step.loop (fun b s => body b m c s) m.fuel b s).outcome = some (some (.ok a), s') := h
  generalize m.fuel = fuel at h
  induction fuel generalizing b s with
  | zero => cases h
  | succ fuel ih =>
    rw [Step.loop_succ] at h
    obtain ⟨r, s₁, hbody, hrest⟩ := Step.outcome_bind.mp h
    cases r with
    | inl b' => exact hturn b b' s s₁ hbody (ih hrest)
    | inr a' =>
      cases hrest
      exact hend b s hbody

theorem gives_forEachEntry {u : Unit} (h : (forEachEntry id f).Gives m c s u s') :
    ∃ turns p, Traverses id f m c 0 s turns p s' ∧ ((s'.table? id).getD {}).entryFrom? p = none := by
  refine gives_loop (C := fun p s => ∃ turns p', Traverses id f m c p s turns p' s' ∧
    ((s'.table? id).getD {}).entryFrom? p' = none) (fun p s hbody => ?_) (fun p p₁ s s₁ hbody ih => ?_) h
  · have hbody := gives_look_bind.mp hbody
    split at hbody
    · rename_i hnone
      obtain ⟨-, rfl⟩ := gives_pure.mp hbody
      exact ⟨[], p, .refl, hnone⟩
    · obtain ⟨_, s₂, -, hbody⟩ := gives_bind.mp hbody
      obtain ⟨_, s₃, -, hbody⟩ := gives_bind.mp hbody
      cases (gives_pure.mp hbody).1
  · have hbody := gives_look_bind.mp hbody
    split at hbody
    · cases (gives_pure.mp hbody).1
    · rename_i q key value hsome
      obtain ⟨_, s₂, hcheck, hbody⟩ := gives_bind.mp hbody
      obtain ⟨_, s₃, hf, hbody⟩ := gives_bind.mp hbody
      obtain ⟨hp, rfl⟩ := gives_pure.mp hbody
      cases hp
      obtain ⟨turns, p', hturns, hend⟩ := ih
      exact ⟨_, p', .turn hsome (gives_checkInterrupts hcheck) hf hturns, hend⟩

/-- The call of a function with an entry. In a set the key is the value. -/
def visitor (isSet : Bool) (id : ObjectId) (args : Array Value) (key value : Value) : Exec Unit := do
  let _ ← call (argument args 0) (argument args 1) #[if isSet then key else value, key, .object id]

def forEachOf (isSet : Bool) (id : ObjectId) (args : Array Value) : Exec Value :=
  if isSet then setFunction .forEach (.object id) args else mapFunction .forEach (.object id) args

/-- The method that makes an iterator. -/
def iteratorOf (isSet : Bool) (id : ObjectId) (kind : IterationKind) : Exec Value :=
  if isSet then setFunction (.iterate kind) (.object id) #[]
  else mapFunction (.iterate kind) (.object id) #[]

theorem gives_collectionCallback {args : Array Value} (h : (collectionCallback args).Gives m c s v s') :
    v = argument args 0 ∧ s' = s := by
  have h := gives_look_bind.mp h
  split at h
  · obtain ⟨_, _, hdescribe, h⟩ := gives_bind.mp h
    obtain ⟨_, _, hthrow, -⟩ := gives_bind.mp h
    exact (gives_raise hthrow).elim
  · exact gives_pure.mp h

theorem gives_forEachOf {isSet : Bool} {args : Array Value}
    (h : (forEachOf isSet id args).Gives m c s v s') :
    (forEachEntry id (visitor isSet id args)).Gives m c s () s' := by
  have hmethod {kind : CollectionKind} {name : String} (f : Value → Value → Value → Exec Unit)
      (h : (do
        let r ← tableOf kind (.object id) name
        let callback ← collectionCallback args
        forEachEntry r.1 (f callback)
        return .undefined : Exec Value).Gives m c s v s') :
      (forEachEntry id (f (argument args 0))).Gives m c s () s' := by
    obtain ⟨r, s₁, ht, h⟩ := gives_bind.mp h
    obtain ⟨callback, s₂, hcallback, h⟩ := gives_bind.mp h
    obtain ⟨_, s₃, hloop, hdone⟩ := gives_bind.mp h
    obtain ⟨-, hid, rfl⟩ := gives_tableOf ht
    obtain ⟨rfl, rfl⟩ := gives_collectionCallback hcallback
    obtain ⟨-, rfl⟩ := gives_pure.mp hdone
    rw [hid] at hloop
    exact hloop
  cases isSet with
  | false =>
    exact hmethod (fun callback key value => do
      let _ ← call callback (argument args 1) #[value, key, .object id]) h
  | true =>
    exact hmethod (fun callback key _ => do
      let _ ← call callback (argument args 1) #[key, key, .object id]) h

theorem gives_iteratorOf {isSet : Bool} {kind : IterationKind}
    (h : (iteratorOf isSet id kind).Gives m c s v s') :
    ∃ it, v = .object it ∧ s'.StandsAt it id kind 0 false ∧ s'.table? id = s.table? id := by
  have hmethod {collection : CollectionKind} {name : String} (prototype : Intrinsics → ObjectId)
      (h : (do
        let r ← tableOf collection (.object id) name
        let i ← intrinsics
        return .object (← newOfKind (prototype i) (.iterator (.keyed r.1 0 kind false))) :
          Exec Value).Gives m c s v s') :
      ∃ it, v = .object it ∧ s'.StandsAt it id kind 0 false ∧ s'.table? id = s.table? id := by
    obtain ⟨r, s₁, ht, h⟩ := gives_bind.mp h
    obtain ⟨it, s₂, hnew, hdone⟩ := gives_bind.mp (gives_intrinsics_bind.mp h)
    obtain ⟨htable, hid, rfl⟩ := gives_tableOf ht
    obtain ⟨rfl, rfl⟩ := gives_pure.mp hdone
    obtain ⟨rfl, rfl⟩ := gives_allocate.mp hnew
    have hlt : id.index < s₁.heap.size :=
      State.lt_of_kind (by cases collection <;> simp [CollectionKind.table?_eq htable, CollectionKind.wrap])
    refine ⟨_, rfl, ?_, ?_⟩
    · rw [State.StandsAt, State.object_push, if_pos rfl, hid]
    · rw [State.table?, object_push_lt hlt, State.table?]
  cases isSet with
  | false => exact hmethod (·.mapIteratorPrototype) h
  | true => exact hmethod (·.setIteratorPrototype) h

end Exec

namespace Traverses
variable {id : ObjectId} {f : Value → Value → Exec Unit} {m : Machine} {c : Context} {p p' : Nat}
  {s s' : State} {turns turns' : List Turn} {t : KeyedTable}

theorem split (h : Traverses id f m c p s (turns ++ turns') p' s') : ∃ p₁ s₁,
    Traverses id f m c p s turns p₁ s₁ ∧ Traverses id f m c p₁ s₁ turns' p' s' := by
  induction turns generalizing p s with
  | nil => exact ⟨p, s, .refl, h⟩
  | cons turn turns ih =>
    cases h with
    | turn hy hs₁ hf h =>
      obtain ⟨p₁, s₁, hfirst, hrest⟩ := ih h
      exact ⟨p₁, s₁, .turn hy hs₁ hf hfirst, hrest⟩

theorem iterates (h : Traverses id f m c p s turns p' s') (ht : s.table? id = some t)
    (hcalled : ∀ turn ∈ turns, turn.before.Called id turn.after) :
    ∃ t', s'.table? id = some t' ∧ Iterates t p (turns.map (·.visit)) t' p' := by
  induction h generalizing t with
  | refl => exact ⟨t, ht, .refl⟩
  | @turn p p' s s₁ s₂ s' y turns hy hs₁ hf _ ih =>
    have hfrom : t.entryFrom? p = some y := by simpa [ht] using hy
    have ht₁ : s₁.table? id = some t := by
      subst hs₁
      exact ht
    obtain ⟨calls, ht₂⟩ := hcalled _ List.mem_cons_self t ht₁
    obtain ⟨t', ht', hi⟩ := ih ht₂ fun turn hturn => hcalled turn (List.mem_cons_of_mem _ hturn)
    exact ⟨t', ht', ((Iterates.refl.visit hfrom).after calls).trans hi⟩

end Traverses

/-! What every iteration meets. -/

/-- What an iteration meets of a collection, up to a moment and then on to a later one. The slots are
numbered in the order in which their entries were added. -/
structure Meets (ys : List Visit) (t₁ : KeyedTable) (zs : List Visit) (t' : KeyedTable) (atEnd : Prop) :
    Prop where
  ordered : (ys ++ zs).Pairwise (·.1 < ·.1)
  /-- An entry that is met later is there already, or is added later. -/
  present : ∀ z ∈ zs, z.1 < t₁.slots.size → ∃ v, t₁.Holds z.1 (z.2.1, v)
  /-- A key that is not there gets a slot behind all that were met, also when it has been there. -/
  again : ∀ key v, t₁.contains key = false →
    (t₁.next (.set key v)).Holds t₁.slots.size (KeyedTable.storedKey key, v) ∧
      ∀ y ∈ ys, y.1 < t₁.slots.size
  /-- At the end, every entry that is there has been met once. -/
  complete : atEnd → ∀ i e, t'.Holds i e → ∃! y, y ∈ ys ++ zs ∧ y.1 = i ∧ y.2.1 = e.1

namespace KeyedTable
variable {t : KeyedTable} {key v : Value}

theorem holds_set (h : t.contains key = false) :
    (t.next (.set key v)).Holds t.slots.size (storedKey key, v) := by
  have hnone : t.places[TableKey.of key]? = none := by
    rw [contains, Std.HashMap.contains_eq_isSome_getElem?] at h
    exact Option.not_isSome_iff_eq_none.mp (by simp [h])
  rw [KeyedTable.next, KeyedTable.insert, hnone]
  exact holds_push.mpr (if_pos rfl ▸ rfl)

end KeyedTable

section
variable {t t₁ t' : KeyedTable} {p₁ p' : Nat} {ys zs : List Visit} {atEnd : Prop}

theorem Iterates.meets (h : Iterates t 0 ys t₁ p₁) (h' : Iterates t₁ p₁ zs t' p') (ht : t.Sound)
    (hend : atEnd → t'.entryFrom? p' = none) : Meets ys t₁ zs t' atEnd := by
  have hfirst := h.iterated ht (Nat.zero_le _)
  have hrest := h'.iterated hfirst.sound hfirst.place.2
  have hall := (h.trans h').iterated ht (Nat.zero_le _)
  refine ⟨hall.ordered, hrest.present, fun key v habsent => ⟨KeyedTable.holds_set habsent, ?_⟩, ?_⟩
  · intro y hy
    have := (hfirst.between y hy).2
    have := hfirst.place.2
    omega
  · intro hatEnd i e he
    have hlt : i < p' := by
      by_contra hle
      exact KeyedTable.entryFrom?_eq_none.mp (hend hatEnd) i (by omega) e he
    obtain ⟨y, hy, hyi, hkey⟩ := hall.met i e (Nat.zero_le _) hlt he
    have hnodup : ((ys ++ zs).map Prod.fst).Nodup :=
      (List.pairwise_map.mpr hall.ordered).imp fun hlt => Nat.ne_of_lt hlt
    refine ⟨y, ⟨hy, hyi, hkey⟩, fun z hz => ?_⟩
    exact List.inj_on_of_nodup_map hnodup hz.1 hy (hz.2.1.trans hyi.symm)

end

/-- The iterations over a collection, through its iterators and through the loop that calls a function,
meet what was added in order, whatever is done to the collection meanwhile: what has been deleted is not
met unless it is added again, then in its new place, and at the end all that is there has been met once.
An iterator that is done stays done. -/
theorem live_iteration {m : Machine} {c : Context} {s : State} {id : ObjectId} {isSet : Bool}
    (calls : List TableCall) (ht : s.table? id = some (KeyedTable.after {} calls)) :
    (∀ kind v s₀, (iteratorOf isSet id kind).Gives m c s v s₀ → ∃ it, v = .object it ∧
      ∀ ys s₁ zs s', s₀.Uses id it ys s₁ → s₁.Uses id it zs s' → ∃ t₁ p₁ done₁ t' p' done',
        s₁.table? id = some t₁ ∧ s₁.StandsAt it id kind p₁ done₁ ∧
        s'.table? id = some t' ∧ s'.StandsAt it id kind p' done' ∧
        Meets ys t₁ zs t' (done' = false ∧ s'.visit? it = none) ∧
        (done₁ = true → done' = true ∧ zs = []) ∧
        ∀ m c v s₂, (nextEntry (.object it)).Gives m c s' v s₂ → s'.Yields it id kind v s₂) ∧
    ∀ args v s', (forEachOf isSet id args).Gives m c s v s' →
      ∃ turns p', Traverses id (visitor isSet id args) m c 0 s turns p' s' ∧
        ((∀ turn ∈ turns, turn.before.Called id turn.after) → ∀ turns₁ turns₂, turns = turns₁ ++ turns₂ →
          ∃ p₁ s₁ t₁ t', Traverses id (visitor isSet id args) m c 0 s turns₁ p₁ s₁ ∧
            Traverses id (visitor isSet id args) m c p₁ s₁ turns₂ p' s' ∧
            s₁.table? id = some t₁ ∧ s'.table? id = some t' ∧
            Meets (turns₁.map (·.visit)) t₁ (turns₂.map (·.visit)) t' True) := by
  have hsound := KeyedTable.sound_empty.after calls
  refine ⟨fun kind v s₀ hnew => ?_, fun args v s' hloop => ?_⟩
  · obtain ⟨it, rfl, hs₀, ht₀⟩ := gives_iteratorOf hnew
    refine ⟨it, rfl, fun ys s₁ zs s' h₁ h₂ => ?_⟩
    obtain ⟨t₁, p₁, done₁, hs₁, ht₁, hi₁, -⟩ := h₁.iterates hs₀ (ht₀.trans ht)
    obtain ⟨t', p', done', hs', ht', hi', hstays⟩ := h₂.iterates hs₁ ht₁
    refine ⟨t₁, p₁, done₁, t', p', done', ht₁, hs₁, ht', hs', ?_, hstays, fun m c v s₂ hn => ?_⟩
    · refine hi₁.meets hi' hsound fun ⟨hdone, hvisit⟩ => ?_
      simpa [State.visit?, show _ = _ from hs', hdone, ht'] using hvisit
    · exact (gives_nextEntry hs' hn).1
  · obtain ⟨turns, p', hturns, hend⟩ := gives_forEachEntry (gives_forEachOf hloop)
    refine ⟨turns, p', hturns, fun hcalled turns₁ turns₂ hsplit => ?_⟩
    subst hsplit
    obtain ⟨p₁, s₁, hfirst, hrest⟩ := hturns.split
    obtain ⟨t₁, ht₁, hi₁⟩ := hfirst.iterates ht fun turn h => hcalled turn (List.mem_append_left _ h)
    obtain ⟨t', ht', hi'⟩ := hrest.iterates ht₁ fun turn h => hcalled turn (List.mem_append_right _ h)
    refine ⟨p₁, s₁, t₁, t', hfirst, hrest, ht₁, ht', hi₁.meets hi' hsound fun _ => ?_⟩
    simpa [ht'] using hend

/-- An iterator of a map with one entry, used in any way. -/
theorem live_iteration_singleton : ∃ (s : State) (it : ObjectId) (s₀ : State),
    s.table? ⟨0⟩ = some (KeyedTable.after {} [.set (.boolean true) .null]) ∧
    (iteratorOf false ⟨0⟩ .keys).Gives (machine 0) default s (.object it) s₀ ∧
    ∀ ys s', s₀.Uses ⟨0⟩ it ys s' → ys.Pairwise (·.1 < ·.1) := by
  let s : State :=
    { (default : State) with heap := #[{ prototype := none, kind := .map (.after {} [.set (.boolean true) .null]) }] }
  have hnew : (iteratorOf false ⟨0⟩ .keys).Gives (machine 0) default s (.object ⟨1⟩) _ := rfl
  refine ⟨s, ⟨1⟩, _, rfl, hnew, fun ys s' huses => ?_⟩
  obtain ⟨it, hit, hlive⟩ := (live_iteration _ rfl).1 _ _ _ hnew
  cases hit
  obtain ⟨_, _, _, _, _, _, _, _, _, _, hmeets, -⟩ := hlive ys s' [] s' huses .refl
  simpa using hmeets.ordered

end EcmaScript
