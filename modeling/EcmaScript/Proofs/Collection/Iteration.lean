import EcmaScript.Library.Keyed
import EcmaScript.Proofs.Array
import EcmaScript.Proofs.Collection.Table
import EcmaScript.Proofs.Frozen
import EcmaScript.Proofs.Safety.Library.Collection

/-! Iterations over a collection that changes meanwhile. An iteration keeps its place by the number of a
slot. A slot gets its entry when the key is added; when the entry is deleted the slot stays empty for
good, and a key that is added again gets a new one behind all others. -/
namespace EcmaScript

namespace KeyedTable
variable {t t' t₁ : KeyedTable} {key : Value} {p p' p₁ q i : Nat} {e : Value × Value}

/-- A slot keeps its key as long as it has an entry, and is not filled again when it has none. -/
structure Ages (t t' : KeyedTable) : Prop where
  size_le : t.slots.size ≤ t'.slots.size
  holds : ∀ i e, i < t.slots.size → t'.Holds i e → ∃ v, t.Holds i (e.1, v)

namespace Ages

theorem refl : t.Ages t := ⟨le_rfl, fun _ e _ he => ⟨e.2, he⟩⟩

theorem trans (h : t.Ages t₁) (h' : t₁.Ages t') : t.Ages t' := by
  refine ⟨h.size_le.trans h'.size_le, fun i e hi he => ?_⟩
  obtain ⟨v, hv⟩ := h'.holds i e (by have := h.size_le; omega) he
  exact h.holds i (e.1, v) hi hv

end Ages

theorem size_next (call : TableCall) : t.slots.size ≤ (t.next call).slots.size := by
  cases call with
  | set key value =>
    simp only [KeyedTable.next, KeyedTable.insert]
    split <;> simp
  | delete key =>
    simp only [KeyedTable.next, KeyedTable.erase]
    split <;> simp
  | clear => simp [KeyedTable.next, KeyedTable.clear]
  | _ => exact le_rfl

theorem Sound.ages (h : t.Sound) (call : TableCall) : t.Ages (t.next call) := by
  refine ⟨size_next call, fun i e hi he => ?_⟩
  cases call with
  | set key value =>
    simp only [KeyedTable.next, KeyedTable.insert] at he
    split at he
    · rename_i j hj
      obtain ⟨old, hold, hkey⟩ := (h.place _ j).mp hj
      rw [holds_overwrite hold] at he
      split at he
      · subst i
        cases he
        have hstored : storedKey key = old.1 := by
          rw [← h.stored j old hold]
          exact (TableKey.of_eq_iff_storedKey.mp hkey).symm
        exact ⟨old.2, by rw [hstored]; exact hold⟩
      · exact ⟨e.2, he⟩
    · rw [holds_push, if_neg (by omega)] at he
      exact ⟨e.2, he⟩
  | delete key =>
    simp only [KeyedTable.next, KeyedTable.erase] at he
    split at he
    · rename_i j hj
      obtain ⟨old, hold, -⟩ := (h.place _ j).mp hj
      rw [holds_overwrite hold] at he
      split at he
      · cases he
      · exact ⟨e.2, he⟩
    · exact ⟨e.2, he⟩
  | clear => simp [KeyedTable.next, KeyedTable.clear, Holds] at he
  | _ => exact ⟨e.2, he⟩

/-! What an iteration meets next. -/

theorem join_slots : (t.slots[i]?).join = some e ↔ t.Holds i e := by
  unfold Holds
  cases t.slots[i]? with
  | none => simp
  | some slot => simp

theorem entryFrom?_go_eq_some {count : Nat} : entryFrom?.go t count p = some (q, e) ↔
    p ≤ q ∧ q < p + count ∧ t.Holds q e ∧ ∀ i, p ≤ i → i < q → ∀ e', ¬ t.Holds i e' := by
  induction count generalizing p with
  | zero =>
    simp only [entryFrom?.go, reduceCtorEq, false_iff]
    omega
  | succ count ih =>
    unfold entryFrom?.go
    split
    · rename_i key value hslot
      have hp : t.Holds p (key, value) := (join_slots).mp hslot
      constructor
      · intro h
        cases h
        exact ⟨le_rfl, by omega, hp, by omega⟩
      · rintro ⟨hle, -, hq, hno⟩
        by_cases hpq : p = q
        · subst q
          rw [hp.eq hq]
        · exact absurd hp (hno p le_rfl (by omega) _)
    · rename_i hslot
      have hnone (e' : Value × Value) : ¬ t.Holds p e' := by
        intro he'
        rw [(join_slots).mpr he'] at hslot
        cases hslot
      rw [ih]
      constructor
      · rintro ⟨hle, hlt, hq, hno⟩
        refine ⟨by omega, by omega, hq, fun i hi hiq e' => ?_⟩
        by_cases hip : i = p
        · exact hip ▸ hnone e'
        · exact hno i (by omega) hiq e'
      · rintro ⟨hle, hlt, hq, hno⟩
        have hne : p ≠ q := by
          rintro rfl
          exact hnone e hq
        exact ⟨by omega, by omega, hq, fun i hi => hno i (by omega)⟩

theorem entryFrom?_eq_some : t.entryFrom? p = some (q, e) ↔
    p ≤ q ∧ t.Holds q e ∧ ∀ i, p ≤ i → i < q → ∀ e', ¬ t.Holds i e' := by
  rw [entryFrom?, entryFrom?_go_eq_some]
  constructor
  · rintro ⟨hle, -, h⟩
    exact ⟨hle, h⟩
  · rintro ⟨hle, hq, h⟩
    exact ⟨hle, by have := hq.lt; omega, hq, h⟩

theorem entryFrom?_eq_none : t.entryFrom? p = none ↔ ∀ i, p ≤ i → ∀ e, ¬ t.Holds i e := by
  constructor
  · intro hnone i
    induction i using Nat.strong_induction_on with
    | _ i ih =>
      intro hi e he
      have hsome : t.entryFrom? p = some (i, e) :=
        (entryFrom?_eq_some).mpr ⟨hi, he, fun j hj hji => ih j hji hj⟩
      rw [hnone] at hsome
      cases hsome
  · intro hno
    cases h : t.entryFrom? p with
    | none => rfl
    | some visit =>
      obtain ⟨q, e⟩ := visit
      obtain ⟨hle, hq, -⟩ := (entryFrom?_eq_some).mp h
      exact absurd hq (hno q hle e)

end KeyedTable

abbrev Visit : Type := Nat × Value × Value

/-- How an iteration goes on from one table and place to another, with the entries that it meets; in
between the collection is called. -/
inductive Iterates (t : KeyedTable) (p : Nat) : List Visit → KeyedTable → Nat → Prop where
  | refl : Iterates t p [] t p
  | change {ys : List Visit} {t' : KeyedTable} {p' : Nat} (h : Iterates t p ys t' p')
    (call : TableCall) : Iterates t p ys (t'.next call) p'
  | visit {ys : List Visit} {t' : KeyedTable} {p' : Nat} {y : Visit} (h : Iterates t p ys t' p')
    (hy : t'.entryFrom? p' = some y) : Iterates t p (ys ++ [y]) t' (y.1 + 1)

/-- What is known of an iteration on its way. -/
structure Iterated (t : KeyedTable) (p : Nat) (ys : List Visit) (t' : KeyedTable) (p' : Nat) : Prop where
  sound : t'.Sound
  ages : t.Ages t'
  place : p ≤ p' ∧ p' ≤ t'.slots.size
  /-- The entries are met in the order in which they were added. -/
  ordered : ys.Pairwise (·.1 < ·.1)
  between : ∀ y ∈ ys, p ≤ y.1 ∧ y.1 < p'
  /-- An entry that is met was there at first, or has been added since. -/
  present : ∀ y ∈ ys, y.1 < t.slots.size → ∃ v, t.Holds y.1 (y.2.1, v)
  /-- What is behind the place and still there has been met. -/
  met : ∀ i e, p ≤ i → i < p' → t'.Holds i e → ∃ y ∈ ys, y.1 = i ∧ y.2.1 = e.1

namespace Iterates
variable {t t' t₁ : KeyedTable} {p p' p₁ : Nat} {ys zs : List Visit}

theorem trans (h : Iterates t p ys t₁ p₁) (h' : Iterates t₁ p₁ zs t' p') :
    Iterates t p (ys ++ zs) t' p' := by
  induction h' with
  | refl => simpa using h
  | change _ call ih => exact ih.change call
  | visit _ hy ih =>
    rw [← List.append_assoc]
    exact ih.visit hy

theorem after (h : Iterates t p ys t' p') (calls : List TableCall) :
    Iterates t p ys (t'.after calls) p' := by
  induction calls generalizing t' with
  | nil => exact h
  | cons call calls ih => exact ih (h.change call)

theorem iterated (h : Iterates t p ys t' p') (ht : t.Sound) (hp : p ≤ t.slots.size) :
    Iterated t p ys t' p' := by
  induction h with
  | refl =>
    exact ⟨ht, .refl, ⟨le_rfl, hp⟩, .nil, by simp, by simp, fun i e hi hlt => by omega⟩
  | @change ys t' p' _ call ih =>
    have hages := ih.sound.ages call
    refine ⟨ih.sound.next, ih.ages.trans hages, ⟨ih.place.1, ih.place.2.trans hages.size_le⟩,
      ih.ordered, ih.between, ih.present, fun i e hi hlt he => ?_⟩
    obtain ⟨v, hv⟩ := hages.holds i e (by have := ih.place.2; omega) he
    exact ih.met i (e.1, v) hi hlt hv
  | @visit ys t' p' y _ hy ih =>
    obtain ⟨hle, hq, hno⟩ := (KeyedTable.entryFrom?_eq_some).mp hy
    have hlt := hq.lt
    have hplace := ih.place.1
    refine ⟨ih.sound, ih.ages, ⟨by omega, by omega⟩, ?_, ?_, ?_, fun i e hi hlt he => ?_⟩
    · refine List.pairwise_append.mpr ⟨ih.ordered, List.pairwise_singleton _ _, fun z hz y' hy' => ?_⟩
      rw [List.mem_singleton.mp hy']
      have := (ih.between z hz).2
      omega
    · intro z hz
      rcases List.mem_append.mp hz with hz | hz
      · have := ih.between z hz
        omega
      · rw [List.mem_singleton.mp hz]
        omega
    · intro z hz hsize
      rcases List.mem_append.mp hz with hz | hz
      · exact ih.present z hz hsize
      · rw [List.mem_singleton.mp hz] at hsize ⊢
        exact ih.ages.holds y.1 y.2 hsize hq
    · by_cases hip : i < p'
      · obtain ⟨z, hz, hzi⟩ := ih.met i e hi hip he
        exact ⟨z, List.mem_append_left _ hz, hzi⟩
      · by_cases hiq : i < y.1
        · exact absurd he (hno i (by omega) hiq e)
        · obtain rfl : i = y.1 := by omega
          exact ⟨y, by simp, rfl, congrArg Prod.fst (hq.eq he)⟩

end Iterates

namespace State

def table? (s : State) (id : ObjectId) : Option KeyedTable := (s.object id).table?

/-- The entry that an iterator of a collection comes to next. -/
def visit? (s : State) (iterator : ObjectId) : Option Visit :=
  match (s.object iterator).kind with
  | .iterator (.keyed target place _ false) => ((s.table? target).getD {}).entryFrom? place
  | _ => none

/-- An iterator of a collection stands at a place; when it has come to the end, it is done. -/
def StandsAt (s : State) (iterator target : ObjectId) (kind : IterationKind) (place : Nat) (done : Bool) :
    Prop :=
  (s.object iterator).kind = .iterator (.keyed target place kind done)

/-- An object has what an iterator answers with. -/
def Answers (s : State) (v : Value) (done : Bool) (item : Value) : Prop :=
  ∃ id, v = .object id ∧ (s.object id).own? (.name "done") = some (.plain (.boolean done)) ∧
    (s.object id).own? (.name "value") = some (.plain item)

/-- What an iterator shows of an entry: the key, the value, or both in an array. In a set the key is
the value. -/
def Shows (s : State) (isSet : Bool) : IterationKind → Value × Value → Value → Prop
  | .keys, e, item => item = e.1
  | .values, e, item => item = if isSet then e.1 else e.2
  | .entries, e, item => ∃ id, item = .object id ∧ (s.object id).isArray = true ∧
    (s.object id).own? (.ofNat 0) = some (.plain e.1) ∧
    (s.object id).own? (.ofNat 1) = some (.plain (if isSet then e.1 else e.2))

/-- What an iterator answers when it is asked: the entry that it comes to, behind which it stands then;
or that it is done, which it is then. -/
def Yields (s : State) (it target : ObjectId) (kind : IterationKind) (v : Value) (s' : State) : Prop :=
  match s.visit? it with
  | some (q, e) => s'.StandsAt it target kind (q + 1) false ∧
    ∃ item, s'.Answers v false item ∧ s'.Shows (s.object target).isSet kind e item
  | none => (∃ place done, s.StandsAt it target kind place done ∧ s'.StandsAt it target kind place true) ∧
    s'.Answers v true .undefined

end State

namespace Exec
variable {m : Machine} {c : Context} {s s' : State} {id it : ObjectId} {v : Value}

theorem object_push_lt {o : Object} {other : ObjectId} (h : other.index < s.heap.size) :
    ({ s with heap := s.heap.push o } : State).object other = s.object other := by
  rw [State.object_push, if_neg (by omega)]

theorem gives_iterationResult {item : Option Value} (h : (iterationResult item).Gives m c s v s') :
    s'.Answers v item.isNone (item.getD .undefined) ∧
      ∀ other : ObjectId, other.index < s.heap.size → s'.object other = s.object other := by
  obtain ⟨a, s₁, hnew, h⟩ := gives_bind.mp h
  obtain ⟨rfl, rfl⟩ := gives_pure.mp h
  obtain ⟨rfl, rfl⟩ := gives_allocate.mp (gives_intrinsics_bind.mp hnew)
  refine ⟨⟨_, rfl, ?_, ?_⟩, fun other => object_push_lt⟩
  · rw [State.object_push, if_pos rfl]
    simp [Object.own?, PropertyTable.get?_put]
  · rw [State.object_push, if_pos rfl]
    simp [Object.own?, PropertyTable.get?_put]

theorem gives_newPair {a b : Value} (h : (newPair a b).Gives m c s v s') :
    s'.Shows false .entries (a, b) v ∧ ∀ other : ObjectId, other.index < s.heap.size →
      other.index < s'.heap.size ∧ s'.object other = s.object other := by
  obtain ⟨id, s₁, hnew, h⟩ := gives_bind.mp h
  obtain ⟨rfl, rfl⟩ := gives_pure.mp h
  obtain ⟨rfl, rfl⟩ := gives_allocate.mp (gives_intrinsics_bind.mp hnew)
  refine ⟨⟨_, rfl, ?_⟩, fun other hlt => ⟨by simp; omega, object_push_lt hlt⟩⟩
  rw [State.object_push, if_pos rfl]
  exact ⟨rfl, Object.own?_arrayObject, Object.own?_arrayObject⟩

theorem iteratorState_value {state : IteratorState} {name : String}
    (hs : (s.object it).kind = .iterator state) :
    iteratorState (.object it) name m c s = .value (it, state) s := by
  have hobject : object it m c s = .value (s.object it) s := rfl
  refine (bind_value hobject).trans ?_
  rw [hs]
  rfl

theorem gives_setIteratorState {state state' : IteratorState} {u : Unit}
    (hs : (s.object it).kind = .iterator state') (h : (setIteratorState it state).Gives m c s u s') :
    s'.heap.size = s.heap.size ∧ (s'.object it).kind = .iterator state ∧
      ∀ other, other ≠ it → s'.object other = s.object other := by
  have hit : it.index < s.heap.size := State.lt_of_kind (by simp [hs])
  have hs' := gives_change.mp h
  rw [State.heap_modify] at hs'
  subst hs'
  refine ⟨State.size_replace, ?_, fun other hne => State.object_replace_ne hne⟩
  change (State.object (s.replace it _) it).kind = _
  rw [State.object_replace_self hit]
  simp [Object.modifyKind, hs]

/-- What `next` answers is the entry that the iterator comes to, and it moves behind that entry. At the
end it is done. -/
theorem gives_nextEntry {target : ObjectId} {kind : IterationKind} {place : Nat} {done : Bool}
    (hs : s.StandsAt it target kind place done) (h : (nextEntry (.object it)).Gives m c s v s') :
    s.Yields it target kind v s' ∧
    ∀ other : ObjectId, other ≠ it → other.index < s.heap.size → s'.object other = s.object other := by
  have hit : it.index < s.heap.size := State.lt_of_kind (by simp [show _ = _ from hs])
  have h := (gives_bind_value (iteratorState_value hs)).mp h
  -- The answer is made last and leaves the iterator where it stands.
  have hanswer {s₁ : State} {item : Option Value} {q : Nat} {ended : Bool}
      (h : (iterationResult item).Gives m c s₁ v s') (hsize : it.index < s₁.heap.size)
      (hstands : s₁.StandsAt it target kind q ended) : s'.StandsAt it target kind q ended := by
    rw [State.StandsAt, (gives_iterationResult h).2 it hsize]
    exact hstands
  cases done with
  | true =>
    have hvisit : s.visit? it = none := by simp [State.visit?, show _ = _ from hs]
    obtain ⟨hanswers, hsame⟩ := gives_iterationResult h
    rw [State.Yields, hvisit]
    exact ⟨⟨⟨place, true, hs, hanswer h hit hs⟩, hanswers⟩, fun other _ hlt => hsame other hlt⟩
  | false =>
    have hvisit : s.visit? it = ((s.object target).table?.getD {}).entryFrom? place := by
      simp [State.visit?, show _ = _ from hs, State.table?]
    have h := gives_look_bind.mp h
    rw [State.Yields, hvisit]
    split at h
    · rename_i hnone
      obtain ⟨_, s₁, hset, h⟩ := gives_bind.mp h
      obtain ⟨hsize, hkind, hothers⟩ := gives_setIteratorState hs hset
      obtain ⟨hanswers, hsame⟩ := gives_iterationResult h
      rw [hnone]
      refine ⟨⟨⟨place, false, hs, hanswer h (by omega) hkind⟩, hanswers⟩, fun other hne hlt => ?_⟩
      rw [hsame other (by omega), hothers other hne]
    · rename_i q key value hsome
      obtain ⟨_, s₁, hset, h⟩ := gives_bind.mp h
      obtain ⟨hsize, hkind, hothers⟩ := gives_setIteratorState hs hset
      rw [hsome]
      have hplain {item : Value} (h : (iterationResult (some item)).Gives m c s₁ v s') :
          s'.StandsAt it target kind (q + 1) false ∧ s'.Answers v false item ∧
          ∀ other : ObjectId, other ≠ it → other.index < s.heap.size → s'.object other = s.object other := by
        obtain ⟨hanswers, hsame⟩ := gives_iterationResult h
        refine ⟨hanswer h (by omega) hkind, hanswers, fun other hne hlt => ?_⟩
        rw [hsame other (by omega), hothers other hne]
      cases kind with
      | keys =>
        obtain ⟨hstands, hanswers, hothers⟩ := hplain h
        exact ⟨⟨hstands, _, hanswers, rfl⟩, hothers⟩
      | values =>
        obtain ⟨hstands, hanswers, hothers⟩ := hplain h
        exact ⟨⟨hstands, _, hanswers, rfl⟩, hothers⟩
      | entries =>
        obtain ⟨item, s₂, hpair, h⟩ := gives_bind.mp h
        obtain ⟨hshows, hkept⟩ := gives_newPair hpair
        obtain ⟨id, rfl, harray, hfirst, hsecond⟩ := hshows
        obtain ⟨hanswers, hsame⟩ := gives_iterationResult h
        have hid : id.index < s₂.heap.size := by
          refine State.lt_of_kind fun hkind => ?_
          simp [Object.isArray, hkind] at harray
        have hgrown (other : ObjectId) (hlt : other.index < s.heap.size) :
            s'.object other = s₁.object other := by
          obtain ⟨hlt', hold⟩ := hkept other (by omega)
          rw [hsame other hlt', hold]
        refine ⟨⟨?_, _, hanswers, id, rfl, ?_⟩, fun other hne hlt => ?_⟩
        · rw [State.StandsAt, hgrown it hit]
          exact hkind
        · rw [hsame id hid]
          exact ⟨harray, hfirst, hsecond⟩
        · rw [hgrown other hlt, hothers other hne]

theorem gives_tableOf {kind : CollectionKind} {name : String} {r : ObjectId × KeyedTable}
    (h : (tableOf kind (.object id) name).Gives m c s r s') :
    kind.table? (s.object id).kind = some r.2 ∧ r.1 = id ∧ s' = s := by
  have h := gives_look_bind.mp h
  split at h
  · rename_i t ht
    obtain ⟨rfl, rfl⟩ := gives_pure.mp h
    exact ⟨ht, rfl, rfl⟩
  · exact (gives_raise (gives_look_bind.mp h)).elim

theorem gives_changeTable {kind : CollectionKind} {name : String} {f : KeyedTable → KeyedTable}
    {t : KeyedTable} {u : Unit} (ht : kind.table? (s.object id).kind = some t)
    (h : (changeTable kind id name f).Gives m c s u s') :
    s' = s.replace id { s.object id with kind := kind.wrap (f t) } := by
  rw [gives_change.mp (gives_checked h), State.heap_modify, State.replace]
  simp [Object.modifyKind, ht]

end Exec

/-- The calls that change a map or a set. -/
inductive Mutation where
  | mapSet (key value : Value)
  | mapDelete (key : Value)
  | mapClear
  | setAdd (key : Value)
  | setDelete (key : Value)
  | setClear

namespace Mutation

def run (id : ObjectId) : Mutation → Exec Value
  | mapSet key value => Exec.mapFunction .set (.object id) #[key, value]
  | mapDelete key => Exec.mapFunction .delete (.object id) #[key]
  | mapClear => Exec.mapFunction .clear (.object id) #[]
  | setAdd key => Exec.setFunction .add (.object id) #[key]
  | setDelete key => Exec.setFunction .delete (.object id) #[key]
  | setClear => Exec.setFunction .clear (.object id) #[]

/-- What a call does to the entries. A key that a set has already is not added again. -/
def calls (t : KeyedTable) : Mutation → List TableCall
  | mapSet key value => [.set key value]
  | setAdd key => if t.contains key then [] else [.set key key]
  | mapDelete key | setDelete key => [.delete key]
  | mapClear | setClear => [.clear]

end Mutation

namespace Exec
variable {m : Machine} {c : Context} {s s' : State} {id : ObjectId} {v : Value}

theorem table?_wrap {kind : CollectionKind} {t : KeyedTable} (hk : kind = .map ∨ kind = .set) {o : Object} :
    ({ o with kind := kind.wrap t } : Object).table? = some t := by
  rcases hk with rfl | rfl <;> rfl

theorem gives_mutation {f : Mutation} (h : (f.run id).Gives m c s v s') :
    ∃ t, s.table? id = some t ∧ s'.table? id = some (t.after (f.calls t)) ∧
      ∀ other, other ≠ id → s'.object other = s.object other := by
  have hchange {kind : CollectionKind} (hk : kind = .map ∨ kind = .set) {name : String} {g : KeyedTable → KeyedTable}
      {r : ObjectId × KeyedTable} {answer : Value} {s₁ : State}
      (ht : (tableOf kind (.object id) name).Gives m c s r s₁)
      (hdo : (do changeTable kind r.1 name g; return answer : Exec Value).Gives m c s₁ v s') :
      s.table? id = some r.2 ∧ s'.table? id = some (g r.2) ∧
        ∀ other, other ≠ id → s'.object other = s.object other := by
    obtain ⟨htable, hid, rfl⟩ := gives_tableOf ht
    obtain ⟨_, s₂, hchange, hdone⟩ := gives_bind.mp hdo
    obtain ⟨-, rfl⟩ := gives_pure.mp hdone
    rw [hid] at hchange
    obtain rfl := gives_changeTable htable hchange
    have hkind := CollectionKind.table?_eq htable
    have hsize : id.index < s₁.heap.size := by
      refine State.lt_of_kind fun hordinary => ?_
      rw [hordinary] at hkind
      rcases hk with rfl | rfl <;> cases hkind
    refine ⟨?_, ?_, fun other hne => State.object_replace_ne hne⟩
    · rw [State.table?, ← table?_wrap hk, ← hkind]
    · rw [State.table?, State.object_replace_self hsize, table?_wrap hk]
  cases f with
  | mapSet key value =>
    obtain ⟨r, s₁, ht, h⟩ := gives_bind.mp h
    exact ⟨r.2, hchange (.inl rfl) ht h⟩
  | mapDelete key =>
    obtain ⟨r, s₁, ht, h⟩ := gives_bind.mp h
    exact ⟨r.2, hchange (.inl rfl) ht h⟩
  | mapClear =>
    obtain ⟨r, s₁, ht, h⟩ := gives_bind.mp h
    exact ⟨r.2, hchange (.inl rfl) ht h⟩
  | setAdd key =>
    obtain ⟨r, s₁, ht, h⟩ := gives_bind.mp h
    obtain ⟨htable, htable', hothers⟩ := hchange (.inr rfl) ht h
    refine ⟨r.2, htable, ?_, hothers⟩
    rw [htable', Mutation.calls, show argument #[key] 0 = key from rfl]
    cases r.2.contains key <;> rfl
  | setDelete key =>
    obtain ⟨r, s₁, ht, h⟩ := gives_bind.mp h
    exact ⟨r.2, hchange (.inr rfl) ht h⟩
  | setClear =>
    obtain ⟨r, s₁, ht, h⟩ := gives_bind.mp h
    exact ⟨r.2, hchange (.inr rfl) ht h⟩

end Exec

/-- What happens while an iterator of a collection is used: the collection is called, this and other
iterators are asked for their next entries, and other things are done that leave both alone. Kept are
the entries that the iterator has come to. -/
inductive State.Uses (id it : ObjectId) (s : State) : List Visit → State → Prop where
  | refl : Uses id it s [] s
  | mutate {ys : List Visit} {s₁ s₂ : State} {m : Machine} {c : Context} {f : Mutation} {v : Value}
    (h : Uses id it s ys s₁) (hf : (f.run id).Gives m c s₁ v s₂) : Uses id it s ys s₂
  | next {ys : List Visit} {s₁ s₂ : State} {m : Machine} {c : Context} {v : Value}
    (h : Uses id it s ys s₁) (hn : (Exec.nextEntry (.object it)).Gives m c s₁ v s₂) :
    Uses id it s (ys ++ (s₁.visit? it).toList) s₂
  | other {ys : List Visit} {s₁ s₂ : State} {m : Machine} {c : Context} {v : Value} {it' : ObjectId}
    (h : Uses id it s ys s₁) (hne : it' ≠ it) (hn : (Exec.nextEntry (.object it')).Gives m c s₁ v s₂) :
    Uses id it s ys s₂
  | aside {ys : List Visit} {s₁ s₂ : State} (h : Uses id it s ys s₁)
    (hid : (s₂.object id).kind = (s₁.object id).kind) (hit : (s₂.object it).kind = (s₁.object it).kind) :
    Uses id it s ys s₂

namespace State
variable {s s' s₁ : State} {id it : ObjectId} {kind : IterationKind} {p : Nat} {t : KeyedTable}
  {ys zs : List Visit}

def Called (id : ObjectId) (s s' : State) : Prop :=
  ∀ t, s.table? id = some t → ∃ calls, s'.table? id = some (t.after calls)

theorem table?_ne_none_lt (h : s.table? id = some t) : id.index < s.heap.size := by
  refine lt_of_kind fun hkind => ?_
  simp [table?, Object.table?, hkind] at h

theorem StandsAt.ne {done : Bool} {target : ObjectId} (hs : s.StandsAt it target kind p done)
    (ht : s.table? id = some t) : id ≠ it := by
  rintro rfl
  simp [table?, Object.table?, show _ = _ from hs] at ht

end State

theorem Exec.standsAt_of_nextEntry {m : Machine} {c : Context} {s s' : State} {it : ObjectId} {v : Value}
    (h : (Exec.nextEntry (.object it)).Gives m c s v s') :
    ∃ target kind place done, s.StandsAt it target kind place done := by
  obtain ⟨⟨id, state⟩, s₁, hstate, h⟩ := gives_bind.mp h
  have hstate := gives_look_bind.mp hstate
  split at hstate
  · rename_i state' hkind
    obtain ⟨hpair, rfl⟩ := gives_pure.mp hstate
    cases hpair
    cases state with
    | keyed target place kind done => exact ⟨target, kind, place, done, hkind⟩
    | _ => exact (gives_raise h).elim
  · exact (gives_raise (gives_look_bind.mp hstate)).elim

namespace State
variable {s s' s₁ : State} {id it : ObjectId} {kind : IterationKind} {p : Nat} {t : KeyedTable}
  {ys zs : List Visit} {done : Bool}

theorem Uses.iterates (hs : s.StandsAt it id kind p done) (ht : s.table? id = some t)
    (h : s.Uses id it ys s') : ∃ t' p' done', s'.StandsAt it id kind p' done' ∧
      s'.table? id = some t' ∧ Iterates t p ys t' p' ∧ (done = true → done' = true ∧ ys = []) := by
  induction h with
  | refl => exact ⟨t, p, done, hs, ht, .refl, fun hdone => ⟨hdone, rfl⟩⟩
  | mutate _ hf ih =>
    obtain ⟨t₁, p₁, d₁, hs₁, ht₁, hi, hstays⟩ := ih
    obtain ⟨t₂, ht₂, ht', hothers⟩ := Exec.gives_mutation hf
    obtain rfl : t₁ = t₂ := by simpa [ht₁] using ht₂
    refine ⟨_, p₁, d₁, ?_, ht', hi.after _, hstays⟩
    rw [StandsAt, hothers it (hs₁.ne ht₁).symm]
    exact hs₁
  | @next ys s₁ s₂ _ _ _ _ hn ih =>
    obtain ⟨t₁, p₁, d₁, hs₁, ht₁, hi, hstays⟩ := ih
    obtain ⟨hvisit, hothers⟩ := Exec.gives_nextEntry hs₁ hn
    have ht₂ : s₂.table? id = some t₁ := by
      rw [table?, hothers id (hs₁.ne ht₁) (table?_ne_none_lt ht₁)]
      exact ht₁
    rw [Yields] at hvisit
    cases hy : s₁.visit? it with
    | none =>
      rw [hy] at hvisit
      obtain ⟨⟨place, d, hplace, hs₂⟩, -⟩ := hvisit
      obtain rfl : p₁ = place := by
        have hkinds := hs₁.symm.trans hplace
        injection hkinds with hkinds
        injection hkinds
      refine ⟨t₁, p₁, true, hs₂, ht₂, by simpa using hi, fun hdone => ⟨rfl, ?_⟩⟩
      simpa using (hstays hdone).2
    | some y =>
      rw [hy] at hvisit
      have hd₁ : d₁ = false := by
        cases d₁ with
        | false => rfl
        | true => simp [visit?, show _ = _ from hs₁] at hy
      have hfrom : t₁.entryFrom? p₁ = some y := by
        simpa [visit?, show _ = _ from hs₁, hd₁, ht₁] using hy
      refine ⟨t₁, y.1 + 1, false, hvisit.1, ht₂, hi.visit hfrom, fun hdone => ?_⟩
      rw [hd₁] at hstays
      exact absurd (hstays hdone).1 (by simp)
  | other _ hne hn ih =>
    obtain ⟨t₁, p₁, d₁, hs₁, ht₁, hi, hstays⟩ := ih
    obtain ⟨target, kind', place, d', hs'⟩ := Exec.standsAt_of_nextEntry hn
    obtain ⟨-, hothers⟩ := Exec.gives_nextEntry hs' hn
    refine ⟨t₁, p₁, d₁, ?_, ?_, hi, hstays⟩
    · rw [StandsAt, hothers it hne.symm (lt_of_kind (by simp [show _ = _ from hs₁]))]
      exact hs₁
    · rw [table?, hothers id (hs'.ne ht₁) (table?_ne_none_lt ht₁)]
      exact ht₁
  | aside _ hid hit ih =>
    obtain ⟨t₁, p₁, d₁, hs₁, ht₁, hi, hstays⟩ := ih
    refine ⟨t₁, p₁, d₁, ?_, ?_, hi, hstays⟩
    · rw [StandsAt, hit]
      exact hs₁
    · rw [table?, Object.table?, hid]
      exact ht₁

end State
end EcmaScript
