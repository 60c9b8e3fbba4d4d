import EcmaScript.Library.Keyed
import EcmaScript.Proofs.Safety.Library.Object

/-! Iterators and the collections of entries are safe. An iterator only moves on when its receiver
may change. -/
namespace EcmaScript
open Exec

variable {P : Pairing} {c : Context} {w : World} {this : Value} {args : Array Value}

section Tables
variable {t : KeyedTable} {key v : Value}

theorem met_slot {i : Nat} {e : Value × Value} (ht : Met w t) (h : (t.slots[i]?).join = some e) :
    Met w e := by
  have hslot : t.slots[i]? = some (some e) := by
    cases hs : t.slots[i]? with
    | none => simp [hs] at h
    | some slot => simp_all
  exact within_getElem? (a := t.slots) ht hslot

theorem met_tableGet (ht : Met w t) : Met w ((t.get? key).getD .undefined) := by
  refine met_getD (met_option fun v h => ?_)
  unfold KeyedTable.get? at h
  split at h
  · obtain ⟨e, he, rfl⟩ := Option.map_eq_some_iff.mp h
    exact (met_slot ht he).2
  · cases h

theorem met_storedKey (hk : Met w key) : Met w (KeyedTable.storedKey key) := by
  cases key <;> exact hk

theorem met_tableInsert (ht : Met w t) (hk : Met w key) (hv : Met w v) : Met w (t.insert key v) := by
  have hentry : Met w (some (KeyedTable.storedKey key, v)) := ⟨met_storedKey hk, hv⟩
  unfold KeyedTable.insert
  dsimp only
  split
  · exact within_setIfInBounds (a := t.slots) ht hentry
  · exact within_push (a := t.slots) ht hentry

theorem met_tableErase (ht : Met w t) : Met w (t.erase key) := by
  have hnone : Met w (none : Option (Value × Value)) := trivial
  unfold KeyedTable.erase
  split
  · exact within_setIfInBounds (a := t.slots) ht hnone
  · exact ht

theorem met_tableClear : Met w t.clear := by
  intro slot hslot
  obtain ⟨_, -, rfl⟩ := Array.mem_map.mp hslot
  trivial

theorem met_emptyTable : Met w ({} : KeyedTable) := Met.empty (α := Option (Value × Value))

theorem met_table {o : Object} (ho : Met w o) : Met w (o.table?.getD {}) := by
  have hkind : Met w o.kind := ho.1
  unfold Object.table?
  split
  · rename_i t hk
    rw [hk] at hkind
    exact hkind
  · rename_i t hk
    rw [hk] at hkind
    exact hkind
  · exact met_emptyTable

theorem met_entryFrom {start place : Nat} {e : Value × Value} (ht : Met w t)
    (h : t.entryFrom? start = some (place, e)) : Met w e := by
  unfold KeyedTable.entryFrom? at h
  generalize t.slots.size - start = count at h
  induction count generalizing start with
  | zero => cases h
  | succ count ih =>
    unfold KeyedTable.entryFrom?.go at h
    split at h
    · rename_i hslot
      cases h
      exact met_slot ht hslot
    · exact ih h

end Tables

/-! Iterators. -/

theorem newIterator_safe {prototype : ObjectId} {state : IteratorState} (hp : Met w prototype)
    (hs : Met w state) : Safe P c w (do
      return Value.object (← newOfKind prototype (.iterator state))) Known :=
  .bind (newOfKind_safe hp hs trivial) fun _ _ _ hid => .pure hid.met

theorem newArrayIterator_safe {target : Value} {kind : IterationKind} (ht : Met w target) :
    Safe P c w (newArrayIterator target kind) Known :=
  .look_bind fun hw => newIterator_safe (hw.intrinsic (by simp [Intrinsics.toList])) ht

theorem newMapIterator_safe {target : ObjectId} {kind : IterationKind} (ht : Met w target) :
    Safe P c w (newMapIterator target kind) Known :=
  .look_bind fun hw => newIterator_safe (hw.intrinsic (by simp [Intrinsics.toList])) ht

theorem newSetIterator_safe {target : ObjectId} {kind : IterationKind} (ht : Met w target) :
    Safe P c w (newSetIterator target kind) Known :=
  .look_bind fun hw => newIterator_safe (hw.intrinsic (by simp [Intrinsics.toList])) ht

theorem iterationResult_safe {item : Option Value} (hi : Met w item) :
    Safe P c w (iterationResult item) Known := by
  refine .bind (newObject_safe ?_) fun _ _ _ hid => .pure hid.met
  exact .cons ⟨trivial, met_getD hi⟩ (.cons ⟨trivial, trivial⟩ .nil)

theorem iteratorState_safe {name : String} :
    Safe P c w (iteratorState this name) fun r w' => Met w' r.2 ∧ this = .object r.1 := by
  have hrefuse {w' : World} {Q : ObjectId × IteratorState → World → Prop} :
      Safe P c w' (iteratorState.refuse this name) Q := .look_bind fun _ => throwType_safe
  cases this with
  | object id =>
    refine .look_bind fun hw => ?_
    split
    · rename_i state hk
      have hstate : Met w (ObjectKind.iterator state) := hw.kind hk
      exact .pure ⟨hstate, rfl⟩
    · exact hrefuse
  | _ => exact hrefuse

theorem modifyIterator_safe {id : ObjectId} {f : IteratorState → IteratorState} (hid : w.owns id)
    (hf : ∀ state, Met w state → Met w (f state)) : Safe P c w (modifyIterator id f) Known := by
  refine modifyKind_safe hid ?_ fun hw => ?_
  · split
    · rename_i state hk
      rw [hk]
      exact .inl (.iterator state (f state))
    · exact .inr rfl
  · split
    · rename_i state hk
      exact hf state (hw.kind hk)
    · exact (met_object hw.closed id).1

theorem setIteratorState_safe {id : ObjectId} {state : IteratorState} (hid : w.owns id)
    (hs : Met w state) : Safe P c w (setIteratorState id state) Known :=
  modifyIterator_safe hid fun _ _ => hs

theorem met_ended (state : IteratorState) (h : Met w state) : Met w state.ended := by
  cases state <;> exact h

theorem met_movedTo {place : Nat} (state : IteratorState) (h : Met w state) : Met w (state.movedTo place) := by
  cases state <;> exact h

theorem otherIterator_safe {α : Type} {Q : α → World → Prop} : Safe P c w otherIterator Q :=
  throwType_safe

theorem nextCharacter_safe (hown : ∀ id, this = .object id → w.owns id) :
    Safe P c w (nextCharacter this) Known := by
  refine .bind iteratorState_safe fun (id, state) w₁ h₁ ⟨_, hid⟩ => ?_
  match state with
  | .string [] => exact iterationResult_safe trivial
  | .string (_ :: _) =>
    exact .bind (setIteratorState_safe (h₁.owns (hown id hid)) trivial) fun _ _ _ _ =>
      iterationResult_safe trivial
  | .array .. => exact otherIterator_safe
  | .keyed .. => exact otherIterator_safe

theorem nextEntry_safe (hown : ∀ id, this = .object id → w.owns id) :
    Safe P c w (nextEntry this) Known := by
  refine .bind iteratorState_safe fun (id, state) w₁ h₁ ⟨hs, hid⟩ => ?_
  match state, hs with
  | .keyed _ _ _ true, _ => exact iterationResult_safe trivial
  | .keyed target index kind false, hs =>
    have hset {w' : World} {place : Nat} {ended : Bool} (hl : Later w₁ w') :
        Safe P c w' (setIteratorState id (.keyed target place kind ended)) Known :=
      setIteratorState_safe ((h₁.trans hl).owns (hown id hid)) (hl.met hs)
    refine .look_bind fun hw => ?_
    have htable : Met w₁ ((w₁.state.object target).table?.getD {}) :=
      met_table (met_object hw.closed target)
    split
    · exact .bind (hset .refl) fun _ _ _ _ => iterationResult_safe trivial
    · rename_i place key value hentry
      have he := met_entryFrom htable hentry
      refine .bind (hset .refl) fun _ w₂ h₂ _ => ?_
      have hkey : Met w₂ key := h₂.met he.1
      have hvalue : Met w₂ (if (w₁.state.object target).isSet then key else value) := by
        split
        · exact hkey
        · exact h₂.met he.2
      cases kind with
      | keys => exact iterationResult_safe hkey
      | values => exact iterationResult_safe hvalue
      | entries => exact .bind (newPair_safe hkey hvalue) fun _ _ _ hp => iterationResult_safe hp
  | .array .., _ => exact otherIterator_safe
  | .string _, _ => exact otherIterator_safe

variable [Serves P]

theorem nextElement_safe (hown : ∀ id, this = .object id → w.owns id) :
    Safe P c w (nextElement this) Known := by
  refine .bind iteratorState_safe fun (id, state) w₁ h₁ ⟨hs, hid⟩ => ?_
  match state, hs with
  | .array _ _ _ true, _ => exact iterationResult_safe trivial
  | .array target index kind false, hs =>
    have htarget : Met w₁ target := hs
    have hmodify {w' : World} {f : IteratorState → IteratorState} (hl : Later w₁ w')
        (hf : ∀ state, Met w' state → Met w' (f state)) : Safe P c w' (modifyIterator id f) Known :=
      modifyIterator_safe ((h₁.trans hl).owns (hown id hid)) hf
    refine .bind (getOf_safe htarget) fun v w₂ h₂ hv => .bind (toLength_safe hv) fun length w₃ h₃ _ => ?_
    refine .ite (fun _ => .bind (hmodify (h₂.trans h₃) met_ended) fun _ _ _ _ =>
      iterationResult_safe trivial) fun _ => .bind (hmodify (h₂.trans h₃) met_movedTo) fun _ w₄ h₄ _ => ?_
    have htarget := (h₂.trans (h₃.trans h₄)).met htarget
    cases kind with
    | keys => exact iterationResult_safe trivial
    | values => exact .bind (getOf_safe htarget) fun _ _ _ hv => iterationResult_safe hv
    | entries =>
      refine .bind (getOf_safe htarget) fun _ _ _ hv => ?_
      exact .bind (newPair_safe trivial hv) fun _ _ _ hp => iterationResult_safe hp
  | .keyed .., _ => exact otherIterator_safe
  | .string _, _ => exact otherIterator_safe

theorem iteratorFunction_safe {f : IteratorFunction} (hg : w.grants (.iterator f) this)
    (ht : Met w this) : Safe P c w (iteratorFunction f this) Known := by
  have hown (hf : f ≠ .self) (id : ObjectId) (hid : this = .object id) : w.owns id := by
    intro d hd
    refine (hg.1 d hd).2 ?_ id hid
    cases f <;> first | rfl | exact absurd rfl hf
  cases f with
  | self => exact .pure ht
  | arrayNext => exact nextElement_safe (hown (by simp))
  | stringNext => exact nextCharacter_safe (hown (by simp))
  | keyedNext => exact nextEntry_safe (hown (by simp))

/-! Collections. -/

section Collections
variable {kind : CollectionKind} {name : String}

omit [Serves P] in
theorem CollectionKind.table?_eq {k : ObjectKind} {t : KeyedTable} (h : kind.table? k = some t) :
    k = kind.wrap t := by
  cases kind <;> cases k <;> simp_all [table?, wrap]

omit [Serves P] in
theorem CollectionKind.alters {N : PrivateName → Prop} {t t' : KeyedTable} :
    (kind.wrap t).Alters N (kind.wrap t') := by
  cases kind with
  | map => exact .map t t'
  | set => exact .set t t'
  | weakMap => exact .weakMap t t'
  | weakSet => exact .weakSet t t'

omit [Serves P] in
theorem CollectionKind.met_wrap {t : KeyedTable} : Met w (kind.wrap t) ↔ Met w t := by
  cases kind <;> exact Iff.rfl

omit [Serves P] in
theorem tableOf_safe (ht : Met w this) :
    Safe P c w (tableOf kind this name) fun r w' => Met w' r.1 ∧ Met w' r.2 := by
  have hrefuse {w' : World} {Q : ObjectId × KeyedTable → World → Prop} :
      Safe P c w' (tableOf.refuse kind this name) Q := .look_bind fun _ => throwType_safe
  cases this with
  | object id =>
    refine .look_bind fun hw => ?_
    split
    · rename_i t hk
      have hkind := hw.kind (CollectionKind.table?_eq hk)
      exact .pure ⟨ht, (CollectionKind.met_wrap).mp hkind⟩
    · exact hrefuse
  | _ => exact hrefuse

theorem changeTable_safe {id : ObjectId} {f : KeyedTable → KeyedTable}
    (hf : ∀ t, Met w t → Met w (f t)) : Safe P c w (changeTable kind id name f) Known := by
  refine checkObjectWrite_bind fun hid => modifyKind_safe hid ?_ fun hw => ?_
  · split
    · rename_i t hk
      rw [CollectionKind.table?_eq hk]
      exact .inl CollectionKind.alters
    · exact .inr rfl
  · split
    · rename_i t hk
      have hkind := hw.kind (CollectionKind.table?_eq hk)
      exact (CollectionKind.met_wrap).mpr (hf t ((CollectionKind.met_wrap).mp hkind))
    · exact (met_object hw.closed id).1

omit [Serves P] in
theorem adderMissing_safe {α : Type} {Q : α → World → Prop} {f : Value} :
    Safe P c w (adderMissing kind f) Q := by
  unfold adderMissing
  split
  · exact .look_bind fun _ => throwType_safe
  · exact .look_bind fun _ => throwType_safe
  · exact throwType_safe

theorem Intrinsics.collectionPrototype_mem {i : Intrinsics} :
    i.collectionPrototype kind ∈ i.toList := by
  cases kind <;> simp [collectionPrototype, toList]

theorem constructCollection_safe {newTarget : ObjectId} (ha : Met w args) (hn : Met w newTarget) :
    Safe P c w (constructCollection kind args newTarget) Known := by
  refine .look_bind fun hw => ?_
  refine .bind (prototypeFor_safe hn (hw.intrinsic Intrinsics.collectionPrototype_mem))
    fun prototype w₁ h₁ hp => ?_
  have hempty : Met w₁ (kind.wrap {}) := (CollectionKind.met_wrap).mpr met_emptyTable
  refine .bind (newOfKind_safe hp hempty ?_) fun id w₂ h₂ hid => ?_
  · cases kind <;> trivial
  have hthis : Met w₂ (Value.object id) := hid.met
  have hfirst : Met w₂ (argument args 0) := (h₁.trans h₂).met (met_argument ha)
  refine .ite (fun _ => .pure hid.met) fun _ => .bind (getOf_safe hthis) fun add w₃ h₃ hadd => ?_
  refine .look_bind fun _ => .ite (fun _ => .bind (Q := fun _ _ => False) adderMissing_safe (by simp))
    fun _ => ?_
  refine .bind (forEachItem_safe (h₃.met hfirst) fun item w₄ h₄ hitem => ?_) fun _ _ h₄ _ =>
    .pure ((h₃.trans h₄).new hid).met
  have hcall {w' : World} {entry : Array Value} (hl : Later w₄ w') (he : Met w' entry) :
      Safe P c w' (do let _ ← call add (.object id) entry) Known :=
    .bind (call_safe ((h₄.trans hl).met hadd) ((h₃.trans (h₄.trans hl)).met hthis) he)
      fun _ _ _ _ => .pure trivial
  refine .ite (fun _ => ?_) fun _ => hcall .refl (.one hitem)
  exact .bind (readEntry_safe hitem) fun (key, v) w₅ h₅ hkv => hcall h₅ (.two hkv.1 hkv.2)

theorem forEachEntry_safe {id : ObjectId} {f : Value → Value → Exec Unit}
    (hf : ∀ key v w', Later w w' → Met w' key → Met w' v → Safe P c w' (f key v) Known) :
    Safe P c w (forEachEntry id f) Known := by
  refine .loop (I := fun _ _ => True) trivial fun index w₁ h₁ _ => .look_bind fun hw => ?_
  split
  · exact .pure trivial
  · rename_i place key value hentry
    have he := met_entryFrom (met_table (met_object hw.closed id)) hentry
    refine .bind checkInterrupts_safe fun _ w₂ h₂ _ => ?_
    exact .bind (hf key value w₂ (h₁.trans h₂) (h₂.met he.1) (h₂.met he.2)) fun _ _ _ _ => .pure trivial

omit [Serves P] in
theorem collectionCallback_safe (ha : Met w args) : Safe P c w (collectionCallback args) Known :=
  .look_bind fun _ => .ite (fun _ => .look_bind fun _ => .raise_bind trivial) fun _ =>
    .pure (met_argument ha)

end Collections

theorem mapFunction_safe {f : MapFunction} (ht : Met w this) (ha : Met w args) :
    Safe P c w (mapFunction f this args) Known := by
  have harg {w' : World} {i : Nat} (hl : Later w w') : Met w' (argument args i) :=
    hl.met (met_argument ha)
  unfold mapFunction
  cases f with
  | construct => exact throwType_safe
  | get => exact .bind (tableOf_safe ht) fun _ _ _ h => .pure (met_tableGet h.2)
  | has => exact .bind (tableOf_safe ht) fun _ _ _ _ => .pure trivial
  | set =>
    refine .bind (tableOf_safe ht) fun _ w₁ h₁ _ => .bind (changeTable_safe fun t htable => ?_)
      fun _ _ h₂ _ => .pure ((h₁.trans h₂).met ht)
    exact met_tableInsert htable (harg h₁) (harg h₁)
  | delete =>
    exact .bind (tableOf_safe ht) fun _ _ _ _ => .bind (changeTable_safe fun _ => met_tableErase)
      fun _ _ _ _ => .pure trivial
  | clear =>
    exact .bind (tableOf_safe ht) fun _ _ _ _ => .bind (changeTable_safe fun _ _ => met_tableClear)
      fun _ _ _ _ => .pure trivial
  | size => exact .bind (tableOf_safe ht) fun _ _ _ _ => .pure trivial
  | forEach =>
    refine .bind (tableOf_safe ht) fun r w₁ h₁ _ => ?_
    refine .bind (collectionCallback_safe (h₁.met ha)) fun callback w₂ h₂ hc => ?_
    refine .bind (forEachEntry_safe fun key v w₃ h₃ hkey hv => ?_) fun _ _ _ _ => .pure trivial
    have hl := (h₁.trans h₂).trans h₃
    exact .bind (call_safe (h₃.met hc) (harg hl) (.three hv hkey (hl.met ht))) fun _ _ _ _ => .pure trivial
  | iterate kind => exact .bind (tableOf_safe ht) fun _ _ _ h => newMapIterator_safe h.1

theorem setFunction_safe {f : SetFunction} (ht : Met w this) (ha : Met w args) :
    Safe P c w (setFunction f this args) Known := by
  have harg {w' : World} {i : Nat} (hl : Later w w') : Met w' (argument args i) :=
    hl.met (met_argument ha)
  unfold setFunction
  cases f with
  | construct => exact throwType_safe
  | has => exact .bind (tableOf_safe ht) fun _ _ _ _ => .pure trivial
  | add =>
    refine .bind (tableOf_safe ht) fun _ w₁ h₁ _ => .bind (changeTable_safe fun t htable => ?_)
      fun _ _ h₂ _ => .pure ((h₁.trans h₂).met ht)
    split
    · exact htable
    · exact met_tableInsert htable (harg h₁) (harg h₁)
  | delete =>
    exact .bind (tableOf_safe ht) fun _ _ _ _ => .bind (changeTable_safe fun _ => met_tableErase)
      fun _ _ _ _ => .pure trivial
  | clear =>
    exact .bind (tableOf_safe ht) fun _ _ _ _ => .bind (changeTable_safe fun _ _ => met_tableClear)
      fun _ _ _ _ => .pure trivial
  | size => exact .bind (tableOf_safe ht) fun _ _ _ _ => .pure trivial
  | forEach =>
    refine .bind (tableOf_safe ht) fun r w₁ h₁ _ => ?_
    refine .bind (collectionCallback_safe (h₁.met ha)) fun callback w₂ h₂ hc => ?_
    refine .bind (forEachEntry_safe fun key v w₃ h₃ hkey hv => ?_) fun _ _ _ _ => .pure trivial
    have hl := (h₁.trans h₂).trans h₃
    exact .bind (call_safe (h₃.met hc) (harg hl) (.three hkey hkey (hl.met ht))) fun _ _ _ _ => .pure trivial
  | iterate kind => exact .bind (tableOf_safe ht) fun _ _ _ h => newSetIterator_safe h.1

theorem weakMapFunction_safe {f : WeakMapFunction} (ht : Met w this) (ha : Met w args) :
    Safe P c w (weakMapFunction f this args) Known := by
  have harg {w' : World} {i : Nat} (hl : Later w w') : Met w' (argument args i) :=
    hl.met (met_argument ha)
  unfold weakMapFunction
  cases f with
  | construct => exact throwType_safe
  | get => exact .bind (tableOf_safe ht) fun _ _ _ h => .pure (met_tableGet h.2)
  | has => exact .bind (tableOf_safe ht) fun _ _ _ _ => .pure trivial
  | set =>
    refine .bind (tableOf_safe ht) fun _ w₁ h₁ _ => ?_
    refine .ite (fun _ => .look_bind fun _ => .raise_bind trivial) fun _ => ?_
    refine .bind (changeTable_safe fun t htable => ?_) fun _ _ h₂ _ => .pure ((h₁.trans h₂).met ht)
    exact met_tableInsert htable (harg h₁) (harg h₁)
  | delete =>
    refine .bind (tableOf_safe ht) fun _ _ _ _ => .ite (fun _ => .pure trivial) fun _ => ?_
    exact .bind (changeTable_safe fun _ => met_tableErase) fun _ _ _ _ => .pure trivial

theorem weakSetFunction_safe {f : WeakSetFunction} (ht : Met w this) (ha : Met w args) :
    Safe P c w (weakSetFunction f this args) Known := by
  unfold weakSetFunction
  cases f with
  | construct => exact throwType_safe
  | add =>
    refine .bind (tableOf_safe ht) fun _ w₁ h₁ _ => ?_
    refine .ite (fun _ => .look_bind fun _ => .raise_bind trivial) fun _ => ?_
    refine .bind (changeTable_safe fun t htable => ?_) fun _ _ h₂ _ => .pure ((h₁.trans h₂).met ht)
    exact met_tableInsert htable (h₁.met (met_argument ha)) trivial
  | has => exact .bind (tableOf_safe ht) fun _ _ _ _ => .pure trivial
  | delete =>
    refine .bind (tableOf_safe ht) fun _ _ _ _ => .ite (fun _ => .pure trivial) fun _ => ?_
    exact .bind (changeTable_safe fun _ => met_tableErase) fun _ _ _ _ => .pure trivial

theorem constructWeakRef_safe {newTarget : ObjectId} (ha : Met w args) (hn : Met w newTarget) :
    Safe P c w (constructWeakRef args newTarget) Known := by
  have hfirst : Met w (argument args 0) := met_argument ha
  unfold constructWeakRef
  split
  · rename_i target ht
    rw [ht] at hfirst
    refine .look_bind fun hw => ?_
    refine .bind (prototypeFor_safe hn (hw.intrinsic (by simp [Intrinsics.toList])))
      fun prototype w₁ h₁ hp => ?_
    have htarget : Met w₁ (ObjectKind.weakRef target) := h₁.met hfirst
    exact .bind (newOfKind_safe hp htarget trivial) fun _ _ _ hid => .pure hid.met
  · exact .look_bind fun _ => throwType_safe

omit [Serves P] in
theorem weakRefFunction_safe {f : WeakRefFunction} : Safe P c w (weakRefFunction f this) Known := by
  unfold weakRefFunction
  cases f with
  | construct => exact throwType_safe
  | deref =>
    cases this with
    | object id =>
      refine .look_bind fun hw => ?_
      split
      · rename_i target hk
        have hkind : Met w (ObjectKind.weakRef target) := hw.kind hk
        exact .pure hkind
      · exact throwType_safe
    | _ => exact throwType_safe

end EcmaScript
