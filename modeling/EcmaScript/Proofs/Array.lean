import EcmaScript.Proofs.Outcome
import EcmaScript.Proofs.Number

/-! Arrays: the length of an array stays above all its elements. -/
namespace EcmaScript

namespace PropertyTable
variable {t : PropertyTable} {n : Nat}

theorem mem_indicesFrom {i : ArrayIndex} :
    i ∈ t.indicesFrom n ↔ n ≤ i.val ∧ (t.get? (.index i)).isSome = true := by
  rw [indicesFrom, List.mem_reverse, List.mem_filter, Std.TreeMap.mem_keys, get?,
    Std.TreeMap.isSome_getElem?_iff_mem, and_comm, decide_eq_true_iff]

theorem pairwise_indicesFrom : (t.indicesFrom n).Pairwise fun i j => j.val < i.val := by
  rw [indicesFrom, List.pairwise_reverse]
  refine (Std.TreeMap.ordered_keys.imp fun h => ?_).filter _
  exact compare_lt_iff_lt.mp h

end PropertyTable

namespace Object
variable {o o' : Object} {N : PrivateName → Prop}

/-- An array is well formed: its `length` is a fixed data property that holds a natural number `n`
below `2 ^ 32`, and every element comes before that number. -/
structure IsArray (o : Object) (n : Nat) (writable : Bool) : Prop where
  kind : o.kind = .array
  lt : n < 2 ^ 32
  length : o.own? lengthKey = some (.data (.ofNat n) writable false false)
  element : ∀ i : ArrayIndex, (o.own? (.index i)).isSome = true → i.val < n

def WellFormed (o : Object) : Prop := ∃ n writable, o.IsArray n writable

namespace IsArray
variable {n : Nat} {w : Bool}

theorem arrayLength_eq (h : o.IsArray n w) : o.arrayLength = n := by
  simp only [arrayLength, ownValue?, h.length, Option.bind_some, Property.value?, Property.data,
    Value.ofNat]
  exact Binary64.toUInt32_ofNat h.lt

/-- Only `length` and the elements count. -/
theorem congr (h : o.IsArray n w) (hk : o'.kind = o.kind)
    (hlength : o'.own? lengthKey = o.own? lengthKey)
    (helement : ∀ i, (o'.own? (.index i)).isSome = true → (o.own? (.index i)).isSome = true) :
    o'.IsArray n w where
  kind := hk.trans h.kind
  lt := h.lt
  length := hlength.trans h.length
  element i hi := h.element i (helement i hi)

theorem put_plain {key : PropertyKey} {p : Property} (h : o.IsArray n w)
    (hkey : plainKey key = true) : (o.put key p).IsArray n w := by
  have hindex (i : ArrayIndex) : PropertyKey.index i ≠ key := by
    rintro rfl
    cases hkey
  have hlength : lengthKey ≠ key := by
    rintro rfl
    cases hkey
  refine h.congr rfl ?_ fun i hi => ?_
  · rw [own?_put, if_neg hlength]
  · rwa [own?_put, if_neg (hindex i)] at hi

/-- A new length that is above all elements. -/
theorem put_length {m : Nat} {w' : Bool} (h : o.IsArray n w) (hlt : m < 2 ^ 32)
    (helement : ∀ i : ArrayIndex, (o.own? (.index i)).isSome = true → i.val < m) :
    (o.put lengthKey (.data (.ofNat m) w' false false)).IsArray m w' where
  kind := h.kind
  lt := hlt
  length := by rw [own?_put, if_pos rfl]
  element i hi := by
    rw [own?_put, if_neg (by simp [lengthKey])] at hi
    exact helement i hi

theorem put_element {i : ArrayIndex} {p : Property} (h : o.IsArray n w) (hi : i.val < n) :
    (o.put (.index i) p).IsArray n w where
  kind := h.kind
  lt := h.lt
  length := by rw [own?_put, if_neg (by simp [lengthKey]), h.length]
  element j hj := by
    rw [own?_put] at hj
    split at hj
    · rename_i he
      cases he
      exact hi
    · exact h.element j hj

end IsArray

/-- What a definition of `length` puts in its place: the attributes that are fixed stay. -/
theorem IsArray.define_length {n m : Nat} {w : Bool} {d : Descriptor} (h : o.IsArray n w)
    (hd : o.define? lengthKey d = some o') (hm : m < 2 ^ 32)
    (hvalue : d.value.getD (.ofNat n) = .ofNat m)
    (helement : ∀ i : ArrayIndex, (o.own? (.index i)).isSome = true → i.val < m) :
    o'.WellFormed := by
  rcases define?_cases hd with ⟨hnone, -⟩ | ⟨p, hp, hallowed, rfl⟩
  · rw [h.length] at hnone
    cases hnone
  obtain rfl : .data (.ofNat n) w false false = p := Option.some.inj (h.length.symm.trans hp)
  simp only [Property.data, Bool.false_or, Descriptor.allowedOn, Property.isAccessor,
    Bool.and_eq_true, bne_iff_ne, ne_eq, beq_iff_eq] at hallowed
  obtain ⟨⟨⟨hc, he⟩, hdata⟩, -⟩ := hallowed
  have happly : d.apply (.data (.ofNat n) w false false) =
      .data (.ofNat m) (d.writable.getD w) false false := by
    have hnotAccessor : d.isAccessor = false := by
      simp only [Descriptor.isGeneric] at hdata
      cases ha : d.isAccessor <;> simp_all
    have hconfigurable : d.configurable.getD false = false := by
      cases hcon : d.configurable with
      | none => rfl
      | some b => cases b <;> simp_all
    have hslot : d.applySlot (.data (.ofNat n) w) = .data (.ofNat m) (d.writable.getD w) := by
      rw [← hvalue, Descriptor.applySlot, if_neg (by simp [hnotAccessor])]
      split
      · rfl
      · simp_all [Descriptor.isData]
    simp only [Descriptor.apply, Property.data, hslot, he, hconfigurable]
  rw [happly]
  exact ⟨m, _, h.put_length hm helement⟩

/-- Removing elements from the end, as far as that goes. -/
theorem IsArray.dropElements {n length : Nat} {w : Bool} (h : o.IsArray n w) (hle : length ≤ n)
    {is : List ArrayIndex} (hsorted : is.Pairwise fun i j => j.val < i.val)
    (his : ∀ i ∈ is, length ≤ i.val)
    (hcover : ∀ i : ArrayIndex, length ≤ i.val → (o.own? (.index i)).isSome = true → i ∈ is) :
    (Object.dropElements length is o).2.IsArray n w ∧ (Object.dropElements length is o).1 ≤ n ∧
      ∀ i : ArrayIndex, ((Object.dropElements length is o).2.own? (.index i)).isSome = true →
        i.val < (Object.dropElements length is o).1 := by
  induction is generalizing o with
  | nil =>
    refine ⟨h, hle, fun i hi => Nat.lt_of_not_le fun hli => ?_⟩
    exact List.not_mem_nil (hcover i hli hi)
  | cons i rest ih =>
    obtain ⟨hfirst, hrest⟩ := List.pairwise_cons.mp hsorted
    unfold Object.dropElements
    cases hp : o.own? (.index i) with
    | none =>
      refine ih h hrest (fun j hj => his j (by simp [hj])) fun j hlj hj => ?_
      rcases List.mem_cons.mp (hcover j hlj hj) with rfl | hmem
      · simp [hp] at hj
      · exact hmem
    | some p =>
      dsimp only
      split
      · refine ih (h.congr rfl ?_ fun j hj => ?_) hrest (fun j hj => his j (by simp [hj]))
          fun j hlj hj => ?_
        · rw [own?_erase, if_neg (by simp [lengthKey])]
        · rw [own?_erase] at hj
          split at hj
          · cases hj
          · exact hj
        · rw [own?_erase] at hj
          split at hj
          · cases hj
          · rename_i hne
            rcases List.mem_cons.mp (hcover j hlj hj) with rfl | hmem
            · exact absurd rfl hne
            · exact hmem
      · refine ⟨h, h.element i (by simp [hp]), fun j hj => ?_⟩
        rcases Nat.lt_or_ge j.val length with hlt | hlj
        · exact Nat.lt_succ_of_lt (Nat.lt_of_lt_of_le hlt (his i (by simp)))
        · rcases List.mem_cons.mp (hcover j hlj hj) with rfl | hmem
          · exact Nat.lt_succ_self _
          · exact Nat.lt_succ_of_lt (hfirst j hmem)

theorem WellFormed.defineLength {length : Nat} {d : Descriptor} (h : o.WellFormed)
    (hlt : length < 2 ^ 32) : (o.defineLength length d).2.WellFormed := by
  obtain ⟨n, w, h⟩ := h
  unfold Object.defineLength
  dsimp only
  rw [h.arrayLength_eq]
  split
  · rename_i hle
    split
    · rename_i o' ho'
      exact h.define_length ho' hlt rfl fun i hi => Nat.lt_of_lt_of_le (h.element i hi) hle
    · exact ⟨n, w, h⟩
  · split
    · exact ⟨n, w, h⟩
    · rename_i hgt _
      obtain ⟨hdropped, hleft, helement⟩ := h.dropElements (Nat.le_of_lt (show length < n by omega))
        PropertyTable.pairwise_indicesFrom (fun i hi => ((PropertyTable.mem_indicesFrom).mp hi).1)
        fun i hli hi => (PropertyTable.mem_indicesFrom).mpr ⟨hli, hi⟩
      generalize hdrop : Object.dropElements length (o.properties.indicesFrom length) o = dropped at *
      cases hd : dropped.2.define? lengthKey
          { d with value := some (.ofNat dropped.1),
                   writable := if d.writable == some false then some false else none } with
      | none => exact ⟨n, w, hdropped⟩
      | some o' =>
        exact hdropped.define_length hd (Nat.lt_of_le_of_lt hleft h.lt) rfl helement

theorem WellFormed.defineElement? {i : ArrayIndex} {d : Descriptor} (h : o.WellFormed)
    (hd : o.defineElement? i d = some o') : o'.WellFormed := by
  obtain ⟨n, w, h⟩ := h
  obtain ⟨o₁, ho₁, -, rfl⟩ := defineElement?_cases hd
  rw [h.arrayLength_eq]
  obtain ⟨p, rfl⟩ : ∃ p, o₁ = o.put (.index i) p := by
    rcases define?_cases ho₁ with ⟨-, -, rfl⟩ | ⟨p, -, -, rfl⟩ <;> exact ⟨_, rfl⟩
  have hi := i.isLt
  split
  · rename_i hle
    refine ⟨i.val + 1, true, ⟨h.kind, ?_, ?_, fun j hj => ?_⟩⟩
    · unfold indexLimit at hi
      omega
    · rw [own?_put, if_pos rfl]
    · rw [own?_put, if_neg (by simp [lengthKey]), own?_put] at hj
      split at hj
      · rename_i he
        cases he
        exact Nat.lt_succ_self _
      · exact Nat.lt_succ_of_lt (Nat.lt_of_lt_of_le (h.element j hj) hle)
  · rename_i hgt
    exact ⟨n, w, h.put_element (by omega)⟩

theorem Alters.wellFormed (h : Alters N o o') (ho : o.WellFormed) : o'.WellFormed := by
  induction h with
  | refl => exact ho
  | @define o' o'' key d _ hkey _ hd ih =>
    obtain ⟨n, w, h⟩ := ih
    rcases hkey (isArray_iff_kind.mpr h.kind) with hplain | ⟨rfl, hvalue⟩
    · obtain ⟨p, rfl⟩ : ∃ p, o'' = o'.put key p := by
        rcases define?_cases hd with ⟨-, -, rfl⟩ | ⟨p, -, -, rfl⟩ <;> exact ⟨_, rfl⟩
      exact ⟨n, w, h.put_plain hplain⟩
    · exact h.define_length hd h.lt (by simp [hvalue]) h.element
  | element _ _ hd ih => exact ih.defineElement? hd
  | length _ _ hl ih => exact ih.defineLength hl
  | @erase o' key p _ hp hc _ ih =>
    obtain ⟨n, w, h⟩ := ih
    refine ⟨n, w, h.congr rfl ?_ fun i hi => ?_⟩
    · rw [own?_erase, if_neg]
      rintro rfl
      rw [h.length] at hp
      cases hp
      cases hc
    · rw [own?_erase] at hi
      split at hi
      · cases hi
      · exact hi
  | putPrivate _ _ ih =>
    obtain ⟨n, w, h⟩ := ih
    rw [putPrivate_eq]
    exact ⟨n, w, h.congr rfl rfl fun _ h => h⟩
  | close _ ih | stamp _ ih =>
    obtain ⟨n, w, h⟩ := ih
    exact ⟨n, w, h.congr rfl rfl fun _ h => h⟩
  | kind _ hk ih =>
    obtain ⟨n, w, h⟩ := ih
    rw [h.kind] at hk
    cases hk

end Object

theorem Act.wellFormed {w : World} {s : State} {id : ObjectId} (h : Act w s)
    (hid : id.index < w.since) (hsince : w.since ≤ w.state.heap.size)
    (ho : (w.state.object id).WellFormed) : (s.object id).WellFormed := by
  obtain ⟨n, writable, harray⟩ := ho
  cases h.keeps id (Nat.lt_of_lt_of_le hid hsince) with
  | same h => rw [h]; exact ⟨n, writable, harray⟩
  | alters _ h => exact h.wellFormed ⟨n, writable, harray⟩
  | build _ hnew =>
    rcases hnew with hnew | ⟨herror, -⟩
    · exact absurd hnew (Nat.not_le_of_lt hid)
    · rw [harray.kind] at herror
      cases herror
  | reparent _ _ h => rw [h]; exact ⟨n, writable, harray.congr rfl rfl fun _ h => h⟩
  | settle _ hk =>
    rw [harray.kind] at hk
    cases hk
  | register _ hk =>
    rw [harray.kind] at hk
    cases hk

theorem Leads.wellFormed {w : World} {s : State} {id : ObjectId} (h : Leads w s)
    (hid : id.index < w.since) (hsince : w.since ≤ w.state.heap.size)
    (ho : (w.state.object id).WellFormed) : (s.object id).WellFormed :=
  h.keeps (I := fun s => (s.object id).WellFormed) ho fun _ _ hl hle hact =>
    hact.wellFormed (hl.since ▸ hid) (hl.since ▸ Nat.le_trans hsince hle)

namespace Object
variable {prototype : ObjectId} {items : Array Value}

theorem own?_arrayObject {i : ArrayIndex} :
    (Exec.arrayObject prototype (.ofItems items) items.size).own? (.index i) = (items[i.val]?).map .plain := by
  rw [own?, Exec.arrayObject, PropertyTable.get?_put, if_neg (by simp [lengthKey]), PropertyTable.get?_ofItems]

theorem isArray_arrayObject (h : items.size < 2 ^ 32) :
    (Exec.arrayObject prototype (.ofItems items) items.size).IsArray items.size true := by
  refine ⟨rfl, h, ?_, fun i hi => ?_⟩
  · rw [own?, Exec.arrayObject, PropertyTable.get?_put, if_pos rfl]
  · rw [own?_arrayObject] at hi
    refine Nat.lt_of_not_le fun hle => ?_
    simp [Array.getElem?_eq_none hle] at hi

theorem wellFormed_arrayObject (h : items.size < 2 ^ 32) :
    (Exec.arrayObject prototype (.ofItems items) items.size).WellFormed :=
  ⟨_, _, isArray_arrayObject h⟩

end Object

/-- Arrays are made well formed, and every operation leaves them so, whatever it comes to. -/
theorem array_wellFormed (m : Machine) (fuel : Nat) (c : Context) (s : State) :
    (∀ items : Array Value, items.size < 2 ^ 32 → ∃ id s',
      Exec.newArray items m c s = .value id s' ∧ (s'.object id).WellFormed) ∧
    ∀ (id : ObjectId) (method : Method) (r : Option (Except Abrupt Bool)) (s' : State),
      (s.object id).WellFormed → (method.run id (machine fuel) c s).outcome = some (r, s') →
      (s'.object id).WellFormed := by
  refine ⟨fun items hitems => ?_, fun id method r s' ho h => ?_⟩
  · refine ⟨⟨s.heap.size⟩, _, rfl, ?_⟩
    rw [State.object_push, if_pos rfl]
    exact Object.wellFormed_arrayObject hitems
  · have hid : id.index < s.heap.size := by
      obtain ⟨n, w, ho⟩ := ho
      exact State.lt_of_kind (by simp [ho.kind])
    exact (Method.leads h).wellFormed hid (Nat.le_refl _) ho

def State.withArray : State := { (default : State) with
  heap := #[Exec.arrayObject ⟨0⟩ (.ofItems #[.undefined]) 1] }

theorem array_wellFormed_grown : ∃ s', ((Method.define (.index 7) (.plain .null)).run ⟨0⟩ (machine 1)
      default State.withArray).outcome = some (some (.ok true), s') ∧ (s'.object ⟨0⟩).WellFormed := by
  obtain ⟨s', h⟩ := Step.outcome_of_answers (show Step.answers true ((Method.define (.index 7)
    (.plain .null)).run ⟨0⟩ (machine 1) default State.withArray) = true by decide +kernel)
  have harray : (State.withArray.object ⟨0⟩).WellFormed :=
    Object.wellFormed_arrayObject (show #[Value.undefined].size < 2 ^ 32 by decide)
  exact ⟨s', h, (array_wellFormed (machine 1) 1 default State.withArray).2 _ _ _ _ harray h⟩

end EcmaScript
