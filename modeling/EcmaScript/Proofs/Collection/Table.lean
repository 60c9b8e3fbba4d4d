import EcmaScript.Proofs.Collection.Key

/-! The entries of a collection are a list of pairs in the order in which their keys were added, and the
index leads from each key to its slot. -/
namespace EcmaScript

abbrev Entries : Type := List (Value × Value)

namespace Entries

def get? (es : Entries) (key : Value) : Option Value := (es.find? (·.1.sameZero key)).map (·.2)

def contains (es : Entries) (key : Value) : Bool := es.any (·.1.sameZero key)

/-- Overwrites the value of a key in its place, or adds an entry at the end. -/
def set (es : Entries) (key value : Value) : Entries :=
  if es.contains key then es.map fun e => if e.1.sameZero key then (e.1, value) else e
  else es ++ [(KeyedTable.storedKey key, value)]

def delete (es : Entries) (key : Value) : Entries := es.filter (!·.1.sameZero key)

end Entries

namespace KeyedTable
variable {t : KeyedTable} {key value : Value} {i j : Nat} {k : TableKey}

theorem storedKey_storedKey : storedKey (storedKey key) = storedKey key := by
  cases key with
  | number x =>
    by_cases hx : (x == 0.0) = true
    · have hzero : ((0.0 : Float) == 0.0) = true := Number.beq_self rfl
      simp [storedKey, hx, hzero]
    · simp [storedKey, hx]
  | _ => rfl

theorem of_storedKey : TableKey.of (storedKey key) = .of key :=
  TableKey.of_eq_iff_storedKey.mpr storedKey_storedKey

def Holds (t : KeyedTable) (i : Nat) (e : Value × Value) : Prop := t.slots[i]? = some (some e)

/-- The index leads from a key to the one slot with an entry of that key. -/
structure Sound (t : KeyedTable) : Prop where
  place : ∀ k i, t.places[k]? = some i ↔ ∃ e, t.Holds i e ∧ TableKey.of e.1 = k
  stored : ∀ i e, t.Holds i e → storedKey e.1 = e.1
  size : t.size = t.entries.length

theorem sound_empty : ({} : KeyedTable).Sound where
  place k i := by simp [Holds]
  stored i e h := by simp [Holds] at h
  size := by simp [KeyedTable.size, entries]

theorem Sound.unique (h : t.Sound) {e e' : Value × Value} (he : t.Holds i e) (he' : t.Holds j e')
    (hkey : TableKey.of e.1 = .of e'.1) : i = j := by
  have hi := (h.place _ i).mpr ⟨e, he, rfl⟩
  have hj := (h.place _ j).mpr ⟨e', he', hkey.symm⟩
  exact Option.some.inj (hi.symm.trans hj)

theorem mem_entries {e : Value × Value} : e ∈ t.entries ↔ ∃ i, t.Holds i e := by
  simp [entries, Holds, Array.mem_iff_getElem?]

theorem Sound.absent (h : t.Sound) (hk : t.places[TableKey.of key]? = none) :
    ∀ e ∈ t.entries, e.1.sameZero key = false := by
  intro e he
  obtain ⟨i, hi⟩ := (mem_entries).mp he
  by_contra hsame
  have hplace := (h.place _ i).mpr ⟨e, hi, rfl⟩
  rw [TableKey.of_eq_iff.mpr (by simpa using hsame), hk] at hplace
  cases hplace

theorem Sound.split (h : t.Sound) (hk : t.places[TableKey.of key]? = some i) :
    ∃ (before : Entries) (e : Value × Value) (after : Entries), t.Holds i e ∧ e.1.sameZero key = true ∧
      (∀ a ∈ before ++ after, a.1.sameZero key = false) ∧ t.entries = before ++ e :: after ∧
      ∀ o, (t.slots.setIfInBounds i o).toList.filterMap id = before ++ o.toList ++ after := by
  obtain ⟨e, he, hkey⟩ := (h.place _ i).mp hk
  have hlt : i < t.slots.toList.length := by
    obtain ⟨hlt, -⟩ := Array.getElem?_eq_some_iff.mp he
    simpa using hlt
  have hset (o : Option (Value × Value)) : (t.slots.setIfInBounds i o).toList.filterMap id =
      (t.slots.toList.take i).filterMap id ++ o.toList ++ (t.slots.toList.drop (i + 1)).filterMap id := by
    rw [Array.toList_setIfInBounds, List.set_eq_take_append_cons_drop, if_pos hlt]
    cases o <;> simp
  have hother (j : Nat) (a : Value × Value) (ha : t.Holds j a) (hne : j ≠ i) :
      a.1.sameZero key = false := by
    by_contra hsame
    exact hne (h.unique ha he ((TableKey.of_eq_iff.mpr (by simpa using hsame)).trans hkey.symm))
  refine ⟨_, e, _, he, TableKey.of_eq_iff.mp hkey, ?_, ?_, hset⟩
  · intro a ha
    rw [List.mem_append] at ha
    rcases ha with ha | ha
    · obtain ⟨o, ho, rfl⟩ := List.mem_filterMap.mp ha
      obtain ⟨j, hj⟩ := List.mem_iff_getElem?.mp ho
      rw [List.getElem?_take] at hj
      split at hj
      · exact hother j a (by simpa [Holds] using hj) (by omega)
      · cases hj
    · obtain ⟨o, ho, rfl⟩ := List.mem_filterMap.mp ha
      obtain ⟨j, hj⟩ := List.mem_iff_getElem?.mp ho
      rw [List.getElem?_drop] at hj
      exact hother (i + 1 + j) a (by simpa [Holds] using hj) (by omega)
  · have hself : t.slots.setIfInBounds i (some e) = t.slots := by
      refine Array.ext_getElem? fun j => ?_
      rw [Array.getElem?_setIfInBounds]
      split
      · subst j
        rw [if_pos (by simpa using hlt)]
        exact he.symm
      · rfl
    have hentries := hset (some e)
    rw [hself, Option.toList_some, List.append_assoc, List.singleton_append] at hentries
    exact hentries

theorem Sound.get?_eq (h : t.Sound) : t.get? key = Entries.get? t.entries key := by
  unfold KeyedTable.get? Entries.get?
  cases hk : t.places[TableKey.of key]? with
  | none =>
    have hnone : t.entries.find? (·.1.sameZero key) = none := by
      simpa using h.absent hk
    rw [hnone]
    rfl
  | some i =>
    obtain ⟨before, e, after, he, hsame, hother, hentries, -⟩ := h.split hk
    have hbefore : before.find? (·.1.sameZero key) = none := by
      simpa using fun a b ha => hother (a, b) (List.mem_append_left _ ha)
    have hslot : (t.slots[i]?).join = some e := by
      rw [he]
      rfl
    simp [hentries, List.find?_append, hbefore, hsame, hslot]

theorem Sound.contains_eq (h : t.Sound) : t.contains key = Entries.contains t.entries key := by
  unfold KeyedTable.contains Entries.contains
  rw [Std.HashMap.contains_eq_isSome_getElem?]
  cases hk : t.places[TableKey.of key]? with
  | none =>
    have hnone : t.entries.any (·.1.sameZero key) = false := by
      simpa using h.absent hk
    rw [hnone]
    rfl
  | some i =>
    obtain ⟨before, e, after, -, hsame, -, hentries, -⟩ := h.split hk
    simp [hentries, hsame]

theorem Sound.entries_insert (h : t.Sound) :
    (t.insert key value).entries = Entries.set t.entries key value := by
  have hcontains : t.contains key = Entries.contains t.entries key := h.contains_eq
  unfold KeyedTable.contains at hcontains
  rw [Std.HashMap.contains_eq_isSome_getElem?] at hcontains
  unfold KeyedTable.insert Entries.set
  rw [← hcontains]
  cases hk : t.places[TableKey.of key]? with
  | none => simp [entries]
  | some i =>
    obtain ⟨before, e, after, he, hsame, hother, hentries, hset⟩ := h.split hk
    have hkey : storedKey key = e.1 := by
      rw [← h.stored i e he]
      exact (Value.sameZero_iff.mp hsame).symm
    have hkept (es : Entries) (hes : ∀ a ∈ es, a.1.sameZero key = false) :
        es.map (fun e => if e.1.sameZero key then (e.1, value) else e) = es := by
      refine (List.map_congr_left fun a ha => ?_).trans (List.map_id es)
      rw [hes a ha]
      rfl
    have hbefore := hkept before fun a ha => hother a (List.mem_append_left _ ha)
    have hafter := hkept after fun a ha => hother a (List.mem_append_right _ ha)
    have hentries' : KeyedTable.entries { t with slots := t.slots.setIfInBounds i (some (storedKey key, value)) } =
        before ++ (e.1, value) :: after := by
      rw [entries, hset, hkey]
      simp
    simp [hentries, hentries', hbefore, hafter, hsame]

theorem Sound.entries_erase (h : t.Sound) :
    (t.erase key).entries = Entries.delete t.entries key := by
  unfold KeyedTable.erase Entries.delete
  cases hk : t.places[TableKey.of key]? with
  | none =>
    refine (List.filter_eq_self.mpr fun e he => ?_).symm
    rw [h.absent hk e he]
    rfl
  | some i =>
    obtain ⟨before, e, after, -, hsame, hother, hentries, hset⟩ := h.split hk
    have hkept (es : Entries) (hes : ∀ a ∈ es, a.1.sameZero key = false) :
        es.filter (!·.1.sameZero key) = es :=
      List.filter_eq_self.mpr fun a ha => by rw [hes a ha]; rfl
    have hbefore := hkept before fun a ha => hother a (List.mem_append_left _ ha)
    have hafter := hkept after fun a ha => hother a (List.mem_append_right _ ha)
    have hentries' : KeyedTable.entries
        { slots := t.slots.setIfInBounds i none, places := t.places.erase (TableKey.of key) } =
          before ++ after := by
      rw [entries, hset]
      simp
    simp [hentries, hentries', hbefore, hafter, hsame]

theorem entries_clear : t.clear.entries = [] := by
  simp [clear, entries]

/-! Each operation keeps the index in step with the slots. -/

theorem holds_overwrite {places : Std.HashMap TableKey Nat} {o : Option (Value × Value)} {e e' : Value × Value}
    (he : t.Holds i e) : Holds ⟨t.slots.setIfInBounds i o, places⟩ j e' ↔
      if j = i then o = some e' else t.Holds j e' := by
  have hlt : i < t.slots.size := (Array.getElem?_eq_some_iff.mp he).1
  unfold Holds
  rw [Array.getElem?_setIfInBounds]
  by_cases hij : j = i
  · simp [hij, hlt]
  · simp [hij, Ne.symm hij]

theorem holds_push {places : Std.HashMap TableKey Nat} {e e' : Value × Value} :
    Holds ⟨t.slots.push (some e), places⟩ j e' ↔ if j = t.slots.size then e = e' else t.Holds j e' := by
  unfold Holds
  rw [Array.getElem?_push]
  by_cases hj : j = t.slots.size <;> simp [hj]

theorem Holds.lt {e : Value × Value} (he : t.Holds i e) : i < t.slots.size :=
  (Array.getElem?_eq_some_iff.mp he).1

theorem Holds.eq {e e' : Value × Value} (he : t.Holds i e) (he' : t.Holds i e') : e = e' :=
  Option.some.inj (Option.some.inj (he.symm.trans he'))

theorem Sound.overwrite (h : t.Sound) (hk : t.places[TableKey.of key]? = some i) :
    Sound { t with slots := t.slots.setIfInBounds i (some (storedKey key, value)) } := by
  obtain ⟨before, e, after, he, hsame, -, hentries, hset⟩ := h.split hk
  have hkey : TableKey.of e.1 = .of key := TableKey.of_eq_iff.mpr hsame
  constructor
  · intro k j
    rw [show _ ↔ _ from h.place k j]
    simp only [holds_overwrite he]
    by_cases hj : j = i
    · subst j
      simp only [if_true, Option.some.injEq]
      constructor
      · rintro ⟨e', he', rfl⟩
        exact ⟨_, rfl, by rw [of_storedKey, ← hkey, he.eq he']⟩
      · rintro ⟨_, rfl, rfl⟩
        exact ⟨e, he, by rw [of_storedKey, hkey]⟩
    · simp [hj]
  · intro j e' he'
    rw [holds_overwrite he] at he'
    split at he'
    · cases he'
      exact storedKey_storedKey
    · exact h.stored j e' he'
  · have hsize : t.places.size = t.entries.length := h.size
    show t.places.size = (List.filterMap id _).length
    rw [hset, hsize, hentries]
    simp

theorem Sound.append (h : t.Sound) (hk : t.places[TableKey.of key]? = none) :
    Sound ⟨t.slots.push (some (storedKey key, value)), t.places.insert (.of key) t.slots.size⟩ := by
  have hnone (j : Nat) (e : Value × Value) (he : t.Holds j e) : TableKey.of e.1 ≠ .of key := by
    intro hkey
    cases hk.symm.trans ((h.place _ j).mpr ⟨e, he, hkey⟩)
  constructor
  · intro k j
    simp only [holds_push, Std.HashMap.getElem?_insert, beq_iff_eq]
    by_cases hkey : TableKey.of key = k
    · subst k
      rw [if_pos rfl]
      constructor
      · rintro ⟨rfl⟩
        exact ⟨_, by rw [if_pos rfl], of_storedKey⟩
      · rintro ⟨e, he, hkey⟩
        split at he
        · rw [‹j = _›]
        · exact absurd hkey (hnone j e he)
    · rw [if_neg hkey, h.place]
      refine exists_congr fun e => and_congr_left fun he => ?_
      split
      · rename_i hj
        refine iff_of_false (fun he => absurd he.lt (by omega)) ?_
        rintro rfl
        exact hkey ((of_storedKey).symm.trans he)
      · rfl
  · intro j e he
    rw [holds_push] at he
    split at he
    · cases he
      exact storedKey_storedKey
    · exact h.stored j e he
  · have hsize : t.places.size = t.entries.length := h.size
    have hnew : TableKey.of key ∉ t.places := by
      simp [Std.HashMap.mem_iff_isSome_getElem?, hk]
    simp [KeyedTable.size, Std.HashMap.size_insert, hnew, hsize, entries]

theorem Sound.insert (h : t.Sound) : (t.insert key value).Sound := by
  unfold KeyedTable.insert
  cases hk : t.places[TableKey.of key]? with
  | none => exact h.append hk
  | some i => exact h.overwrite hk

theorem Sound.erase (h : t.Sound) : (t.erase key).Sound := by
  unfold KeyedTable.erase
  cases hk : t.places[TableKey.of key]? with
  | none => exact h
  | some i =>
    obtain ⟨before, e, after, he, hsame, -, hentries, hset⟩ := h.split hk
    have hkey : TableKey.of e.1 = .of key := TableKey.of_eq_iff.mpr hsame
    constructor
    · intro k j
      simp only [holds_overwrite he, Std.HashMap.getElem?_erase, beq_iff_eq]
      by_cases hj : j = i
      · subst j
        simp only [if_true, reduceCtorEq, false_and, exists_false, iff_false]
        split
        · nofun
        · rename_i hne
          rw [h.place]
          rintro ⟨e', he', hk'⟩
          exact hne (by rw [← hk', ← hkey, he.eq he'])
      · simp only [hj, if_false]
        split
        · subst k
          refine iff_of_false nofun ?_
          rintro ⟨e', he', hk'⟩
          exact hj (h.unique he' he (hk'.trans hkey.symm))
        · exact h.place k j
    · intro j e' he'
      rw [holds_overwrite he] at he'
      split at he'
      · cases he'
      · exact h.stored j e' he'
    · have hsize : t.places.size = t.entries.length := h.size
      have hmem : TableKey.of key ∈ t.places := by
        simp [Std.HashMap.mem_iff_isSome_getElem?, hk]
      show (t.places.erase _).size = (List.filterMap id _).length
      rw [hset, Std.HashMap.size_erase, if_pos hmem, hsize, hentries]
      simp

theorem Sound.clear : t.clear.Sound where
  place k i := by simp [KeyedTable.clear, Holds]
  stored i e h := by simp [KeyedTable.clear, Holds] at h
  size := by
    rw [entries_clear]
    simp [KeyedTable.size, KeyedTable.clear]

def keys (t : KeyedTable) : Set TableKey := {k | k ∈ t.places}

def filled (t : KeyedTable) : Set Nat := {i | ∃ e, t.Holds i e}

theorem Sound.bijOn (h : t.Sound) : Set.BijOn (fun k => (t.places[k]?).getD 0) t.keys t.filled := by
  have hplace {k : TableKey} (hk : k ∈ t.keys) : ∃ i e, t.places[k]? = some i ∧ t.Holds i e ∧ .of e.1 = k := by
    obtain ⟨i, hi⟩ := Option.isSome_iff_exists.mp (Std.HashMap.mem_iff_isSome_getElem?.mp hk)
    obtain ⟨e, he, hkey⟩ := (h.place k i).mp hi
    exact ⟨i, e, hi, he, hkey⟩
  refine ⟨fun k hk => ?_, fun k hk k' hk' heq => ?_, fun i ⟨e, he⟩ => ?_⟩
  · obtain ⟨i, e, hi, he, -⟩ := hplace hk
    exact ⟨e, by simpa [hi] using he⟩
  · obtain ⟨i, e, hi, he, rfl⟩ := hplace hk
    obtain ⟨i', e', hi', he', rfl⟩ := hplace hk'
    obtain rfl : i = i' := by simpa [hi, hi'] using heq
    rw [he.eq he']
  · have hi := (h.place (.of e.1) i).mpr ⟨e, he, rfl⟩
    exact ⟨.of e.1, Std.HashMap.mem_iff_isSome_getElem?.mpr (by simp [hi]), by simp [hi]⟩

end KeyedTable

/-- A call on a collection of entries. -/
inductive TableCall where
  | set (key value : Value)
  | delete (key : Value)
  | clear
  | get (key : Value)
  | has (key : Value)
  | size
  | isEmpty
  | entries

/-- What a call answers. -/
inductive TableAnswer where
  | done
  | found (value : Option Value)
  | truth (b : Bool)
  | count (n : Nat)
  | list (es : Entries)

namespace KeyedTable

def answer (t : KeyedTable) : TableCall → TableAnswer
  | .set .. | .clear => .done
  | .delete key | .has key => .truth (t.contains key)
  | .get key => .found (t.get? key)
  | .size => .count t.size
  | .isEmpty => .truth t.isEmpty
  | .entries => .list t.entries

def next (t : KeyedTable) : TableCall → KeyedTable
  | .set key value => t.insert key value
  | .delete key => t.erase key
  | .clear => t.clear
  | _ => t

def answers (t : KeyedTable) : List TableCall → List TableAnswer
  | [] => []
  | call :: calls => t.answer call :: (t.next call).answers calls

def after (t : KeyedTable) (calls : List TableCall) : KeyedTable := calls.foldl next t

end KeyedTable

namespace Entries

def answer (es : Entries) : TableCall → TableAnswer
  | .set .. | .clear => .done
  | .delete key | .has key => .truth (es.contains key)
  | .get key => .found (es.get? key)
  | .size => .count es.length
  | .isEmpty => .truth es.isEmpty
  | .entries => .list es

def next (es : Entries) : TableCall → Entries
  | .set key value => es.set key value
  | .delete key => es.delete key
  | .clear => []
  | _ => es

def answers (es : Entries) : List TableCall → List TableAnswer
  | [] => []
  | call :: calls => es.answer call :: (Entries.next es call).answers calls

end Entries

namespace KeyedTable
variable {t : KeyedTable} {call : TableCall}

theorem Sound.next (h : t.Sound) : (t.next call).Sound := by
  cases call with
  | set => exact h.insert
  | delete => exact h.erase
  | clear => exact .clear
  | _ => exact h

theorem Sound.entries_next (h : t.Sound) : (t.next call).entries = Entries.next t.entries call := by
  cases call with
  | set => exact h.entries_insert
  | delete => exact h.entries_erase
  | clear => exact entries_clear
  | _ => rfl

theorem Sound.answer_eq (h : t.Sound) : t.answer call = Entries.answer t.entries call := by
  cases call with
  | set | clear | entries => rfl
  | delete | has => exact congrArg TableAnswer.truth h.contains_eq
  | get => exact congrArg TableAnswer.found h.get?_eq
  | size => exact congrArg TableAnswer.count h.size
  | isEmpty =>
    have hsize : t.places.size = t.entries.length := h.size
    refine congrArg TableAnswer.truth ?_
    rw [KeyedTable.isEmpty, Std.HashMap.isEmpty_eq_size_eq_zero, hsize]
    cases t.entries <;> rfl

theorem Sound.answers_eq (h : t.Sound) (calls : List TableCall) :
    t.answers calls = Entries.answers t.entries calls := by
  induction calls generalizing t with
  | nil => rfl
  | cons call calls ih => rw [answers, Entries.answers, h.answer_eq, ih h.next, h.entries_next]

theorem Sound.after (h : t.Sound) (calls : List TableCall) : (t.after calls).Sound := by
  induction calls generalizing t with
  | nil => exact h
  | cons call calls ih => exact ih h.next

/-- Whatever is called on a collection that was empty, it answers as a list would in which entries stand
in the order of their keys and keys are compared as values are, the two zeros being the same. All along
the index leads from each key, one to one, to a slot with an entry of that key. -/
theorem refines_entries (calls : List TableCall) :
    answers {} calls = Entries.answers [] calls ∧
    Set.BijOn (fun k => ((after {} calls).places[k]?).getD 0) (after {} calls).keys (after {} calls).filled ∧
    (∀ key i, (after {} calls).places[TableKey.of key]? = some i →
      ∃ e, (after {} calls).Holds i e ∧ e.1.sameZero key = true) ∧
    ∀ key key', TableKey.of key = .of key' ↔ key.sameZero key' = true := by
  have hsound := sound_empty.after calls
  refine ⟨sound_empty.answers_eq calls, hsound.bijOn, fun key i hi => ?_, fun _ _ => TableKey.of_eq_iff⟩
  obtain ⟨e, he, hkey⟩ := (hsound.place _ i).mp hi
  exact ⟨e, he, TableKey.of_eq_iff.mp hkey⟩

end KeyedTable
end EcmaScript
