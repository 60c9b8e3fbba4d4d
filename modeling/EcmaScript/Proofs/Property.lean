import EcmaScript.Property.Define

/-! Reading the own properties of an object after they have changed. -/
namespace EcmaScript

namespace PropertyTable
variable {t : PropertyTable} {key other : PropertyKey} {p : Property}

@[simp] theorem get?_empty : ({} : PropertyTable).get? key = none := by
  cases key <;> simp [get?]

theorem get?_named (h : ∀ n, key ≠ .index n) :
    t.get? key = (t.named.find? fun e => e.1 == key).map (·.2) := by
  cases key with
  | index n => exact absurd rfl (h n)
  | name s => rfl
  | symbol s => rfl

theorem find?_set {entries : List (PropertyKey × Property)} {i : Nat}
    (h : (entries.findIdx? fun e => e.1 == key) = some i) :
    ((entries.set i (key, p)).find? fun e => e.1 == other) =
      if other = key then some (key, p) else entries.find? fun e => e.1 == other := by
  induction entries generalizing i with
  | nil => simp at h
  | cons e rest ih =>
    rw [List.findIdx?_cons] at h
    split at h
    case isTrue he =>
      cases h
      by_cases ho : other = key
      · simp [ho]
      · have hne : (key == other) = false := by simpa using Ne.symm ho
        have hne' : (e.1 == other) = false := by
          simp only [beq_iff_eq] at he
          simpa [he] using Ne.symm ho
        simp [ho, hne, hne']
    case isFalse he =>
      obtain ⟨j, hj, rfl⟩ := Option.map_eq_some_iff.mp h
      simp only [List.set_cons_succ, List.find?_cons, ih hj]
      by_cases ho : other = key
      · subst ho
        simp [he]
      · simp [ho]

theorem find?_push {entries : Array (PropertyKey × Property)}
    (h : (entries.find? fun e => e.1 == key) = none) :
    ((entries.push (key, p)).find? fun e => e.1 == other) =
      if other = key then some (key, p) else entries.find? fun e => e.1 == other := by
  rw [Array.find?_push]
  by_cases ho : other = key
  · subst ho
    simp [h]
  · have hne : (key == other) = false := by simpa using Ne.symm ho
    simp [ho, hne]

theorem find?_filter {entries : List (PropertyKey × Property)} :
    ((entries.filter fun e => e.1 != key).find? fun e => e.1 == other) =
      if other = key then none else entries.find? fun e => e.1 == other := by
  induction entries with
  | nil => simp
  | cons e rest ih =>
    rw [List.filter_cons]
    by_cases he : e.1 = key
    · by_cases ho : other = key
      · simp [he, ho]
      · have hne : (key == other) = false := by simpa using Ne.symm ho
        simp [he, ih, ho, hne]
    · simp only [bne_iff_ne, ne_eq, he, not_false_eq_true, ↓reduceIte, List.find?_cons, ih]
      by_cases ho : other = key
      · have hne : (e.1 == key) = false := by simpa using he
        simp [ho, hne]
      · simp [ho]

theorem put_named (h : ∀ n, key ≠ .index n) : t.put key p = match t.place? key with
    | some i => { t with named := t.named.setIfInBounds i (key, p) }
    | none => { t with named := t.named.push (key, p) } := by
  cases key with
  | index n => exact absurd rfl (h n)
  | name s => rfl
  | symbol s => rfl

theorem get?_putNamed (h : ∀ n, key ≠ .index n) :
    (t.put key p).get? other = if other = key then some p else t.get? other := by
  rw [put_named h]
  cases other with
  | index n =>
    have hne : PropertyKey.index n ≠ key := (h n).symm
    cases t.place? key <;> simp [get?, hne]
  | _ =>
    all_goals
      rw [get?_named (by simp), get?_named (by simp)]
      cases hplace : t.place? key with
      | none =>
        have hnone : (t.named.find? fun e => e.1 == key) = none := by
          simpa [place?, Array.findIdx?_eq_none_iff] using hplace
        simp only [find?_push hnone]
        split <;> rfl
      | some i =>
        have hlist : (t.named.toList.findIdx? fun e => e.1 == key) = some i := by
          rwa [← List.findIdx?_toArray]
        simp only [← Array.find?_toList, Array.toList_setIfInBounds, find?_set hlist]
        split <;> rfl

theorem get?_put : (t.put key p).get? other = if other = key then some p else t.get? other := by
  cases key with
  | index n =>
    cases other with
    | index m =>
      simp only [put, get?, Std.TreeMap.getElem?_insert, PropertyKey.index.injEq,
        Std.compare_eq_iff_eq, @eq_comm _ n m]
    | name s => simp [put, get?]
    | symbol s => simp [put, get?]
  | name s => exact get?_putNamed (by simp)
  | symbol s => exact get?_putNamed (by simp)

theorem get?_erase : (t.erase key).get? other = if other = key then none else t.get? other := by
  cases key with
  | index n =>
    cases other with
    | index m =>
      simp only [erase, get?, Std.TreeMap.getElem?_erase, PropertyKey.index.injEq,
        Std.compare_eq_iff_eq, @eq_comm _ n m]
    | name s => simp [erase, get?]
    | symbol s => simp [erase, get?]
  | _ =>
    all_goals
      cases other with
      | index n => simp [erase, get?]
      | _ =>
        all_goals
          simp only [erase, get?, ← Array.find?_toList, Array.toList_filter, find?_filter]
          split <;> simp

theorem get?_ofItems {items : Array Value} {n : ArrayIndex} :
    (ofItems items).get? (.index n) = (items[n.val]?).map .plain := by
  refine ((Array.foldl_induction (motive := fun i (b : PropertyTable × Nat) => b.2 = i ∧
    ∀ n : ArrayIndex, b.1.get? (.index n) = if n.val < i then (items[n.val]?).map .plain else none)
    ⟨rfl, fun n => by simp⟩ fun i b hb => ?_).2 n).trans ?_
  · obtain ⟨hcount, hb⟩ := hb
    refine ⟨congrArg (· + 1) hcount, fun n => ?_⟩
    rw [get?_put, hb n, hcount]
    unfold PropertyKey.ofNat
    split
    · simp only [PropertyKey.index.injEq, Fin.ext_iff]
      by_cases hn : n.val = i.val
      · simp [hn]
      · have : n.val < i.val + 1 ↔ n.val < i.val := by omega
        simp [hn, this]
    · have hlt := n.isLt
      have : n.val < i.val + 1 ↔ n.val < i.val := by omega
      simp [this]
  · split
    · rfl
    · rename_i h
      simp [Array.getElem?_eq_none (Nat.le_of_not_lt h)]

end PropertyTable
end EcmaScript
