import EcmaScript.Proofs.Frozen

/-! Own keys are listed once. A table has each key in one place, and the elements of a string object
are the first of its indices. -/
namespace EcmaScript

namespace PropertyTable
variable {t : PropertyTable} {key : PropertyKey} {p : Property}

def names (t : PropertyTable) : List PropertyKey := t.named.toList.map (·.1)

/-- A table that has no key twice: indices are kept apart, and each other key has one place. -/
structure Distinct (t : PropertyTable) : Prop where
  nodup : t.names.Nodup
  named : ∀ n : ArrayIndex, .index n ∉ t.names

theorem distinct_empty : ({} : PropertyTable).Distinct := ⟨.nil, nofun⟩

theorem names_put (hnamed : ∀ n, key ≠ .index n) :
    (t.put key p).names = if key ∈ t.names then t.names else t.names ++ [key] := by
  rw [put_named hnamed]
  cases hplace : t.place? key with
  | some i =>
    obtain ⟨hi, hkey, -⟩ := Array.findIdx?_eq_some_iff_getElem.mp hplace
    have hi' : i < t.names.length := by simpa [names] using hi
    have hget : t.names[i] = key := by simpa [names] using hkey
    have hset : (t.named.setIfInBounds i (key, p)).toList.map (·.1) = t.names.set i key := by
      simp [names, Array.toList_setIfInBounds, List.map_set]
    rw [if_pos (hget ▸ List.getElem_mem hi'), names, hset, ← hget, List.set_getElem_self]
  | none =>
    have hnew : key ∉ t.names := by
      intro hmem
      obtain ⟨e, he, rfl⟩ := List.mem_map.mp hmem
      simpa using Array.findIdx?_eq_none_iff.mp hplace e (by simpa using he)
    rw [if_neg hnew]
    simp [names]

theorem Distinct.put (h : t.Distinct) : (t.put key p).Distinct := by
  by_cases hindex : ∃ n, key = .index n
  · obtain ⟨n, rfl⟩ := hindex
    exact ⟨h.nodup, h.named⟩
  · have hnamed (n : ArrayIndex) : key ≠ .index n := fun he => hindex ⟨n, he⟩
    have hnames := names_put (t := t) (p := p) hnamed
    split at hnames
    · exact ⟨hnames ▸ h.nodup, fun n => hnames ▸ h.named n⟩
    · rename_i hnew
      refine ⟨hnames ▸ ?_, fun n hn => ?_⟩
      · rw [← List.concat_eq_append]
        exact h.nodup.concat hnew
      · rw [hnames, List.mem_append, List.mem_singleton] at hn
        exact hn.elim (h.named n) fun he => hnamed n he.symm

theorem Distinct.erase (h : t.Distinct) : (t.erase key).Distinct := by
  have hsub : (t.erase key).names.Sublist t.names := by
    unfold PropertyTable.erase names
    split
    · exact .refl _
    · rw [Array.toList_filter]
      exact List.filter_sublist.map _
  exact ⟨h.nodup.sublist hsub, fun n hn => h.named n (hsub.subset hn)⟩

theorem Distinct.keys_nodup (h : t.Distinct) : t.keys.Nodup := by
  have hindices : (t.indexed.keys.map PropertyKey.index).Nodup := by
    refine List.Nodup.map (fun _ _ he => PropertyKey.index.inj he) ?_
    exact t.indexed.distinct_keys.imp fun hne he => hne (by simp [he])
  have hapart (p : PropertyKey → Bool) : (t.indexed.keys.map PropertyKey.index).Disjoint
      (t.names.filter p) := by
    intro key hkey hnames
    obtain ⟨n, -, rfl⟩ := List.mem_map.mp hkey
    exact h.named n (List.mem_of_mem_filter hnames)
  have hsymbols : (t.names.filter (!·.isSymbol)).Disjoint (t.names.filter (·.isSymbol)) := by
    intro key hstring hsymbol
    have hstring := (List.mem_filter.mp hstring).2
    simp [(List.mem_filter.mp hsymbol).2] at hstring
  refine List.Nodup.append (List.Nodup.append hindices (h.nodup.filter _) (hapart _))
    (h.nodup.filter _) ?_
  rw [List.disjoint_append_left]
  exact ⟨hapart _, hsymbols⟩

end PropertyTable

theorem Text.length16_replicate {n : Nat} :
    length16 (String.ofList (List.replicate n 'a')) = n := by
  have hunits (n : Nat) : (List.replicate n 'a').flatMap unitsOfChar = List.replicate n 97 := by
    induction n with
    | zero => rfl
    | succ n ih => rw [List.replicate_succ, List.flatMap_cons, ih]; rfl
  rw [length16_eq]
  simp [units, hunits]

namespace Object
variable {o o' : Object} {N : PrivateName → Prop}

theorem Alters.properties {I : PropertyTable → Prop}
    (hput : ∀ {t} key p, I t → I (PropertyTable.put t key p))
    (herase : ∀ {t} key, I t → I (PropertyTable.erase t key)) (h : Alters N o o')
    (ho : I o.properties) : I o'.properties := by
  have hdefine {o o' : Object} {key : PropertyKey} {d : Descriptor}
      (hd : o.define? key d = some o') (ho : I o.properties) : I o'.properties := by
    rcases define?_cases hd with ⟨-, -, rfl⟩ | ⟨p, -, -, rfl⟩ <;> exact hput key _ ho
  have hdrop (length : Nat) (is : List ArrayIndex) {o : Object} (ho : I o.properties) :
      I (dropElements length is o).2.properties := by
    induction is generalizing o with
    | nil => exact ho
    | cons i rest ih =>
      unfold dropElements
      split
      · split
        · exact ih (herase (.index i) ho)
        · exact ho
      · exact ih ho
  induction h with
  | refl => exact ho
  | define _ _ _ hd ih => exact hdefine hd ih
  | element _ _ hd ih =>
    obtain ⟨o₁, ho₁, -, rfl⟩ := defineElement?_cases hd
    split
    · exact hput lengthKey _ (hdefine ho₁ ih)
    · exact hdefine ho₁ ih
  | @length o' d length _ _ _ ih =>
    unfold defineLength
    dsimp only
    split
    · split
      · exact hdefine ‹_› ih
      · exact ih
    · split
      · exact ih
      · have hdropped := hdrop length (o'.properties.indicesFrom length) ih
        generalize dropElements length (o'.properties.indicesFrom length) o' = dropped at *
        cases hd : dropped.2.define? lengthKey _ with
        | none => exact hdropped
        | some o' => exact hdefine hd hdropped
  | erase _ _ _ _ ih => exact herase _ ih
  | putPrivate _ _ ih => rwa [putPrivate_eq]
  | _ => assumption

/-- An object whose own keys are listed once: its table has no key twice, and if it is a string
object, each of its elements is an index. -/
structure Listable (o : Object) : Prop where
  distinct : o.properties.Distinct
  short : ∀ text, o.kind = .string text → Text.length16 text ≤ indexLimit

theorem Listable.ownKeys_nodup (h : o.Listable) : o.ownKeys.Nodup := by
  unfold ownKeys
  split
  · rename_i text hk
    have hindex {n : Nat} (hn : n < Text.length16 text) :
        PropertyKey.ofNat n = .index ⟨n, Nat.lt_of_lt_of_le hn (h.short text hk)⟩ := by
      rw [PropertyKey.ofNat, dif_pos]
    have hmem {n : Nat} (hn : n ∈ List.range (min (Text.length16 text) (indexLimit + 1))) :
        n < Text.length16 text := (lt_min_iff.mp (List.mem_range.mp hn)).1
    refine List.Nodup.append ?_ (h.distinct.keys_nodup.filter _) fun key helement hkey => ?_
    · refine List.nodup_range.map_on fun i hi j hj he => ?_
      rw [hindex (hmem hi), hindex (hmem hj)] at he
      simpa using he
    · obtain ⟨n, hn, rfl⟩ := List.mem_map.mp helement
      have hn := hmem hn
      rw [hindex hn] at hkey
      have hle := (List.mem_filter.mp hkey).2
      simp only [decide_eq_true_eq] at hle
      exact absurd hn (Nat.not_lt_of_le hle)
  · exact h.distinct.keys_nodup

/-- An element of a string that is too far out for an index is listed under a name. -/
theorem element_mem_ownKeys {text : String} (hk : o.kind = .string text)
    (hlong : indexLimit < Text.length16 text) : .ofNat indexLimit ∈ o.ownKeys := by
  unfold ownKeys
  rw [hk]
  exact List.mem_append_left _ (List.mem_map.mpr ⟨indexLimit,
    List.mem_range.mpr (lt_min hlong (Nat.lt_succ_self _)), rfl⟩)

/-- Such an element can have the name of another property, and then that is listed twice. -/
theorem ownKeys_overlong {text : String} {p : Property} (hk : o.kind = .string text)
    (hlong : indexLimit < Text.length16 text) (hp : o.own? (.ofNat indexLimit) = some p) :
    ¬ o.ownKeys.Nodup := by
  unfold ownKeys
  rw [hk]
  dsimp only
  intro hnodup
  refine (List.nodup_append.mp hnodup).2.2 _ (List.mem_map.mpr ⟨indexLimit,
    List.mem_range.mpr (lt_min hlong (Nat.lt_succ_self _)), rfl⟩) _
      (List.mem_filter.mpr ⟨PropertyTable.mem_keys_of_get? hp, ?_⟩) rfl
  rw [PropertyKey.ofNat, dif_neg (Nat.lt_irrefl _)]

theorem KindKept.string {k k' : ObjectKind} {text : String} (h : KindKept k k')
    (hk : k' = .string text) : k = .string text := by
  induction h generalizing text with
  | same => exact hk
  | alters _ h' ih => cases h' <;> cases hk

theorem Alters.listable (h : Alters N o o') (ho : o.Listable) : o'.Listable :=
  ⟨h.properties (fun _ _ h => h.put) (fun _ h => h.erase) ho.distinct,
    fun text hk => ho.short text (h.kind_kept.string hk)⟩

end Object

theorem Act.listable {w : World} {s : State} {id : ObjectId} (h : Act w s) (hid : id.index < w.since)
    (hsince : w.since ≤ w.state.heap.size) (hs : ¬ (w.state.object id).unstamped)
    (ho : (w.state.object id).Listable) : (s.object id).Listable := by
  have hkeeps := h.keeps id (Nat.lt_of_lt_of_le hid hsince)
  cases hkeeps with
  | same h => exact h ▸ ho
  | alters _ h => exact h.listable ho
  | build _ h => exact (h.elim (Nat.not_le_of_lt hid) hs).elim
  | reparent _ _ heq => rw [heq]; exact ⟨ho.distinct, ho.short⟩
  | settle _ _ _ heq | register _ _ _ _ heq => rw [heq]; exact ⟨ho.distinct, nofun⟩

theorem Leads.listable {s s' : State} {id : ObjectId} (h : Leads (.bare s) s') (hs : s.Ordinary id)
    (ho : (s.object id).Listable) : (s'.object id).Listable := by
  refine (h.keeps (I := fun s => (s.object id).Whole ∧ (s.object id).Listable) ⟨hs.whole, ho⟩
    fun w s hl hle hact ⟨hwhole, ho⟩ => ?_).2
  have hid : id.index < w.since := hl.since ▸ hs.size
  have hsince : w.since ≤ w.state.heap.size := hl.since ▸ hle
  exact ⟨(hact.keeps_object hid hsince hwhole).2, hact.listable hid hsince hwhole.stamped ho⟩

end EcmaScript
