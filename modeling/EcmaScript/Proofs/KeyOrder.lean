import EcmaScript.Proofs.Elements
import EcmaScript.Proofs.Listing

/-! The order of own keys: indices by their size, then strings and then symbols, each in the order of
their last creation. -/
namespace EcmaScript

/-- Notes a key that is there from now on. One that was there before keeps its place; indices are not
noted, since their creation does not matter. -/
def noted (order : List PropertyKey) : PropertyKey → List PropertyKey
  | .index _ => order
  | key => if key ∈ order then order else order ++ [key]

theorem noted_of_mem {order : List PropertyKey} {key : PropertyKey} (h : key ∈ order) :
    noted order key = order := by
  cases key with
  | index n => rfl
  | _ => exact if_pos h

namespace PropertyTable
variable {t : PropertyTable} {key : PropertyKey} {p : Property} {order : List PropertyKey}

theorem names_put_noted : (t.put key p).names = noted t.names key := by
  cases key with
  | index n => rfl
  | _ => exact names_put nofun

theorem Distinct.names_erase (h : t.Distinct) : (t.erase key).names = t.names.filter (· != key) := by
  cases key with
  | index n =>
    rw [List.filter_eq_self.mpr]
    · rfl
    · intro other hother
      refine bne_iff_ne.mpr fun he => ?_
      exact h.named n (he ▸ hother)
  | _ =>
    rw [names, names, List.filter_map]
    exact congrArg _ Array.toList_filter

theorem mem_names_iff (h : ∀ n, key ≠ .index n) : key ∈ t.names ↔ (t.get? key).isSome = true := by
  rw [get?_named h, Option.isSome_map, Array.find?_isSome, names, List.mem_map]
  simp

theorem mem_keys_named (h : ∀ n, key ≠ .index n) : key ∈ t.keys ↔ (t.get? key).isSome = true := by
  have hkeys : t.keys = t.indexed.keys.map .index ++ t.names.filter (!·.isSymbol) ++
      t.names.filter (·.isSymbol) := rfl
  rw [hkeys, ← mem_names_iff h]
  cases key with
  | index n => exact (h n rfl).elim
  | _ => simp [PropertyKey.isSymbol]

theorem Distinct.mem_keys (h : t.Distinct) : key ∈ t.keys ↔ (t.get? key).isSome = true := by
  cases key with
  | index n =>
    have hkeys : t.keys = t.indexed.keys.map .index ++ t.names.filter (!·.isSymbol) ++
        t.names.filter (·.isSymbol) := rfl
    simp [hkeys, h.named n, get?]
  | _ => exact mem_keys_named (by simp)

/-- A table whose strings and symbols have been created in an order. -/
structure Records (t : PropertyTable) (order : List PropertyKey) : Prop where
  distinct : t.Distinct
  names : t.names = order

theorem Records.put (h : t.Records order) : (t.put key p).Records (noted order key) :=
  ⟨h.distinct.put, by rw [names_put_noted, h.names]⟩

theorem Records.erase (h : t.Records order) : (t.erase key).Records (order.filter (· != key)) :=
  ⟨h.distinct.erase, by rw [h.distinct.names_erase, h.names]⟩

theorem Records.eraseIndex {n : ArrayIndex} (h : t.Records order) :
    (t.erase (.index n)).Records order := ⟨h.distinct.erase, h.names⟩

theorem Records.mem_iff (h : t.Records order) (hkey : ∀ n, key ≠ .index n) :
    key ∈ order ↔ (t.get? key).isSome = true := by
  rw [← h.names, mem_names_iff hkey]

theorem records_fold {fields : List (PropertyKey × Property)} (h : t.Records order) :
    (fields.foldl (fun t e => t.put e.1 e.2) t).Records (fields.foldl (fun order e => noted order e.1) order) := by
  induction fields generalizing t order with
  | nil => exact h
  | cons e rest ih => exact ih h.put

end PropertyTable

namespace Object
variable {o o' : Object} {key : PropertyKey} {d : Descriptor} {order : List PropertyKey}

theorem records_define? (h : o.properties.Records order) (hd : o.define? key d = some o') :
    o'.properties.Records (noted order key) := by
  rcases define?_cases hd with ⟨-, -, rfl⟩ | ⟨p, -, -, rfl⟩ <;> exact h.put

theorem WellFormed.mem_order (h : o.WellFormed) (hr : o.properties.Records order) : lengthKey ∈ order := by
  obtain ⟨n, w, h⟩ := h
  refine (hr.mem_iff fun _ => by simp [lengthKey]).mpr ?_
  rw [show o.properties.get? lengthKey = _ from h.length]
  rfl

theorem records_defineElement? {n : ArrayIndex} (h : o.properties.Records order) (hl : lengthKey ∈ order)
    (hd : o.defineElement? n d = some o') : o'.properties.Records order := by
  obtain ⟨o₁, ho₁, -, rfl⟩ := defineElement?_cases hd
  have h₁ : o₁.properties.Records order := records_define? h ho₁
  split
  · have hput : (o₁.properties.put lengthKey (.data (.ofNat (n.val + 1)) true false false)).Records _ := h₁.put
    rwa [noted_of_mem hl] at hput
  · exact h₁

theorem records_dropElements {length : Nat} {is : List ArrayIndex} (h : o.properties.Records order) :
    (dropElements length is o).2.properties.Records order := by
  induction is generalizing o with
  | nil => exact h
  | cons i rest ih =>
    unfold dropElements
    split
    · split
      · exact ih h.eraseIndex
      · exact h
    · exact ih h

theorem records_defineLength {length : Nat} (h : o.properties.Records order) (hl : lengthKey ∈ order) :
    (o.defineLength length d).2.properties.Records order := by
  have hdefine {o o' : Object} {d : Descriptor} (h : o.properties.Records order)
      (hd : o.define? lengthKey d = some o') : o'.properties.Records order := by
    have hnoted := records_define? h hd
    rwa [noted_of_mem hl] at hnoted
  unfold defineLength
  dsimp only
  split
  · split
    · exact hdefine h ‹_›
    · exact h
  · split
    · exact h
    · have hdrop : (dropElements length (o.properties.indicesFrom length) o).2.properties.Records order :=
        records_dropElements h
      generalize dropElements length (o.properties.indicesFrom length) o = dropped at *
      cases hd : dropped.2.define? lengthKey _ with
      | none => exact hdrop
      | some o' => exact hdefine hdrop hd

end Object

namespace Exec
variable {m : Machine} {c : Context} {s s' : State} {id : ObjectId} {key : PropertyKey}
  {d : Descriptor} {b : Bool} {order : List PropertyKey}

theorem records_replaceWith {f : Object → Option Object} (h : (replaceWith id f).Gives m c s b s')
    (hid : id.index < s.heap.size) (hr : (s.object id).properties.Records order)
    (hf : ∀ o, f (s.object id) = some o → o.properties.Records (noted order key)) :
    (s'.object id).properties.Records (if b = true then noted order key else order) := by
  rcases gives_replaceWith.mp h with ⟨-, rfl, rfl⟩ | ⟨o, ho, rfl, rfl⟩
  · exact hr
  · rw [State.object_replace_self hid]
    exact hf o ho

theorem records_defineArgument {shared : ArgumentMap} (h : (defineArgument id shared key d).Gives m c s b s')
    (hk : (s.object id).kind = .arguments (some shared)) (hr : (s.object id).properties.Records order) :
    (s'.object id).properties.Records (if b = true then noted order key else order) := by
  have hid : id.index < s.heap.size := State.lt_of_kind (by simp [hk])
  cases hmap : shared.parameter? key with
  | none =>
    rw [defineArgument_unmapped hmap] at h
    exact records_replaceWith h hid hr fun _ => Object.records_define? hr
  | some name =>
    obtain ⟨n, rfl⟩ := ArgumentMap.eq_index (show (shared.parameter? key).isSome = true by simp [hmap])
    rw [Gives, defineArgument_mapped hk hmap] at h
    dsimp only at h
    split at h
    · obtain ⟨-, rfl⟩ : false = b ∧ s = s' := by simpa [Step.outcome] using h
      split <;> exact hr
    · rename_i o ho
      have hnew : o.properties.Records order := Object.records_define? hr ho
      have hput (o' : Object) (hp : o'.properties = o.properties) :
          ((s.replace id o').object id).properties.Records order := by
        rw [State.object_replace_self hid, hp]
        exact hnew
      simp only [Step.outcome, Option.some.injEq, Prod.mk.injEq, Except.ok.injEq] at h
      obtain ⟨rfl, rfl⟩ := h
      rw [if_pos rfl]
      split
      · exact hput _ rfl
      · split <;> exact hput _ rfl

def GivesNumber (o : Object) (key : PropertyKey) (d : Descriptor) : Prop :=
  SetsLength o key d → ∃ x, d.value = some (.number x)

theorem gives_toArrayLength_number {x : Float} {n : Nat}
    (h : (toArrayLength (.number x)).Gives m c s n s') : s' = s := by
  have hnumber : toNumber (.number x) m c s = .value x s := rfl
  rw [toArrayLength, gives_bind_value hnumber, gives_bind_value hnumber] at h
  split at h
  · exact (gives_pure.mp h).2
  · exact (gives_raise h).elim

theorem records_defineOnArray (h : (defineOnArray id d key).Gives m c s b s') (hid : id.index < s.heap.size)
    (hwf : (s.object id).WellFormed) (ha : (s.object id).isArray = true)
    (hnumber : GivesNumber (s.object id) key d) (hr : (s.object id).properties.Records order) :
    (s'.object id).properties.Records (if b = true then noted order key else order) := by
  have hl : Object.lengthKey ∈ order := hwf.mem_order hr
  unfold defineOnArray at h
  split at h
  · exact records_replaceWith h hid hr fun _ => Object.records_defineElement? hr hl
  · split at h
    · rename_i hkey
      unfold defineArrayLength at h
      split at h
      · exact records_replaceWith h hid hr fun _ => hkey ▸ Object.records_define? hr
      · rename_i v hv
        obtain ⟨x, hx⟩ := hnumber ⟨ha, hkey, by simp [hv]⟩
        obtain rfl : v = .number x := Option.some.inj (hv.symm.trans hx)
        obtain ⟨length, s₁, hlength, hupdate⟩ := gives_bind.mp h
        obtain rfl := gives_toArrayLength_number hlength
        obtain ⟨rfl, rfl⟩ := gives_update.mp hupdate
        rw [hkey, noted_of_mem hl, ite_self]
        change ((s₁.replace id _).object id).properties.Records order
        rw [State.object_replace_self hid]
        exact Object.records_defineLength hr hl
    · exact records_replaceWith h hid hr fun _ => Object.records_define? hr

theorem records_define (h : (define id key d).Gives m c s b s') (hid : id.index < s.heap.size)
    (hproxy : (s.object id).isProxy = false) (hwf : (s.object id).isArray = true → (s.object id).WellFormed)
    (hnumber : GivesNumber (s.object id) key d) (hr : (s.object id).properties.Records order) :
    (s'.object id).properties.Records (if b = true then noted order key else order) := by
  have h := gives_look_bind.mp (gives_checked ((gives_define hproxy).mp h))
  split at h
  · rename_i hk
    have ha : (s.object id).isArray = true := Object.isArray_iff_kind.mpr hk
    exact records_defineOnArray h hid (hwf ha) ha hnumber hr
  · split at h
    · rename_i text _ p hp
      obtain ⟨-, rfl⟩ := gives_pure.mp h
      obtain ⟨n, rfl⟩ : ∃ n, key = .index n := by
        cases key with
        | index n => exact ⟨n, rfl⟩
        | _ => cases hp
      split <;> exact hr
    · exact records_replaceWith h hid hr fun _ => Object.records_define? hr
  · rename_i shared hk
    exact records_defineArgument h hk hr
  · exact records_replaceWith h hid hr fun _ => Object.records_define? hr

theorem records_delete (h : (delete id key).Gives m c s b s') (hid : id.index < s.heap.size)
    (hproxy : (s.object id).isProxy = false) (hr : (s.object id).properties.Records order) :
    (s'.object id).properties.Records (if b = true then order.filter (· != key) else order) := by
  have habsent (hnone : (s.object id).own? key = none) : order.filter (· != key) = order := by
    refine List.filter_eq_self.mpr fun other hother => bne_iff_ne.mpr ?_
    rintro rfl
    have hnamed (n : ArrayIndex) : other ≠ .index n := by
      rintro rfl
      exact hr.distinct.named n (hr.names ▸ hother)
    have hsome := (hr.mem_iff hnamed).mp hother
    rw [show (s.object id).properties.get? other = none from hnone] at hsome
    cases hsome
  have h := gives_look_bind.mp ((gives_bind_value (proxyOf_ordinary hproxy)).mp h)
  dsimp only at h
  split_ifs at h
  · obtain ⟨rfl, rfl⟩ := gives_pure.mp h
    exact hr
  · split at h
    · rename_i hnone
      obtain ⟨rfl, rfl⟩ := gives_pure.mp h
      rw [if_pos rfl, habsent hnone]
      exact hr
    · split at h
      · obtain ⟨rfl, rfl⟩ := gives_pure.mp h
        exact hr
      · obtain ⟨_, s₁, herase, hdone⟩ := gives_bind.mp (gives_checked h)
        obtain ⟨rfl, rfl⟩ := gives_pure.mp hdone
        have herase := gives_change.mp herase
        rw [State.heap_modify] at herase
        subst herase
        change ((s.replace id _).object id).properties.Records _
        rw [State.object_replace_self hid, if_pos rfl]
        have herased : ((s.object id).properties.erase key).Records (order.filter (· != key)) := hr.erase
        split <;> exact herased

theorem lt_of_gives_toArrayLength {v : Value} {n : Nat} (h : (toArrayLength v).Gives m c s n s') :
    n < 2 ^ 32 := by
  obtain ⟨x, s₁, -, h⟩ := gives_bind.mp h
  obtain ⟨y, s₂, -, h⟩ := gives_bind.mp h
  split at h
  · obtain ⟨rfl, -⟩ := gives_pure.mp h
    exact UInt32.toNat_lt _
  · exact (gives_raise h).elim

theorem mayChange_of_gives {what : String} {u : Unit} (h : (checkObjectWrite id what).Gives m c s u s') :
    c.MayChange id := by
  intro hdry
  have h := gives_context_bind.mp h
  split at h
  · exact (gives_halt h).elim
  · simp_all

/-- A length that is no number is converted first, and then it is set as a number. -/
theorem define_length_converts {fuel : Nat} {v : Value} (hid : id.index < s.heap.size)
    (ha : (s.object id).isArray = true) (hv : d.value = some v)
    (h : (define id Object.lengthKey d).Gives (machine fuel) c s b s') :
    ∃ n s₁, (toArrayLength v).Gives (machine fuel) c s n s₁ ∧
      (define id Object.lengthKey { d with value := some (.ofNat n) }).Gives (machine fuel) c s₁ b s' := by
  have hk := Object.isArray_iff_kind.mp ha
  have honArray (d : Descriptor) : defineOnArray id d Object.lengthKey = defineArrayLength id d := by
    simp [defineOnArray, Object.lengthKey]
  obtain ⟨_, s₀, hcheck, hset⟩ := gives_bind.mp ((gives_define (by simp [Object.isProxy, hk])).mp h)
  obtain rfl := gives_checkObjectWrite hcheck
  replace h := gives_look_bind.mp hset
  rw [hk] at h
  simp only [honArray, defineArrayLength, hv] at h
  obtain ⟨n, s₁, hlength, hupdate⟩ := gives_bind.mp h
  refine ⟨n, s₁, hlength, ?_⟩
  have hleads : Leads (.bare s₀) s₁ := leads_of_gives (toArrayLength_safe World.met_bare) hlength
  have hk₁ : (s₁.object id).kind = .array := by
    rw [← Object.isArray_iff_kind, Object.isArray_iff, hleads.name_eq hid]
    exact Object.isArray_iff.mp ha
  have hconverted : toArrayLength (.ofNat n) (machine fuel) c s₁ = .value n s₁ :=
    toArrayLength_ofNat (lt_of_gives_toArrayLength hlength)
  have hchecked := checkObjectWrite_value (m := machine fuel) (s := s₁) (mayChange_of_gives hcheck)
    "property definition"
  refine (gives_define (by simp [Object.isProxy, hk₁])).mpr ((gives_bind_value hchecked).mpr ?_)
  refine gives_look_bind.mpr ?_
  rw [hk₁]
  simp only [honArray, defineArrayLength]
  exact (gives_bind_value hconverted).mpr hupdate

end Exec

namespace State

/-- The histories of an object that is no proxy: it is born with some properties, and then properties are
defined and deleted, in whatever code, while other things happen that leave its properties alone. The keys
that are no indices are in the order of their last creation. -/
inductive History (id : ObjectId) : State → List PropertyKey → Prop where
  | born {s : State} {fields : List (PropertyKey × Property)} (hid : id.index < s.heap.size)
    (hproxy : (s.object id).isProxy = false)
    (hwf : (s.object id).isArray = true → (s.object id).WellFormed)
    (h : (s.object id).properties = fields.foldl (fun t e => t.put e.1 e.2) {}) :
    History id s (fields.foldl (fun order e => noted order e.1) [])
  | define {s s' : State} {order : List PropertyKey} {fuel : Nat} {c : Context} {key : PropertyKey}
    {d : Descriptor} {b : Bool} (h : History id s order)
    (hnumber : Exec.GivesNumber (s.object id) key d)
    (hd : (Exec.define id key d).Gives (machine fuel) c s b s') :
    History id s' (if b = true then noted order key else order)
  | delete {s s' : State} {order : List PropertyKey} {fuel : Nat} {c : Context} {key : PropertyKey}
    {b : Bool} (h : History id s order) (hd : (Exec.delete id key).Gives (machine fuel) c s b s') :
    History id s' (if b = true then order.filter (· != key) else order)
  | aside {s s' : State} {order : List PropertyKey} (h : History id s order)
    (hsize : s.heap.size ≤ s'.heap.size)
    (hkind : (s'.object id).kind.name = (s.object id).kind.name)
    (hproperties : (s'.object id).properties = (s.object id).properties) : History id s' order

variable {s : State} {id : ObjectId} {order : List PropertyKey}

/-- What a history keeps. -/
structure Recorded (s : State) (id : ObjectId) (order : List PropertyKey) : Prop where
  size : id.index < s.heap.size
  isProxy : (s.object id).isProxy = false
  wellFormed : (s.object id).isArray = true → (s.object id).WellFormed
  records : (s.object id).properties.Records order

theorem Recorded.of_leads {s' : State} {order' : List PropertyKey} (h : s.Recorded id order)
    (hleads : Leads (.bare s) s') (hr : (s'.object id).properties.Records order') :
    s'.Recorded id order' where
  size := Nat.lt_of_lt_of_le h.size hleads.size_le
  isProxy := (hleads.isProxy_eq h.size).trans h.isProxy
  wellFormed ha := by
    rw [Object.isArray_iff, hleads.name_eq h.size, ← Object.isArray_iff] at ha
    exact hleads.wellFormed h.size (Nat.le_refl _) (h.wellFormed ha)
  records := hr

theorem History.recorded (h : s.History id order) : s.Recorded id order := by
  induction h with
  | born hid hproxy hwf h =>
    refine ⟨hid, hproxy, hwf, h ▸ PropertyTable.records_fold ⟨PropertyTable.distinct_empty, rfl⟩⟩
  | define _ hnumber hd ih =>
    exact ih.of_leads (Exec.leads_of_gives (define_safe World.met_bare) hd)
      (Exec.records_define hd ih.size ih.isProxy ih.wellFormed hnumber ih.records)
  | delete _ hd ih =>
    exact ih.of_leads (Exec.leads_of_gives delete_safe hd)
      (Exec.records_delete hd ih.size ih.isProxy ih.records)
  | aside _ hsize hkind hproperties ih =>
    refine ⟨Nat.lt_of_lt_of_le ih.size hsize, (Object.isProxy_eq hkind).trans ih.isProxy, fun ha => ?_,
      hproperties ▸ ih.records⟩
    have ha' := ha
    rw [Object.isArray_iff, hkind, ← Object.isArray_iff] at ha'
    obtain ⟨n, w, hwf⟩ := ih.wellFormed ha'
    exact ⟨n, w, hwf.congr ((Object.isArray_iff_kind.mp ha).trans hwf.kind.symm)
      (by rw [Object.own?, hproperties]; rfl) fun i hi => by rwa [Object.own?, hproperties] at hi⟩

/-- What converts the length of an array may change the array. That is a part of the history, and then the
length is set as a number. -/
theorem History.defineLength {s' : State} {order' : List PropertyKey} {fuel : Nat} {c : Context}
    {d : Descriptor} {v : Value} {b : Bool} (h : s.History id order) (ha : (s.object id).isArray = true)
    (hv : d.value = some v)
    (hd : (Exec.define id Object.lengthKey d).Gives (machine fuel) c s b s')
    (hconversion : ∀ n s₁, (Exec.toArrayLength v).Gives (machine fuel) c s n s₁ → s₁.History id order') :
    s'.History id (if b = true then noted order' Object.lengthKey else order') := by
  obtain ⟨n, s₁, hlength, hset⟩ := Exec.define_length_converts h.recorded.size ha hv hd
  exact (hconversion n s₁ hlength).define (fun _ => ⟨_, rfl⟩) hset

theorem isSome_ownProperty? {key : PropertyKey} : (s.ownProperty? id key).isSome = true ↔
    ((s.object id).element? key).isSome = true ∨ ((s.object id).own? key).isSome = true := by
  cases hm : (s.object id).maps key with
  | false => rw [ownProperty?_of_not_maps hm, Option.isSome_or, Bool.or_eq_true]
  | true =>
    rw [Object.element?_of_maps hm]
    unfold Object.maps at hm
    split at hm
    · rename_i shared hk
      obtain ⟨n, rfl⟩ := ArgumentMap.eq_index hm
      obtain ⟨name, hname⟩ := Option.isSome_iff_exists.mp hm
      have hname : (shared.names[n.val]?).join = some name := hname
      simp only [ownProperty?, hk, hname]
      cases (s.object id).own? (.index n) with
      | none => simp
      | some p =>
        dsimp only
        split <;> simp
    · cases hm

end State

namespace Object
variable {o : Object} {order : List PropertyKey}

theorem ownKeys_eq (hshort : ∀ text, o.kind = .string text → Text.length16 text ≤ indexLimit)
    (h : o.properties.Records order) : ∃ indices : List ArrayIndex,
      o.ownKeys = indices.map .index ++ order.filter (!·.isSymbol) ++ order.filter (·.isSymbol) ∧
      indices.Pairwise (· < ·) := by
  have hkeys : o.properties.keys = o.properties.indexed.keys.map .index ++
      order.filter (!·.isSymbol) ++ order.filter (·.isSymbol) := by rw [← h.names]; rfl
  have hsorted : o.properties.indexed.keys.Pairwise (· < ·) :=
    Std.TreeMap.ordered_keys.imp compare_lt_iff_lt.mp
  unfold ownKeys
  split
  · rename_i text hk
    have hle := hshort text hk
    have hlength : min (Text.length16 text) (indexLimit + 1) = Text.length16 text :=
      min_eq_left (Nat.le_succ_of_le hle)
    have helements : (List.range (Text.length16 text)).map PropertyKey.ofNat =
        ((List.finRange (Text.length16 text)).map (Fin.castLE hle)).map .index := by
      rw [← List.map_coe_finRange_eq_range, List.map_map, List.map_map]
      refine List.map_congr_left fun i _ => ?_
      exact dif_pos (Nat.lt_of_lt_of_le i.isLt hle)
    refine ⟨(List.finRange (Text.length16 text)).map (Fin.castLE hle) ++
      o.properties.indexed.keys.filter (Text.length16 text ≤ ·.val), ?_, ?_⟩
    · have hnamed {p q : PropertyKey → Bool} (hq : ∀ key, (∀ n, key ≠ .index n) → q key = true) :
          (order.filter p).filter q = order.filter p := by
        refine List.filter_eq_self.mpr fun key hkey => hq key ?_
        rintro n rfl
        exact h.distinct.named n (h.names ▸ List.mem_of_mem_filter hkey)
      dsimp only
      rw [hlength, hkeys, List.filter_append, List.filter_append, hnamed, hnamed, helements, List.filter_map,
        List.map_append, List.append_assoc, List.append_assoc, List.append_assoc]
      · rfl
      all_goals
        intro key hkey
        cases key with
        | index n => exact absurd rfl (hkey n)
        | _ => rfl
    · refine List.pairwise_append.mpr ⟨?_, hsorted.filter _, fun i hi j hj => ?_⟩
      · exact (List.pairwise_lt_finRange _).map _ fun i j hij => hij
      · obtain ⟨i, -, rfl⟩ := List.mem_map.mp hi
        have hj := (List.mem_filter.mp hj).2
        exact Fin.lt_def.mpr (Nat.lt_of_lt_of_le i.isLt (of_decide_eq_true hj))
  · exact ⟨_, hkeys, hsorted⟩

end Object

namespace State
variable {s : State} {id : ObjectId} {order : List PropertyKey} {key : PropertyKey}

theorem isSome_element? {o : Object} {n : ArrayIndex} :
    (o.element? (.index n)).isSome = true ↔ ∃ text, o.kind = .string text ∧ n.val < Text.length16 text := by
  unfold Object.element?
  split
  · rename_i text hk
    simp [stringElement?, Text.length16_eq, hk]
  · rename_i hk
    simp only [Option.isSome_none, Bool.false_eq_true, false_iff]
    rintro ⟨text, htext, -⟩
    exact hk text htext

theorem mem_ownKeys_iff (hshort : ∀ text, (s.object id).kind = .string text → Text.length16 text ≤ indexLimit)
    (h : (s.object id).properties.Distinct) :
    key ∈ (s.object id).ownKeys ↔ (s.ownProperty? id key).isSome = true := by
  constructor
  · intro hkey
    rw [isSome_ownProperty?]
    unfold Object.ownKeys at hkey
    split at hkey
    · rename_i text hk
      rcases List.mem_append.mp hkey with helement | hkey
      · obtain ⟨n, hn, rfl⟩ := List.mem_map.mp helement
        have hn := (lt_min_iff.mp (List.mem_range.mp hn)).1
        refine .inl ?_
        rw [PropertyKey.ofNat, dif_pos (Nat.lt_of_lt_of_le hn (hshort text hk)), isSome_element?]
        exact ⟨text, hk, hn⟩
      · exact .inr (h.mem_keys.mp (List.mem_of_mem_filter hkey))
    · exact .inr (h.mem_keys.mp hkey)
  · intro hp
    obtain ⟨p, hp⟩ := Option.isSome_iff_exists.mp hp
    exact mem_ownKeys hp

end State

/-- Own keys are listed in order. After any history of definitions and deletions, the own keys of an object
that is no proxy are its indices by size, the elements of a string among them, and then its strings and its
symbols, each in the order of their last creation. No key is listed twice, and those are listed under which
a property is found. A string object is expected to have no more elements than there are indices. -/
theorem own_keys_in_order {s : State} {id : ObjectId} {order : List PropertyKey} (h : s.History id order)
    (hshort : ∀ text, (s.object id).kind = .string text → Text.length16 text ≤ indexLimit)
    (m : Machine) (c : Context) : ∃ (keys : List PropertyKey) (indices : List ArrayIndex),
      Exec.ownKeys id m c s = .value keys s ∧ keys.Nodup ∧
      (∀ key, key ∈ keys ↔ ∃ p, Exec.getOwn id key m c s = .value (some p) s) ∧
      keys = indices.map .index ++ order.filter (!·.isSymbol) ++ order.filter (·.isSymbol) ∧
      indices.Pairwise (· < ·) ∧ ∀ n, .index n ∉ order := by
  obtain ⟨hid, hproxy, -, hrecords⟩ := h.recorded
  obtain ⟨indices, hkeys, hsorted⟩ := Object.ownKeys_eq hshort hrecords
  refine ⟨_, indices, Exec.ownKeys_ordinary hproxy, ?_, fun key => ?_, hkeys, hsorted, fun n hn => ?_⟩
  · exact Object.Listable.ownKeys_nodup ⟨hrecords.distinct, hshort⟩
  · rw [State.mem_ownKeys_iff hshort hrecords.distinct, Option.isSome_iff_exists, Exec.getOwn_ordinary hproxy]
    simp
  · exact hrecords.distinct.named n (hrecords.names ▸ hn)

/-- A string as an object, such as one is created. -/
def State.withWrapper (text : String) : State := { (default : State) with
  heap := #[{ prototype := none, kind := .string text
              properties := ({} : PropertyTable).put (.name "length")
                (.constant (.ofNat (Text.length16 text))) }] }

theorem State.ownProperty?_withWrapper {text : String} :
    (withWrapper text).ownProperty? ⟨0⟩ (.ofNat indexLimit) = none := by
  have hkey : PropertyKey.ofNat indexLimit = .name (Number.natText indexLimit) := dif_neg (Nat.lt_irrefl _)
  have hother : (({} : PropertyTable).put (.name "length") (.constant (.ofNat (Text.length16 text)))).get?
      (.name (Number.natText indexLimit)) = none := by
    rw [PropertyTable.get?_put, if_neg (by decide), PropertyTable.get?_empty]
  rw [hkey]
  exact hother

theorem State.lists_withWrapper {text : String} (hlong : indexLimit < Text.length16 text) :
    ∃ keys key, (withWrapper text).History ⟨0⟩ [.name "length"] ∧
      Exec.ownKeys ⟨0⟩ (machine 1) default (withWrapper text) = .value keys (withWrapper text) ∧
      key ∈ keys ∧ Exec.getOwn ⟨0⟩ key (machine 1) default (withWrapper text) = .value none (withWrapper text) := by
  let fields : List (PropertyKey × Property) := [(.name "length", .constant (.ofNat (Text.length16 text)))]
  have hborn : (withWrapper text).History ⟨0⟩ (fields.foldl (fun order e => noted order e.1) []) :=
    .born Nat.zero_lt_one rfl nofun rfl
  refine ⟨_, .ofNat indexLimit, hborn, Exec.ownKeys_ordinary rfl, Object.element_mem_ownKeys rfl hlong, ?_⟩
  rw [Exec.getOwn_ordinary rfl, ownProperty?_withWrapper]

/-- A string object of more elements than there are indices lists the name of an element under which no
property is found. -/
theorem own_keys_beyond_indices : ∃ text keys key,
    (State.withWrapper text).History ⟨0⟩ [.name "length"] ∧
    Exec.ownKeys ⟨0⟩ (machine 1) default (.withWrapper text) = .value keys (.withWrapper text) ∧
    key ∈ keys ∧ Exec.getOwn ⟨0⟩ key (machine 1) default (.withWrapper text) = .value none (.withWrapper text) :=
  ⟨String.ofList (List.replicate (indexLimit + 1) 'a'), State.lists_withWrapper <| by
    rw [Text.length16_replicate]
    exact Nat.lt_succ_self _⟩

def State.withPair : State := { (default : State) with
  heap := #[{ prototype := none
              properties := [(.name "a", .plain .null), (.name "b", .plain .null)].foldl
                (fun t e => t.put e.1 e.2) {} }] }

/-- The first of two properties is deleted and created again. -/
theorem own_keys_in_order_recreated : ∃ s, ∃ indices : List ArrayIndex,
    s.History ⟨0⟩ [.name "b", .name "a"] ∧ Exec.ownKeys ⟨0⟩ (machine 1) default s =
      .value (indices.map .index ++ [.name "b", .name "a"]) s := by
  obtain ⟨s, hrun⟩ := Step.outcome_of_answers (b := true) (x := (do
    let deleted ← Exec.delete ⟨0⟩ (.name "a")
    let defined ← Exec.define ⟨0⟩ (.name "a") (.plain .null)
    return deleted && defined : Exec Bool) (machine 1) default .withPair) (by decide +kernel)
  obtain ⟨deleted, s₁, hdelete, hrun⟩ := Exec.gives_bind.mp hrun
  obtain ⟨defined, s₂, hdefine, hrun⟩ := Exec.gives_bind.mp hrun
  obtain ⟨hboth, rfl⟩ := Exec.gives_pure.mp hrun
  obtain ⟨rfl, rfl⟩ := Bool.and_eq_true_iff.mp hboth.symm
  let fields : List (PropertyKey × Property) := [(.name "a", .plain .null), (.name "b", .plain .null)]
  have hborn : State.withPair.History ⟨0⟩ (fields.foldl (fun order e => noted order e.1) []) :=
    .born (by decide) rfl nofun rfl
  have h : s.History ⟨0⟩ [.name "b", .name "a"] :=
    (hborn.delete hdelete).define (fun hl => absurd hl.2.1 (by decide)) hdefine
  have hkind : (s.object ⟨0⟩).kind.name = "Object" :=
    ((Exec.leads_of_gives (define_safe World.met_bare) hdefine).name_eq (hborn.delete hdelete).recorded.size).trans
      ((Exec.leads_of_gives delete_safe hdelete).name_eq hborn.recorded.size)
  obtain ⟨keys, indices, hkeys, -, -, rfl, -⟩ := own_keys_in_order h
    (fun text hk => absurd (hk ▸ hkind) (by simp [ObjectKind.name])) (machine 1) default
  exact ⟨s, indices, h, by simpa [PropertyKey.isSymbol] using hkeys⟩

end EcmaScript
