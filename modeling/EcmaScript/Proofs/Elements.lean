import EcmaScript.Library.Array
import EcmaScript.Proofs.Array
import EcmaScript.Proofs.Outcome
import EcmaScript.Proofs.Prototype
import EcmaScript.Proofs.Proxy.Trap
import EcmaScript.Proofs.Super
import EcmaScript.Proofs.Whole

/-! Arrays of plain elements and holes, which are lists: what reading and writing them comes to. -/
namespace EcmaScript
open Relation

/-- A hole is no property, and an element is one that can change in every way. -/
inductive Property.Shows : Option Property → Option Value → Prop where
  | hole : Shows none none
  | element (v : Value) (enumerable : Bool) : Shows (some (.data v true enumerable true)) (some v)

namespace Object
variable {o o' : Object} {n : Nat} {f : Nat → Option Value}

/-- An array of length `n` that can grow and shrink, with an element or a hole at every index. -/
structure Stores (o : Object) (n : Nat) (f : Nat → Option Value) : Prop extends o.IsArray n true where
  extensible : o.extensible = true
  shows : ∀ i : ArrayIndex, Property.Shows (o.own? (.index i)) (f i.val)

def Holds (o : Object) (items : List (Option Value)) : Prop :=
  o.Stores items.length fun i => (items[i]?).join

namespace Stores

theorem isProxy_eq (h : o.Stores n f) : o.isProxy = false := by simp [isProxy, h.kind]

theorem lengthWritable_eq (h : o.Stores n f) : o.lengthWritable = true := by
  simp [lengthWritable, h.length, Property.data]

theorem eq_none (h : o.Stores n f) {i : ArrayIndex} (hi : n ≤ i.val) : f i.val = none := by
  have hshows := h.shows i
  cases hown : o.own? (.index i) with
  | none =>
    rw [hown] at hshows
    generalize f i.val = v at hshows
    cases hshows
    rfl
  | some p => exact absurd (h.element i (by simp [hown])) (Nat.not_lt.mpr hi)

/-- Only the elements below the limit count. -/
theorem congr {f' : Nat → Option Value} (h : o.Stores n f) (hf : ∀ i < indexLimit, f' i = f i) :
    o.Stores n f' where
  toIsArray := h.toIsArray
  extensible := h.extensible
  shows i := by
    rw [hf i.val i.isLt]
    exact h.shows i

theorem put_element {i : ArrayIndex} {v : Value} {e : Bool} (h : o.Stores n f) (hi : i.val < n) :
    (o.put (.index i) (.data v true e true)).Stores n (Function.update f i.val (some v)) where
  toIsArray := h.toIsArray.put_element hi
  extensible := h.extensible
  shows j := by
    rw [own?_put]
    by_cases hj : j = i
    · rw [if_pos (congrArg _ hj), hj, Function.update_self]
      exact .element v e
    · rw [if_neg (by simpa using hj), Function.update_of_ne fun he => hj (Fin.ext he)]
      exact h.shows j

/-- An element behind the end makes the array longer. -/
theorem put_behind {i : ArrayIndex} {v : Value} {e : Bool} (h : o.Stores n f) (hi : n ≤ i.val) :
    ((o.put (.index i) (.data v true e true)).put lengthKey
      (.data (.ofNat (i.val + 1)) true false false)).Stores (i.val + 1)
        (Function.update f i.val (some v)) where
  kind := h.kind
  lt := by
    have := i.isLt
    unfold indexLimit at this
    omega
  length := by rw [own?_put, if_pos rfl]
  element j hj := by
    rw [own?_put, if_neg (by simp [lengthKey]), own?_put] at hj
    split at hj
    · rename_i he
      cases he
      exact Nat.lt_succ_self _
    · exact Nat.lt_succ_of_lt (Nat.lt_of_lt_of_le (h.element j hj) hi)
  extensible := h.extensible
  shows j := by
    rw [own?_put, if_neg (by simp [lengthKey]), own?_put]
    by_cases hj : j = i
    · rw [if_pos (congrArg _ hj), hj, Function.update_self]
      exact .element v e
    · rw [if_neg (by simpa using hj), Function.update_of_ne fun he => hj (Fin.ext he)]
      exact h.shows j

/-- Assignment overwrites an element and fills a hole. -/
theorem defineElement (h : o.Stores n f) (i : ArrayIndex) (v : Value) {d : Descriptor}
    (hd : o.own? (.index i) = none ∧ d = .plain v ∨
      (o.own? (.index i)).isSome = true ∧ d = { value := some v }) :
    ∃ o', o.defineElement? i d = some o' ∧
      o'.Stores (max n (i.val + 1)) (Function.update f i.val (some v)) := by
  obtain ⟨e, hdefine⟩ : ∃ e, o.define? (.index i) d = some (o.put (.index i) (.data v true e true)) := by
    rcases hd with ⟨hown, rfl⟩ | ⟨hown, rfl⟩
    · exact ⟨true, by simp [define?, hown, h.extensible, Descriptor.plain, Descriptor.data,
        Descriptor.toProperty, Descriptor.isAccessor, Property.data]⟩
    · have hshows := h.shows i
      obtain ⟨p, hp⟩ := Option.isSome_iff_exists.mp hown
      rw [hp] at hshows
      cases hv : f i.val with
      | none =>
        rw [hv] at hshows
        cases hshows
      | some w =>
        rw [hv] at hshows
        cases hshows with
        | element _ e =>
          exact ⟨e, by simp [define?, hp, Property.data, Descriptor.apply, Descriptor.applySlot,
            Descriptor.isAccessor, Descriptor.isData]⟩
  unfold Object.defineElement?
  simp only [h.arrayLength_eq, h.lengthWritable_eq, hdefine, Bool.not_true, Bool.and_false,
    Bool.false_eq_true, ↓reduceIte]
  split
  · rename_i hle
    rw [Nat.max_eq_right (by omega)]
    exact ⟨_, rfl, h.put_behind hle⟩
  · rename_i hlt
    rw [Nat.max_eq_left (by omega)]
    exact ⟨_, rfl, h.put_element (by omega)⟩

theorem erase (h : o.Stores n f) (i : ArrayIndex) :
    ({ o with properties := o.properties.erase (.index i) } : Object).Stores n
      (Function.update f i.val none) where
  toIsArray := by
    refine h.toIsArray.congr rfl ?_ fun j hj => ?_
    · rw [own?_erase, if_neg (by simp [lengthKey])]
    · rw [own?_erase] at hj
      split at hj
      · cases hj
      · exact hj
  extensible := h.extensible
  shows j := by
    rw [own?_erase]
    by_cases hj : j = i
    · rw [if_pos (congrArg _ hj), hj, Function.update_self]
      exact .hole
    · rw [if_neg (by simpa using hj), Function.update_of_ne fun he => hj (Fin.ext he)]
      exact h.shows j

theorem dropElements (h : o.Stores n f) (k : Nat) (is : List ArrayIndex) :
    (Object.dropElements k is o).1 = k ∧
      (Object.dropElements k is o).2.Stores n fun j => if ∃ i ∈ is, i.val = j then none else f j := by
  induction is generalizing o f with
  | nil => exact ⟨rfl, by simpa [Object.dropElements] using h⟩
  | cons i rest ih =>
    have hshows := h.shows i
    unfold Object.dropElements
    cases hp : o.own? (.index i) with
    | none =>
      obtain ⟨hfst, hsnd⟩ := ih h
      refine ⟨hfst, hsnd.congr fun j hj => ?_⟩
      rw [hp] at hshows
      by_cases hji : j = i.val
      · subst hji
        generalize f i.val = v at hshows
        cases hshows
        simp
      · simp [Ne.symm hji]
    | some p =>
      rw [hp] at hshows
      generalize hv : f i.val = v at hshows
      cases hshows with
      | element v e =>
        obtain ⟨hfst, hsnd⟩ := ih (h.erase i)
        dsimp only
        rw [if_pos (show (Property.data v true e true).configurable = true from rfl)]
        refine ⟨hfst, hsnd.congr fun j hj => ?_⟩
        by_cases hji : j = i.val
        · simp [hji]
        · simp [Ne.symm hji, Function.update_of_ne hji]

theorem define_length (h : o.Stores n f) (k : Nat) :
    o.define? lengthKey { value := some (.ofNat k) } =
      some (o.put lengthKey (.data (.ofNat k) true false false)) := by
  simp [define?, h.length, Property.data, Descriptor.allowedOn, Descriptor.isGeneric,
    Descriptor.isAccessor, Descriptor.isData, Descriptor.apply, Descriptor.applySlot,
    Property.isAccessor]

theorem put_length (h : o.Stores n f) {k : Nat} (hk : k < 2 ^ 32)
    (hbehind : ∀ i : ArrayIndex, k ≤ i.val → f i.val = none) :
    (o.put lengthKey (.data (.ofNat k) true false false)).Stores k f := by
  have hown (i : ArrayIndex) : (o.put lengthKey (.data (.ofNat k) true false false)).own?
      (.index i) = o.own? (.index i) := by
    rw [own?_put, if_neg (by simp [lengthKey])]
  refine ⟨h.toIsArray.put_length hk fun i hi => ?_, h.extensible, fun i => ?_⟩
  · refine Nat.lt_of_not_le fun hle => ?_
    have hshows := h.shows i
    rw [hbehind i hle] at hshows
    generalize o.own? (.index i) = p at hshows hi
    cases hshows
    cases hi
  · rw [hown]
    exact h.shows i

theorem exists_indicesFrom {k : Nat} {i : ArrayIndex} :
    (∃ j ∈ o.properties.indicesFrom k, j.val = i.val) ↔
      k ≤ i.val ∧ (o.own? (.index i)).isSome = true := by
  refine Iff.trans ⟨?_, fun hi => ⟨i, hi, rfl⟩⟩ PropertyTable.mem_indicesFrom
  rintro ⟨j, hj, he⟩
  rwa [← Fin.ext he]

theorem eq_none_of_dropped (h : o.Stores n f) {k : Nat} (i : ArrayIndex) (hi : k ≤ i.val) :
    (if ∃ j ∈ o.properties.indicesFrom k, j.val = i.val then none else f i.val) = none := by
  split
  · rfl
  · rename_i hnot
    have hshows := h.shows i
    rw [exists_indicesFrom] at hnot
    cases hp : o.own? (.index i) with
    | none =>
      rw [hp] at hshows
      generalize f i.val = v at hshows
      cases hshows
      rfl
    | some p => exact absurd ⟨hi, by simp [hp]⟩ hnot

theorem defineLength (h : o.Stores n f) {k : Nat} (hk : k < 2 ^ 32) :
    (o.defineLength k { value := some (.ofNat k) }).1 = true ∧
      (o.defineLength k { value := some (.ofNat k) }).2.Stores k fun i => if i < k then f i else none := by
  unfold Object.defineLength
  simp only [h.arrayLength_eq, h.lengthWritable_eq, Bool.not_true, Bool.false_eq_true, ↓reduceIte]
  split
  · rename_i hle
    rw [h.define_length]
    refine ⟨rfl, (h.put_length hk fun i hi => h.eq_none (hle.trans hi)).congr fun i hi => ?_⟩
    split
    · rfl
    · exact (h.eq_none (i := ⟨i, hi⟩) (by dsimp only; omega)).symm
  · obtain ⟨hfst, hsnd⟩ := h.dropElements k (o.properties.indicesFrom k)
    have hwritable : (if (none : Option Bool) == some false then some false else none) =
        (none : Option Bool) := rfl
    simp only [hfst, hwritable, hsnd.define_length, Option.getD_some, beq_self_eq_true]
    refine ⟨trivial, (hsnd.put_length hk h.eq_none_of_dropped).congr fun i hi => ?_⟩
    split
    · rw [if_neg]
      rw [exists_indicesFrom (i := ⟨i, hi⟩)]
      dsimp only
      omega
    · exact (h.eq_none_of_dropped ⟨i, hi⟩ (by dsimp only; omega)).symm

end Stores
end Object

namespace State
variable {s s' s'' : State} {id : ObjectId} {n : Nat} {f : Nat → Option Value}

/-- No object along the prototypes is a proxy or has an indexed property. -/
def Unindexed (s : State) (id : ObjectId) : Prop :=
  ∀ p, TransGen s.Inherits id p → p ≠ id →
    (s.object p).isProxy = false ∧ ∀ i, s.ownProperty? p (.index i) = none

/-- An object is an array that stores elements, and nothing shows through its holes. -/
structure Keeps (s : State) (id : ObjectId) (n : Nat) (f : Nat → Option Value) : Prop where
  stores : (s.object id).Stores n f
  unindexed : s.Unindexed id

def Lists (s : State) (id : ObjectId) (items : List (Option Value)) : Prop :=
  s.Keeps id items.length fun i => (items[i]?).join

theorem Lists.holds {items : List (Option Value)} (h : s.Lists id items) :
    (s.object id).Holds items := h.stores

theorem Keeps.lists {items : List (Option Value)} (h : s.Keeps id items.length f)
    (hf : ∀ i < indexLimit, (items[i]?).join = f i) : s.Lists id items :=
  ⟨h.stores.congr hf, h.unindexed⟩

def Rewrites (s : State) (id : ObjectId) (s' : State) : Prop :=
  ∃ o, (s.object id).SameBut o ∧ s' = s.replace id o

theorem replace_self : s.replace id (s.object id) = s := by
  have hheap : s.heap.setIfInBounds id.index (s.object id) = s.heap := by
    apply Array.ext_getElem?
    intro i
    simp only [object, Array.getD_eq_getD_getElem?, Array.getElem?_setIfInBounds]
    grind
  rw [replace, hheap]

theorem replace_replace {o o' : Object} : (s.replace id o).replace id o' = s.replace id o' := by
  simp [replace]

theorem Rewrites.refl : s.Rewrites id s := ⟨_, .refl, (replace_self).symm⟩

theorem Rewrites.trans (hid : id.index < s.heap.size) (h : s.Rewrites id s') (h' : s'.Rewrites id s'') :
    s.Rewrites id s'' := by
  obtain ⟨o, ho, rfl⟩ := h
  obtain ⟨o', ho', rfl⟩ := h'
  rw [object_replace_self hid] at ho'
  exact ⟨o', ho.trans ho', replace_replace⟩

theorem Rewrites.sameBut (h : s.Rewrites id s') (p : ObjectId) :
    (s.object p).SameBut (s'.object p) := by
  obtain ⟨o, ho, rfl⟩ := h
  rw [object_replace]
  split
  · rename_i hp
    rw [hp.1]
    exact ho
  · exact .refl

theorem Rewrites.unindexed (h : s.Rewrites id s') (hu : s.Unindexed id) : s'.Unindexed id := by
  have hinherits : s'.Inherits = s.Inherits := by
    funext a b
    have hsame := h.sameBut a
    have hprototype : (s'.object a).prototype = (s.object a).prototype := by
      unfold Object.SameBut at hsame
      rw [hsame]
    have hproxy : (s'.object a).isProxy = (s.object a).isProxy := by
      rw [Object.isProxy, Object.isProxy, hsame.kind_eq]
    unfold Inherits parent?
    rw [hprototype, hproxy]
  intro p hp hne
  rw [hinherits] at hp
  obtain ⟨o, -, rfl⟩ := h
  unfold ownProperty?
  rw [object_replace_ne hne]
  exact hu p hp hne

theorem ownProperty?_array {key : PropertyKey} (hk : (s.object id).kind = .array) :
    s.ownProperty? id key = (s.object id).own? key := by
  simp [ownProperty?, hk]

theorem lookup_own_array {key : PropertyKey} {p : Property} (hk : (s.object id).kind = .array)
    (hp : (s.object id).own? key = some p) : s.lookup id key = .found p :=
  lookup_own (by simp [Object.isProxy, hk]) (by rw [ownProperty?_array hk, hp])

theorem lookup_hole {i : ArrayIndex} (hu : s.Unindexed id) (hk : (s.object id).kind = .array)
    (hp : (s.object id).own? (.index i) = none) : s.lookup id (.index i) = .absent := by
  suffices hfrom : ∀ fuel x, ReflTransGen s.Inherits id x →
      s.lookupFrom (.index i) fuel x = .absent from hfrom _ _ .refl
  intro fuel
  induction fuel with
  | zero => exact fun _ _ => rfl
  | succ fuel ih =>
    intro x hx
    have hnone : (s.object x).isProxy = false ∧ s.ownProperty? x (.index i) = none := by
      by_cases hne : x = id
      · rw [hne, ownProperty?_array hk]
        exact ⟨by simp [Object.isProxy, hk], hp⟩
      · rcases reflTransGen_iff_eq_or_transGen.mp hx with heq | htrans
        · exact absurd heq hne
        · exact ⟨(hu x htrans hne).1, (hu x htrans hne).2 i⟩
    have hnext : ∀ parent, (s.object x).prototype = some parent →
        s.lookupFrom (.index i) fuel parent = .absent := fun parent hparent =>
      ih parent (hx.tail (by simp [Inherits, parent?, hnone.1, hparent]))
    unfold lookupFrom
    dsimp only
    split
    · rename_i hkind
      simp [Object.isProxy, hkind] at hnone
    · rw [hnone.2]
      dsimp only
      cases hparent : (s.object x).prototype with
      | none => rfl
      | some parent => exact hnext parent hparent

namespace Keeps

theorem size_lt (h : s.Keeps id n f) : id.index < s.heap.size :=
  lt_of_kind (by simp [h.stores.kind])

theorem lookup_index (h : s.Keeps id n f) (i : ArrayIndex) :
    (f i.val = none ∧ s.lookup id (.index i) = .absent) ∨
      ∃ v e, f i.val = some v ∧ s.lookup id (.index i) = .found (.data v true e true) := by
  have hshows := h.stores.shows i
  cases hp : (s.object id).own? (.index i) with
  | none =>
    rw [hp] at hshows
    generalize f i.val = v at hshows
    cases hshows
    exact .inl ⟨rfl, lookup_hole h.unindexed h.stores.kind hp⟩
  | some p =>
    rw [hp] at hshows
    generalize f i.val = v at hshows
    cases hshows with
    | element v e => exact .inr ⟨v, e, rfl, lookup_own_array h.stores.kind hp⟩

end Keeps
end State


def Context.MayChange (c : Context) (id : ObjectId) : Prop :=
  c.isDryRun = true → c.firstObject ≤ id.index

namespace Exec
variable {m : Machine} {c : Context} {s : State} {id : ObjectId} {n i : Nat} {f : Nat → Option Value}

theorem checkObjectWrite_value (hc : c.MayChange id) (what : String) :
    checkObjectWrite id what m c s = .value () s := by
  have hnot : (c.isDryRun && decide (id.index < c.firstObject)) = false := by
    unfold Context.MayChange at hc
    cases hdry : c.isDryRun with
    | false => rfl
    | true => simpa using hc hdry
  rw [checkObjectWrite, bind_value (show context m c s = .value c s from rfl), hnot]
  rfl

theorem key_ofNat (hi : i < indexLimit) : PropertyKey.ofNat i = .index ⟨i, hi⟩ := dif_pos hi

theorem toLength_ofNat (hn : n < 2 ^ 52) : toLength (.ofNat n) m c s = .value n s := by
  have hwhole := (Number.isWhole_ofNat (n := n) (by omega)).toIntegerOrInfinity (by omega)
  rw [toLength, bind_value (show toIntegerOrInfinity (.ofNat n) m c s =
    .value (Number.toIntegerOrInfinity (Float.ofNat n)) s from rfl)]
  simp only [hwhole.le_iff Number.isWhole_zero, Number.isWhole_maxLength.lt_iff hwhole]
  rw [if_neg (show ¬ (2 ^ 53 - 1 : Int) < n by omega), hwhole.toNat_eq]
  split
  · rw [show n = 0 by omega]
    rfl
  · rfl

theorem toArrayLength_ofNat (hn : n < 2 ^ 32) : toArrayLength (.ofNat n) m c s = .value n s := by
  have hlength := Number.toNat_toUInt32 hn
  have hequal : (Float.ofNat n == (Number.toUInt32 (Float.ofNat n)).toFloat) = true := by
    rw [(Number.isWhole_ofNat (by omega)).beq_iff (Number.isWhole_ofUInt32 _), hlength]
  change (if (Float.ofNat n == (Number.toUInt32 (Float.ofNat n)).toFloat) = true then
    (pure (Number.toUInt32 (Float.ofNat n)).toNat : Exec Nat) else _) m c s = _
  rw [if_pos hequal, hlength]
  rfl

theorem putOf_done {key : PropertyKey} {v : Value} {s' : State}
    (h : setFor id key v (.object id) m c s = .value .done s') :
    putOf (.object id) key v true m c s = .value () s' := by
  change (setFor id key v (.object id) >>= _) m c s = _
  rw [bind_value h]
  rfl

theorem getFor_value {key : PropertyKey} {v this : Value} (h : (s.lookup id key).value? = some v) :
    getFor id key this m c s = .value v s := by
  rw [getFor, bind_value (show look (·.lookup id key) m c s = .value (s.lookup id key) s from rfl)]
  cases hl : s.lookup id key with
  | found p =>
    obtain ⟨slot, enumerable, configurable⟩ := p
    rw [hl] at h
    cases slot with
    | data =>
      cases h
      rfl
    | accessor => cases h
  | proxy => simp [hl, Lookup.value?] at h
  | absent =>
    rw [hl] at h
    cases h
    rfl

section Arrays
variable {w : Bool} (h : (s.object id).IsArray n w)
include h

theorem lengthOf_isArray : lengthOf id m c s = .value n s := by
  have hn := h.lt
  have hlookup : s.lookup id (.name "length") = .found (.data (.ofNat n) w false false) :=
    State.lookup_own_array h.kind h.length
  have hget : getNamed id "length" m c s = .value (.ofNat n) s := getFor_value (by rw [hlookup]; rfl)
  rw [lengthOf, bind_value hget, toLength_ofNat (by omega)]

theorem getIndex_isArray {v : Value} (hi : i < n)
    (hv : ∀ k : ArrayIndex, k.val = i → (s.object id).ownValue? (.index k) = some v) :
    getIndex id i m c s = .value v s := by
  have hlt : i < indexLimit := by
    have := h.lt
    unfold indexLimit
    omega
  obtain ⟨p, hp, hpv⟩ := Option.bind_eq_some_iff.mp (hv ⟨i, hlt⟩ rfl)
  rw [getIndex, key_ofNat hlt]
  exact getFor_value (by rw [State.lookup_own_array h.kind hp]; exact hpv)

end Arrays

section Reading
variable (h : s.Keeps id n f)
include h

theorem hasIndex_value (hi : i < indexLimit) : hasIndex id i m c s = .value (f i).isSome s := by
  rw [hasIndex, key_ofNat hi, has, bind_value (show look _ m c s = .value (s.lookup id _) s from rfl)]
  rcases h.lookup_index ⟨i, hi⟩ with ⟨hf, hl⟩ | ⟨v, e, hf, hl⟩ <;> rw [hl, hf] <;> rfl

theorem getIndex_value (hi : i < indexLimit) :
    getIndex id i m c s = .value ((f i).getD .undefined) s := by
  rw [getIndex, key_ofNat hi, get, getFor,
    bind_value (show look _ m c s = .value (s.lookup id _) s from rfl)]
  rcases h.lookup_index ⟨i, hi⟩ with ⟨hf, hl⟩ | ⟨v, e, hf, hl⟩ <;> rw [hl, hf] <;> rfl

theorem elementAt_value (hi : i < indexLimit) : elementAt id i m c s = .value (f i) s := by
  rw [elementAt, bind_value (hasIndex_value h hi)]
  cases hf : f i with
  | none => rfl
  | some v =>
    rw [Option.isSome_some, if_pos rfl, bind_value (getIndex_value h hi), hf]
    rfl

theorem lengthOf_value : lengthOf id m c s = .value n s := lengthOf_isArray h.stores.toIsArray

theorem receiver_value : receiver (.object id) m c s = .value (id, n) s := by
  rw [receiver, bind_value (show toObject (.object id) m c s = .value id s from rfl),
    bind_value (lengthOf_value h)]
  rfl

end Reading

section Writing
variable (hc : c.MayChange id) (h : s.Keeps id n f)
include hc h

theorem define_index_value {i : ArrayIndex} {d : Descriptor} {o : Object}
    (hd : (s.object id).defineElement? i d = some o) :
    define id (.index i) d m c s = .value true (s.replace id o) := by
  rw [define, bind_value (proxyOf_ordinary h.stores.isProxy_eq)]
  dsimp only
  rw [defineOrdinary, bind_value (checkObjectWrite_value hc _),
    bind_value (show object id m c s = .value (s.object id) s from rfl), h.stores.kind]
  simp [defineOnArray, replaceWith, hd, State.replace]

theorem assignOwn_index_value (hi : i < indexLimit) (v : Value) :
    ∃ o, (s.object id).SameBut o ∧ o.Stores (max n (i + 1)) (Function.update f i (some v)) ∧
      assignOwn (.index ⟨i, hi⟩) v (.object id) m c s = .value .done (s.replace id o) := by
  rw [assignOwn, bind_value (getOwn_ordinary h.stores.isProxy_eq),
    State.ownProperty?_array h.stores.kind]
  have hshows := h.stores.shows ⟨i, hi⟩
  cases hp : (s.object id).own? (.index ⟨i, hi⟩) with
  | none =>
    obtain ⟨o, hd, ho⟩ := h.stores.defineElement ⟨i, hi⟩ v (.inl ⟨hp, rfl⟩)
    refine ⟨o, Object.sameBut_defineElement? hd, ho, ?_⟩
    dsimp only
    rw [bind_value (define_index_value hc h hd)]
    rfl
  | some p =>
    obtain ⟨o, hd, ho⟩ := h.stores.defineElement ⟨i, hi⟩ v (.inr ⟨by simp [hp], rfl⟩)
    refine ⟨o, Object.sameBut_defineElement? hd, ho, ?_⟩
    rw [hp] at hshows
    generalize f i = w at hshows
    cases hshows with
    | element w e =>
      dsimp only [Property.data]
      rw [bind_value (define_index_value hc h hd)]
      rfl

theorem setIndex_value (hi : i < indexLimit) (v : Value) :
    ∃ s', setIndex id i v m c s = .value () s' ∧ s.Rewrites id s' ∧
      s'.Keeps id (max n (i + 1)) (Function.update f i (some v)) := by
  obtain ⟨o, hsame, ho, hassign⟩ := assignOwn_index_value (m := m) hc h hi v
  have hrewrites : s.Rewrites id (s.replace id o) := ⟨o, hsame, rfl⟩
  refine ⟨s.replace id o, ?_, hrewrites, ?_, hrewrites.unindexed h.unindexed⟩
  · have hset : setFor id (.index ⟨i, hi⟩) v (.object id) m c s = .value .done (s.replace id o) := by
      rw [setFor, bind_value (show look _ m c s = .value (s.lookup id _) s from rfl)]
      rcases h.lookup_index ⟨i, hi⟩ with ⟨-, hl⟩ | ⟨w, e, -, hl⟩ <;> rw [hl] <;> exact hassign
    rw [setIndex, key_ofNat hi]
    exact putOf_done hset
  · rw [State.object_replace_self h.size_lt]
    exact ho

theorem delete_index_value (hi : i < indexLimit) :
    ∃ o, (s.object id).SameBut o ∧ o.Stores n (Function.update f i none) ∧
      delete id (.index ⟨i, hi⟩) m c s = .value true (s.replace id o) := by
  have hshows := h.stores.shows ⟨i, hi⟩
  rw [delete, bind_value (proxyOf_ordinary h.stores.isProxy_eq)]
  dsimp only
  rw [bind_value (show object id m c s = .value (s.object id) s from rfl), h.stores.kind]
  cases hp : (s.object id).own? (.index ⟨i, hi⟩) with
  | none =>
    rw [hp] at hshows
    refine ⟨s.object id, .refl, h.stores.congr fun j hj => ?_, ?_⟩
    · by_cases hji : j = i
      · subst hji
        rw [Function.update_self]
        generalize f j = w at hshows
        cases hshows
        rfl
      · exact Function.update_of_ne hji _ _
    · rw [State.replace_self]
      rfl
  | some p =>
    rw [hp] at hshows
    generalize f i = w at hshows
    cases hshows with
    | element w e =>
      refine ⟨{ s.object id with properties := (s.object id).properties.erase (.index ⟨i, hi⟩) }, rfl,
        h.stores.erase ⟨i, hi⟩, ?_⟩
      change (checkObjectWrite id "delete" >>= _) m c s = _
      rw [bind_value (checkObjectWrite_value hc _)]
      change Step.value true { s with heap := s.heap.modify id.index _ } = _
      simp only [State.heap_modify, h.stores.kind, State.replace]

theorem deleteIndex_value (hi : i < indexLimit) :
    ∃ s', deleteIndex id i m c s = .value () s' ∧ s.Rewrites id s' ∧
      s'.Keeps id n (Function.update f i none) := by
  obtain ⟨o, hsame, ho, hdelete⟩ := delete_index_value (m := m) hc h hi
  have hrewrites : s.Rewrites id (s.replace id o) := ⟨o, hsame, rfl⟩
  refine ⟨s.replace id o, ?_, hrewrites, ?_, hrewrites.unindexed h.unindexed⟩
  · rw [deleteIndex, key_ofNat hi, bind_value hdelete]
    rfl
  · rw [State.object_replace_self h.size_lt]
    exact ho

theorem define_length_value {k : Nat} (hk : k < 2 ^ 32) :
    define id (.name "length") { value := some (.ofNat k) } m c s = .value true
      (s.replace id ((s.object id).defineLength k { value := some (.ofNat k) }).2) := by
  rw [define, bind_value (proxyOf_ordinary h.stores.isProxy_eq)]
  dsimp only
  rw [defineOrdinary, bind_value (checkObjectWrite_value hc _),
    bind_value (show object id m c s = .value (s.object id) s from rfl), h.stores.kind]
  dsimp only
  have hlength : defineOnArray id { value := some (.ofNat k) } (.name "length") =
      defineArrayLength id { value := some (.ofNat k) } := by
    simp [defineOnArray, Object.lengthKey]
  rw [hlength, defineArrayLength]
  dsimp only
  rw [bind_value (toArrayLength_ofNat hk)]
  change Step.value ((s.object id).defineLength k _).1 _ = _
  rw [(h.stores.defineLength hk).1]
  rfl

theorem setLength_value {k : Nat} (hk : k < 2 ^ 32) :
    ∃ s', setLength id k m c s = .value () s' ∧ s.Rewrites id s' ∧
      s'.Keeps id k fun i => if i < k then f i else none := by
  have ho := (h.stores.defineLength hk).2
  have hrewrites : s.Rewrites id (s.replace id ((s.object id).defineLength k
      { value := some (.ofNat k) }).2) := ⟨_, Object.sameBut_defineLength, rfl⟩
  refine ⟨_, ?_, hrewrites, ?_, hrewrites.unindexed h.unindexed⟩
  · refine putOf_done ?_
    have hlookup : s.lookup id (.name "length") = .found (.data (.ofNat n) true false false) :=
      State.lookup_own_array h.stores.kind h.stores.length
    rw [setFor, bind_value (show look _ m c s = .value (s.lookup id _) s from rfl), hlookup]
    dsimp only [Property.data]
    rw [assignOwn, bind_value (getOwn_ordinary h.stores.isProxy_eq),
      State.ownProperty?_array h.stores.kind, show (s.object id).own? (.name "length") =
        some (.data (.ofNat n) true false false) from h.stores.length]
    dsimp only [Property.data]
    rw [bind_value (define_length_value hc h hk)]
    rfl
  · rw [State.object_replace_self h.size_lt]
    exact ho

end Writing
end Exec

namespace Exec
variable {α β : Type} {m : Machine} {c : Context} {s : State} {id : ObjectId} {n : Nat}
  {f : Nat → Option Value}

/-- A loop that counts its turns: what holds before the first one and is kept by each of them holds
before the last one. -/
theorem loop_value {body : β → Exec (β ⊕ α)} {I : Nat → β → State → Prop} {Q : α → State → Prop}
    {b : β} (hn : n < m.fuel) (hI : I 0 b s)
    (turn : ∀ i b s, i < n → I i b s → ∃ b' s', body b m c s = .value (.inl b') s' ∧ I (i + 1) b' s')
    (last : ∀ b s, I n b s → ∃ a s', body b m c s = .value (.inr a) s' ∧ Q a s') :
    ∃ a s', loop b body m c s = .value a s' ∧ Q a s' := by
  suffices hfrom : ∀ fuel i b s, i ≤ n → n - i < fuel → I i b s →
      ∃ a s', Step.loop (fun b s => body b m c s) fuel b s = .value a s' ∧ Q a s' from
    hfrom m.fuel 0 b s (Nat.zero_le n) (by omega) hI
  intro fuel
  induction fuel with
  | zero => exact fun i b s _ hfuel _ => absurd hfuel (Nat.not_lt_zero _)
  | succ fuel ih =>
    intro i b s hi hfuel hI
    rw [Step.loop_succ]
    rcases Nat.lt_or_eq_of_le hi with hlt | rfl
    · obtain ⟨b', s', hturn, hI'⟩ := turn i b s hlt hI
      rw [hturn]
      exact ih (i + 1) b' s' hlt (by omega) hI'
    · obtain ⟨a, s', hlast, hQ⟩ := last b s hI
      rw [hlast]
      exact ⟨a, s', rfl, hQ⟩

theorem upTo_value {g : Nat → Exec Unit} {I : Nat → State → Prop} (hn : n < m.fuel) (hI : I 0 s)
    (turn : ∀ i s, i < n → I i s → ∃ s', g i m c s = .value () s' ∧ I (i + 1) s') :
    ∃ s', upTo n g m c s = .value () s' ∧ I n s' := by
  have hloop : ∃ u s', upTo n g m c s = .value u s' ∧ I n s' := by
    refine loop_value (I := fun i b s => b = i ∧ I i s) (Q := fun _ s => I n s) hn ⟨rfl, hI⟩ ?_ ?_
    · rintro i _ s hi ⟨rfl, hI⟩
      obtain ⟨s', hg, hI'⟩ := turn _ s hi hI
      refine ⟨_, s', ?_, rfl, hI'⟩
      rw [if_pos hi, bind_value hg]
      rfl
    · rintro _ s ⟨rfl, hI⟩
      refine ⟨(), s, ?_, hI⟩
      rw [if_neg (Nat.lt_irrefl _)]
      rfl
  obtain ⟨u, s', h, hI'⟩ := hloop
  exact ⟨s', h, hI'⟩

theorem foldlM_value {f : β → α → Exec β} {g : β → α → β} {l : List α} {b : β}
    (h : ∀ b a, f b a m c s = .value (g b a) s) : l.foldlM f b m c s = .value (l.foldl g b) s := by
  induction l generalizing b with
  | nil => rfl
  | cons a rest ih =>
    rw [List.foldlM_cons, bind_value (h b a)]
    exact ih

theorem collect_value {g : Nat → Exec α} {v : Nat → α} (hn : n < m.fuel)
    (hg : ∀ i < n, g i m c s = .value (v i) s) :
    collect n g m c s = .value ((List.range n).map v).toArray s := by
  have hloop : ∃ a s', collect n g m c s = .value a s' ∧
      a = ((List.range n).map v).toArray ∧ s' = s := by
    refine loop_value (I := fun i b s' => b = (i, ((List.range i).map v).toArray) ∧ s' = s)
      (Q := fun a s' => a = ((List.range n).map v).toArray ∧ s' = s) hn ⟨rfl, rfl⟩ ?_ ?_
    · rintro i _ _ hi ⟨rfl, rfl⟩
      refine ⟨_, _, ?_, rfl, rfl⟩
      dsimp only
      rw [if_pos hi, bind_value (hg i hi), List.range_succ, List.map_append, List.map_singleton,
        ← List.push_toArray]
      rfl
    · rintro _ _ ⟨rfl, rfl⟩
      refine ⟨_, _, ?_, rfl, rfl⟩
      dsimp only
      rw [if_neg (Nat.lt_irrefl _)]
      rfl
  obtain ⟨a, s', h, rfl, rfl⟩ := hloop
  exact h

variable {items : List (Option Value)}

theorem elements_value (h : s.Lists id items)
    (hm : 2 ^ 32 ≤ m.fuel) : elements id 0 items.length m c s = .value items.toArray s := by
  have hlt := h.stores.lt
  have hcollect := collect_value (m := m) (c := c) (s := s) (n := items.length)
    (g := fun i => elementAt id (0 + i)) (v := fun i => (items[i]?).join) (by omega) fun i hi => by
      rw [Nat.zero_add]
      exact elementAt_value h (by unfold indexLimit; omega)
  rw [elements, Nat.sub_zero, hcollect]
  congr 1
  refine Array.ext' (List.ext_getElem? fun i => ?_)
  rcases Nat.lt_or_ge i items.length with hi | hi
  · simp [hi]
  · simp [hi]

def storeAt (id : ObjectId) (i : Nat) : Option Value → Exec Unit
  | some v => setIndex id i v
  | none => deleteIndex id i

theorem storeAt_value (hc : c.MayChange id) (h : s.Keeps id n f) {i : Nat} (hi : i < indexLimit)
    (item : Option Value) : ∃ s', storeAt id i item m c s = .value () s' ∧ s.Rewrites id s' ∧
      ∃ n', s'.Keeps id n' (Function.update f i item) := by
  cases item with
  | none =>
    obtain ⟨s', hdelete, hrewrites, h'⟩ := deleteIndex_value (m := m) hc h hi
    exact ⟨s', hdelete, hrewrites, n, h'⟩
  | some v =>
    obtain ⟨s', hset, hrewrites, h'⟩ := setIndex_value (m := m) hc h hi v
    exact ⟨s', hset, hrewrites, _, h'⟩

theorem writeBack_eq {new : Array (Option Value)} : writeBack id new n =
    (do
      upTo new.size fun i => storeAt id i (new[i]?).join
      upTo (n - new.size) fun i => deleteIndex id (n - 1 - i)
      setLength id new.size) := rfl

/-- After as many turns as there are new elements, they stand before the old ones that are left. -/
theorem storeAll_value (new : Array (Option Value)) (hc : c.MayChange id) (h : s.Keeps id n f)
    (hm : 2 ^ 32 ≤ m.fuel) (hnew : new.size < 2 ^ 32) :
    ∃ s', upTo new.size (fun i => storeAt id i (new[i]?).join) m c s = .value () s' ∧
      s.Rewrites id s' ∧
      ∃ n', s'.Keeps id n' fun i => if i < new.size then (new[i]?).join else f i := by
  have hid := h.size_lt
  refine upTo_value (I := fun k s' => s.Rewrites id s' ∧
    ∃ n', s'.Keeps id n' fun i => if i < k then (new[i]?).join else f i) (by omega)
    ⟨.refl, n, by simpa using h⟩ fun k s' hk hI => ?_
  obtain ⟨hrewrites, n', h'⟩ := hI
  have hlimit : k < indexLimit := by unfold indexLimit; omega
  obtain ⟨s'', hstore, hrewrites', n'', h''⟩ := storeAt_value (m := m) hc h' hlimit (new[k]?).join
  refine ⟨s'', hstore, hrewrites.trans hid hrewrites', n'', h''.stores.congr fun i _ => ?_,
    h''.unindexed⟩
  rcases Nat.lt_trichotomy i k with hik | rfl | hik
  · rw [if_pos (by omega), Function.update_of_ne (by omega), if_pos hik]
  · rw [if_pos (by omega), Function.update_self]
  · rw [if_neg (by omega), Function.update_of_ne (by omega), if_neg (by omega)]

theorem deleteBehind_value {n' k : Nat} (hc : c.MayChange id) (h : s.Keeps id n' f)
    (hm : 2 ^ 32 ≤ m.fuel) (hn : n < 2 ^ 32) :
    ∃ s', upTo (n - k) (fun i => deleteIndex id (n - 1 - i)) m c s = .value () s' ∧
      s.Rewrites id s' ∧ ∃ f', s'.Keeps id n' f' ∧ ∀ i < k, f' i = f i := by
  have hid := h.size_lt
  refine upTo_value (I := fun _ s' => s.Rewrites id s' ∧
    ∃ f', s'.Keeps id n' f' ∧ ∀ i < k, f' i = f i) (by omega)
    ⟨.refl, f, h, fun i _ => rfl⟩ fun j s' hj hI => ?_
  obtain ⟨hrewrites, f', h', hf'⟩ := hI
  obtain ⟨s'', hdelete, hrewrites', h''⟩ := deleteIndex_value (m := m) hc h'
    (i := n - 1 - j) (by unfold indexLimit; omega)
  refine ⟨s'', hdelete, hrewrites.trans hid hrewrites', _, h'', fun i hi => ?_⟩
  rw [Function.update_of_ne (by omega), hf' i hi]

theorem writeBack_value (new : Array (Option Value)) (hc : c.MayChange id) (h : s.Keeps id n f)
    (hm : 2 ^ 32 ≤ m.fuel) (hnew : new.size < 2 ^ 32) :
    ∃ s', writeBack id new n m c s = .value () s' ∧ s.Rewrites id s' ∧
      s'.Lists id new.toList := by
  have hid := h.size_lt
  obtain ⟨s₁, hwrite, hrewrites, n₁, h₁⟩ := storeAll_value new hc h hm hnew
  have hid₁ := h₁.size_lt
  -- what is left behind the new end may go or stay: the length settles it
  obtain ⟨s₂, hclear, hrewrites₂, f₂, h₂, hf₂⟩ := deleteBehind_value (k := new.size) hc h₁ hm h.stores.lt
  obtain ⟨s₃, hlength, hrewrites₃, h₃⟩ := setLength_value (m := m) hc h₂ hnew
  refine ⟨s₃, ?_, hrewrites.trans hid (hrewrites₂.trans hid₁ hrewrites₃), h₃.lists fun i _ => ?_⟩
  · rw [writeBack_eq, bind_value hwrite, bind_value hclear, hlength]
  · rw [Array.getElem?_toList]
    split
    · rename_i hi
      rw [hf₂ i hi, if_pos hi]
    · rename_i hi
      simp [Nat.le_of_not_lt hi]

end Exec

namespace PropertyTable
open Exec

theorem get?_sparseElements {items : Array (Option Value)} {n : ArrayIndex} :
    (sparseElements items).1.get? (.index n) = ((items[n.val]?).join).map .plain := by
  refine ((Array.foldl_induction (motive := fun i (b : PropertyTable × Nat) => b.2 = i ∧
    ∀ n : ArrayIndex, b.1.get? (.index n) =
      if n.val < i then ((items[n.val]?).join).map .plain else none)
    ⟨rfl, fun n => by simp⟩ fun i b hb => ?_).2 n).trans ?_
  · obtain ⟨hcount, hb⟩ := hb
    have hlt {n : ArrayIndex} (hn : n.val ≠ i.val) : n.val < i.val + 1 ↔ n.val < i.val := by omega
    cases hitem : items[i] with
    | none =>
      refine ⟨congrArg (· + 1) hcount, fun n => ?_⟩
      have hitem : items[i.val] = none := hitem
      by_cases hn : n.val = i.val
      · simp [hb n, hn, hitem]
      · simp [hb n, hlt hn]
    | some v =>
      refine ⟨congrArg (· + 1) hcount, fun n => ?_⟩
      have hitem : items[i.val] = some v := hitem
      rw [get?_put, hb n, hcount]
      unfold PropertyKey.ofNat
      split
      · simp only [PropertyKey.index.injEq, Fin.ext_iff]
        by_cases hn : n.val = i.val
        · simp [hn, hitem]
        · simp [hn, hlt hn]
      · have := n.isLt
        simp [hlt (n := n) (by omega)]
  · split
    · rfl
    · rename_i h
      simp [Array.getElem?_eq_none (Nat.le_of_not_lt h)]

end PropertyTable

namespace Object

/-- An array of elements and holes, whose length may be fixed. -/
def ofItems (items : Array (Option Value)) (writable : Bool) (prototype : ObjectId) : Object where
  kind := .array
  prototype := some prototype
  properties := (Exec.sparseElements items).1.put lengthKey
    (.data (.ofNat items.size) writable false false)

variable {items : Array (Option Value)} {writable : Bool} {prototype : ObjectId}

theorem own?_ofItems {i : ArrayIndex} :
    (ofItems items writable prototype).own? (.index i) = ((items[i.val]?).join).map .plain := by
  rw [own?, ofItems, PropertyTable.get?_put, if_neg (by simp [lengthKey]),
    PropertyTable.get?_sparseElements]

theorem isArray_ofItems (h : items.size < 2 ^ 32) :
    (ofItems items writable prototype).IsArray items.size writable where
  kind := rfl
  lt := h
  length := by rw [own?, ofItems, PropertyTable.get?_put, if_pos rfl]
  element i hi := by
    rw [own?_ofItems] at hi
    refine Nat.lt_of_not_le fun hle => ?_
    simp [Array.getElem?_eq_none hle] at hi

theorem shows_ofItems (items : Array (Option Value)) (writable : Bool) (prototype : ObjectId)
    {i : ArrayIndex} :
    Property.Shows ((ofItems items writable prototype).own? (.index i)) (items[i.val]?).join := by
  rw [own?_ofItems]
  cases (items[i.val]?).join with
  | none => exact .hole
  | some v => exact .element v true

theorem holds_arrayObject (h : items.size < 2 ^ 32) :
    (Exec.arrayObject prototype (Exec.sparseElements items).1 items.size).Holds items.toList := by
  refine ⟨?_, rfl, fun i => ?_⟩
  · rw [Array.length_toList]
    exact isArray_ofItems h
  · rw [Array.getElem?_toList]
    exact shows_ofItems items true prototype

end Object

namespace State

/-- An extensible array of plain elements and holes, and no indexed property along its prototypes. The
length may be fixed, and there may be a proxy among the prototypes. -/
structure Displays (s : State) (id : ObjectId) (items : List (Option Value)) : Prop where
  array : ∃ writable, (s.object id).IsArray items.length writable
  extensible : (s.object id).extensible = true
  shows : ∀ i : ArrayIndex, Property.Shows ((s.object id).own? (.index i)) (items[i.val]?).join
  unindexed : ∀ p, TransGen s.Inherits id p → p ≠ id → ∀ i, s.ownProperty? p (.index i) = none

/-- An array of elements and holes, an object without properties, and a revoked proxy. -/
def withItems (items : Array (Option Value)) (writable : Bool) (prototype : ObjectId) : State :=
  { (default : State) with
    heap := #[.ofItems items writable prototype, { prototype := none },
      { kind := .proxy none, prototype := none }] }

theorem displays_withItems (items : Array (Option Value)) (writable : Bool) (prototype : ObjectId)
    (h : items.size < 2 ^ 32) : (withItems items writable prototype).Displays ⟨0⟩ items.toList := by
  refine ⟨⟨writable, ?_⟩, rfl, fun i => ?_, fun p hp hne i => ?_⟩
  · rw [Array.length_toList]
    exact Object.isArray_ofItems h
  · rw [Array.getElem?_toList]
    exact Object.shows_ofItems items writable prototype
  · obtain ⟨_ | _ | _ | k⟩ := p
    · exact absurd rfl hne
    · rfl
    · rfl
    · rfl

theorem lists_withItems (items : Array (Option Value)) (h : items.size < 2 ^ 32) :
    (withItems items true ⟨1⟩).Lists ⟨0⟩ items.toList := by
  refine ⟨Object.holds_arrayObject h, fun p hp hne => ?_⟩
  have hlast : p = ⟨1⟩ := by
    clear hne
    induction hp with
    | single hstep =>
      cases hstep
      rfl
    | tail _ hstep ih =>
      subst ih
      cases hstep
  subst hlast
  exact ⟨rfl, fun _ => rfl⟩

def lacks (s : State) (i : ArrayIndex) : Value → Bool
  | .object id => ((s.object id).own? (.index i)).isNone
  | _ => false

theorem not_holds_of_lacks {s : State} {id : ObjectId} {i : ArrayIndex} {v : Value}
    {items : List (Option Value)} (h : s.lacks i (.object id) = true) (hv : items[i.val]? = some (some v)) :
    ¬ (s.object id).Holds items := by
  intro hholds
  have hshows := hholds.shows i
  rw [Option.isNone_iff_eq_none.mp h, hv] at hshows
  cases hshows

end State

theorem Step.fails_of_endsIn {x : Step Value} {i : ArrayIndex} {id : ObjectId}
    (h : (x.endsIn fun r s => !r.toBool && s.lacks i (.object id)) = true) :
    ∃ e s, x.Comes (.error e) s ∧ s.lacks i (.object id) = true := by
  obtain ⟨r, s, houtcome, hends⟩ := Step.outcome_of_endsIn h
  obtain ⟨hr, hlacks⟩ := Bool.and_eq_true_iff.mp hends
  cases r with
  | ok a => cases hr
  | error e => exact ⟨e, s, Step.comes_of_outcome houtcome, hlacks⟩

def Context.dry : Context := { (default : Context) with effects := some 0, firstObject := 1 }

end EcmaScript
