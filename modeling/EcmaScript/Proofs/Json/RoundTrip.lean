import EcmaScript.Proofs.Json.Document
import EcmaScript.Proofs.Json.Written

/-! Values that are trees, as documents can hold them. Their text is the text of a document. -/
namespace EcmaScript
open Json Relation

namespace State

/-- A value is a tree that is nested some levels at most, and reads as a document. Arrays have no holes and no other
members, and the members of objects are enumerable and have strings as keys. -/
inductive IsTree (s : State) : (levels : Nat) → Value → Json → Prop where
  | null {n : Nat} : IsTree s n .null .null
  | boolean {n : Nat} {b : Bool} : IsTree s n (.boolean b) (.boolean b)
  | string {n : Nat} {text : String} : IsTree s n (.string text) (.string text)
  | integer {n : Nat} {t : Int} (ht : t.natAbs < 2 ^ 53) : IsTree s n (.number (Float.ofInt t)) (.ofInt t)
  | array {n : Nat} {id : ObjectId} {items : List Json} {writable : Bool}
    (hprototype : (s.object id).prototype = some s.intrinsics.arrayPrototype)
    (harray : (s.object id).IsArray items.length writable)
    (hkeys : (s.object id).ownKeys = (List.range items.length).map .ofNat ++ [Object.lengthKey])
    (h : ∀ i (hi : i < items.length), IsTree s n ((s.object id).shown (.ofNat i)) items[i]) :
    IsTree s (n + 1) (.object id) (.array items)
  | object {n : Nat} {id : ObjectId} {members : List (String × Json)}
    (hprototype : (s.object id).prototype = some s.intrinsics.objectPrototype) (hk : (s.object id).kind = .ordinary)
    (hlisted : PropertyKey.Listed (s.object id).ownKeys) (hshown : (s.object id).shownKeys = (s.object id).ownKeys)
    (hkeys : (s.object id).ownKeys = members.map fun e => .ofString e.1)
    (h : ∀ e ∈ members, IsTree s n ((s.object id).shown (.ofString e.1)) e.2) :
    IsTree s (n + 1) (.object id) (.object members)

/-- The prototypes of arrays and objects as they are made: nothing stands above them, and they have neither elements
nor a method that decides how values are written. -/
structure Unmodified (s : State) : Prop where
  object : (s.object s.intrinsics.objectPrototype).prototype = none
  array : (s.object s.intrinsics.arrayPrototype).prototype = some s.intrinsics.objectPrototype
  inside : ∀ x ∈ [s.intrinsics.arrayPrototype, s.intrinsics.objectPrototype],
    x.index < s.heap.size ∧ (s.object x).isProxy = false
  bare : ∀ x ∈ [s.intrinsics.arrayPrototype, s.intrinsics.objectPrototype],
    s.ownProperty? x (.name "toJSON") = none ∧ ∀ i, s.ownProperty? x (.index i) = none

theorem Unmodified.mem_of_inherits {s : State} {id x : ObjectId} (hs : s.Unmodified)
    (hproxy : (s.object id).isProxy = false)
    (hparent : ∀ y, (s.object id).prototype = some y → y ∈ [s.intrinsics.arrayPrototype, s.intrinsics.objectPrototype])
    (hx : TransGen s.Inherits id x) : x ∈ [s.intrinsics.arrayPrototype, s.intrinsics.objectPrototype] := by
  induction hx with
  | single hx =>
    rw [Inherits, parent?, hproxy, if_neg Bool.false_ne_true] at hx
    exact hparent _ hx
  | @tail y z _ hz ih =>
    rw [Inherits, parent?, (hs.inside y ih).2, if_neg Bool.false_ne_true] at hz
    obtain rfl | hy := List.mem_cons.mp ih
    · obtain rfl := Option.some.inj (hs.array.symm.trans hz)
      exact List.mem_cons_of_mem _ List.mem_cons_self
    · obtain rfl := List.mem_singleton.mp hy
      cases hs.object.symm.trans hz

namespace IsTree
variable {s s' : State} {n : Nat} {id child x : ObjectId} {v : Value} {json : Json}

theorem contains (h : s.IsTree n (.object id) json) (hchild : s.Contains id child) :
    ∃ m json', s.IsTree m (.object child) json' := by
  cases h with
  | @array n _ items _ hprototype harray hkeys h =>
    cases hchild with
    | member hk => cases hk.symm.trans harray.kind
    | @element i p _ hp hv =>
      have hi := harray.element i (by simp [hp])
      have hitem := h i.val hi
      have hshown : (s.object id).shown (.ofNat i.val) = .object child := by
        rw [Exec.key_ofNat i.isLt]
        simp [Object.shown, Object.ownValue?, hp, hv]
      exact ⟨n, _, hshown ▸ hitem⟩
  | @object n _ members hprototype hk hlisted hshown hkeys h =>
    cases hchild with
    | @member key p _ hkey hp he hv =>
      have hmem := Contains.mem_shownKeys hk hkey hp he
      rw [hshown, hkeys] at hmem
      obtain ⟨e, hmember, rfl⟩ := List.mem_map.mp hmem
      have hvalue : (s.object id).shown (.ofString e.1) = .object child := by
        simp [Object.shown, Object.ownValue?, hp, hv]
      exact ⟨n, _, hvalue ▸ h e hmember⟩
    | element hk' => cases hk.symm.trans hk'

theorem meets (h : s.IsTree n v json) (hx : s.Meets v x) : ∃ m json', s.IsTree m (.object x) json' := by
  obtain ⟨id, rfl, hx⟩ := hx
  induction hx with
  | refl => exact ⟨n, json, h⟩
  | tail _ hchild ih =>
    obtain ⟨m, json', h'⟩ := ih
    exact h'.contains hchild

theorem lt_size (h : s.IsTree n (.object id) json) : id.index < s.heap.size := by
  cases h with
  | array hprototype harray => exact State.lt_of_kind (by simp [harray.kind])
  | object hprototype =>
    refine Nat.lt_of_not_le fun hle => ?_
    rw [State.object, Array.getD_eq_getD_getElem?, Array.getElem?_eq_none hle] at hprototype
    cases hprototype

theorem isCallable_eq (h : s.IsTree n (.object id) json) : s.isCallable id = false := by
  cases h with
  | array hprototype harray => simp [isCallable, harray.kind]
  | object hprototype hk => simp [isCallable, hk]

theorem value?_eq {key : PropertyKey} {p : Property} (h : s.IsTree n ((s.object id).shown key) json)
    (hp : (s.object id).own? key = some p) : p.value? = some ((s.object id).shown key) := by
  cases hv : p.value? with
  | some v => simp [Object.shown, Object.ownValue?, hp, hv]
  | none =>
    have hundefined : (s.object id).shown key = .undefined := by simp [Object.shown, Object.ownValue?, hp, hv]
    rw [hundefined] at h
    cases h

theorem own_cases {key : PropertyKey} {p : Property} (h : s.IsTree n (.object id) json)
    (hp : (s.object id).own? key = some p) :
    (∃ m json' v, s.IsTree m v json' ∧ p.value? = some v) ∨
      key = Object.lengthKey ∧ ∃ k, p.value? = some (.ofNat k) := by
  cases h with
  | @array n _ items writable hprototype harray hkeys h =>
    have hmem : key ∈ (s.object id).ownKeys := mem_ownKeys (by rw [ownProperty?_array harray.kind, hp])
    rw [hkeys, List.mem_append, List.mem_map, List.mem_singleton] at hmem
    obtain ⟨i, hi, rfl⟩ | rfl := hmem
    · have hitem := h i (List.mem_range.mp hi)
      exact .inl ⟨n, _, _, hitem, value?_eq hitem hp⟩
    · rw [harray.length] at hp
      obtain rfl := Option.some.inj hp
      exact .inr ⟨rfl, items.length, rfl⟩
  | @object n _ members hprototype hk hlisted hshown hkeys h =>
    have hmem : key ∈ (s.object id).ownKeys := mem_ownKeys (s := s) (p := p) (by simp [ownProperty?, hk, hp])
    rw [hkeys, List.mem_map] at hmem
    obtain ⟨e, he, rfl⟩ := hmem
    exact .inl ⟨n, _, _, h e he, value?_eq (h e he) hp⟩

theorem isProxy_eq (h : s.IsTree n (.object id) json) : (s.object id).isProxy = false := by
  cases h with
  | array _ harray => simp [Object.isProxy, harray.kind]
  | object _ hk => simp [Object.isProxy, hk]

theorem mem_prototypes (h : s.IsTree n (.object id) json) (hx : (s.object id).prototype = some x) :
    x ∈ [s.intrinsics.arrayPrototype, s.intrinsics.objectPrototype] := by
  cases h with
  | array hprototype =>
    obtain rfl := Option.some.inj (hprototype.symm.trans hx)
    exact List.mem_cons_self
  | object hprototype =>
    obtain rfl := Option.some.inj (hprototype.symm.trans hx)
    exact List.mem_cons_of_mem _ List.mem_cons_self

theorem inert (h : s.IsTree n (.object id) json) (hs : s.Unmodified) : s.Inert id where
  kind := by
    cases h with
    | array _ harray => exact .inr (.inl ⟨_, _, harray⟩)
    | object _ hk => exact .inl hk
  data key p hp := by
    obtain ⟨slot, enumerable, configurable⟩ := p
    cases slot with
    | data => rfl
    | accessor => obtain ⟨_, _, v, -, hv⟩ | ⟨-, k, hv⟩ := h.own_cases hp <;> cases hv
  parents x hx := by
    obtain rfl | hx := reflTransGen_iff_eq_or_transGen.mp hx
    · exact ⟨h.lt_size, h.isProxy_eq⟩
    · exact hs.inside x (hs.mem_of_inherits h.isProxy_eq (fun _ => h.mem_prototypes) hx)
  toJSON x p hx hp := by
    obtain rfl | hx := reflTransGen_iff_eq_or_transGen.mp hx
    · have hown : (s.object x).own? (.name "toJSON") = some p := by
        cases h with
        | array _ harray => rwa [← ownProperty?_array harray.kind]
        | object _ hk => simpa [ownProperty?, hk] using hp
      obtain ⟨_, _, v, htree, hv⟩ | ⟨hkey, -⟩ := h.own_cases hown
      · refine ⟨v, hv, fun f hf => ?_⟩
        subst hf
        exact ⟨htree.lt_size, htree.isCallable_eq⟩
      · simp [Object.lengthKey] at hkey
    · rw [(hs.bare x (hs.mem_of_inherits h.isProxy_eq (fun _ => h.mem_prototypes) hx)).1] at hp
      cases hp
  elements _ x i hx := (hs.bare x (hs.mem_of_inherits h.isProxy_eq (fun _ => h.mem_prototypes) hx)).2 i

theorem inert_of_meets (h : s.IsTree n v json) (hs : s.Unmodified) (x : ObjectId) (hx : s.Meets v x) : s.Inert x := by
  obtain ⟨_, _, htree⟩ := h.meets hx
  exact htree.inert hs

end IsTree
end State

theorem PropertyKey.text_ofString {name : String} : (ofString name).text = name := by
  have hname : (ofString name).string? = some name := string?_ofString
  generalize ofString name = key at hname
  cases key with
  | symbol => cases hname
  | _ => exact Option.some.inj hname

theorem PropertyKey.isSymbol_ofString {name : String} : (ofString name).isSymbol = false := by
  unfold ofString
  split <;> rfl

section Writing
variable {s : State} {n depth : Nat} {v : Value} {json : Json} {gap indent text : String}

theorem Value.written?_integer {t : Int} (ht : t.natAbs < 2 ^ 53) :
    (Value.number (Float.ofInt t)).written? = some (Number.intText t) := by
  have hwhole := Number.isWhole_ofInt ht
  rw [written?, hwhole.isNaN_eq, hwhole.isInf_eq, Number.text_whole hwhole]
  rfl

/-- What is written for a tree is the text of its document, with strings quoted with escapes. -/
theorem State.IsTree.written (h : s.IsTree n v json) :
    s.Written gap indent v (some (layout Json.quote gap indent json)) := by
  induction h generalizing indent with
  | null | boolean | string => exact .simple rfl
  | integer ht =>
    rw [layout_ofInt, ← Value.written?_integer ht]
    exact .simple rfl
  | @array n id items _ hprototype harray hkeys h ih =>
    let texts := items.map (some ∘ layout Json.quote gap (indent ++ gap))
    have hlength : texts.length = (s.object id).arrayLength := by simp [texts, harray.arrayLength_eq]
    have hwritten : s.Written gap indent (.object id) _ := .array harray.kind hlength fun i hi => by
      simpa [texts] using @ih i (by simpa [texts] using hi) (indent ++ gap)
    rw [layout, layoutItems_eq]
    simpa [texts, Function.comp_def] using hwritten
  | @object n id members hprototype hk hlisted hshown hkeys h ih =>
    let texts : List (PropertyKey × Option String) :=
      members.map fun e => (.ofString e.1, some (layout Json.quote gap (indent ++ gap) e.2))
    have hkeys : texts.map (·.1) = (s.object id).shownKeys := by simp [texts, hshown, hkeys]
    have hwritten : s.Written gap indent (.object id) _ :=
      .object hk hkeys (List.forall_mem_map.mpr fun e he => @ih e he (indent ++ gap))
    rw [layout, layoutMembers_eq]
    simpa [texts, List.filterMap_map, Exec.memberText, PropertyKey.text_ofString] using hwritten

/-- The document of a tree is spelled by its text, whatever makes a text of a string. -/
theorem State.IsTree.spells {quote : String → String} (h : s.IsTree n v json) (hn : n ≤ depth)
    (hgap : Blank gap.toList) (hindent : Blank indent.toList) :
    Spells quote (depth + 1) (layout quote gap indent json).toList json := by
  induction h generalizing depth indent with
  | null => exact .null
  | boolean => exact .boolean
  | string => exact .string
  | integer ht =>
    rw [layout_ofInt]
    exact .integer ht
  | array hprototype harray hkeys h ih =>
    obtain ⟨depth, rfl⟩ : ∃ d, depth = d + 1 := ⟨depth - 1, by omega⟩
    refine spells_array hgap hindent fun item hitem => ?_
    obtain ⟨i, hi, rfl⟩ := List.mem_iff_getElem.mp hitem
    exact ih i hi (Nat.le_of_succ_le_succ hn) (blank_inner hindent hgap)
  | @object n id members hprototype hk hlisted hshown hkeys h ih =>
    obtain ⟨depth, rfl⟩ : ∃ d, depth = d + 1 := ⟨depth - 1, by omega⟩
    have hnames : (members.map (·.1)).Nodup := by
      refine List.Nodup.of_map PropertyKey.ofString ?_
      rw [List.map_map]
      exact hkeys ▸ hlisted.nodup
    exact spells_object hgap hindent hnames fun e he =>
      ih e he (Nat.le_of_succ_le_succ hn) (blank_inner hindent hgap)

end Writing

/-! Documents as values: they are trees again, of new objects. -/

section Keys
variable {items : Array Value} {n : Nat}

namespace PropertyTable

def numbered (items : Array Value) : List (PropertyKey × Property) :=
  items.toList.zipIdx.map fun e => (.ofNat e.2, .plain e.1)

theorem keys_numbered : (numbered items).map (·.1) = (List.range items.size).map .ofNat := by
  refine List.ext_getElem (by simp [numbered]) fun i hi _ => ?_
  simp [numbered]

theorem ofItems_eq : ofItems items = ({} : PropertyTable).filled (numbered items) := by
  have hfold (l : List Value) (t : PropertyTable) (k : Nat) :
      (l.foldl (fun (b : PropertyTable × Nat) v => (b.1.put (.ofNat b.2) (.plain v), b.2 + 1)) (t, k)).1 =
        t.filled ((l.zipIdx k).map fun e => (.ofNat e.2, .plain e.1)) := by
    induction l generalizing t k with
    | nil => rfl
    | cons v rest ih => exact ih _ _
  rw [ofItems, ← Array.foldl_toList]
  exact hfold _ _ _

end PropertyTable

theorem PropertyKey.listed_range (hn : n ≤ indexLimit) :
    Listed ((List.range n).map .ofNat ++ [Object.lengthKey]) := by
  let indices : List ArrayIndex := List.ofFn fun i : Fin n => ⟨i, Nat.lt_of_lt_of_le i.isLt hn⟩
  have hindices : (List.range n).map PropertyKey.ofNat = indices.map PropertyKey.index := by
    refine List.ext_getElem (by simp [indices]) fun i hi _ => ?_
    have hlt : i < n := by simpa using hi
    simp [indices, Exec.key_ofNat (Nat.lt_of_lt_of_le hlt hn)]
  have hsorted : indices.Pairwise (· < ·) := List.pairwise_ofFn.mpr fun i j hij => hij
  rw [hindices]
  refine ⟨?_, indices, [Object.lengthKey], hsorted, by simp [Object.lengthKey], by simp [Object.lengthKey, isSymbol]⟩
  refine List.nodup_append.mpr ⟨?_, by simp, by simp [Object.lengthKey]⟩
  exact hsorted.map _ fun _ _ hij he => ne_of_lt hij (index.inj he)

theorem Object.ownKeys_arrayObject {prototype : ObjectId} (h : items.size ≤ indexLimit) :
    (Exec.arrayObject prototype (.ofItems items) items.size).ownKeys =
      (List.range items.size).map .ofNat ++ [lengthKey] := by
  let entries := PropertyTable.numbered items ++ [(lengthKey, .data (.ofNat items.size) true false false)]
  have hkeys : entries.map (·.1) = (List.range items.size).map .ofNat ++ [lengthKey] := by
    simp [entries, PropertyTable.keys_numbered]
  have hproperties : (Exec.arrayObject prototype (.ofItems items) items.size).properties =
      ({} : PropertyTable).filled entries := by
    rw [Exec.arrayObject, PropertyTable.ofItems_eq, PropertyTable.filled, PropertyTable.filled, List.foldl_append]
    rfl
  rw [← hkeys, ← PropertyTable.keys_filled (hkeys ▸ PropertyKey.listed_range h), ← hproperties]
  rfl

end Keys

namespace State.IsTree
variable {s : State} {n : Nat} {id : ObjectId}

theorem of_arrayObject {values : Array Value} {items : List Json} (hsize : values.size < 2 ^ 32)
    (hid : s.object id = Exec.arrayObject s.intrinsics.arrayPrototype (.ofItems values) values.size)
    (h : List.Forall₂ (s.IsTree n) values.toList items) : s.IsTree (n + 1) (.object id) (.array items) := by
  have hlength : values.size = items.length := h.length_eq
  have hlimit : values.size ≤ indexLimit := by
    unfold indexLimit
    omega
  have harray : (s.object id).IsArray items.length true := by
    rw [hid, ← hlength]
    exact Object.isArray_arrayObject hsize
  refine .array (by rw [hid]; rfl) harray ?_ fun i hi => ?_
  · rw [hid, ← hlength, Object.ownKeys_arrayObject hlimit]
  · have hi' : i < values.size := hlength ▸ hi
    have hown : (s.object id).shown (.ofNat i) = values[i] := by
      rw [hid, Object.shown, Object.ownValue?, Exec.key_ofNat (Nat.lt_of_lt_of_le hi' hlimit),
        Object.own?_arrayObject, Array.getElem?_eq_getElem hi']
      rfl
    rw [hown]
    exact (List.forall₂_iff_get.mp h).2 i hi' hi

/-- An object of new members that are trees is a tree. -/
theorem of_filled {entries : List (PropertyKey × Property)} {members : List (String × Json)}
    (hlisted : PropertyKey.Listed (members.map fun e => .ofString e.1))
    (hid : s.object id = s.plainObject (({} : PropertyTable).filled entries))
    (h : List.Forall₂ (fun entry e => ∃ v, entry = (.ofString e.1, .plain v) ∧ s.IsTree n v e.2) entries members) :
    s.IsTree (n + 1) (.object id) (.object members) := by
  obtain ⟨hlength, hentry⟩ := List.forall₂_iff_get.mp h
  have hkeys : entries.map (·.1) = members.map fun e => .ofString e.1 := by
    refine List.ext_getElem (by simpa using hlength) fun i hi hi' => ?_
    obtain ⟨v, hv, -⟩ := hentry i (by simpa using hi) (by simpa using hi')
    simpa using congrArg (·.1) hv
  have hlisted' : PropertyKey.Listed (entries.map (·.1)) := hkeys ▸ hlisted
  have hownKeys : (s.object id).ownKeys = entries.map (·.1) := by
    rw [hid, ← PropertyTable.keys_filled hlisted']
    rfl
  have hown : ∀ entry ∈ entries, (s.object id).own? entry.1 = some entry.2 := by
    intro entry he
    have hget := PropertyTable.get?_filled (t := {}) entry.1 hlisted'.nodup
    rw [Exec.lookup_of_mem hlisted'.nodup he] at hget
    rw [hid]
    exact hget
  have hmember (e : String × Json) (he : e ∈ members) :
      ∃ v, (s.object id).own? (.ofString e.1) = some (.plain v) ∧ s.IsTree n v e.2 := by
    obtain ⟨i, hi, rfl⟩ := List.getElem_of_mem he
    obtain ⟨v, hv, htree⟩ := hentry i (hlength ▸ hi) hi
    have hentry : entries[i] = (.ofString members[i].1, .plain v) := hv
    have hvalue := hown entries[i] (List.getElem_mem _)
    rw [hentry] at hvalue
    exact ⟨v, hvalue, htree⟩
  refine .object (by rw [hid]; rfl) (by rw [hid]; rfl) (hownKeys ▸ hlisted') ?_ (hownKeys.trans hkeys) fun e he => ?_
  · rw [Object.shownKeys, hownKeys, hkeys, List.filter_filter, List.filter_eq_self]
    intro key hkey
    obtain ⟨e, he, rfl⟩ := List.mem_map.mp hkey
    obtain ⟨v, hv, -⟩ := hmember e he
    simp [hv, PropertyKey.isSymbol_ofString, Property.plain, Property.data]
  · obtain ⟨v, hv, htree⟩ := hmember e he
    have hshown : (s.object id).shown (.ofString e.1) = v := by
      rw [Object.shown, Object.ownValue?, hv]
      rfl
    exact hshown ▸ htree

end State.IsTree

namespace Exec
variable {m : Machine} {c : Context} {s : State} {n : Nat}

def Rebuilds (m : Machine) (c : Context) (n : Nat) (json : Json) : Prop :=
  ∀ s : State, c.MayChange ⟨s.heap.size⟩ → ∃ v s', fromJson json m c s = .value v s' ∧
    s.Retains (fun _ => True) s' ∧ ∀ s'', s'.Retains (s.heap.size ≤ ·.index) s'' → s''.IsTree n v json

theorem mayChange_mono {s s' : State} {P : ObjectId → Prop} (hc : c.MayChange ⟨s.heap.size⟩) (h : s.Retains P s') :
    c.MayChange ⟨s'.heap.size⟩ := fun hdry => Nat.le_trans (hc hdry) h.size

theorem fromJsonItems_value {items : List Json} (out : Array Value) (h : ∀ json ∈ items, Rebuilds m c n json)
    (hc : c.MayChange ⟨s.heap.size⟩) : ∃ values s', fromJsonItems items out m c s = .value (out ++ values) s' ∧
      s.Retains (fun _ => True) s' ∧
      ∀ s'', s'.Retains (s.heap.size ≤ ·.index) s'' → List.Forall₂ (s''.IsTree n) values.toList items := by
  induction items generalizing s out with
  | nil => exact ⟨#[], s, by rw [Array.append_empty]; rfl, .refl, fun _ _ => .nil⟩
  | cons json items ih =>
    obtain ⟨hfirst, hrest⟩ := List.forall_mem_cons.mp h
    obtain ⟨v, s₁, hv, hs₁, htree⟩ := hfirst s hc
    obtain ⟨values, s₂, hvalues, hs₂, htrees⟩ := ih (out.push v) hrest (mayChange_mono hc hs₁)
    refine ⟨#[v] ++ values, s₂, ?_, hs₁.trans hs₂ fun _ _ _ => trivial, fun s₃ hs₃ => ?_⟩
    · rw [fromJsonItems, bind_value hv, hvalues, ← Array.append_assoc, Array.push_eq_append]
    · have hlater : s₁.Retains (s.heap.size ≤ ·.index) s₃ :=
        (hs₂.mono fun _ _ => trivial).trans hs₃ fun _ _ hx => hx
      rw [Array.toList_append]
      exact .cons (htree s₃ hlater) (htrees s₃ (hs₃.mono fun x hx => Nat.le_trans hs₁.size hx))

theorem createProperty_new {id : ObjectId} {key : PropertyKey} {v : Value} {t : PropertyTable}
    (hid : s.object id = s.plainObject t) (hc : c.MayChange id) (hnew : t.get? key = none) :
    createProperty id key v m c s = .value () (s.replace id (s.plainObject (t.put key (.plain v)))) := by
  rw [createProperty, bind_value (define_new hid hc hnew)]
  rfl

/-- The members are defined one after the other. What their values are made of comes behind the object, so that it
stays when the object changes. -/
theorem fromJsonMembers_value {id : ObjectId} {members : List (String × Json)} {t : PropertyTable}
    (h : ∀ e ∈ members, Rebuilds m c n e.2) (hid : s.object id = s.plainObject t) (hsize : id.index < s.heap.size)
    (hc : c.MayChange id) (hnodup : (members.map fun e => PropertyKey.ofString e.1).Nodup)
    (hnew : ∀ e ∈ members, t.get? (.ofString e.1) = none) :
    ∃ entries s', fromJsonMembers id members m c s = .value () s' ∧
      s.Retains (· ≠ id) s' ∧ s'.object id = s.plainObject (t.filled entries) ∧
      ∀ s'', s'.Retains (s.heap.size ≤ ·.index) s'' → List.Forall₂
        (fun entry e => ∃ v, entry = (.ofString e.1, .plain v) ∧ s''.IsTree n v e.2) entries members := by
  induction members generalizing s t with
  | nil => exact ⟨[], s, rfl, .refl, hid, fun _ _ => .nil⟩
  | cons e members ih =>
    obtain ⟨name, json⟩ := e
    obtain ⟨hfirst, hrest⟩ := List.forall_mem_cons.mp h
    obtain ⟨hname, hnames⟩ := List.nodup_cons.mp hnodup
    obtain ⟨hnewFirst, hnewRest⟩ := List.forall_mem_cons.mp hnew
    have hc' : c.MayChange ⟨s.heap.size⟩ := fun hdry => Nat.le_trans (hc hdry) (Nat.le_of_lt hsize)
    obtain ⟨v, s₁, hv, hs₁, htree⟩ := hfirst s hc'
    have hid₁ : s₁.object id = s₁.plainObject t := by rw [hs₁.object id hsize trivial, hid, hs₁.plainObject]
    let o := s₁.plainObject (t.put (.ofString name) (.plain v))
    have hs₂ : s₁.Retains (· ≠ id) (s₁.replace id o) := .replace
    have hid₂ : (s₁.replace id o).object id = (s₁.replace id o).plainObject (t.put (.ofString name) (.plain v)) := by
      rw [State.object_replace_self (Nat.lt_of_lt_of_le hsize hs₁.size), hs₂.plainObject]
    have hnew₂ (e : String × Json) (he : e ∈ members) :
        (t.put (.ofString name) (.plain v)).get? (.ofString e.1) = none := by
      rw [PropertyTable.get?_put, if_neg fun hkey => hname (List.mem_map.mpr ⟨e, he, hkey⟩), hnewRest e he]
    obtain ⟨entries, s₃, hmembers, hs₃, hid₃, htrees⟩ := ih hrest hid₂
      (Nat.lt_of_lt_of_le hsize (Nat.le_trans hs₁.size hs₂.size)) hnames hnew₂
    have hlater : s₁.Retains (· ≠ id) s₃ := hs₂.trans hs₃ fun _ _ hx => hx
    have hall : s.Retains (· ≠ id) s₃ := (hs₁.mono fun _ _ => trivial).trans hlater fun _ _ hx => hx
    refine ⟨(.ofString name, .plain v) :: entries, s₃, ?_, hall, ?_, fun s₄ hs₄ => ?_⟩
    · rw [fromJsonMembers, bind_value hv, bind_value (createProperty_new hid₁ hc hnewFirst), hmembers]
    · rw [hid₃, hs₂.plainObject, hs₁.plainObject]
      rfl
    · have hne (x : ObjectId) (hx : s.heap.size ≤ x.index) : x ≠ id := by
        rintro rfl
        omega
      have htree := htree s₄ ((hlater.mono hne).trans hs₄ fun _ _ hx => hx)
      refine .cons ⟨v, rfl, htree⟩ (htrees s₄ (hs₄.mono fun x hx => ?_))
      exact Nat.le_trans (Nat.le_trans hs₁.size hs₂.size) hx

theorem rebuilds_array {items : List Json} (h : ∀ json ∈ items, Rebuilds m c n json) (hlength : items.length < 2 ^ 32) :
    Rebuilds m c (n + 1) (.array items) := by
  intro s hc
  obtain ⟨values, s₁, hvalues, hs₁, htrees⟩ := fromJsonItems_value #[] h hc
  rw [Array.empty_append] at hvalues
  let id : ObjectId := ⟨s₁.heap.size⟩
  let o := arrayObject s₁.intrinsics.arrayPrototype (.ofItems values) values.size
  let s₂ : State := { s₁ with heap := s₁.heap.push o }
  have hs₂ : s₁.Retains (fun _ => True) s₂ := .push
  refine ⟨.object id, s₂, ?_, hs₁.trans hs₂ fun _ _ _ => trivial, fun s₃ hs₃ => ?_⟩
  · rw [fromJson, bind_value hvalues]
    rfl
  · have hid : s₃.object id = o := by
      rw [hs₃.object id (by simp [id, s₂]) hs₁.size, State.object_push, if_pos rfl]
    have htrees := htrees s₃ ((hs₂.mono fun _ _ => trivial).trans hs₃ fun _ _ hx => hx)
    have hsize : values.size = items.length := htrees.length_eq
    refine .of_arrayObject (hsize ▸ hlength) ?_ htrees
    rw [hid, hs₃.intrinsics]

theorem rebuilds_object {members : List (String × Json)} (h : ∀ e ∈ members, Rebuilds m c n e.2)
    (hlisted : PropertyKey.Listed (members.map fun e => .ofString e.1)) : Rebuilds m c (n + 1) (.object members) := by
  intro s hc
  let id : ObjectId := ⟨s.heap.size⟩
  let s₁ : State := { s with heap := s.heap.push (s.plainObject {}) }
  have hs₁ : s.Retains (fun _ => True) s₁ := .push
  have hid : s₁.object id = s₁.plainObject {} := by
    rw [State.object_push, if_pos rfl]
    rfl
  have hsize : id.index < s₁.heap.size := by simp [id, s₁]
  obtain ⟨entries, s₂, hmembers, hs₂, hid₂, htrees⟩ := fromJsonMembers_value h hid hsize hc hlisted.nodup
    fun _ _ => PropertyTable.get?_empty
  refine ⟨.object id, s₂, ?_, hs₁.trans hs₂ fun x hx _ => ?_, fun s₃ hs₃ => ?_⟩
  · rw [fromJson, bind_value (show newObject [] m c s = .value id s₁ from rfl), bind_value hmembers]
    rfl
  · rintro rfl
    exact Nat.lt_irrefl _ hx
  · refine .of_filled hlisted ?_ (htrees s₃ (hs₃.mono fun x hx => Nat.le_trans hs₁.size hx))
    rw [hs₃.object id (Nat.lt_of_lt_of_le hsize hs₂.size) (Nat.le_refl _), hid₂, hs₃.plainObject, hs₂.plainObject]

theorem rebuilds {s₀ : State} {v₀ : Value} {json : Json} (h : s₀.IsTree n v₀ json) : Rebuilds m c n json := by
  induction h with
  | null => exact fun s _ => ⟨_, s, rfl, .refl, fun _ _ => .null⟩
  | boolean => exact fun s _ => ⟨_, s, rfl, .refl, fun _ _ => .boolean⟩
  | string => exact fun s _ => ⟨_, s, rfl, .refl, fun _ _ => .string⟩
  | @integer n t ht =>
    refine fun s _ => ⟨_, s, ?_, .refl, fun _ _ => .integer ht⟩
    cases t <;> rfl
  | array hprototype harray hkeys h ih =>
    refine rebuilds_array (fun json hjson => ?_) harray.lt
    obtain ⟨i, hi, rfl⟩ := List.getElem_of_mem hjson
    exact ih i hi
  | object hprototype hk hlisted hshown hkeys h ih => exact rebuilds_object ih (hkeys ▸ hlisted)

end Exec

/-- What levels of a document can be indented by: a number of spaces, white space, or nothing. -/
def Value.IsIndent : Value → Prop
  | .number _ | .undefined => True
  | .string text => Blank text.toList
  | _ => False

namespace Exec
variable {m : Machine} {c : Context} {s : State} {n : Nat} {v : Value} {json : Json} {text : String}

theorem gapOf_isIndent {space : Value} (h : space.IsIndent) :
    ∃ gap, gapOf space m c s = .value gap s ∧ Blank gap.toList := by
  cases space with
  | undefined => exact ⟨_, rfl, blank_nil⟩
  | number x =>
    refine ⟨_, rfl, fun ch hch => ?_⟩
    rw [String.toList_ofList] at hch
    obtain rfl := List.eq_of_mem_replicate hch
    rfl
  | string text =>
    refine ⟨_, rfl, fun ch hch => h ch ?_⟩
    rw [String.toList_ofList] at hch
    exact List.mem_of_mem_take hch
  | _ => cases h

theorem jsonParse_value {s' : State} (htext : parse text = .ok json) (hjson : fromJson json m c s = .value v s') :
    jsonParse #[.string text] m c s = .value v s' := by
  rw [jsonParse, bind_value (show toText (argument #[.string text] 0) m c s = .value text s from rfl), htext]
  dsimp only
  rw [bind_value hjson]
  rfl

end Exec

theorem State.IsTree.retained {s s' : State} {n : Nat} {v : Value} {json : Json} (h : s.IsTree n v json)
    (hs : s.Retains (fun _ => True) s') : s'.IsTree n v json := by
  induction h with
  | null => exact .null
  | boolean => exact .boolean
  | string => exact .string
  | integer ht => exact .integer ht
  | array hprototype harray hkeys h ih =>
    have hid := (State.IsTree.array hprototype harray hkeys h).lt_size
    rw [← hs.object _ hid trivial] at hprototype harray hkeys ih
    exact .array (hs.intrinsics ▸ hprototype) harray hkeys ih
  | object hprototype hk hlisted hshown hkeys h ih =>
    have hid := (State.IsTree.object hprototype hk hlisted hshown hkeys h).lt_size
    rw [← hs.object _ hid trivial] at hprototype hk hlisted hshown hkeys
    simp only [← hs.object _ hid trivial] at ih
    exact .object (hs.intrinsics ▸ hprototype) hk hlisted hshown hkeys ih

theorem Exec.jsonStringify_written {fuel : Nat} {c : Context} {s : State} {v space : Value} {gap text : String}
    (hfuel : s.heap.size + 2 ^ 32 ≤ fuel) (hinert : ∀ x, s.Meets v x → s.Inert x)
    (hgap : gapOf space (machine (fuel + 1)) c s = .value gap s) (htext : s.Written gap "" v (some text)) :
    (jsonStringify #[v, .undefined, space] (machine (fuel + 1)) c s).Settles c s (· = .string text) False := by
  refine (jsonStringify_settles #[v, .undefined, space] hfuel rfl rfl hinert hgap).imp ?_
    (htext.not_circular hinert)
  rintro _ ⟨text', htext', rfl⟩
  rw [htext'.unique htext]
  rfl

/-- The text of a tree is read as a tree again, which holds the same under the same keys in the same order, unless
something interrupts the writing. It is the text of the document that the tree reads as, and whatever makes texts of
strings, what reads them takes the document from that. -/
theorem jsonParse_jsonStringify {fuel levels : Nat} {c : Context} {s : State} {v space : Value} {json : Json}
    (hfuel : s.heap.size + 2 ^ 32 < fuel) (hc : c.MayChange ⟨s.heap.size⟩) (hs : s.Unmodified)
    (hv : s.IsTree levels v json) (hlevels : levels < 128) (hspace : space.IsIndent) :
    ∃ gap, Exec.gapOf space (machine fuel) c s = .value gap s ∧
      (∀ {ε : Type} (quote : String → String) (read : String → Except ε Json), Reads quote read →
        read (layout quote gap "" json) = .ok json) ∧
      ∃ r s', (Exec.jsonStringify #[v, .undefined, space] (machine fuel) c s).outcome = some (some r, s') ∧
        ((∃ text v' s'', r = .ok (.string text) ∧ text = layout Json.quote gap "" json ∧
          (Exec.jsonParse #[.string text] (machine fuel) c s').outcome = some (some (.ok v'), s'') ∧
          s''.IsTree levels v' json ∧ s''.IsTree levels v json) ∨
        ∃ k, r = .error (.condition k) ∧ (s.interrupted = true ∨ c.deadline.isSome = true)) := by
  obtain ⟨fuel, rfl⟩ : ∃ n, fuel = n + 1 := ⟨fuel - 1, by omega⟩
  obtain ⟨gap, hgap, hblank⟩ := Exec.gapOf_isIndent (m := machine (fuel + 1)) (c := c) (s := s) hspace
  have hspells (quote : String → String) : Spells quote 128 (layout quote gap "" json).toList json :=
    hv.spells (Nat.le_of_lt_succ hlevels) hblank blank_nil
  refine ⟨gap, hgap, fun quote read hreads => hreads _ _ (hspells quote), ?_⟩
  have hrun := Exec.jsonStringify_written (by omega) (hv.inert_of_meets hs) hgap hv.written
  generalize hstep : Exec.jsonStringify #[v, .undefined, space] (machine (fuel + 1)) c s = x at hrun
  cases hrun with
  | @value _ s' hstays h =>
    obtain ⟨v', s'', hjson, hretains, htree⟩ := Exec.rebuilds (m := machine (fuel + 1)) hv s'
      (Exec.mayChange_mono hc hstays.toRetains)
    refine ⟨_, s', rfl, .inl ⟨_, v', s'', by rw [h], rfl, ?_, htree s'' .refl, ?_⟩⟩
    · rw [Exec.jsonParse_value (reads_parse _ _ (hspells Json.quote)) hjson]
      rfl
    · exact hv.retained (hstays.toRetains.trans hretains fun _ _ _ => trivial)
  | circular h => cases h
  | @halted k s' h => exact ⟨_, s', rfl, .inr ⟨k, rfl, h⟩⟩

namespace State

/-- Prototypes, an array, an object that holds it and an integer, and an object with a symbol as a key. -/
def withTrees : State := { (default : State) with
  intrinsics := { (default : State).intrinsics with objectPrototype := ⟨0⟩, arrayPrototype := ⟨1⟩ }
  heap := #[{ prototype := none }, { prototype := some ⟨0⟩ }, Exec.arrayObject ⟨1⟩ (.ofItems #[.null]) 1,
    { prototype := some ⟨0⟩
      properties := ({} : PropertyTable).filled
        [(.ofString "a", .plain (.object ⟨2⟩)), (.ofString "b", .plain (.number (Float.ofInt (-1))))] },
    { prototype := some ⟨0⟩, properties := ({} : PropertyTable).put (.symbol ⟨0, none, false⟩) (.plain .null) }] }

theorem unmodified_withTrees : withTrees.Unmodified where
  object := rfl
  array := rfl
  inside := by decide
  bare := by
    have hempty {x : ObjectId} (hk : (withTrees.object x).kind = .ordinary)
        (hx : (withTrees.object x).properties = {}) (key : PropertyKey) : withTrees.ownProperty? x key = none := by
      simp [ownProperty?, hk, Object.own?, hx]
    exact List.forall_mem_cons.mpr ⟨⟨hempty rfl rfl _, fun _ => hempty rfl rfl _⟩,
      List.forall_mem_singleton.mpr ⟨hempty rfl rfl _, fun _ => hempty rfl rfl _⟩⟩

theorem object_withTrees : withTrees.object ⟨2⟩ =
    Exec.arrayObject withTrees.intrinsics.arrayPrototype (.ofItems #[.null]) (#[Value.null]).size := rfl

theorem isTree_array : withTrees.IsTree 1 (.object ⟨2⟩) (.array [.null]) :=
  .of_arrayObject (by decide) object_withTrees (.cons .null .nil)

theorem isTree_object : withTrees.IsTree 2 (.object ⟨3⟩) (.object [("a", .array [.null]), ("b", .ofInt (-1))]) := by
  refine .of_filled ?_ rfl (.cons ⟨_, rfl, isTree_array⟩ (.cons ⟨_, rfl, .integer (by decide)⟩ .nil))
  have ha : PropertyKey.ofString "a" = .name "a" := rfl
  have hb : PropertyKey.ofString "b" = .name "b" := rfl
  exact ⟨by simp [ha, hb], [], [.name "a", .name "b"], .nil, by simp, by simp [ha, hb, PropertyKey.isSymbol]⟩

end State

/-- An object with an array and an integer in it, each level on its own line behind a tabulator. -/
theorem jsonParse_jsonStringify_object : ∃ text s' v' s'',
    (Exec.jsonStringify #[.object ⟨3⟩, .undefined, .string "\t"] (machine (2 ^ 33)) default .withTrees).outcome =
      some (some (.ok (.string text)), s') ∧
    (Exec.jsonParse #[.string text] (machine (2 ^ 33)) default s').outcome = some (some (.ok v'), s'') ∧
    s''.IsTree 2 v' (.object [("a", .array [.null]), ("b", .ofInt (-1))]) := by
  have hspace : Value.IsIndent (.string "\t") := fun c hc => by
    obtain rfl := List.mem_singleton.mp (show c ∈ ['\t'] from hc)
    rfl
  have hfuel : State.withTrees.heap.size + 2 ^ 32 < 2 ^ 33 := by decide
  have hc : (default : Context).MayChange ⟨State.withTrees.heap.size⟩ := fun hdry => by cases hdry
  obtain ⟨_, -, -, r, s', hrun, ⟨text, v', s'', rfl, -, hparse, htree, -⟩ | ⟨_, -, h | h⟩⟩ :=
    jsonParse_jsonStringify hfuel hc State.unmodified_withTrees State.isTree_object (by decide) hspace
  · exact ⟨text, s', v', s'', hrun, hparse, htree⟩
  · cases h
  · cases h

theorem Exec.jsonParse_error {m : Machine} {c : Context} {s : State} {text : String} {fault : Fault}
    (htext : parse text = .error fault) :
    ∃ e, jsonParse #[.string text] m c s = .abrupt (.failure e) s ∧ e.kind = .syntaxError := by
  rw [jsonParse, bind_value (show toText (argument #[.string text] 0) m c s = .value text s from rfl), htext]
  exact ⟨_, rfl, rfl⟩

/-- When nothing interrupts the writing, the text comes out. -/
theorem Exec.jsonStringify_value {fuel : Nat} {c : Context} {s : State} {v space : Value} {gap text : String}
    (hfuel : s.heap.size + 2 ^ 32 ≤ fuel) (hinert : ∀ x, s.Meets v x → s.Inert x)
    (hgap : gapOf space (machine (fuel + 1)) c s = .value gap s) (htext : s.Written gap "" v (some text))
    (hdeadline : c.deadline.isSome = false) (hs : s.interrupted = false) :
    ∃ s', jsonStringify #[v, .undefined, space] (machine (fuel + 1)) c s = .value (.string text) s' := by
  have hrun := jsonStringify_written hfuel hinert hgap htext
  generalize hstep : jsonStringify #[v, .undefined, space] (machine (fuel + 1)) c s = x at hrun
  cases hrun with
  | @value _ s' _ h => exact ⟨s', h ▸ rfl⟩
  | circular h => cases h
  | halted h => simp [hdeadline, hs] at h

theorem parse_wrap_blank : Text.isBlank '\u00a0' = true ∧
    parse (JsonStyle.wrap { gap := "\u00a0" } "[" "]" "" ["null"]) = .error ⟨3, false⟩ := by
  have hchars : (JsonStyle.wrap { gap := "\u00a0" } "[" "]" "" ["null"]).toList =
      ['[', '\n', '\u00a0', 'n', 'u', 'l', 'l', '\n', ']'] := by
    simp [JsonStyle.wrap]
  refine ⟨by decide +kernel, ?_⟩
  rw [parse, hchars]
  rfl

namespace State

theorem written_array {gap : String} :
    withTrees.Written gap "" (.object ⟨2⟩) (some (JsonStyle.wrap { gap := gap } "[" "]" "" ["null"])) := by
  have hlength : (withTrees.object ⟨2⟩).arrayLength = 1 := by
    rw [object_withTrees]
    exact (Object.isArray_arrayObject (by decide)).arrayLength_eq
  have hown : (withTrees.object ⟨2⟩).own? (.index 0) = some (.plain .null) := by
    rw [object_withTrees, Object.own?_arrayObject]
    rfl
  have hshown : (withTrees.object ⟨2⟩).shown (.ofNat 0) = .null := by
    rw [Exec.key_ofNat (by decide)]
    simp [Object.shown, Object.ownValue?, hown, Property.plain, Property.data, Property.value?]
  refine @Written.array _ gap "" _ [some "null"] rfl hlength.symm fun i hi => ?_
  obtain rfl : i = 0 := by simpa using hi
  rw [hshown]
  exact .simple (v := .null) rfl

theorem own?_symbol {key : PropertyKey} {p : Property} (hp : (withTrees.object ⟨4⟩).own? key = some p) :
    key = .symbol ⟨0, none, false⟩ ∧ p = .plain .null := by
  have hget : (({} : PropertyTable).put (.symbol ⟨0, none, false⟩) (.plain .null)).get? key = some p := hp
  rw [PropertyTable.get?_put, PropertyTable.get?_empty] at hget
  split at hget
  · next hkey => exact ⟨hkey, (Option.some.inj hget).symm⟩
  · cases hget

theorem inert_symbol : withTrees.Inert ⟨4⟩ := by
  have habove {x : ObjectId} (hx : TransGen withTrees.Inherits ⟨4⟩ x) :=
    (unmodified_withTrees).mem_of_inherits rfl (fun y hy => by
      obtain rfl := Option.some.inj (show some (⟨0⟩ : ObjectId) = some y from hy)
      exact List.mem_cons_of_mem _ List.mem_cons_self) hx
  refine ⟨.inl rfl, fun key p hp => ?_, fun x hx => ?_, fun x p hx hp => ?_, nofun⟩
  · obtain ⟨-, rfl⟩ := own?_symbol hp
    rfl
  · obtain rfl | hx := reflTransGen_iff_eq_or_transGen.mp hx
    · exact ⟨by decide, rfl⟩
    · exact (unmodified_withTrees).inside x (habove hx)
  · obtain rfl | hx := reflTransGen_iff_eq_or_transGen.mp hx
    · cases (own?_symbol (p := p) (by simpa [ownProperty?] using hp)).1
    · cases ((unmodified_withTrees).bare x (habove hx)).1.symm.trans hp

theorem ownKeys_symbol : (withTrees.object ⟨4⟩).ownKeys = [.symbol ⟨0, none, false⟩] := by
  have hlisted : PropertyKey.Listed ([(PropertyKey.symbol ⟨0, none, false⟩, Property.plain .null)].map (·.1)) :=
    ⟨List.nodup_singleton _, [], [.symbol ⟨0, none, false⟩], .nil, by simp, rfl⟩
  exact PropertyTable.keys_filled hlisted

theorem written_symbol {gap : String} :
    withTrees.Written gap "" (.object ⟨4⟩) (some (JsonStyle.wrap { gap := gap } "\x7b" "\x7d" "" [])) := by
  have hshown : (withTrees.object ⟨4⟩).shownKeys = [] := by
    rw [Object.shownKeys, ownKeys_symbol]
    rfl
  exact @Written.object _ gap "" _ [] rfl hshown.symm (List.forall_mem_nil _)

theorem meets_symbol {x : ObjectId} (hx : withTrees.Meets (.object ⟨4⟩) x) : x = ⟨4⟩ := by
  obtain ⟨_, ⟨⟩, hx⟩ := hx
  obtain rfl | ⟨y, hy, -⟩ := ReflTransGen.cases_head hx
  · rfl
  · cases hy with
    | member _ _ hp _ hv =>
      obtain ⟨-, rfl⟩ := own?_symbol hp
      cases hv
    | element hk => cases hk

end State

/-- White space that no document has between its tokens makes no document, and members with symbols as keys are left
out. -/
theorem jsonParse_jsonStringify_refused :
    (State.withTrees.IsTree 1 (.object ⟨2⟩) (.array [.null]) ∧ Text.isBlank '\u00a0' = true ∧
      ∃ text s' e s'', (Exec.jsonStringify #[.object ⟨2⟩, .undefined, .string "\u00a0"] (machine (2 ^ 33)) default
          .withTrees).outcome = some (some (.ok (.string text)), s') ∧
        (Exec.jsonParse #[.string text] (machine (2 ^ 33)) default s').outcome =
          some (some (.error (.failure e)), s'') ∧ e.kind = .syntaxError) ∧
    ∃ text s' id s'', (State.withTrees.object ⟨4⟩).ownKeys = [.symbol ⟨0, none, false⟩] ∧
      (Exec.jsonStringify #[.object ⟨4⟩, .undefined, .undefined] (machine (2 ^ 33)) default .withTrees).outcome =
        some (some (.ok (.string text)), s') ∧
      (Exec.jsonParse #[.string text] (machine (2 ^ 33)) default s').outcome = some (some (.ok (.object id)), s'') ∧
      (s''.object id).ownKeys = [] := by
  constructor
  · have hgap : Exec.gapOf (.string "\u00a0") (machine (2 ^ 33 - 1 + 1)) default State.withTrees =
      .value "\u00a0" State.withTrees := rfl
    obtain ⟨s', hrun⟩ := Exec.jsonStringify_value (by decide)
      (State.isTree_array.inert_of_meets State.unmodified_withTrees) hgap State.written_array rfl rfl
    obtain ⟨hblank, hparse⟩ := parse_wrap_blank
    obtain ⟨e, hfault, he⟩ := Exec.jsonParse_error (m := machine (2 ^ 33)) (c := default) (s := s') hparse
    exact ⟨State.isTree_array, hblank, _, s', e, s', congrArg Step.outcome hrun, congrArg Step.outcome hfault, he⟩
  · have hgap : Exec.gapOf .undefined (machine (2 ^ 33 - 1 + 1)) default State.withTrees =
      .value "" State.withTrees := rfl
    obtain ⟨s', hrun⟩ := Exec.jsonStringify_value (by decide) (fun x hx => State.meets_symbol hx ▸ State.inert_symbol)
      hgap State.written_symbol rfl rfl
    have hspells : Spells Json.quote 128 (layout Json.quote "" "" (.object [])).toList (.object []) :=
      spells_object blank_nil blank_nil List.nodup_nil (List.forall_mem_nil _)
    rw [layout, layoutMembers] at hspells
    have hread := Exec.jsonParse_value (m := machine (2 ^ 33)) (c := default) (s := s') (reads_parse _ _ hspells) rfl
    refine ⟨_, s', ⟨s'.heap.size⟩, _, State.ownKeys_symbol, congrArg Step.outcome hrun,
      congrArg Step.outcome hread, ?_⟩
    rw [State.object_push, if_pos rfl]
    rfl

end EcmaScript
