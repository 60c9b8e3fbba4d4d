import EcmaScript.Library.Object
import EcmaScript.Proofs.KeyOrder
import EcmaScript.Proofs.Proxy.Trap
import EcmaScript.Proofs.Super

/-! Properties that are described by objects and defined by these descriptions again. -/
namespace EcmaScript

/-- Keys as an object lists them: none twice, and indices by their size, then strings and then symbols. -/
structure PropertyKey.Listed (keys : List PropertyKey) : Prop where
  nodup : keys.Nodup
  order : ∃ (indices : List ArrayIndex) (names : List PropertyKey), indices.Pairwise (· < ·) ∧
    (∀ n, .index n ∉ names) ∧
    keys = indices.map .index ++ names.filter (!·.isSymbol) ++ names.filter (·.isSymbol)

theorem Object.Listable.listed {o : Object} (h : o.Listable) : PropertyKey.Listed o.ownKeys := by
  obtain ⟨indices, hkeys, hsorted⟩ := ownKeys_eq h.short ⟨h.distinct, rfl⟩
  exact ⟨h.ownKeys_nodup, indices, _, hsorted, h.distinct.named, hkeys⟩

section Order
variable {indices : List ArrayIndex} {names order : List PropertyKey}

theorem noted_indices : (indices.map .index).foldl noted order = order := by
  induction indices with
  | nil => rfl
  | cons n rest ih => exact ih

theorem noted_names (hnodup : names.Nodup) (hnamed : ∀ n, .index n ∉ names) (hnew : names.Disjoint order) :
    names.foldl noted order = order ++ names := by
  induction names generalizing order with
  | nil => simp
  | cons key rest ih =>
    obtain ⟨hkey, hrest⟩ := List.nodup_cons.mp hnodup
    have hnoted : noted order key = order ++ [key] := by
      have hnone : key ∉ order := fun h => hnew List.mem_cons_self h
      cases key with
      | index n => exact absurd List.mem_cons_self (hnamed n)
      | _ => exact if_neg hnone
    rw [List.foldl_cons, hnoted, ih hrest fun n hn => hnamed n (List.mem_cons_of_mem _ hn)]
    · simp
    · intro other hother horder
      rcases List.mem_append.mp horder with hold | hsame
      · exact hnew (List.mem_cons_of_mem _ hother) hold
      · exact hkey (List.mem_singleton.mp hsame ▸ hother)

end Order

namespace PropertyTable
variable {t : PropertyTable} {entries : List (PropertyKey × Property)} {key : PropertyKey}

def filled (t : PropertyTable) (entries : List (PropertyKey × Property)) : PropertyTable :=
  entries.foldl (fun t e => t.put e.1 e.2) t

theorem get?_filled (key : PropertyKey) (h : (entries.map (·.1)).Nodup) :
    (t.filled entries).get? key = (entries.lookup key).or (t.get? key) := by
  induction entries generalizing t with
  | nil => rfl
  | cons e rest ih =>
    obtain ⟨first, p⟩ := e
    obtain ⟨hfirst, hrest⟩ := List.nodup_cons.mp h
    have hfilled : t.filled ((first, p) :: rest) = (t.put first p).filled rest := rfl
    rw [hfilled, ih hrest, get?_put, List.lookup_cons]
    by_cases hkey : key = first
    · subst hkey
      have hnone : rest.lookup key = none := by
        refine List.lookup_eq_none_iff.mpr fun e he => ?_
        exact bne_iff_ne.mpr fun hne => hfirst (List.mem_map.mpr ⟨e, he, hne.symm⟩)
      simp [hnone]
    · have hbeq : (key == first) = false := beq_eq_false_iff_ne.mpr hkey
      simp [hbeq, hkey]

theorem keys_filled (h : PropertyKey.Listed (entries.map (·.1))) :
    (({} : PropertyTable).filled entries).keys = entries.map (·.1) := by
  obtain ⟨hnodup, indices, names, hsorted, hnamed, hkeys⟩ := h
  have horder : (entries.map (·.1)).foldl noted [] =
      names.filter (!·.isSymbol) ++ names.filter (·.isSymbol) := by
    rw [hkeys] at hnodup ⊢
    rw [List.append_assoc] at hnodup ⊢
    rw [List.foldl_append, noted_indices, noted_names hnodup.of_append_right _ (List.disjoint_nil_right _)]
    · rfl
    · intro n hn
      rcases List.mem_append.mp hn with hn | hn
      · exact hnamed n (List.mem_of_mem_filter hn)
      · exact hnamed n (List.mem_of_mem_filter hn)
  have hrecords : (({} : PropertyTable).filled entries).Records
      (names.filter (!·.isSymbol) ++ names.filter (·.isSymbol)) := by
    rw [← horder, List.foldl_map]
    exact records_fold ⟨distinct_empty, rfl⟩
  have hmem (n : ArrayIndex) : n ∈ (({} : PropertyTable).filled entries).indexed.keys ↔ n ∈ indices := by
    have hget : ((({} : PropertyTable).filled entries).get? (.index n)).isSome = true ↔
        .index n ∈ entries.map (·.1) := by
      rw [get?_filled _ hnodup, get?_empty, Option.or_none, List.lookup_isSome_iff, List.mem_map]
      exact exists_congr fun e => and_congr_right fun _ => beq_iff_eq.trans eq_comm
    have hindex : .index n ∈ entries.map (·.1) ↔ n ∈ indices := by simp [hkeys, hnamed n]
    rw [← hindex, ← hget]
    simp [get?]
  have hindices : (({} : PropertyTable).filled entries).indexed.keys = indices :=
    List.Pairwise.eq_of_mem_iff (Std.TreeMap.ordered_keys.imp compare_lt_iff_lt.mp) hsorted fun {n} => hmem n
  have hlisted : (({} : PropertyTable).filled entries).keys =
      (({} : PropertyTable).filled entries).indexed.keys.map .index ++
      (({} : PropertyTable).filled entries).names.filter (!·.isSymbol) ++
      (({} : PropertyTable).filled entries).names.filter (·.isSymbol) := rfl
  rw [hlisted, hindices, hrecords.names, hkeys]
  simp [List.filter_append, List.filter_filter]

end PropertyTable

namespace Descriptor
variable {d : Descriptor} {name : String}

/-- The fields that a description may have. -/
def slots (d : Descriptor) : List (String × Option Value) :=
  [("value", d.value), ("writable", d.writable.map .boolean), ("get", d.getter), ("set", d.setter),
    ("enumerable", d.enumerable.map .boolean), ("configurable", d.configurable.map .boolean)]

def table (d : Descriptor) : PropertyTable :=
  d.fields.foldl (fun t (name, v) => t.put (.name name) (.plain v)) {}

theorem get?_present {slots : List (String × Option Value)} {t : PropertyTable}
    (h : (slots.map (·.1)).Nodup) :
    (slots.foldl (fun t e => (e.2.map fun v => t.put (.name e.1) (.plain v)).getD t) t).get? (.name name) =
      ((slots.lookup name).join.map .plain).or (t.get? (.name name)) := by
  induction slots generalizing t with
  | nil => rfl
  | cons e rest ih =>
    obtain ⟨first, v⟩ := e
    obtain ⟨hfirst, hrest⟩ := List.nodup_cons.mp h
    rw [List.foldl_cons, ih hrest]
    by_cases hname : name = first
    · subst hname
      have hnone : rest.lookup name = none := by
        refine List.lookup_eq_none_iff.mpr fun e he => bne_iff_ne.mpr fun hne => hfirst ?_
        exact List.mem_map.mpr ⟨e, he, hne.symm⟩
      cases v <;> simp [hnone, PropertyTable.get?_put]
    · have hbeq : (name == first) = false := beq_eq_false_iff_ne.mpr hname
      cases v <;> simp [List.lookup_cons, hbeq, PropertyTable.get?_put, hname]

theorem get?_table : d.table.get? (.name name) = (d.slots.lookup name).join.map .plain := by
  have htable : d.table = d.slots.foldl
      (fun t e => (e.2.map fun v => t.put (.name e.1) (.plain v)).getD t) {} := by
    rw [table, fields, List.foldl_filterMap]
    refine congrArg (fun f => List.foldl f _ _) (funext fun t => funext fun e => ?_)
    obtain ⟨name, v⟩ := e
    cases v <;> rfl
  have hnames : (d.slots.map (·.1)).Nodup := by simp [slots]
  rw [htable, get?_present hnames, PropertyTable.get?_empty, Option.or_none]

end Descriptor

namespace State
variable {s s' s'' : State} {id : ObjectId} {t : PropertyTable} {key : PropertyKey}

def plainObject (s : State) (t : PropertyTable) : Object :=
  { prototype := some s.intrinsics.objectPrototype, properties := t }

/-- From one state to another, objects of a kind stay as they are; others change, and new ones are made. -/
structure Retains (s : State) (P : ObjectId → Prop) (s' : State) : Prop where
  intrinsics : s'.intrinsics = s.intrinsics
  scopes : s'.scopes = s.scopes
  size : s.heap.size ≤ s'.heap.size
  object : ∀ id, id.index < s.heap.size → P id → s'.object id = s.object id

namespace Retains
variable {P Q : ObjectId → Prop}

theorem refl : s.Retains P s := ⟨rfl, rfl, Nat.le_refl _, fun _ _ _ => rfl⟩

theorem trans (h : s.Retains P s') (h' : s'.Retains Q s'')
    (hPQ : ∀ id : ObjectId, id.index < s.heap.size → P id → Q id) : s.Retains P s'' where
  intrinsics := h'.intrinsics.trans h.intrinsics
  scopes := h'.scopes.trans h.scopes
  size := Nat.le_trans h.size h'.size
  object id hid hp :=
    (h'.object id (Nat.lt_of_lt_of_le hid h.size) (hPQ id hid hp)).trans (h.object id hid hp)

theorem mono (h : s.Retains P s') (hQ : ∀ id, Q id → P id) : s.Retains Q s' :=
  ⟨h.intrinsics, h.scopes, h.size, fun id hid hq => h.object id hid (hQ id hq)⟩

theorem push {o : Object} : s.Retains P { s with heap := s.heap.push o } :=
  ⟨rfl, rfl, by simp, fun _ hid _ => by rw [object_push, if_neg (Nat.ne_of_lt hid)]⟩

theorem replace {o : Object} : s.Retains (· ≠ id) (s.replace id o) :=
  ⟨rfl, rfl, by simp, fun _ _ hne => object_replace_ne hne⟩

theorem plainObject (h : s.Retains P s') : s'.plainObject t = s.plainObject t := by
  rw [State.plainObject, State.plainObject, h.intrinsics]

theorem ownProperty? (h : s.Retains P s') (hid : id.index < s.heap.size) (hp : P id) :
    s'.ownProperty? id key = s.ownProperty? id key := by
  have hscope (scope : ScopeId) : s'.scope scope = s.scope scope := by
    simp only [State.scope, h.scopes]
  simp only [State.ownProperty?, h.object id hid hp, hscope]

theorem callableValue (h : s.Retains (fun _ => True) s') {v : Value} (hv : s.callableValue v = true) :
    s'.callableValue v = true := by
  cases v with
  | object id =>
    have hid : id.index < s.heap.size := by
      refine lt_of_kind fun hk => ?_
      simp [State.callableValue, isCallable, hk] at hv
    simpa only [State.callableValue, isCallable, h.object id hid trivial] using hv
  | _ => cases hv

theorem chain {start : Option ObjectId} {ids : List ObjectId} (h : s.Retains (fun _ => True) s')
    (hchain : s.Chain start ids) (hids : ∀ id ∈ ids, id.index < s.heap.size) : s'.Chain start ids := by
  induction hchain with
  | nil => exact .nil
  | @cons id rest hproxy _ ih =>
    obtain ⟨hid, hrest⟩ := List.forall_mem_cons.mp hids
    have hobject := h.object id hid trivial
    exact .cons (by rw [hobject, hproxy]) (hobject ▸ ih hrest)

end Retains

/-- No field of a description is found from the prototype of plain objects on, and no proxy is met there. -/
def Fieldless (s : State) : Prop := ∃ ids, s.Chain (some s.intrinsics.objectPrototype) ids ∧
  ∀ id ∈ ids, id.index < s.heap.size ∧
    ∀ name ∈ ["value", "writable", "get", "set", "enumerable", "configurable"],
      s.ownProperty? id (.name name) = none

theorem Fieldless.retained (h : s.Fieldless) (hs : s.Retains (fun _ => True) s') : s'.Fieldless := by
  obtain ⟨ids, hchain, hids⟩ := h
  refine ⟨ids, ?_, fun id hid => ?_⟩
  · rw [hs.intrinsics]
    exact hs.chain hchain fun id hid => (hids id hid).1
  · obtain ⟨hlt, hnone⟩ := hids id hid
    exact ⟨Nat.lt_of_lt_of_le hlt hs.size, fun name hname => (hs.ownProperty? hlt trivial).trans (hnone name hname)⟩

end State

namespace Exec
variable {m : Machine} {c : Context} {s : State} {id : ObjectId} {t : PropertyTable} {d : Descriptor}

section Reading
variable (hs : s.Fieldless) (hid : s.object id = s.plainObject d.table)
include hs hid

theorem field?_value (name : String)
    (hname : name ∈ ["value", "writable", "get", "set", "enumerable", "configurable"]) :
    field? id name m c s = .value (d.slots.lookup name).join s := by
  have hproxy : (s.object id).isProxy = false := by rw [hid]; rfl
  have hown : s.ownProperty? id (.name name) = (d.slots.lookup name).join.map .plain := by
    rw [← Descriptor.get?_table]
    simp [State.ownProperty?, hid, State.plainObject, Object.own?]
  have hlook {α : Type} (f : State → α) : look f m c s = .value (f s) s := rfl
  cases hv : (d.slots.lookup name).join with
  | none =>
    obtain ⟨ids, hchain, hids⟩ := hs
    have hlookup : s.lookup id (.name name) = .absent := by
      have hwhole : s.Chain (some id) (id :: ids) := .cons hproxy (by rw [hid]; exact hchain)
      refine hwhole.lookup_absent fun other hother => ?_
      rcases List.mem_cons.mp hother with rfl | hother
      · rw [hown, hv]
        rfl
      · exact (hids other hother).2 name hname
    have hhas : has id (.name name) m c s = .value false s := by
      rw [has, bind_value (hlook _), hlookup]
      rfl
    rw [field?, bind_value hhas]
    rfl
  | some v =>
    have hlookup : s.lookup id (.name name) = .found (.plain v) :=
      State.lookup_own hproxy (by rw [hown, hv]; rfl)
    have hhas : has id (.name name) m c s = .value true s := by
      rw [has, bind_value (hlook _), hlookup]
      rfl
    have hget : getNamed id name m c s = .value v s := by
      rw [getNamed, get, getFor, bind_value (hlook _), hlookup]
      rfl
    rw [field?, bind_value hhas, if_pos rfl, bind_value hget]
    rfl

theorem functionField?_value (name role : String) (hname : name = "get" ∨ name = "set")
    (hv : ∀ v, (d.slots.lookup name).join = some v → v.isUndefined = true ∨ s.callableValue v = true) :
    functionField? id name role m c s = .value (d.slots.lookup name).join s := by
  have hfield := field?_value (m := m) (c := c) hs hid name (by rcases hname with rfl | rfl <;> simp)
  rw [functionField?, bind_value hfield]
  cases hfound : (d.slots.lookup name).join with
  | none => rfl
  | some v =>
    dsimp only
    rw [bind_value (show isCallable v m c s = .value (s.callableValue v) s from rfl)]
    rw [if_pos (by simpa using hv v hfound)]
    rfl

theorem toDescriptor_value (hd : d.Consistent)
    (hfunctions : ∀ v, d.getter = some v ∨ d.setter = some v → v.isUndefined = true ∨ s.callableValue v = true) :
    toDescriptor id m c s = .value d s := by
  have hfield := field?_value (m := m) (c := c) hs hid
  have hfunction := functionField?_value (m := m) (c := c) hs hid
  rw [toDescriptor, bind_value (hfield "enumerable" (by simp)), bind_value (hfield "configurable" (by simp)),
    bind_value (hfield "value" (by simp)), bind_value (hfield "writable" (by simp)),
    bind_value (hfunction "get" "Getter" (.inl rfl) fun v hv => hfunctions v (.inl hv)),
    bind_value (hfunction "set" "Setter" (.inr rfl) fun v hv => hfunctions v (.inr hv))]
  have htruthy (b : Option Bool) : (b.map Value.boolean).map Value.truthy = b := by
    cases b <;> rfl
  have hfields : (⟨(d.slots.lookup "value").join, (d.slots.lookup "writable").join.map Value.truthy,
      (d.slots.lookup "get").join, (d.slots.lookup "set").join,
      (d.slots.lookup "enumerable").join.map Value.truthy,
      (d.slots.lookup "configurable").join.map Value.truthy⟩ : Descriptor) = d := by
    simp [Descriptor.slots, List.lookup_cons, htruthy]
  have hboth : (d.isAccessor && d.isData) = false := by
    rcases hd with ha | hd
    · rw [ha]
      rfl
    · rw [hd, Bool.and_false]
  dsimp only
  rw [hfields, hboth]
  rfl

end Reading
end Exec

namespace Property
variable {p : Property} {s : State}

/-- The functions that read and write a property. -/
def functions (p : Property) : List Value :=
  match p.slot with
  | .data .. => []
  | .accessor getter setter => getter.toList ++ setter.toList

def Works (p : Property) (s : State) : Prop := ∀ f ∈ p.functions, s.callableValue f = true

theorem Works.toProperty_toDescriptor (h : p.Works s) : p.toDescriptor.toProperty = p := by
  obtain ⟨slot, enumerable, configurable⟩ := p
  cases slot with
  | data v writable => rfl
  | accessor getter setter =>
    have hfunction {f : Option Value} (hf : ∀ v, f = some v → s.callableValue v = true) :
        Descriptor.functionOf (f.getD .undefined) = f := by
      cases f with
      | none => rfl
      | some v =>
        cases v with
        | undefined => cases hf _ rfl
        | _ => rfl
    have hgetter := hfunction (f := getter) fun v hv => h v (by simp [functions, hv])
    have hsetter := hfunction (f := setter) fun v hv => h v (by simp [functions, hv])
    simp [toDescriptor, Descriptor.toProperty, Descriptor.isAccessor, hgetter, hsetter]

theorem Works.described (h : p.Works s) (v : Value)
    (hv : p.toDescriptor.getter = some v ∨ p.toDescriptor.setter = some v) :
    v.isUndefined = true ∨ s.callableValue v = true := by
  obtain ⟨slot, enumerable, configurable⟩ := p
  cases slot with
  | data w writable => rcases hv with hv | hv <;> cases hv
  | accessor getter setter =>
    have hfunction {f : Option Value} (hf : f.getD .undefined = v)
        (hworks : ∀ w, f = some w → s.callableValue w = true) : v.isUndefined = true ∨ s.callableValue v = true := by
      cases f with
      | none => exact .inl (hf ▸ rfl)
      | some w => exact .inr (hf ▸ hworks w rfl)
    rcases hv with hv | hv
    · exact hfunction (Option.some.inj hv) fun w hw => h w (by simp [functions, hw])
    · exact hfunction (Option.some.inj hv) fun w hw => h w (by simp [functions, hw])

theorem consistent_toDescriptor : p.toDescriptor.Consistent := by
  obtain ⟨slot, enumerable, configurable⟩ := p
  cases slot with
  | data => exact .inl rfl
  | accessor => exact .inr rfl

end Property

namespace Exec
variable {m : Machine} {c : Context} {s : State} {id source : ObjectId} {t : PropertyTable}

theorem fromDescriptor_value {d : Descriptor} : fromDescriptor d m c s =
    .value ⟨s.heap.size⟩ { s with heap := s.heap.push (s.plainObject d.table) } := rfl

theorem object_described {d : Descriptor} :
    ({ s with heap := s.heap.push (s.plainObject d.table) } : State).object ⟨s.heap.size⟩ =
      s.plainObject d.table := by
  rw [State.object_push, if_pos rfl]

def redescribe (p : Property) : Exec Property := do
  return (← toDescriptor (← fromDescriptor p.toDescriptor)).toProperty

theorem redescribe_value {p : Property} (hs : s.Fieldless) (hp : p.Works s) : redescribe p m c s =
    .value p { s with heap := s.heap.push (s.plainObject p.toDescriptor.table) } := by
  let s₁ : State := { s with heap := s.heap.push (s.plainObject p.toDescriptor.table) }
  have hretains : s.Retains (fun _ => True) s₁ := .push
  have hobject : s₁.object ⟨s.heap.size⟩ = s₁.plainObject p.toDescriptor.table := by
    rw [object_described, hretains.plainObject]
  have hread : toDescriptor ⟨s.heap.size⟩ m c s₁ = .value p.toDescriptor s₁ :=
    toDescriptor_value (hs.retained hretains) hobject p.consistent_toDescriptor fun v hv =>
      (hp.described v hv).imp_right hretains.callableValue
  rw [redescribe, bind_value fromDescriptor_value, bind_value hread, hp.toProperty_toDescriptor]
  rfl

theorem define_new {key : PropertyKey} {d : Descriptor} (hid : s.object id = s.plainObject t)
    (hc : c.MayChange id) (hnew : t.get? key = none) : define id key d m c s =
      .value true (s.replace id (s.plainObject (t.put key d.toProperty))) := by
  have hproxy : (s.object id).isProxy = false := by rw [hid]; rfl
  rw [define, bind_value (proxyOf_ordinary hproxy)]
  dsimp only
  rw [defineOrdinary, bind_value (checkObjectWrite_value hc _),
    bind_value (show object id m c s = .value (s.object id) s from rfl), hid]
  simp [State.plainObject, replaceWith, Object.define?, hid, Object.own?, hnew, State.replace, Object.put]

theorem defineOrThrow_new {key : PropertyKey} {d : Descriptor} (hid : s.object id = s.plainObject t)
    (hc : c.MayChange id) (hnew : t.get? key = none) : defineOrThrow id key d m c s =
      .value () (s.replace id (s.plainObject (t.put key d.toProperty))) := by
  rw [defineOrThrow, bind_value (define_new hid hc hnew)]
  rfl

theorem forM_cons_value {α : Type} {f : α → Exec PUnit} {a : α} {l : List α} {s' : State}
    (h : f a m c s = .value ⟨⟩ s') : (a :: l).forM f m c s = l.forM f m c s' := bind_value h

/-- Defines keys that are new, one after the other. -/
theorem defineEach_value {found : List (PropertyKey × Descriptor)} (hid : s.object id = s.plainObject t)
    (hsize : id.index < s.heap.size) (hc : c.MayChange id) (hnodup : (found.map (·.1)).Nodup)
    (hnew : ∀ e ∈ found, t.get? e.1 = none) :
    found.forM (fun e => defineOrThrow id e.1 e.2) m c s = .value ()
      (s.replace id (s.plainObject (t.filled (found.map fun e => (e.1, e.2.toProperty))))) := by
  induction found generalizing s t with
  | nil =>
    have hsame : s.replace id (s.plainObject t) = s := by rw [← hid, State.replace_self]
    exact congrArg (Step.value ()) hsame.symm
  | cons e rest ih =>
    obtain ⟨hfirst, hrest⟩ := List.nodup_cons.mp hnodup
    have hhead := forM_cons_value (l := rest) (f := fun e : PropertyKey × Descriptor => defineOrThrow id e.1 e.2)
      (defineOrThrow_new (m := m) (d := e.2) hid hc (hnew e List.mem_cons_self))
    have hloop := ih (s := s.replace id (s.plainObject (t.put e.1 e.2.toProperty)))
      (State.object_replace_self hsize) (by simpa using hsize) hrest ?_
    · refine hhead.trans (hloop.trans ?_)
      rw [State.replace_replace]
      rfl
    · intro other hother
      rw [PropertyTable.get?_put, if_neg, hnew other (List.mem_cons_of_mem _ hother)]
      exact fun he => hfirst (List.mem_map.mpr ⟨other, hother, he⟩)

def describeIn (id source : ObjectId) (key : PropertyKey) : Exec PUnit := do
  match ← getOwn source key with
  | some p => createOrThrow id key (.object (← fromDescriptor p.toDescriptor))
  | none => pure ()

/-- What describes the properties of an object, each by an object of its own. -/
theorem describeEach_value {entries : List (PropertyKey × Property)} (hid : s.object id = s.plainObject t)
    (hsize : id.index < s.heap.size) (hc : c.MayChange id) (hproxy : (s.object source).isProxy = false)
    (hsource : source.index < s.heap.size) (hne : source ≠ id)
    (hentries : ∀ e ∈ entries, s.ownProperty? source e.1 = some e.2) (hnodup : (entries.map (·.1)).Nodup)
    (hnew : ∀ e ∈ entries, t.get? e.1 = none) :
    ∃ (s' : State) (described : PropertyKey → ObjectId),
      (entries.map (·.1)).forM (describeIn id source) m c s = .value () s' ∧ s.Retains (· ≠ id) s' ∧
      s'.object id = s'.plainObject
        (t.filled (entries.map fun e => (e.1, .plain (.object (described e.1))))) ∧
      ∀ e ∈ entries, s'.object (described e.1) = s'.plainObject e.2.toDescriptor.table := by
  induction entries generalizing s t with
  | nil => exact ⟨s, fun _ => id, rfl, .refl, hid, fun e he => absurd he List.not_mem_nil⟩
  | cons e rest ih =>
    obtain ⟨key, p⟩ := e
    obtain ⟨hfirst, hrest⟩ := List.nodup_cons.mp hnodup
    let s₁ : State := { s with heap := s.heap.push (s.plainObject p.toDescriptor.table) }
    let t₁ := t.put key (.plain (.object ⟨s.heap.size⟩))
    let s₂ := s₁.replace id (s₁.plainObject t₁)
    have hpushed : s.Retains (· ≠ id) s₁ := .push
    have hretains : s.Retains (· ≠ id) s₂ := hpushed.trans .replace fun _ _ h => h
    have hid₁ : s₁.object id = s₁.plainObject t := by
      rw [State.object_push, if_neg (Nat.ne_of_lt hsize), hid]
      rfl
    have hsize₁ : id.index < s₁.heap.size := Nat.lt_of_lt_of_le hsize hpushed.size
    have hhead : describeIn id source key m c s = .value () s₂ := by
      have hown : s.ownProperty? source key = some p := hentries (key, p) List.mem_cons_self
      have hplain (v : Value) : (Descriptor.plain v).toProperty = .plain v := rfl
      rw [describeIn, bind_value (getOwn_ordinary hproxy), hown]
      dsimp only
      rw [bind_value fromDescriptor_value, createOrThrow,
        defineOrThrow_new hid₁ hc (hnew (key, p) List.mem_cons_self), hplain]
    obtain ⟨s', described, hloop, hkept, hobject, hdescribed⟩ := ih (s := s₂) (t := t₁)
      (State.object_replace_self hsize₁) (by simpa [s₂] using hsize₁)
      (by rw [hretains.object source hsource hne]; exact hproxy)
      (Nat.lt_of_lt_of_le hsource hretains.size)
      (fun e he => (hretains.ownProperty? hsource hne).trans (hentries e (List.mem_cons_of_mem _ he))) hrest
      (fun e he => by
        rw [PropertyTable.get?_put, if_neg, hnew e (List.mem_cons_of_mem _ he)]
        exact fun hkey => hfirst (List.mem_map.mpr ⟨e, he, hkey⟩))
    have hother (e : PropertyKey × Property) (he : e ∈ rest) :
        Function.update described key ⟨s.heap.size⟩ e.1 = described e.1 :=
      Function.update_of_ne (fun hkey => hfirst (List.mem_map.mpr ⟨e, he, hkey⟩)) _ _
    refine ⟨s', Function.update described key ⟨s.heap.size⟩, ?_, hretains.trans hkept fun _ _ h => h, ?_, ?_⟩
    · rw [List.map_cons, forM_cons_value hhead, hloop]
    · have hrecorded : rest.map (fun e => (e.1, Property.plain (.object (described e.1)))) = rest.map fun e =>
          (e.1, .plain (.object (Function.update described key ⟨s.heap.size⟩ e.1))) :=
        List.map_congr_left fun e he => by rw [hother e he]
      rw [hobject, List.map_cons, Function.update_self, hrecorded]
      rfl
    · refine List.forall_mem_cons.mpr ⟨?_, fun e he => by rw [hother e he, hdescribed e he]⟩
      have hnew : (⟨s.heap.size⟩ : ObjectId) ≠ id := fun he => by
        subst he
        exact Nat.lt_irrefl _ hsize
      have hsize₂ : s.heap.size < s₂.heap.size := by simp [s₂, s₁]
      have hmade : s₂.object ⟨s.heap.size⟩ = s.plainObject p.toDescriptor.table :=
        (State.object_replace_ne hnew).trans object_described
      rw [Function.update_self, hkept.object ⟨s.heap.size⟩ hsize₂ hnew, hmade, hkept.plainObject]
      rfl

/-- An object that describes the properties of an object under its keys. -/
theorem describeAll_value {entries : List (PropertyKey × Property)} (this : Value)
    (hproxy : (s.object source).isProxy = false) (hsource : source.index < s.heap.size)
    (hc : c.MayChange ⟨s.heap.size⟩) (hkeys : (s.object source).ownKeys = entries.map (·.1))
    (hentries : ∀ e ∈ entries, s.ownProperty? source e.1 = some e.2) (hnodup : (entries.map (·.1)).Nodup) :
    ∃ (s' : State) (described : PropertyKey → ObjectId),
      objectFunction .getOwnPropertyDescriptors this #[.object source] m c s =
        .value (.object ⟨s.heap.size⟩) s' ∧ s.Retains (fun _ => True) s' ∧
      s'.object ⟨s.heap.size⟩ = s'.plainObject
        (({} : PropertyTable).filled (entries.map fun e => (e.1, .plain (.object (described e.1))))) ∧
      ∀ e ∈ entries, s'.object (described e.1) = s'.plainObject e.2.toDescriptor.table := by
  let s₁ : State := { s with heap := s.heap.push (s.plainObject {}) }
  have hpushed : s.Retains (fun _ => True) s₁ := .push
  have hobject := hpushed.object source hsource trivial
  have hne : source ≠ ⟨s.heap.size⟩ := by
    rintro rfl
    exact Nat.lt_irrefl _ hsource
  have hid : s₁.object ⟨s.heap.size⟩ = s₁.plainObject {} := by
    rw [State.object_push, if_pos rfl]
    rfl
  obtain ⟨s', described, hloop, hretains, hout, hdescribed⟩ := describeEach_value (m := m) (c := c) hid
    (by simp [s₁]) hc
    (by rw [hobject, hproxy]) (Nat.lt_of_lt_of_le hsource hpushed.size) hne
    (fun e he => (hpushed.ownProperty? hsource trivial).trans (hentries e he)) hnodup
    fun e _ => PropertyTable.get?_empty
  refine ⟨s', described, ?_, hpushed.trans hretains fun id hid _ => ?_, hout, hdescribed⟩
  · have hownKeys : ownKeys source m c s₁ = .value (entries.map (·.1)) s₁ := by
      rw [ownKeys_ordinary (by rw [hobject, hproxy]), hobject, hkeys]
    have hsubject : toObject (.object source) m c s = .value source s := rfl
    have hnew : newObject [] m c s = .value ⟨s.heap.size⟩ s₁ := rfl
    rw [objectFunction]
    change (toObject (.object source) >>= _) m c s = _
    rw [bind_value hsubject, bind_value hnew, bind_value hownKeys]
    change ((entries.map (·.1)).forM (describeIn ⟨s.heap.size⟩ source) >>= _) m c s₁ = _
    rw [bind_value hloop]
    rfl
  · rintro rfl
    exact Nat.lt_irrefl _ hid

theorem lookup_of_mem {α β : Type} [BEq α] [LawfulBEq α] {entries : List (α × β)} {e : α × β}
    (h : (entries.map (·.1)).Nodup) (he : e ∈ entries) : entries.lookup e.1 = some e.2 := by
  induction entries with
  | nil => cases he
  | cons first rest ih =>
    obtain ⟨hfirst, hrest⟩ := List.nodup_cons.mp h
    rcases List.mem_cons.mp he with rfl | he
    · exact List.lookup_cons_self
    · have hbeq : (e.1 == first.1) = false :=
        beq_eq_false_iff_ne.mpr fun hkey => hfirst (List.mem_map.mpr ⟨e, he, hkey⟩)
      rw [List.lookup_cons, hbeq, ih hrest he]

theorem filterMapM_value {α β γ : Type} {f : α → Exec (Option β)} {g : γ → β} {k : γ → α} {l : List γ}
    (h : ∀ a ∈ l, f (k a) m c s = .value (some (g a)) s) : (l.map k).filterMapM f m c s = .value (l.map g) s := by
  induction l with
  | nil => rfl
  | cons a rest ih =>
    obtain ⟨hhead, hrest⟩ := List.forall_mem_cons.mp h
    rw [List.map_cons, List.filterMapM_cons, bind_value hhead]
    dsimp only
    rw [bind_value (ih hrest)]
    rfl

/-- The properties that are described under the keys of an object are defined on another one. -/
theorem defineAll_value {entries : List (PropertyKey × Property)} {out : ObjectId}
    {described : PropertyKey → ObjectId} (hs : s.Fieldless)
    (hout : s.object out = s.plainObject
      (({} : PropertyTable).filled (entries.map fun e => (e.1, .plain (.object (described e.1))))))
    (hdescribed : ∀ e ∈ entries, s.object (described e.1) = s.plainObject e.2.toDescriptor.table)
    (hlisted : PropertyKey.Listed (entries.map (·.1))) (hworks : ∀ e ∈ entries, e.2.Works s)
    (hid : s.object id = s.plainObject {}) (hsize : id.index < s.heap.size) (hc : c.MayChange id) :
    defineAll id (.object out) m c s =
      .value () (s.replace id (s.plainObject (({} : PropertyTable).filled entries))) := by
  have hproxy : (s.object out).isProxy = false := by rw [hout]; rfl
  have hnames {α : Type} (g : PropertyKey × Property → α) :
      (entries.map fun e => (e.1, g e)).map (·.1) = entries.map (·.1) := by
    rw [List.map_map]
    rfl
  let describing (e : PropertyKey × Property) : Property := .plain (.object (described e.1))
  have hkeys : ownKeys out m c s = .value (entries.map (·.1)) s := by
    rw [ownKeys_ordinary hproxy, hout, ← hnames describing,
      ← PropertyTable.keys_filled ((hnames describing).symm ▸ hlisted)]
    rfl
  have hread (e : PropertyKey × Property) (he : e ∈ entries) : (do
      match ← getOwn out e.1 with
      | some p =>
        if p.enumerable then return some (e.1, ← descriptorArgument (← get out e.1)) else return none
      | none => return none : Exec (Option (PropertyKey × Descriptor))) m c s =
        .value (some (e.1, e.2.toDescriptor)) s := by
    have hlookup : (entries.map fun e => (e.1, describing e)).lookup e.1 = some (describing e) :=
      lookup_of_mem (e := (e.1, describing e)) ((hnames describing).symm ▸ hlisted.nodup)
        (List.mem_map.mpr ⟨e, he, rfl⟩)
    have hown : s.ownProperty? out e.1 = some (describing e) := by
      have hget := PropertyTable.get?_filled (t := {}) e.1 ((hnames describing).symm ▸ hlisted.nodup)
      rw [hlookup] at hget
      simpa [State.ownProperty?, hout, State.plainObject, Object.own?] using hget
    have hget : get out e.1 m c s = .value (.object (described e.1)) s := by
      rw [get, getFor, bind_value (show look _ m c s = .value (s.lookup out e.1) s from rfl),
        State.lookup_own hproxy hown]
      rfl
    have hdescriptor : descriptorArgument (.object (described e.1)) m c s = .value e.2.toDescriptor s :=
      toDescriptor_value hs (hdescribed e he) e.2.consistent_toDescriptor (hworks e he).described
    rw [bind_value (getOwn_ordinary hproxy), hown]
    dsimp only
    have henumerable : (describing e).enumerable = true := rfl
    rw [if_pos henumerable, bind_value hget, bind_value hdescriptor]
    rfl
  have hdefine : (entries.map fun e => (e.1, e.2.toDescriptor)).forM (fun e => defineOrThrow id e.1 e.2) m c s =
      .value () (s.replace id (s.plainObject (({} : PropertyTable).filled entries))) := by
    rw [defineEach_value hid hsize hc ((hnames _).symm ▸ hlisted.nodup) fun e _ => PropertyTable.get?_empty,
      List.map_map]
    have hsame : entries.map ((fun e => (e.1, e.2.toProperty)) ∘ fun e => (e.1, e.2.toDescriptor)) = entries := by
      refine (List.map_congr_left fun e he => ?_).trans (List.map_id entries)
      exact Prod.ext rfl (hworks e he).toProperty_toDescriptor
    rw [hsame]
  rw [defineAll, bind_value (show toObject (.object out) m c s = .value out s from rfl), bind_value hkeys,
    bind_value (filterMapM_value hread)]
  exact hdefine

/-- The call `Object.defineProperties({}, Object.getOwnPropertyDescriptors(source))`. -/
def copyByDescriptions (this : Value) (source : ObjectId) : Exec Value := do
  let target ← newObject []
  let descriptions ← objectFunction .getOwnPropertyDescriptors this #[.object source]
  objectFunction .defineProperties this #[.object target, descriptions]

end Exec

/-- A plain object that has been made with the own properties of another one, which is as it was. -/
structure State.Copied (s : State) (source : ObjectId) (s' : State) (target : ObjectId) : Prop where
  new : s.heap.size ≤ target.index
  kind : (s'.object target).kind = .ordinary
  keys : (s'.object target).ownKeys = (s.object source).ownKeys
  properties : ∀ key, s'.ownProperty? target key = s.ownProperty? source key
  source : s'.object source = s.object source

section Copies
open Exec
variable {m : Machine} {c : Context} {s : State} {source : ObjectId} {this : Value}

theorem copyByDescriptions_value (hs : s.Fieldless) (hproxy : (s.object source).isProxy = false)
    (hlistable : (s.object source).Listable) (hsource : source.index < s.heap.size)
    (hworks : ∀ key p, s.ownProperty? source key = some p → p.Works s)
    (hc : c.isDryRun = true → c.firstObject ≤ s.heap.size) :
    ∃ s', copyByDescriptions this source m c s = .value (.object ⟨s.heap.size⟩) s' ∧
      s.Copied source s' ⟨s.heap.size⟩ := by
  let entries := (s.object source).ownKeys.map fun key => (key, (s.ownProperty? source key).getD default)
  have hkeys : entries.map (·.1) = (s.object source).ownKeys := by
    rw [List.map_map]
    exact List.map_id _
  have hmem {key : PropertyKey} : key ∈ (s.object source).ownKeys ↔ (s.ownProperty? source key).isSome = true :=
    State.mem_ownKeys_iff hlistable.short hlistable.distinct
  have hentries (e : PropertyKey × Property) (he : e ∈ entries) : s.ownProperty? source e.1 = some e.2 := by
    obtain ⟨key, hkey, rfl⟩ := List.mem_map.mp he
    obtain ⟨p, hp⟩ := Option.isSome_iff_exists.mp (hmem.mp hkey)
    simp [hp]
  have hlisted : PropertyKey.Listed (entries.map (·.1)) := hkeys ▸ hlistable.listed
  -- The target, then the descriptions, then the properties of the target.
  let target : ObjectId := ⟨s.heap.size⟩
  let s₁ : State := { s with heap := s.heap.push (s.plainObject {}) }
  have hpushed : s.Retains (fun _ => True) s₁ := .push
  have hsize₁ : s₁.heap.size = s.heap.size + 1 := by simp [s₁]
  have hobject₁ := hpushed.object source hsource trivial
  obtain ⟨s₂, described, hdescribe, hretains, hout, hdescribed⟩ := describeAll_value (m := m) (c := c) (s := s₁)
    this (by rw [hobject₁, hproxy]) (Nat.lt_of_lt_of_le hsource hpushed.size)
    (fun hdry => hsize₁ ▸ Nat.le_succ_of_le (hc hdry)) (by rw [hobject₁, hkeys])
    (fun e he => (hpushed.ownProperty? hsource trivial).trans (hentries e he)) hlisted.nodup
  have hboth : s.Retains (fun _ => True) s₂ := hpushed.trans hretains fun _ _ h => h
  have hsize : target.index < s₁.heap.size := hsize₁ ▸ Nat.lt_succ_self _
  have hsize₂ : target.index < s₂.heap.size := Nat.lt_of_lt_of_le hsize hretains.size
  have htarget : s₂.object target = s₂.plainObject {} := by
    rw [hretains.object target hsize trivial, State.object_push, if_pos rfl, hboth.plainObject]
  have hdefine := defineAll_value (m := m) (c := c) (hs.retained hboth) hout hdescribed hlisted
    (fun e he f hf => hboth.callableValue (hworks e.1 e.2 (hentries e he) f hf)) htarget hsize₂ hc
  let s₃ := s₂.replace target (s₂.plainObject (({} : PropertyTable).filled entries))
  have hmade : s₃.object target = s₂.plainObject (({} : PropertyTable).filled entries) :=
    State.object_replace_self hsize₂
  refine ⟨s₃, ?_, Nat.le_refl _, by rw [hmade]; rfl, ?_, fun key => ?_, ?_⟩
  · have hfirst : objectArgument #[.object target, .object ⟨s₁.heap.size⟩] "defineProperties" m c s₂ =
        .value target s₂ := rfl
    have hsecond : argument #[.object target, .object ⟨s₁.heap.size⟩] 1 = .object ⟨s₁.heap.size⟩ := rfl
    rw [copyByDescriptions, bind_value (show newObject [] m c s = .value target s₁ from rfl),
      bind_value hdescribe, objectFunction, bind_value hfirst, hsecond,
      bind_value hdefine]
    rfl
  · rw [hmade, ← hkeys, ← PropertyTable.keys_filled hlisted]
    rfl
  · have hget := PropertyTable.get?_filled (t := {}) key hlisted.nodup
    have hown : s₃.ownProperty? target key = (({} : PropertyTable).filled entries).get? key := by
      simp [State.ownProperty?, hmade, State.plainObject, Object.own?]
    rw [hown, hget, PropertyTable.get?_empty, Option.or_none]
    cases hp : s.ownProperty? source key with
    | some p =>
      have he : (key, p) ∈ entries :=
        List.mem_map.mpr ⟨key, hmem.mpr (hp ▸ rfl), by rw [hp]; rfl⟩
      exact lookup_of_mem hlisted.nodup he
    | none =>
      refine List.lookup_eq_none_iff.mpr fun e he => bne_iff_ne.mpr ?_
      rintro rfl
      cases hp.symm.trans (hentries e he)
  · have hne : source ≠ target := by
      rintro rfl
      exact Nat.lt_irrefl _ hsource
    rw [State.object_replace_ne hne, hboth.object source hsource trivial]

end Copies

/-- Properties round-trip through their descriptions, as long as their functions can be called and no field of
a description is found from the prototype of plain objects on: a property that is described by an object is
made again of what that object says, and an object that is no proxy is copied, with its keys in their order
and with all of its properties. -/
theorem descriptions_round_trip :
    (∀ (m : Machine) (c : Context) (s : State) (p : Property), s.Fieldless → p.Works s →
      ∃ s', Exec.redescribe p m c s = .value p s') ∧
    ∀ (m : Machine) (c : Context) (s : State) (source : ObjectId) (this : Value), s.Fieldless →
      (s.object source).isProxy = false → (s.object source).Listable → source.index < s.heap.size →
      (∀ key p, s.ownProperty? source key = some p → p.Works s) →
      (c.isDryRun = true → c.firstObject ≤ s.heap.size) →
      ∃ s', Exec.copyByDescriptions this source m c s = .value (.object ⟨s.heap.size⟩) s' ∧
        s.Copied source s' ⟨s.heap.size⟩ :=
  ⟨fun _ _ _ _ hs hp => ⟨_, Exec.redescribe_value hs hp⟩,
    fun _ _ _ _ _ hs hproxy hlistable hsource hworks hc =>
      copyByDescriptions_value hs hproxy hlistable hsource hworks hc⟩

def Property.read (function : ObjectId) : Property := ⟨.accessor (some (.object function)) none, false, true⟩

def Property.examples : List (PropertyKey × Property) :=
  [(.name "b", .constant .null), (.name "k", .read ⟨1⟩), (.index 0, .plain .undefined)]

/-- An object with these properties and a second one, behind it. The third is the prototype of plain objects,
which may have a prototype itself. -/
def State.withExamples (second : Object) (above : Option ObjectId) : State := { (default : State) with
  heap := #[{ prototype := some ⟨2⟩, properties := ({} : PropertyTable).filled Property.examples },
    second, { prototype := above }]
  intrinsics := { (default : Intrinsics) with objectPrototype := ⟨2⟩ } }

namespace State
variable {second : Object} {above : Option ObjectId}

theorem ownProperty?_plain {name : String} : (withExamples second above).ownProperty? ⟨2⟩ (.name name) = none := by
  have hobject : (withExamples second above).object ⟨2⟩ = { prototype := above } := rfl
  simp [ownProperty?, hobject, Object.own?]

theorem fieldless_withExamples : (withExamples second none).Fieldless := by
  refine ⟨[⟨2⟩], .cons rfl .nil, fun id hid => ?_⟩
  obtain rfl := List.mem_singleton.mp hid
  exact ⟨Nat.lt_succ_self 2, fun name _ => ownProperty?_plain⟩

theorem listable_withExamples : ((withExamples second above).object ⟨0⟩).Listable :=
  ⟨(PropertyTable.records_fold ⟨PropertyTable.distinct_empty, rfl⟩).distinct, nofun⟩

theorem ownProperty?_withExamples {key : PropertyKey} :
    (withExamples second above).ownProperty? ⟨0⟩ key = Property.examples.lookup key := by
  have hobject : (withExamples second above).object ⟨0⟩ =
    { prototype := some ⟨2⟩, properties := ({} : PropertyTable).filled Property.examples } := rfl
  have hget : (({} : PropertyTable).filled Property.examples).get? key = _ :=
    PropertyTable.get?_filled key (by simp [Property.examples])
  simpa [ownProperty?, hobject, Object.own?] using hget

end State

def Step.refuses {α : Type} (x : Step α) : Bool :=
  x.endsIn fun r _ => match r with
    | .error (.failure e) => decide (e.kind = .type)
    | _ => false

def Exec.Refuses {α : Type} (x : Exec α) (s : State) : Prop :=
  ∃ e s', x.Comes (machine 1) default s (.error (.failure e)) s' ∧ e.kind = .type

theorem Exec.refuses_of_step {α : Type} {x : Exec α} {s : State} (h : (x (machine 1) default s).refuses = true) :
    x.Refuses s := by
  obtain ⟨r, s', hrun, hends⟩ := Step.outcome_of_endsIn h
  split at hends
  · exact ⟨_, s', Step.comes_of_outcome hrun, of_decide_eq_true hends⟩
  · cases hends

/-- What a string object lists beyond the last index is the name of no property, and a plain object lists only
names of properties. -/
theorem State.not_copied_withWrapper {text : String} {s' : State} {target : ObjectId}
    (hlong : indexLimit < Text.length16 text) : ¬ (withWrapper text).Copied ⟨0⟩ s' target := by
  intro h
  have hkey : PropertyKey.ofNat indexLimit ∈ (s'.object target).ownKeys :=
    h.keys ▸ Object.element_mem_ownKeys rfl hlong
  have hname : PropertyKey.ofNat indexLimit = .name (Number.natText indexLimit) := dif_neg (Nat.lt_irrefl _)
  have hnone : (s'.object target).properties.get? (.ofNat indexLimit) = none := by
    have hproperty := (h.properties (.ofNat indexLimit)).trans ownProperty?_withWrapper
    rw [ownProperty?_of_not_maps (by simp [Object.maps, h.kind]), Option.or_eq_none_iff] at hproperty
    exact hproperty.2
  rw [Object.ownKeys, h.kind] at hkey
  have hlisted := (PropertyTable.mem_keys_named (by simp [hname])).mp hkey
  rw [hnone] at hlisted
  cases hlisted

/-- A proxy for a function cannot be called any more when it has been revoked. A description of a property
that is read by it is then refused, by itself and in the copy of the object. The same happens to every
property if the prototype of plain objects has no field of a description of its own, but inherits one or
inherits from a proxy. Of a string object with more elements than there are indices no plain object is a copy. -/
theorem descriptions_refused :
    let revoked : Object := { kind := .proxy none, prototype := none }
    let getter : Object := { prototype := none, properties := ({} : PropertyTable).put (.name "get") (.plain .null) }
    ((State.withExamples revoked none).Fieldless ∧ ((State.withExamples revoked none).object ⟨0⟩).Listable ∧
      (State.withExamples revoked none).ownProperty? ⟨0⟩ (.name "k") = some (.read ⟨1⟩) ∧
      (Exec.redescribe (.read ⟨1⟩)).Refuses (.withExamples revoked none) ∧
      (Exec.copyByDescriptions .undefined ⟨0⟩).Refuses (.withExamples revoked none)) ∧
    (∀ second ∈ [revoked, getter],
      (∀ name, (State.withExamples second (some ⟨1⟩)).ownProperty? ⟨2⟩ (.name name) = none) ∧
      (Exec.redescribe (.constant .null)).Refuses (.withExamples second (some ⟨1⟩)) ∧
      (Exec.copyByDescriptions .undefined ⟨0⟩).Refuses (.withExamples second (some ⟨1⟩))) ∧
    ∃ text, ∀ s' target, ¬ (State.withWrapper text).Copied ⟨0⟩ s' target := by
  intro revoked getter
  refine ⟨⟨State.fieldless_withExamples, State.listable_withExamples, State.ownProperty?_withExamples,
    Exec.refuses_of_step (by decide +kernel), Exec.refuses_of_step (by decide +kernel)⟩, ?_,
    String.ofList (List.replicate (indexLimit + 1) 'a'), fun s' target => State.not_copied_withWrapper <| by
      rw [Text.length16_replicate]
      exact Nat.lt_succ_self _⟩
  refine List.forall_mem_cons.mpr ⟨?_, List.forall_mem_singleton.mpr ?_⟩
  · exact ⟨fun name => State.ownProperty?_plain, Exec.refuses_of_step (by decide +kernel),
      Exec.refuses_of_step (by decide +kernel)⟩
  · exact ⟨fun name => State.ownProperty?_plain, Exec.refuses_of_step (by decide +kernel),
      Exec.refuses_of_step (by decide +kernel)⟩

/-- With a function in the second place, the property that it reads comes back, and the object is copied. -/
theorem descriptions_round_trip_function :
    let function : Object := { kind := .function (.native "Object" (.object .construct)), prototype := none }
    (∃ s', Exec.redescribe (.read ⟨1⟩) (machine 1) default (.withExamples function none) =
      .value (.read ⟨1⟩) s') ∧
    ∃ s', Exec.copyByDescriptions .undefined ⟨0⟩ (machine 1) default (.withExamples function none) =
        .value (.object ⟨3⟩) s' ∧
      (s'.object ⟨3⟩).ownKeys = [.index 0, .name "b", .name "k"] ∧
      ∀ key, s'.ownProperty? ⟨3⟩ key = Property.examples.lookup key := by
  intro function
  have hread : (Property.read ⟨1⟩).Works (.withExamples function none) := fun f hf => by
    obtain rfl := List.mem_singleton.mp hf
    rfl
  have hworks (key : PropertyKey) (p : Property)
      (hp : (State.withExamples function none).ownProperty? ⟨0⟩ key = some p) :
      p.Works (.withExamples function none) := by
    rw [State.ownProperty?_withExamples, Property.examples] at hp
    simp only [List.lookup_cons, List.lookup_nil] at hp
    split at hp
    · cases hp
      exact fun f hf => absurd hf List.not_mem_nil
    · split at hp
      · cases hp
        exact hread
      · split at hp
        · cases hp
          exact fun f hf => absurd hf List.not_mem_nil
        · cases hp
  refine ⟨descriptions_round_trip.1 _ _ _ _ State.fieldless_withExamples hread, ?_⟩
  obtain ⟨s', hcopy, hcopied⟩ := descriptions_round_trip.2 (machine 1) default (.withExamples function none) ⟨0⟩
    .undefined State.fieldless_withExamples rfl State.listable_withExamples (by decide) hworks nofun
  refine ⟨s', hcopy, ?_, fun key => (hcopied.properties key).trans State.ownProperty?_withExamples⟩
  exact hcopied.keys.trans (by decide +kernel)

end EcmaScript
