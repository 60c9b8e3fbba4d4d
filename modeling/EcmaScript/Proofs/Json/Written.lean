import EcmaScript.Evaluate.Machine
import EcmaScript.Library.Json
import EcmaScript.Proofs.Elements
import EcmaScript.Proofs.Frozen
import EcmaScript.Proofs.RoundTrip

/-! Objects that hold other objects, and the text of a value, which exists as long as nothing holds itself. -/
namespace EcmaScript
open Relation

namespace Object

def shownKeys (o : Object) : List PropertyKey :=
  (o.ownKeys.filter (!·.isSymbol)).filter fun key => ((o.own? key).map (·.enumerable)).getD false

def shown (o : Object) (key : PropertyKey) : Value := (o.ownValue? key).getD .undefined

end Object

/-- The text of a value that is no object, or nothing for what documents cannot hold. -/
def Value.written? : Value → Option String
  | .null => some "null"
  | .boolean b => some (if b then "true" else "false")
  | .string text => some (Json.quote text)
  | .number x => some (if x.isNaN || x.isInf then "null" else Number.text x)
  | _ => none

namespace State
variable {s s' : State} {id child : ObjectId} {v : Value} {gap indent : String} {text : Option String}

/-- An object holds the enumerable members that have strings as keys, an array its elements. -/
inductive Contains (s : State) (id child : ObjectId) : Prop where
  | member {key : PropertyKey} {p : Property} (hk : (s.object id).kind = .ordinary) (hkey : key.isSymbol = false)
    (hp : (s.object id).own? key = some p) (he : p.enumerable = true) (hv : p.value? = some (.object child))
  | element {i : ArrayIndex} {p : Property} (hk : (s.object id).kind = .array)
    (hp : (s.object id).own? (.index i) = some p) (hv : p.value? = some (.object child))

def Meets (s : State) (v : Value) (x : ObjectId) : Prop := ∃ id, v = .object id ∧ ReflTransGen s.Contains id x

def Circular (s : State) (v : Value) : Prop := ∃ x, s.Meets v x ∧ TransGen s.Contains x x

/-- The text of a value within an indent, or nothing for what documents cannot hold. Every member and every
element is written where it stands, however often it stands somewhere. -/
inductive Written (s : State) (gap : String) : (indent : String) → Value → Option String → Prop where
  | simple {indent : String} {v : Value} (h : v.isObject = false) : Written s gap indent v v.written?
  | function {indent : String} {id : ObjectId} (h : s.isCallable id = true) : Written s gap indent (.object id) none
  | array {indent : String} {id : ObjectId} {texts : List (Option String)} (hk : (s.object id).kind = .array)
    (hlength : texts.length = (s.object id).arrayLength)
    (h : ∀ i (hi : i < texts.length), Written s gap (indent ++ gap) ((s.object id).shown (.ofNat i)) texts[i]) :
    Written s gap indent (.object id)
      (some (JsonStyle.wrap { gap := gap } "[" "]" indent (texts.map (·.getD "null"))))
  | object {indent : String} {id : ObjectId} {members : List (PropertyKey × Option String)}
    (hk : (s.object id).kind = .ordinary) (hkeys : members.map (·.1) = (s.object id).shownKeys)
    (h : ∀ e ∈ members, Written s gap (indent ++ gap) ((s.object id).shown e.1) e.2) :
    Written s gap indent (.object id) (some (JsonStyle.wrap { gap := gap } "\x7b" "\x7d" indent
      (members.filterMap fun e => e.2.map (Exec.memberText { gap := gap } e.1))))

namespace Written

theorem unique {text' : Option String} (h : s.Written gap indent v text) (h' : s.Written gap indent v text') :
    text = text' := by
  induction h generalizing text' with
  | simple h =>
    cases h' with
    | simple => rfl
    | _ => cases h
  | function h =>
    cases h' with
    | simple h' => cases h'
    | function => rfl
    | array hk => simp [isCallable, hk] at h
    | object hk => simp [isCallable, hk] at h
  | @array indent id texts hk hlength h ih =>
    cases h' with
    | simple h' => cases h'
    | function h' => simp [isCallable, hk] at h'
    | @array _ _ texts' hk' hlength' h' =>
      have hsame : texts = texts' :=
        List.ext_getElem (hlength.trans hlength'.symm) fun i hi hi' => ih i hi (h' i hi')
      rw [hsame]
    | object hk' => cases hk.symm.trans hk'
  | @object indent id members hk hkeys h ih =>
    cases h' with
    | simple h' => cases h'
    | function h' => simp [isCallable, hk] at h'
    | array hk' => cases hk.symm.trans hk'
    | @object _ _ members' hk' hkeys' h' =>
      have hmap : members.map (·.1) = members'.map (·.1) := hkeys.trans hkeys'.symm
      have hlength : members.length = members'.length := by simpa using congrArg List.length hmap
      have hsame : members = members' := by
        refine List.ext_getElem hlength fun i hi hi' => ?_
        have hkey : members[i].1 = members'[i].1 := by
          have := List.getElem_of_eq hmap (by simpa using hi)
          simpa using this
        refine Prod.ext hkey (ih _ (List.getElem_mem hi) ?_)
        rw [hkey]
        exact h' _ (List.getElem_mem hi')
      rw [hsame]

end Written

/-- An object that can be written without running any code, and the prototypes of which are in the heap. -/
structure Inert (s : State) (id : ObjectId) : Prop where
  kind : (s.object id).kind = .ordinary ∨ (s.object id).WellFormed ∨ s.isCallable id = true
  data : ∀ key p, (s.object id).own? key = some p → p.isAccessor = false
  parents : ∀ x, ReflTransGen s.Inherits id x → x.index < s.heap.size ∧ (s.object x).isProxy = false
  toJSON : ∀ x p, ReflTransGen s.Inherits id x → s.ownProperty? x (.name "toJSON") = some p →
    ∃ v, p.value? = some v ∧ ∀ f, v = .object f → f.index < s.heap.size ∧ s.isCallable f = false
  elements : (s.object id).kind = .array → ∀ x i, TransGen s.Inherits id x → s.ownProperty? x (.index i) = none

theorem Inert.isArray (h : s.Inert id) (hk : (s.object id).kind = .array) :
    ∃ w, (s.object id).IsArray (s.object id).arrayLength w := by
  obtain hk' | ⟨n, w, harray⟩ | hcall := h.kind
  · cases hk.symm.trans hk'
  · exact ⟨w, harray.arrayLength_eq ▸ harray⟩
  · simp [isCallable, hk] at hcall

theorem not_holds_self (h : Acc (fun child id => s.Contains id child) id) : ¬ TransGen s.Contains id id := by
  induction h with
  | intro id _ ih =>
    intro hcycle
    obtain ⟨child, hchild, hback⟩ := TransGen.head'_iff.mp hcycle
    exact ih child hchild (.tail' hback hchild)

theorem value?_of_shown {o : Object} {key : PropertyKey} {p : Property} (hp : o.own? key = some p)
    (hv : o.shown key = .object child) : p.value? = some (.object child) := by
  rw [Object.shown, Object.ownValue?, hp, Option.bind_some] at hv
  cases hvalue : p.value? with
  | none => simp [hvalue] at hv
  | some w => simpa [hvalue] using hv

theorem Contains.mem_shownKeys {key : PropertyKey} {p : Property} (hk : (s.object id).kind = .ordinary)
    (hkey : key.isSymbol = false) (hp : (s.object id).own? key = some p) (he : p.enumerable = true) :
    key ∈ (s.object id).shownKeys := by
  have hown : s.ownProperty? id key = some p := by simp [ownProperty?, hk, hp]
  simp [Object.shownKeys, mem_ownKeys hown, hkey, hp, he]

theorem contains_of_member {key : PropertyKey} (hk : (s.object id).kind = .ordinary)
    (hkey : key ∈ (s.object id).shownKeys) (hv : (s.object id).shown key = .object child) : s.Contains id child := by
  simp only [Object.shownKeys, List.mem_filter, Bool.not_eq_true'] at hkey
  obtain ⟨⟨-, hsymbol⟩, he⟩ := hkey
  cases hp : (s.object id).own? key with
  | none => simp [hp] at he
  | some p => exact .member hk hsymbol hp (by simpa [hp] using he) (value?_of_shown hp hv)

theorem contains_of_element {i : Nat} (hk : (s.object id).kind = .array) (hi : i < indexLimit)
    (hv : (s.object id).shown (.ofNat i) = .object child) : s.Contains id child := by
  rw [Exec.key_ofNat hi] at hv
  cases hp : (s.object id).own? (.index ⟨i, hi⟩) with
  | none => simp [Object.shown, Object.ownValue?, hp] at hv
  | some p => exact .element hk hp (value?_of_shown hp hv)

theorem inert_of_contains (h : ∀ x, s.Meets (.object id) x → s.Inert x)
    (hv : ∀ child, v = .object child → s.Contains id child) : ∀ x, s.Meets v x → s.Inert x := by
  rintro x ⟨child, hchild, hx⟩
  exact h x ⟨id, rfl, .head (hv child hchild) hx⟩

theorem circular_of_contains (hv : ∀ child, v = .object child → s.Contains id child) (h : s.Circular v) :
    s.Circular (.object id) := by
  obtain ⟨x, ⟨child, hchild, hx⟩, hcycle⟩ := h
  exact ⟨x, ⟨id, rfl, .head (hv child hchild) hx⟩, hcycle⟩

theorem Written.acc (h : s.Written gap indent (.object id) text)
    (hinert : ∀ x, s.Meets (.object id) x → s.Inert x) : Acc (fun child id => s.Contains id child) id := by
  generalize hv : Value.object id = v at h
  induction h generalizing id with
  | simple h =>
    subst hv
    cases h
  | function h =>
    cases hv
    refine ⟨_, fun child hchild => ?_⟩
    cases hchild with
    | member hk => simp [isCallable, hk] at h
    | element hk => simp [isCallable, hk] at h
  | array hk hlength h ih =>
    cases hv
    refine ⟨_, fun child hchild => ?_⟩
    have hbelow : ∀ x, s.Meets (.object child) x → s.Inert x :=
      inert_of_contains hinert fun _ heq => Value.object.inj heq ▸ hchild
    cases hchild with
    | member hk' => cases hk.symm.trans hk'
    | @element i p _ hp hchild =>
      obtain ⟨w, harray⟩ := (hinert _ ⟨_, rfl, .refl⟩).isArray hk
      have hi : i.val < _ := hlength ▸ harray.element i (by simp [hp])
      refine ih i.val hi hbelow ?_
      have hkey : PropertyKey.ofNat i.val = .index i := dif_pos i.isLt
      simp [hkey, Object.shown, Object.ownValue?, hp, hchild]
  | object hk hkeys h ih =>
    cases hv
    refine ⟨_, fun child hchild => ?_⟩
    have hbelow : ∀ x, s.Meets (.object child) x → s.Inert x :=
      inert_of_contains hinert fun _ heq => Value.object.inj heq ▸ hchild
    cases hchild with
    | @member key p _ hkey hp he hchild =>
      have hmem := Contains.mem_shownKeys hk hkey hp he
      rw [← hkeys] at hmem
      obtain ⟨e, he, rfl⟩ := List.mem_map.mp hmem
      exact ih e he hbelow (by simp [Object.shown, Object.ownValue?, hp, hchild])
    | element hk' => cases hk.symm.trans hk'

theorem Written.not_circular (h : s.Written gap indent v text) (hinert : ∀ x, s.Meets v x → s.Inert x) :
    ¬ s.Circular v := by
  rintro ⟨x, ⟨id, rfl, hx⟩, hcycle⟩
  have hacc : Acc (fun child id => s.Contains id child) x := by
    have hid := h.acc hinert
    clear h hinert hcycle
    induction hx with
    | refl => exact hid
    | tail _ hchild ih => exact ih.inv hchild
  exact not_holds_self hacc hcycle

end State

/-! Writing values. Objects around a value are remembered until it is written, so what fails is exactly what holds
itself. -/

namespace State
variable {s s' s'' : State} {id : ObjectId} {a b : ObjectId}

/-- From one state to another, all objects stay as they are, and nothing interrupts. -/
structure Stays (s s' : State) : Prop extends s.Retains (fun _ => True) s' where
  interrupted : s'.interrupted = s.interrupted

namespace Stays

theorem trans (h : s.Stays s') (h' : s'.Stays s'') : s.Stays s'' :=
  ⟨h.toRetains.trans h'.toRetains fun _ _ _ => trivial, h'.interrupted.trans h.interrupted⟩

theorem object_eq (h : s.Stays s') (hid : id.index < s.heap.size) : s'.object id = s.object id :=
  h.object id hid trivial

theorem push {o : Object} : s.Stays { s with heap := s.heap.push o } := ⟨.push, rfl⟩

theorem tick (n : Nat) : s.Stays { s with clock := n } := ⟨⟨rfl, rfl, Nat.le_refl _, fun _ _ _ => rfl⟩, rfl⟩

end Stays

namespace Inert

theorem lt_size (h : s.Inert id) : id.index < s.heap.size := (h.parents id .refl).1

theorem isProxy_eq (h : s.Inert id) : (s.object id).isProxy = false := (h.parents id .refl).2

theorem inherits_of_stays (h : s.Inert id) (hs : s.Stays s') {x : ObjectId} (hx : ReflTransGen s'.Inherits id x) :
    ReflTransGen s.Inherits id x := by
  induction hx with
  | refl => exact .refl
  | @tail x y _ hxy ih =>
    refine .tail ih ?_
    have hobject := hs.object_eq (h.parents x ih).1
    simpa only [Inherits, parent?, hobject] using hxy

theorem transGen_of_stays (h : s.Inert id) (hs : s.Stays s') {x : ObjectId} (hx : TransGen s'.Inherits id x) :
    TransGen s.Inherits id x := by
  obtain ⟨y, hy, hyx⟩ := TransGen.tail'_iff.mp hx
  have hreach := h.inherits_of_stays hs hy
  refine .tail' hreach ?_
  have hobject := hs.object_eq (h.parents y hreach).1
  simpa only [Inherits, parent?, hobject] using hyx

theorem ownProperty?_stays (h : s.Inert id) (hs : s.Stays s') {x : ObjectId} (hx : ReflTransGen s.Inherits id x)
    {key : PropertyKey} : s'.ownProperty? x key = s.ownProperty? x key :=
  hs.ownProperty? (h.parents x hx).1 trivial

theorem stays (h : s.Inert id) (hs : s.Stays s') : s'.Inert id where
  kind := by
    have hkind := h.kind
    unfold isCallable at hkind ⊢
    rwa [hs.object_eq h.lt_size]
  data := by
    rw [hs.object_eq h.lt_size]
    exact h.data
  parents x hx := by
    have hold := h.inherits_of_stays hs hx
    obtain ⟨hlt, hproxy⟩ := h.parents x hold
    exact ⟨Nat.lt_of_lt_of_le hlt hs.size, by rwa [hs.object_eq hlt]⟩
  toJSON x p hx hp := by
    have hold := h.inherits_of_stays hs hx
    rw [h.ownProperty?_stays hs hold] at hp
    obtain ⟨v, hv, hcall⟩ := h.toJSON x p hold hp
    refine ⟨v, hv, fun f hf => ?_⟩
    obtain ⟨hlt, hf⟩ := hcall f hf
    refine ⟨Nat.lt_of_lt_of_le hlt hs.size, ?_⟩
    unfold isCallable at hf ⊢
    rwa [hs.object_eq hlt]
  elements hk x i hx := by
    rw [hs.object_eq h.lt_size] at hk
    have hold := h.transGen_of_stays hs hx
    rw [h.ownProperty?_stays hs hold.to_reflTransGen]
    exact h.elements hk x i hold

end Inert

theorem lookup_value {key : PropertyKey} {Q : Value → Prop}
    (hproxy : ∀ x, ReflTransGen s.Inherits id x → (s.object x).isProxy = false)
    (hdata : ∀ x p, ReflTransGen s.Inherits id x → s.ownProperty? x key = some p → ∃ v, p.value? = some v ∧ Q v)
    (hundefined : Q .undefined) : ∃ v, (s.lookup id key).value? = some v ∧ Q v := by
  suffices hfrom : ∀ fuel x, ReflTransGen s.Inherits id x →
      ∃ v, (s.lookupFrom key fuel x).value? = some v ∧ Q v from hfrom _ _ .refl
  intro fuel
  induction fuel with
  | zero => exact fun _ _ => ⟨_, rfl, hundefined⟩
  | succ fuel ih =>
    intro x hx
    have hx' := hproxy x hx
    unfold lookupFrom
    dsimp only
    split
    · next hkind => simp [Object.isProxy, hkind] at hx'
    · cases hp : s.ownProperty? x key with
      | some p => exact hdata x p hx hp
      | none =>
        cases hparent : (s.object x).prototype with
        | none => exact ⟨_, rfl, hundefined⟩
        | some parent => exact ih parent (hx.tail (by simp [Inherits, parent?, hx', hparent]))

end State

namespace Exec
variable {m : Machine} {c : Context} {s s' : State} {id : ObjectId} {gap : String}

theorem filterM_value {α : Type} {f : α → Exec Bool} {g : α → Bool} {l : List α}
    (h : ∀ a ∈ l, f a m c s = .value (g a) s) : l.filterM f m c s = .value (l.filter g) s := by
  have haux (out : List α) : l.filterAuxM f out m c s = .value ((l.filter g).reverse ++ out) s := by
    induction l generalizing out with
    | nil => rfl
    | cons a rest ih =>
      rw [List.filterAuxM, bind_value (h a List.mem_cons_self), ih fun a ha => h a (List.mem_cons_of_mem _ ha)]
      cases hg : g a <;> simp [hg]
  rw [List.filterM, bind_value (haux [])]
  simp
  rfl

section Reading
variable (h : s.Inert id)
include h

theorem toJSON_value : ∃ v, getOf (.object id) (.name "toJSON") m c s = .value v s ∧ s.callableValue v = false := by
  obtain ⟨v, hv, hcall⟩ := State.lookup_value (fun x hx => (h.parents x hx).2) h.toJSON nofun
  refine ⟨v, getFor_value hv, ?_⟩
  cases v with
  | object f => exact (hcall f rfl).2
  | _ => rfl

theorem element_value {i : Nat} (hk : (s.object id).kind = .array) (hi : i < (s.object id).arrayLength) :
    getOf (.object id) (.ofNat i) m c s = .value ((s.object id).shown (.ofNat i)) s := by
  obtain ⟨w, harray⟩ := h.isArray hk
  have hlt : i < indexLimit := by
    have := harray.lt
    unfold indexLimit
    omega
  rw [key_ofNat hlt]
  refine getFor_value ?_
  cases hp : (s.object id).own? (.index ⟨i, hlt⟩) with
  | some p =>
    rw [State.lookup_own_array hk hp]
    have hdata := h.data _ p hp
    obtain ⟨slot, enumerable, configurable⟩ := p
    cases slot with
    | data => simp [Object.shown, Object.ownValue?, hp, Lookup.value?, Property.value?]
    | accessor => cases hdata
  | none =>
    have hnone (x : ObjectId) (hx : ReflTransGen s.Inherits id x) : s.ownProperty? x (.index ⟨i, hlt⟩) = none := by
      obtain rfl | hx := reflTransGen_iff_eq_or_transGen.mp hx
      · rw [State.ownProperty?_array hk, hp]
      · exact h.elements hk x _ hx
    obtain ⟨v, hv, rfl⟩ : ∃ v, (s.lookup id (.index ⟨i, hlt⟩)).value? = some v ∧ v = .undefined :=
      State.lookup_value (fun x hx => (h.parents x hx).2) (fun x p hx hp => by simp [hnone x hx] at hp) rfl
    rw [hv]
    simp [Object.shown, Object.ownValue?, hp]

section Members
variable (hk : (s.object id).kind = .ordinary)
include hk

theorem enumerableKeys_value : enumerableKeys id m c s = .value (s.object id).shownKeys s := by
  rw [enumerableKeys, bind_value (ownKeys_ordinary h.isProxy_eq)]
  refine filterM_value fun key _ => ?_
  rw [bind_value (getOwn_ordinary h.isProxy_eq)]
  simp only [State.ownProperty?, hk]
  rfl

theorem member_value {key : PropertyKey} (hkey : key ∈ (s.object id).shownKeys) :
    getOf (.object id) key m c s = .value ((s.object id).shown key) s := by
  obtain ⟨p, hp⟩ : ∃ p, (s.object id).own? key = some p := by
    refine Option.ne_none_iff_exists'.mp fun hnone => ?_
    simp [Object.shownKeys, hnone] at hkey
  refine getFor_value ?_
  rw [State.lookup_own (q := p) h.isProxy_eq (by simp [State.ownProperty?, hk, hp])]
  have hdata := h.data _ p hp
  obtain ⟨slot, enumerable, configurable⟩ := p
  cases slot with
  | data => simp [Object.shown, Object.ownValue?, hp, Lookup.value?, Property.value?]
  | accessor => cases hdata

end Members
end Reading

theorem preparedValue_value {holder v : Value} {key : PropertyKey} (hget : getOf holder key m c s = .value v s)
    (h : ∀ id, v = .object id → s.Inert id) : preparedValue { gap := gap } holder key m c s = .value v s := by
  rw [preparedValue, bind_value hget]
  cases v with
  | object id =>
    have hid := h id rfl
    obtain ⟨f, hf, hcall⟩ := toJSON_value hid
    rw [Value.isObject, if_pos rfl]
    rw [bind_value hf, bind_value (show isCallable f m c s = .value (s.callableValue f) s from rfl), hcall,
      if_neg Bool.false_ne_true, bind_value (show (pure (Value.object id) : Exec Value) m c s = .value _ s from rfl)]
    dsimp only
    rw [bind_value (show (pure (Value.object id) : Exec Value) m c s = .value _ s from rfl)]
    dsimp only
    rw [bind_value (show object id m c s = .value (s.object id) s from rfl)]
    obtain hk | ⟨_, _, harray⟩ | hcall := hid.kind
    · rw [hk]
      rfl
    · rw [harray.kind]
      rfl
    · cases hk : (s.object id).kind with
      | function => rfl
      | proxy => rfl
      | _ => simp [State.isCallable, hk] at hcall
  | _ => rfl
end Exec

def circularFailure : Abrupt := .failure ⟨.type, "Converting circular structure to JSON", 0, 0⟩

/-- A computation leaves all objects as they are and comes to a value, or fails because something holds itself.
Otherwise it has been interrupted or has run too long. -/
inductive Step.Settles {α : Type} (c : Context) (s : State) (P : α → Prop) (C : Prop) : Step α → Prop where
  | value {a : α} {s' : State} (hs : s.Stays s') (h : P a) : Settles c s P C (.value a s')
  | circular {s' : State} (h : C) : Settles c s P C (.abrupt circularFailure s')
  | halted {k : Condition} {s' : State} (h : s.interrupted = true ∨ c.deadline.isSome = true) :
    Settles c s P C (.abrupt (.condition k) s')

namespace Step.Settles
variable {α β : Type} {c : Context} {s : State} {P P' : α → Prop} {Q : β → Prop} {C C' : Prop}

theorem imp {x : Step α} (h : x.Settles c s P C) (hP : ∀ a, P a → P' a) (hC : C → C') : x.Settles c s P' C' := by
  cases h with
  | value hs h => exact .value hs (hP _ h)
  | circular h => exact .circular (hC h)
  | halted h => exact .halted h

theorem bind {x : Step α} {f : α → State → Step β} (h : x.Settles c s P C)
    (hf : ∀ a s', s.Stays s' → P a → (f a s').Settles c s Q C) : (x.bind f).Settles c s Q C := by
  cases h with
  | value hs h => exact hf _ _ hs h
  | circular h => exact .circular h
  | halted h => exact .halted h

/-- A loop that counts its turns. -/
theorem loop {body : β → State → Step (β ⊕ α)} {I : Nat → β → Prop} {n i fuel : Nat} {b : β} {s' : State}
    (hs : s.Stays s') (hi : i ≤ n) (hfuel : n - i < fuel) (hI : I i b)
    (turn : ∀ i b s', s.Stays s' → i < n → I i b →
      (body b s').Settles c s (fun r => ∃ b', r = .inl b' ∧ I (i + 1) b') C)
    (last : ∀ b s', s.Stays s' → I n b → (body b s').Settles c s (fun r => ∃ a, r = .inr a ∧ P a) C) :
    (Step.loop body fuel b s').Settles c s P C := by
  induction fuel generalizing i b s' with
  | zero => exact absurd hfuel (Nat.not_lt_zero _)
  | succ fuel ih =>
    rw [Step.loop_succ]
    obtain hlt | rfl := Nat.lt_or_eq_of_le hi
    · refine (turn i b s' hs hlt hI).bind ?_
      rintro _ s'' hs'' ⟨b', rfl, hI'⟩
      exact ih hs'' hlt (by omega) hI'
    · refine (last b s' hs hI).bind ?_
      rintro _ s'' hs'' ⟨a, rfl, ha⟩
      exact .value hs'' ha

end Step.Settles

namespace Exec
variable {α β : Type} {m : Machine} {c : Context} {s s' : State} {P : α → Prop} {C : Prop}

theorem settles_pure {a : α} (hs : s.Stays s') (h : P a) : ((pure a : Exec α) m c s').Settles c s P C := .value hs h

theorem settles_checkInterrupts {fuel : Nat} (hs : s.Stays s') :
    (checkInterrupts (machine (fuel + 1)) c s').Settles c s (fun _ => True) C := by
  let s'' : State := { s' with clock := s'.clock + checkNanos }
  have hs'' : s.Stays s'' := hs.trans (.tick _)
  have hhalt (k : Condition) (h : s.interrupted = true ∨ c.deadline.isSome = true) :
      ((halt k : Exec Unit) (machine (fuel + 1)) c s'').Settles c s (fun _ => True) C := .halted h
  rw [checkInterrupts, bind_value (show change _ _ c s' = .value () s'' from rfl),
    bind_value (show look (·.interrupted) _ c s'' = .value s''.interrupted s'' from rfl)]
  cases hinterrupted : s''.interrupted with
  | true => exact hhalt _ (.inl (hs''.interrupted ▸ hinterrupted))
  | false =>
    rw [if_neg Bool.false_ne_true]
    dsimp only
    rw [bind_value (show context _ c s'' = .value c s'' from rfl)]
    cases hdeadline : c.deadline with
    | none => exact .value hs'' trivial
    | some d =>
      dsimp only
      rw [bind_value (show look (·.clock) _ c s'' = .value s''.clock s'' from rfl)]
      split
      · exact hhalt _ (.inr (by simp [hdeadline]))
      · exact .value hs'' trivial

theorem settles_collect {n : Nat} {f : Nat → Exec α} {R : Nat → α → Prop} (hs : s.Stays s') (hn : n < m.fuel)
    (h : ∀ i < n, ∀ s'', s.Stays s'' → (f i m c s'').Settles c s (R i) C) :
    (collect n f m c s').Settles c s (fun out => out.size = n ∧ ∀ i (hi : i < out.size), R i out[i]) C := by
  refine .loop (I := fun i b => b.1 = i ∧ b.2.size = i ∧ ∀ k (hk : k < b.2.size), R k b.2[k]) hs (Nat.zero_le n) hn
    ⟨rfl, rfl, fun k hk => absurd hk (Nat.not_lt_zero k)⟩ ?_ ?_
  · rintro _ ⟨i, out⟩ s'' hs'' hi ⟨rfl, hsize, hout⟩
    dsimp only at hi hsize hout ⊢
    rw [if_pos hi]
    refine (h i hi s'' hs'').bind fun a s₁ hs₁ ha => settles_pure hs₁ ⟨_, rfl, rfl, by simp [hsize], ?_⟩
    intro k hk
    rw [Array.getElem_push]
    split
    · exact hout k _
    · rw [Array.size_push] at hk
      obtain rfl : k = i := by omega
      exact ha
  · rintro ⟨i, out⟩ s'' hs'' ⟨rfl, hsize, hout⟩
    dsimp only at hsize hout ⊢
    rw [if_neg (Nat.lt_irrefl _)]
    exact settles_pure hs'' ⟨out, rfl, hsize, hout⟩

/-- What is kept of a list comes from what holds of its items. -/
theorem settles_filterMapM {γ : Type} {l : List α} {f : α → Exec (Option β)} {R : α → γ → Prop} {g : α → γ → Option β}
    (hs : s.Stays s')
    (h : ∀ a ∈ l, ∀ s'', s.Stays s'' → (f a m c s'').Settles c s (fun b => ∃ r, R a r ∧ b = g a r) C) :
    (l.filterMapM f m c s').Settles c s (fun out => ∃ items : List (α × γ), items.map (·.1) = l ∧
      (∀ e ∈ items, R e.1 e.2) ∧ out = items.filterMap fun e => g e.1 e.2) C := by
  induction l generalizing s' with
  | nil => exact settles_pure hs ⟨[], rfl, by simp, rfl⟩
  | cons a rest ih =>
    obtain ⟨hhead, hrest⟩ := List.forall_mem_cons.mp h
    rw [List.filterMapM_cons]
    refine (hhead s' hs).bind ?_
    rintro _ s₁ hs₁ ⟨r, hr, rfl⟩
    have htail := ih hs₁ hrest
    have hall {items : List (α × γ)} (hitems : ∀ e ∈ items, R e.1 e.2) : ∀ e ∈ (a, r) :: items, R e.1 e.2 :=
      List.forall_mem_cons.mpr ⟨hr, hitems⟩
    cases hg : g a r with
    | none =>
      refine htail.imp ?_ (fun h => h)
      rintro out ⟨items, rfl, hitems, rfl⟩
      exact ⟨(a, r) :: items, rfl, hall hitems, by simp [hg]⟩
    | some b =>
      refine htail.bind ?_
      rintro out s₂ hs₂ ⟨items, rfl, hitems, rfl⟩
      exact settles_pure hs₂ ⟨(a, r) :: items, rfl, hall hitems, by simp [hg]⟩

end Exec

/-- Objects that are being written around a value: no object twice, and all of them hold the value. -/
structure State.Around (s : State) (around : List ObjectId) (v : Value) : Prop where
  nodup : around.Nodup
  lt_size : ∀ a ∈ around, a.index < s.heap.size
  holds : ∀ a ∈ around, ∀ id, v = .object id → TransGen s.Contains a id

namespace State.Around
variable {s : State} {around : List ObjectId} {v : Value} {id : ObjectId}

theorem length_le (h : s.Around around v) : around.length ≤ s.heap.size := by
  have hnodup : (around.map ObjectId.index).Nodup :=
    h.nodup.map fun a b (hab : a.index = b.index) => congrArg ObjectId.mk hab
  have hsub : around.map ObjectId.index ⊆ List.range s.heap.size := by
    intro i hi
    obtain ⟨a, ha, rfl⟩ := List.mem_map.mp hi
    exact List.mem_range.mpr (h.lt_size a ha)
  simpa using (hnodup.subperm hsub).length_le

theorem cons (h : s.Around around (.object id)) (hid : id.index < s.heap.size) (hnew : id ∉ around)
    (hv : ∀ child, v = .object child → s.Contains id child) : s.Around (id :: around) v where
  nodup := List.nodup_cons.mpr ⟨hnew, h.nodup⟩
  lt_size := List.forall_mem_cons.mpr ⟨hid, h.lt_size⟩
  holds := List.forall_mem_cons.mpr
    ⟨fun child hchild => .single (hv child hchild),
      fun a ha child hchild => (h.holds a ha id rfl).tail (hv child hchild)⟩

end State.Around

namespace Exec
variable {c : Context} {s s' : State} {gap indent : String} {around : List ObjectId} {holder v : Value}
  {key : PropertyKey} {fuel depth : Nat}

section Nested
variable {id : ObjectId} (hinert : s.Inert id) (hs : s.Stays s')
  (hbelow : ∀ v key s'', s.Stays s'' → (∀ child, v = .object child → s.Contains id child) →
    getOf (.object id) key (machine (fuel + 1)) c s'' = .value v s'' →
    (serialize { gap := gap } depth (indent ++ gap) around (.object id) key (machine (fuel + 1)) c s'').Settles c s
      (s.Written gap (indent ++ gap) v) (s.Circular (.object id)))
include hinert hs hbelow

theorem array_settles (hfuel : 2 ^ 32 ≤ fuel) (hk : (s.object id).kind = .array) :
    (do
      let parts ← collect (← lengthOf id) fun i => do
        checkInterrupts
        return (← serialize { gap := gap } depth (indent ++ gap) around (.object id) (.ofNat i)).getD "null"
      return some (JsonStyle.wrap { gap := gap } "[" "]" indent parts.toList) :
        Exec (Option String)) (machine (fuel + 1)) c s' |>.Settles c s (s.Written gap indent (.object id))
          (s.Circular (.object id)) := by
  obtain ⟨w, harray⟩ := hinert.isArray hk
  have hlt := harray.lt
  rw [bind_value (lengthOf_isArray (s := s') (by rw [hs.object_eq hinert.lt_size]; exact harray))]
  refine .bind (settles_collect (R := fun i part => ∃ text, s.Written gap (indent ++ gap)
      ((s.object id).shown (.ofNat i)) text ∧ part = text.getD "null") hs
    (show _ < fuel by omega) fun i hi s'' hs'' => ?_) ?_
  · refine (settles_checkInterrupts hs'').bind fun _ s₁ hs₁ _ => ?_
    have hget := element_value (m := machine (fuel + 1)) (c := c) (hinert.stays hs₁) (i := i)
    rw [hs₁.object_eq hinert.lt_size] at hget
    refine (hbelow _ _ s₁ hs₁ (fun child => State.contains_of_element hk ?_) (hget hk hi)).bind
      fun text s₂ hs₂ htext => ?_
    · unfold indexLimit
      omega
    · exact settles_pure hs₂ ⟨text, htext, rfl⟩
  · rintro parts s'' hs'' ⟨hsize, hparts⟩
    choose texts htexts hpart using hparts
    let written : List (Option String) := List.ofFn fun i : Fin parts.size => texts i i.isLt
    have hwritten : parts.toList = written.map (·.getD "null") := by
      refine List.ext_getElem (by simp [written]) fun i hi hi' => ?_
      simp [written, hpart i (by simpa using hi)]
    dsimp only
    rw [hwritten]
    refine settles_pure hs'' (.array hk (by simp [written, hsize]) fun i hi => ?_)
    simpa [written] using htexts i (by simpa [written] using hi)

theorem object_settles (hk : (s.object id).kind = .ordinary) :
    (do
      let parts ← (← enumerableKeys id).filterMapM fun key => do
        return (← serialize { gap := gap } depth (indent ++ gap) around (.object id) key).map
          (memberText { gap := gap } key)
      return some (JsonStyle.wrap { gap := gap } "\x7b" "\x7d" indent parts) :
        Exec (Option String)) (machine (fuel + 1)) c s' |>.Settles c s (s.Written gap indent (.object id))
          (s.Circular (.object id)) := by
  have hid := hinert.stays hs
  have hobject := hs.object_eq hinert.lt_size
  rw [bind_value (enumerableKeys_value hid (hobject ▸ hk)), hobject]
  refine .bind (settles_filterMapM (R := fun key text => s.Written gap (indent ++ gap) ((s.object id).shown key) text)
    (g := fun key text => text.map (memberText { gap := gap } key)) hs fun key hkey s'' hs'' => ?_) ?_
  · have hget (hkey : key ∈ (s''.object id).shownKeys) :=
      member_value (m := machine (fuel + 1)) (c := c) (hinert.stays hs'') (hs''.object_eq hinert.lt_size ▸ hk) hkey
    rw [hs''.object_eq hinert.lt_size] at hget
    refine (hbelow _ _ s'' hs'' (fun child => State.contains_of_member hk hkey) (hget hkey)).bind
      fun text s₁ hs₁ htext => ?_
    exact settles_pure hs₁ ⟨text, htext, rfl⟩
  · rintro parts s'' hs'' ⟨members, hkeys, hmembers, rfl⟩
    exact settles_pure hs'' (.object hk hkeys hmembers)

end Nested

/-- A value is written, or something that it holds holds itself. -/
theorem serialize_settles (hfuel : 2 ^ 32 ≤ fuel) (hs : s.Stays s') (hinert : ∀ x, s.Meets v x → s.Inert x)
    (haround : s.Around around v) (hdepth : s.heap.size < depth + around.length)
    (hget : getOf holder key (machine (fuel + 1)) c s' = .value v s') :
    (serialize { gap := gap } depth indent around holder key (machine (fuel + 1)) c s').Settles c s
      (s.Written gap indent v) (s.Circular v) := by
  induction depth generalizing s' indent around holder v key with
  | zero =>
    have := haround.length_le
    omega
  | succ depth ih =>
    rw [serialize, bind_value (preparedValue_value hget fun id hid => (hinert id ⟨id, hid, .refl⟩).stays hs)]
    cases v with
    | object id =>
      have hid := hinert id ⟨id, rfl, .refl⟩
      have hid' := hid.stays hs
      have hobject := hs.object_eq hid.lt_size
      have hcall : s'.isCallable id = s.isCallable id := by simp only [State.isCallable, hobject]
      dsimp only
      rw [bind_value (show isCallable (.object id) _ c s' = .value (s'.isCallable id) s' from rfl), hcall]
      cases hfunction : s.isCallable id with
      | true => exact settles_pure hs (.function hfunction)
      | false =>
        rw [if_neg Bool.false_ne_true]
        cases hmem : around.contains id with
        | true =>
          have hcycle := haround.holds id (List.contains_iff_mem.mp hmem) id rfl
          exact .circular ⟨id, ⟨id, rfl, .refl⟩, hcycle⟩
        | false =>
          have hnew : id ∉ around := fun h => by
            rw [List.contains_iff_mem.mpr h] at hmem
            cases hmem
          rw [if_neg Bool.false_ne_true]
          rw [bind_value (show look (·.isArray (.object id)) _ c s' = .value (s'.isArray (.object id)) s' from rfl)]
          have hbelow (v : Value) (key : PropertyKey) (s'' : State) (hs'' : s.Stays s'')
              (hv : ∀ child, v = .object child → s.Contains id child)
              (hget : getOf (.object id) key (machine (fuel + 1)) c s'' = .value v s'') :
              (serialize { gap := gap } depth (indent ++ gap) (id :: around) (.object id) key (machine (fuel + 1)) c
                s'').Settles c s (s.Written gap (indent ++ gap) v) (s.Circular (.object id)) :=
            (ih hs'' (State.inert_of_contains hinert hv) (haround.cons hid.lt_size hnew hv)
              (by rw [List.length_cons]; omega) hget).imp (fun _ h => h) (State.circular_of_contains hv)
          obtain hk | ⟨_, _, harray⟩ | hcall := hid.kind
          · have hnot : s'.isArray (.object id) = false := by simp [State.isArray, State.isArrayFrom, hobject, hk]
            rw [hnot, if_neg Bool.false_ne_true]
            exact object_settles hid hs hbelow hk
          · have his : s'.isArray (.object id) = true := by
              simp [State.isArray, State.isArrayFrom, hobject, harray.kind]
            rw [his, if_pos rfl]
            exact array_settles hid hs hbelow hfuel harray.kind
          · cases hfunction.symm.trans hcall
    | _ => exact settles_pure hs (.simple rfl)

theorem gapOf_value {m : Machine} (space : Value) : ∃ gap, gapOf space m c s = .value gap s := by
  unfold gapOf
  cases space with
  | object id =>
    dsimp only
    rw [bind_value (show object id m c s = .value (s.object id) s from rfl)]
    cases (s.object id).kind <;> exact ⟨_, rfl⟩
  | _ => exact ⟨_, rfl⟩

/-- Values are written without a replacer. -/
theorem jsonStringify_settles (args : Array Value) (hfuel : s.heap.size + 2 ^ 32 ≤ fuel)
    (hcall : s.callableValue (argument args 1) = false) (harray : s.isArray (argument args 1) = false)
    (hinert : ∀ x, s.Meets (argument args 0) x → s.Inert x)
    (hgap : gapOf (argument args 2) (machine (fuel + 1)) c s = .value gap s) :
    (jsonStringify args (machine (fuel + 1)) c s).Settles c s (fun v => ∃ text,
      s.Written gap "" (argument args 0) text ∧ v = (text.map Value.string).getD .undefined)
      (s.Circular (argument args 0)) := by
  let wrapper : ObjectId := ⟨s.heap.size⟩
  let root : Object := s.plainObject (({} : PropertyTable).put (.name "") (.plain (argument args 0)))
  let s₁ : State := { s with heap := s.heap.push root }
  have hwrapper : newObject [("", argument args 0)] (machine (fuel + 1)) c s = .value wrapper s₁ := rfl
  have hobject : s₁.object wrapper = root := by rw [State.object_push, if_pos rfl]
  have hget : getOf (.object wrapper) (.name "") (machine (fuel + 1)) c s₁ = .value (argument args 0) s₁ := by
    refine getFor_value ?_
    rw [State.lookup_own (q := .plain (argument args 0)) (by rw [hobject]; rfl)
      (by simp [State.ownProperty?, hobject, root, State.plainObject, Object.own?, PropertyTable.get?_put])]
    rfl
  have haround : s.Around [] (argument args 0) := ⟨List.nodup_nil, by simp, by simp⟩
  have hrun : (serialize { gap := gap } fuel "" [] (.object wrapper) (.name "") (machine (fuel + 1)) c s₁).Settles c s
      (s.Written gap "" (argument args 0)) (s.Circular (argument args 0)) :=
    serialize_settles (by omega) State.Stays.push hinert haround (by simp; omega) hget
  rw [jsonStringify, bind_value hgap]
  dsimp only
  rw [bind_value (show isCallable (argument args 1) _ c s = .value (s.callableValue (argument args 1)) s from rfl),
    hcall, bind_value (show look (·.isArray (argument args 1)) _ c s = .value (s.isArray (argument args 1)) s from rfl),
    harray, if_neg Bool.false_ne_true, if_neg Bool.false_ne_true,
    bind_value (show (pure { gap := gap } : Exec JsonStyle) _ c s = .value { gap := gap } s from rfl),
    bind_value hwrapper, bind_value (show Exec.fuel (machine (fuel + 1)) c s₁ = .value fuel s₁ from rfl)]
  refine hrun.bind fun text s' hs' htext => ?_
  cases text with
  | some text => exact settles_pure hs' ⟨_, htext, rfl⟩
  | none => exact settles_pure hs' ⟨_, htext, rfl⟩

end Exec

/-- A value is written unless something that it holds holds itself; exactly then writing it fails, as long as
nothing interrupts it. What is only shared is written wherever it stands. -/
theorem jsonStringify_circular {fuel : Nat} (c : Context) {s : State} (args : Array Value)
    (hfuel : s.heap.size + 2 ^ 32 < fuel) (hcall : s.callableValue (argument args 1) = false)
    (harray : s.isArray (argument args 1) = false) (hinert : ∀ x, s.Meets (argument args 0) x → s.Inert x) :
    ∃ gap r s', Exec.gapOf (argument args 2) (machine fuel) c s = .value gap s ∧
      (Exec.jsonStringify args (machine fuel) c s).outcome = some (some r, s') ∧
      ((∃ k, r = .error (.condition k) ∧ (s.interrupted = true ∨ c.deadline.isSome = true)) ∨
        (r = .error circularFailure ↔ s.Circular (argument args 0)) ∧
        (¬ s.Circular (argument args 0) → ∃ text, r = .ok ((text.map Value.string).getD .undefined) ∧
          ∀ t, s.Written gap "" (argument args 0) t ↔ t = text)) := by
  obtain ⟨fuel, rfl⟩ : ∃ n, fuel = n + 1 := ⟨fuel - 1, by omega⟩
  obtain ⟨gap, hgap⟩ := Exec.gapOf_value (m := machine (fuel + 1)) (c := c) (s := s) (argument args 2)
  have hrun := Exec.jsonStringify_settles args (by omega) hcall harray hinert hgap
  generalize hstep : Exec.jsonStringify args (machine (fuel + 1)) c s = x at hrun
  cases hrun with
  | value _ h =>
    obtain ⟨text, htext, rfl⟩ := h
    have hnot := htext.not_circular hinert
    exact ⟨gap, _, _, hgap, rfl, .inr ⟨iff_of_false nofun hnot,
      fun _ => ⟨text, rfl, fun t => ⟨fun ht => ht.unique htext, fun ht => ht ▸ htext⟩⟩⟩⟩
  | circular h => exact ⟨gap, _, _, hgap, rfl, .inr ⟨iff_of_true rfl h, fun hnot => absurd h hnot⟩⟩
  | halted h => exact ⟨gap, _, _, hgap, rfl, .inl ⟨_, rfl, h⟩⟩

namespace State

def holders : List (List (PropertyKey × Property)) :=
  [[(.name "a", .plain (.object ⟨0⟩))], [(.name "x", .plain (.object ⟨2⟩)), (.name "y", .plain (.object ⟨2⟩))], []]

/-- Objects with these members and without prototypes. -/
def withHolders : State := { (default : State) with
  heap := (holders.map fun members =>
    { prototype := none, properties := ({} : PropertyTable).filled members }).toArray }

variable {id child : ObjectId}

theorem own?_withHolders {key : PropertyKey} :
    (withHolders.object id).own? key = (holders.getD id.index []).lookup key := by
  have hfilled (members : List (PropertyKey × Property)) (h : (members.map (·.1)).Nodup) :
      (({} : PropertyTable).filled members).get? key = members.lookup key := by
    rw [PropertyTable.get?_filled key h, PropertyTable.get?_empty, Option.or_none]
  obtain ⟨_ | _ | _ | n⟩ := id
  · exact hfilled _ (by simp)
  · exact hfilled _ (by simp)
  · exact hfilled [] List.nodup_nil
  · exact PropertyTable.get?_empty

theorem member_withHolders {key : PropertyKey} {p : Property} (hp : (withHolders.object id).own? key = some p) :
    (id = ⟨0⟩ ∧ p = .plain (.object ⟨0⟩) ∨ id = ⟨1⟩ ∧ p = .plain (.object ⟨2⟩)) ∧ key ≠ .name "toJSON" := by
  rw [own?_withHolders, List.lookup_eq_some_iff] at hp
  obtain ⟨before, behind, hmembers, -⟩ := hp
  have hmem : (key, p) ∈ holders.getD id.index [] := hmembers ▸ by simp
  obtain ⟨_ | _ | _ | n⟩ := id
  · obtain ⟨rfl, rfl⟩ := Prod.mk.inj (List.mem_singleton.mp hmem)
    exact ⟨.inl ⟨rfl, rfl⟩, by simp⟩
  · obtain heq | heq := List.mem_pair.mp hmem
    · obtain ⟨rfl, rfl⟩ := Prod.mk.inj heq
      exact ⟨.inr ⟨rfl, rfl⟩, by simp⟩
    · obtain ⟨rfl, rfl⟩ := Prod.mk.inj heq
      exact ⟨.inr ⟨rfl, rfl⟩, by simp⟩
  · cases hmem
  · cases hmem

theorem ordinary_withHolders : (withHolders.object id).kind = .ordinary ∧ (withHolders.object id).prototype = none := by
  obtain ⟨_ | _ | _ | n⟩ := id <;> exact ⟨rfl, rfl⟩

theorem contains_withHolders (h : withHolders.Contains id child) :
    id = ⟨0⟩ ∧ child = ⟨0⟩ ∨ id = ⟨1⟩ ∧ child = ⟨2⟩ := by
  cases h with
  | member _ _ hp _ hv =>
    obtain ⟨⟨rfl, rfl⟩ | ⟨rfl, rfl⟩, -⟩ := member_withHolders hp <;> cases hv
    · exact .inl ⟨rfl, rfl⟩
    · exact .inr ⟨rfl, rfl⟩
  | element hk => cases ordinary_withHolders.1.symm.trans hk

theorem inert_withHolders (hid : id.index < 3) : withHolders.Inert id := by
  have hself {x : ObjectId} (hx : ReflTransGen withHolders.Inherits id x) : x = id := by
    obtain rfl | ⟨y, hy, -⟩ := ReflTransGen.cases_head hx
    · rfl
    · simp [Inherits, parent?, ordinary_withHolders.2] at hy
  have hproxy : (withHolders.object id).isProxy = false := by simp [Object.isProxy, ordinary_withHolders.1]
  refine ⟨.inl ordinary_withHolders.1, fun key p hp => ?_, fun x hx => hself hx ▸ ⟨hid, hproxy⟩,
    fun x p hx hp => ?_, fun hk => ?_⟩
  · obtain ⟨⟨-, rfl⟩ | ⟨-, rfl⟩, -⟩ := member_withHolders hp <;> rfl
  · have hown : (withHolders.object x).own? (.name "toJSON") = some p := by
      simpa [ownProperty?, ordinary_withHolders.1] using hp
    exact absurd rfl (member_withHolders hown).2
  · cases ordinary_withHolders.1.symm.trans hk

theorem meets_withHolders {x : ObjectId} (hx : withHolders.Meets (.object id) x) :
    x = id ∨ x = ⟨2⟩ := by
  obtain ⟨_, ⟨⟩, hx⟩ := hx
  induction hx with
  | refl => exact .inl rfl
  | tail _ hchild ih =>
    obtain ⟨rfl, rfl⟩ | ⟨rfl, rfl⟩ := contains_withHolders hchild
    · exact ih
    · exact .inr rfl

end State

/-- The first object cannot be written, but the second one can. -/
theorem jsonStringify_circular_shared :
    (∃ s', (Exec.jsonStringify #[.object ⟨0⟩] (machine (2 ^ 33)) default .withHolders).outcome =
      some (some (.error circularFailure), s')) ∧
    ∃ v s', (Exec.jsonStringify #[.object ⟨1⟩] (machine (2 ^ 33)) default .withHolders).outcome =
      some (some (.ok v), s') := by
  have hinert {id : ObjectId} (hid : id.index < 2) (x : ObjectId) (hx : State.withHolders.Meets (.object id) x) :
      State.withHolders.Inert x := by
    refine State.inert_withHolders ?_
    obtain rfl | rfl := State.meets_withHolders hx
    · omega
    · decide
  have hfuel : State.withHolders.heap.size + 2 ^ 32 < 2 ^ 33 := by decide
  constructor
  · obtain ⟨_, r, s', -, hrun, ⟨_, -, h | h⟩ | ⟨hcircular, -⟩⟩ := jsonStringify_circular default
      #[.object ⟨0⟩] hfuel rfl rfl (hinert (by decide))
    · cases h
    · cases h
    · have hown : (State.withHolders.object ⟨0⟩).own? (.name "a") = some (.plain (.object ⟨0⟩)) :=
        State.own?_withHolders
      have hcycle : State.withHolders.Contains ⟨0⟩ ⟨0⟩ := .member rfl rfl hown rfl rfl
      rw [hcircular.mpr ⟨⟨0⟩, ⟨⟨0⟩, rfl, .refl⟩, .single hcycle⟩] at hrun
      exact ⟨s', hrun⟩
  · obtain ⟨_, r, s', -, hrun, ⟨_, -, h | h⟩ | ⟨-, hwritten⟩⟩ := jsonStringify_circular default
      #[.object ⟨1⟩] hfuel rfl rfl (hinert (by decide))
    · cases h
    · cases h
    · have hnot : ¬ State.withHolders.Circular (.object ⟨1⟩) := by
        rintro ⟨x, hx, hcycle⟩
        obtain ⟨y, hy, hback⟩ := TransGen.head'_iff.mp hcycle
        obtain ⟨rfl, rfl⟩ | ⟨rfl, rfl⟩ := State.contains_withHolders hy
        · obtain h | h := State.meets_withHolders hx <;> cases h
        · obtain h | ⟨z, hz, -⟩ := ReflTransGen.cases_head hback
          · cases h
          · obtain ⟨h, -⟩ | ⟨h, -⟩ := State.contains_withHolders hz <;> cases h
      obtain ⟨text, rfl, -⟩ := hwritten hnot
      exact ⟨_, s', hrun⟩

end EcmaScript
