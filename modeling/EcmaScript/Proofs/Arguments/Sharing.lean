import EcmaScript.Proofs.Frozen

/-! What an arguments object shares with the parameters of its function. The value of an element that
stands for a parameter is in the scope, its attributes are in the object, and which elements stand for
parameters is in the slots of the object. -/
namespace EcmaScript

namespace Scope
variable {sc sc' : Scope} {name other : String} {b : Binding} {v : Value} {strict : Bool}

theorem lookup_replace_ne {bindings : List (String × Binding)} (h : other ≠ name) :
    (replace name b bindings).lookup other = bindings.lookup other := by
  induction bindings with
  | nil => rfl
  | cons e rest ih =>
    obtain ⟨bound, b'⟩ := e
    by_cases he : bound = name
    · have hne : (other == bound) = false := by simpa [he] using h
      have hne' : (other == name) = false := by simpa using h
      simp [replace, he, List.lookup_cons, hne']
    · simp only [replace, he, if_false, List.lookup_cons, ih]

theorem binding?_replaced {kind : ScopeKind} {parent : Option ScopeId} {names : List (String × PrivateName)}
    (h : (sc.binding? name).isSome = true) :
    binding? ⟨kind, parent, replace name b sc.bindings, names⟩ other =
      if other = name then some b else sc.binding? other := by
  by_cases ho : other = name
  · subst ho
    rw [if_pos rfl]
    exact lookup_replace fun hnone => by simp [binding?, hnone] at h
  · rw [if_neg ho]
    exact lookup_replace_ne ho

theorem binding?_bind : (sc.bind name b).binding? other = if other = name then some b else sc.binding? other := by
  unfold bind
  split
  · rename_i h
    exact binding?_replaced h
  · by_cases ho : other = name
    · simp [binding?, ho]
    · have hne : (other == name) = false := by simpa using ho
      simp [binding?, List.lookup_cons, ho, hne]

theorem value_filled (h : (sc.binding? name).isSome = true) :
    ((sc.fill name v).binding? other).bind (·.value) =
      if other = name then some v else (sc.binding? other).bind (·.value) := by
  unfold fill
  cases hb : sc.binding? name with
  | none => simp [hb] at h
  | some b =>
    dsimp only
    rw [binding?_replaced h]
    by_cases ho : other = name <;> simp [ho]

theorem value_assign (h : sc.assign name v strict = .ok sc') :
    sc' = sc ∨ ∀ other, (sc'.binding? other).bind (·.value) =
      if other = name then some v else (sc.binding? other).bind (·.value) := by
  unfold assign at h
  split at h
  · cases h
  · cases h
  · cases h
  · split at h <;> cases h
    exact .inl rfl
  · rename_i hb
    cases h
    refine .inr fun other => ?_
    rw [binding?_replaced (by simp [hb])]
    by_cases ho : other = name <;> simp [ho]

end Scope

/-- What code can see of an arguments object and of the parameters of its function: the names that the
elements stand for, the own properties, and the values of the names. -/
@[ext]
structure Sharing where
  standsFor : ArrayIndex → Option String
  own : PropertyKey → Option Property
  value : String → Option Value

/-- The parameter that an element of an arguments object stands for. -/
def Object.standsFor? (o : Object) (n : ArrayIndex) : Option String :=
  match o.kind with
  | .arguments (some shared) => shared.parameter? (.index n)
  | _ => none

namespace State
variable (s : State)

def bound? (scope : ScopeId) (name : String) : Option Value :=
  ((s.scope scope).binding? name).bind (·.value)

def standsFor? (id : ObjectId) (n : ArrayIndex) : Option String := (s.object id).standsFor? n

def Shares (id : ObjectId) (scope : ScopeId) : Prop :=
  ∃ shared, (s.object id).kind = .arguments (some shared) ∧ shared.scope = scope

def sharing (id : ObjectId) (scope : ScopeId) : Sharing := ⟨s.standsFor? id, (s.object id).own?, s.bound? scope⟩

end State

namespace Sharing

/-- What is reported of an element: for one that stands for a parameter, the value of the parameter. -/
def reported (a : Sharing) (n : ArrayIndex) : Option Property :=
  match (a.standsFor n).bind a.value, a.own (.index n) with
  | some v, some ⟨.data _ writable, e, c⟩ => some ⟨.data v writable, e, c⟩
  | _, p => p

/-- The elements that stand for parameters are writable data, and the parameters have values. -/
structure Coherent (a : Sharing) : Prop where
  own : ∀ n name, a.standsFor n = some name → ∃ v e c, a.own (.index n) = some (.data v true e c)
  value : ∀ n name, a.standsFor n = some name → (a.value name).isSome = true

/-- A change of what is shared, by an action that may be about one property and bring a value. It may be
refused. -/
inductive Change (a : Sharing) : (key? : Option PropertyKey) → (value? : Option Value) → (done : Bool) →
    Sharing → Prop where
  | aside {key? : Option PropertyKey} {value? : Option Value} {done : Bool}
    (h : done = true → key? = none ∨ value? = none) : Change a key? value? done a
  | assign {name : String} {v : Value} {value? : Option Value} :
    Change a none value? true { a with value := Function.update a.value name (some v) }
  | property {key : PropertyKey} {value? : Option Value} {p? : Option Property}
    (h : ∀ n, key = .index n → a.standsFor n = none) :
    Change a (some key) value? true { a with own := Function.update a.own key p? }
  | element {n : ArrayIndex} {name : String} {value? : Option Value} {v old : Value} {e c : Bool}
    (h : a.standsFor n = some name) (hold : a.value name = some old) :
    Change a (some (.index n)) value? true
      { a with
        own := Function.update a.own (.index n) (some (.data v true e c))
        value := Function.update a.value name (some (value?.getD old)) }
  /-- The element stands for the parameter no longer, and has the value that it is given, or else the
  last one. -/
  | unmap {n : ArrayIndex} {name : String} {value? : Option Value} {p? : Option Property} {old : Value}
    (h : a.standsFor n = some name) (hold : a.value name = some old)
    (hp : ∀ p, p? = some p → p.isAccessor = true ∨ ∃ e c, p = .data (value?.getD old) false e c) :
    Change a (some (.index n)) value? true
      { a with
        standsFor := Function.update a.standsFor n none
        own := Function.update a.own (.index n) p? }

/-- What an action leaves of what is shared. -/
structure Leaves (a : Sharing) (key? : Option PropertyKey) (value? : Option Value) (done : Bool)
    (a' : Sharing) : Prop where
  /-- An element stands for its parameter until it is gone, or no longer writable data. -/
  stands : ∀ n name, a.standsFor n = some name →
    (a'.standsFor n = none ∨ a'.standsFor n = some name) ∧
      (a'.standsFor n = none ↔ ∀ v e c, a'.reported n ≠ some (.data v true e c))
  never_again : ∀ n, a.standsFor n = none → a'.standsFor n = none
  /-- An element that stands for a parameter no longer keeps the last value, or gets the one given. -/
  kept : ∀ n name, a.standsFor n = some name → a'.standsFor n = none → key? = some (.index n) ∧
    ∀ p, a'.reported n = some p → p.isAccessor = true ∨ p.value? = value?.or (a.value name)
  /-- The value that an element is given is that of its parameter. -/
  given : ∀ n name, a'.standsFor n = some name → done = true → key? = some (.index n) → value?.isSome = true →
    a'.value name = value?
  /-- Other elements and the names do not concern each other. -/
  apart : ∀ n, a.standsFor n = none → (key? = none → a'.reported n = a.reported n) ∧
    (key? = some (.index n) → a'.value = a.value)

namespace Coherent
variable {a a' : Sharing} {key? : Option PropertyKey} {value? : Option Value} {done : Bool} {n : ArrayIndex}
  {name : String}

theorem reported (h : a.Coherent) (hn : a.standsFor n = some name) :
    ∃ v e c, a.value name = some v ∧ a.reported n = some (.data v true e c) := by
  obtain ⟨w, e, c, hown⟩ := h.own n name hn
  obtain ⟨v, hv⟩ := Option.isSome_iff_exists.mp (h.value n name hn)
  exact ⟨v, e, c, hv, by simp [Sharing.reported, hn, hv, hown, Property.data]⟩

theorem change (h : a.Coherent) (hc : Change a key? value? done a') : a'.Coherent := by
  cases hc with
  | aside => exact h
  | @assign bound v =>
    refine ⟨h.own, fun n name hn => ?_⟩
    by_cases hname : name = bound
    · simp [hname]
    · simpa [hname] using h.value n name hn
  | @property key _ p? hkey =>
    refine ⟨fun n name hn => ?_, h.value⟩
    have hne : PropertyKey.index n ≠ key := by
      rintro rfl
      simp [hkey n rfl] at hn
    simpa [hne] using h.own n name hn
  | @element n bound _ v old e c =>
    refine ⟨fun n' name hn' => ?_, fun n' name hn' => ?_⟩
    · by_cases hn : n' = n
      · exact ⟨v, e, c, by simp [hn]⟩
      · simpa [hn] using h.own n' name hn'
    · by_cases hname : name = bound
      · simp [hname]
      · simpa [hname] using h.value n' name hn'
  | @unmap n =>
    refine ⟨fun n' name hn' => ?_, fun n' name hn' => ?_⟩
    · by_cases hn : n' = n
      · simp [hn] at hn'
      · simp only [Function.update_of_ne hn] at hn'
        simpa [hn] using h.own n' name hn'
    · by_cases hn : n' = n
      · simp [hn] at hn'
      · simp only [Function.update_of_ne hn] at hn'
        exact h.value n' name hn'

theorem writable (h : a.Coherent) (hn : a.standsFor n = some name) :
    (a.standsFor n = none ∨ a.standsFor n = some name) ∧
      (a.standsFor n = none ↔ ∀ v e c, a.reported n ≠ some (.data v true e c)) := by
  obtain ⟨v, e, c, -, hreported⟩ := h.reported hn
  refine ⟨.inr hn, iff_of_false (by simp [hn]) fun hnot => hnot v e c hreported⟩

theorem leaves (h : a.Coherent) (hc : Change a key? value? done a') : Leaves a key? value? done a' := by
  have h' := h.change hc
  cases hc with
  | aside hrefused =>
    refine ⟨fun n name => h.writable, fun n => id, fun n name hn hn' => ?_, fun n name hn hdone hkey hv => ?_,
      fun n hn => ⟨fun _ => rfl, fun _ => rfl⟩⟩
    · cases hn.symm.trans hn'
    · rcases hrefused hdone with hnone | hnone
      · cases hnone.symm.trans hkey
      · simp [hnone] at hv
  | assign =>
    refine ⟨fun n name => h'.writable, fun n => id, fun n name hn hn' => ?_, fun n name hn hdone hkey => ?_,
      fun n hn => ⟨fun _ => ?_, fun hkey => ?_⟩⟩
    · cases hn.symm.trans hn'
    · cases hkey
    · simp [Sharing.reported, hn]
    · cases hkey
  | property hkey =>
    refine ⟨fun n name => h'.writable, fun n => id, fun n name hn hn' => ?_,
      fun n name hn hdone hindex => ?_, fun n hn => ⟨nofun, fun _ => rfl⟩⟩
    · cases hn.symm.trans hn'
    · cases hn.symm.trans (hkey n (Option.some.inj hindex))
  | @element n bound _ v old e c hbound hold =>
    refine ⟨fun n' name => h'.writable, fun n' => id, fun n' name hn hn' => ?_,
      fun n' name hn hdone hindex hv => ?_, fun n' hn => ⟨nofun, fun hindex => ?_⟩⟩
    · cases hn.symm.trans hn'
    · obtain rfl : n = n' := by simpa using hindex
      obtain rfl : bound = name := Option.some.inj (hbound.symm.trans hn)
      obtain ⟨w, rfl⟩ := Option.isSome_iff_exists.mp hv
      simp
    · obtain rfl : n = n' := by simpa using hindex
      cases hbound.symm.trans hn
  | @unmap n bound _ p? old hbound hold hp =>
    have hreported : Sharing.reported ⟨Function.update a.standsFor n none, Function.update a.own (.index n) p?,
        a.value⟩ n = p? := by
      simp [Sharing.reported]
    refine ⟨fun n' name hn' => ?_, fun n' hn' => ?_, fun n' name hn hn' => ?_, fun n' name hn hdone hindex => ?_,
      fun n' hn => ⟨nofun, fun _ => rfl⟩⟩
    · by_cases hn : n' = n
      · subst n'
        rw [hreported]
        refine ⟨.inl (by simp), iff_of_true (by simp) fun v e c hdata => ?_⟩
        rcases hp _ hdata with hacc | ⟨e', c', hread⟩
        · simp [Property.isAccessor, Property.data] at hacc
        · simp [Property.data] at hread
      · exact h'.writable (by simpa [hn] using hn')
    · by_cases hn : n' = n
      · simp [hn]
      · simpa [hn] using hn'
    · obtain rfl : n' = n := by
        by_contra hne
        simp [hne, hn] at hn'
      refine ⟨rfl, fun p hp' => ?_⟩
      rw [hreported] at hp'
      obtain rfl : bound = name := Option.some.inj (hbound.symm.trans hn)
      refine (hp p hp').imp_right ?_
      rintro ⟨e, c, rfl⟩
      rw [hold]
      cases value? <;> rfl
    · obtain rfl : n = n' := by simpa using hindex
      simp at hn

end Coherent
end Sharing

namespace State
variable {s : State} {id : ObjectId} {scope : ScopeId} {n : ArrayIndex}

theorem Shares.ownProperty? (h : s.Shares id scope) :
    s.ownProperty? id (.index n) = (s.sharing id scope).reported n := by
  obtain ⟨shared, hk, rfl⟩ := h
  simp only [State.ownProperty?, Sharing.reported, sharing, standsFor?, Object.standsFor?, hk,
    ArgumentMap.parameter?]
  cases (shared.names[n.val]?).join with
  | none => rfl
  | some name =>
    simp only [Option.bind_some]
    rcases (s.object id).own? (.index n) with - | ⟨slot, e, c⟩
    · cases s.bound? shared.scope name <;> rfl
    · cases hbound : s.bound? shared.scope name with
      | none => simp only [show ((s.scope shared.scope).binding? name).bind (·.value) = none from hbound]
      | some v =>
        simp only [show ((s.scope shared.scope).binding? name).bind (·.value) = some v from hbound]
        cases slot <;> rfl

end State
end EcmaScript
