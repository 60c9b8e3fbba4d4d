import EcmaScript.Object.Write
import Mathlib.Data.Fintype.Pigeonhole
import Mathlib.Logic.Relation

/-! The prototypes of objects make no cycle, so every way along them comes to an end. -/
namespace EcmaScript
open Relation

namespace State
variable {s s' : State} {id target parent : ObjectId} {a b x : ObjectId}

/-- The object that another one inherits from. A proxy has none. -/
def parent? (s : State) (id : ObjectId) : Option ObjectId :=
  if (s.object id).isProxy then none else (s.object id).prototype

/-- The object that is met after some steps along the prototypes. -/
def ancestor? (s : State) : (steps : Nat) → ObjectId → Option ObjectId
  | 0, id => some id
  | n + 1, id => (s.parent? id).bind (s.ancestor? n)

def Inherits (s : State) (id parent : ObjectId) : Prop := s.parent? id = some parent

def Acyclic (s : State) : Prop := ∀ id, ¬ TransGen s.Inherits id id

def Rooted (s : State) : Prop :=
  ∀ id parent, (s.object id).prototype = some parent → parent.index < s.heap.size

theorem ancestor?_add {m n : Nat} :
    s.ancestor? (m + n) id = (s.ancestor? m id).bind (s.ancestor? n) := by
  induction m generalizing id with
  | zero => simp [ancestor?]
  | succ m ih =>
    rw [Nat.succ_add]
    cases hp : s.parent? id with
    | none => simp [ancestor?, hp]
    | some parent => simp [ancestor?, hp, ih]

theorem ancestor?_none {m n : Nat} (h : s.ancestor? m id = none) (hn : m ≤ n) :
    s.ancestor? n id = none := by
  obtain ⟨k, rfl⟩ := Nat.exists_eq_add_of_le hn
  simp [ancestor?_add, h]

theorem reaches_of_ancestor? {n : Nat} (h : s.ancestor? n a = some b) :
    ReflTransGen s.Inherits a b := by
  induction n generalizing a with
  | zero =>
    cases h
    exact .refl
  | succ n ih =>
    obtain ⟨p, hp, h⟩ := Option.bind_eq_some_iff.mp h
    exact .head hp (ih h)

theorem ancestor?_of_reaches (h : ReflTransGen s.Inherits a b) :
    ∃ n, s.ancestor? n a = some b := by
  induction h using ReflTransGen.head_induction_on with
  | refl => exact ⟨0, rfl⟩
  | head hp _ ih =>
    obtain ⟨n, hn⟩ := ih
    exact ⟨n + 1, by simp [ancestor?, show s.parent? _ = _ from hp, hn]⟩

theorem Rooted.parent? (h : s.Rooted) (hp : s.parent? id = some parent) :
    parent.index < s.heap.size := by
  unfold State.parent? at hp
  split at hp
  · cases hp
  · exact h id parent hp

theorem Acyclic.ends (h : s.Acyclic) (hr : s.Rooted) : s.ancestor? (s.heap.size + 1) id = none := by
  by_contra hne
  have hsome (k : Fin (s.heap.size + 1)) : ∃ o, s.ancestor? (k + 1) id = some o := by
    refine Option.ne_none_iff_exists'.mp fun hnone => hne (ancestor?_none hnone ?_)
    have := k.isLt
    omega
  choose met hmet using hsome
  have hlt (k : Fin (s.heap.size + 1)) : (met k).index < s.heap.size := by
    obtain ⟨o, -, ho⟩ := Option.bind_eq_some_iff.mp (ancestor?_add (n := 1) ▸ hmet k)
    obtain ⟨p, hp, he⟩ := Option.bind_eq_some_iff.mp ho
    cases he
    exact hr.parent? hp
  obtain ⟨i, j, hij, heq⟩ := Fintype.exists_ne_map_eq_of_card_lt
    (fun k => (⟨(met k).index, hlt k⟩ : Fin s.heap.size)) (by simp)
  have hsame : met i = met j := by
    have := congrArg Fin.val heq
    exact congrArg ObjectId.mk this
  -- Two steps that meet the same object enclose a cycle.
  have hcycle {i j : Fin (s.heap.size + 1)} (hlt : i < j) (hsame : met i = met j) : False := by
    obtain ⟨k, hk⟩ := Nat.exists_eq_add_of_lt (Fin.lt_def.mp hlt)
    have hj : s.ancestor? (k + 1) (met i) = some (met i) := by
      have hj := hmet j
      rwa [show (j : Nat) + 1 = (i + 1) + (k + 1) by omega, ancestor?_add, hmet i, ← hsame] at hj
    obtain ⟨p, hp, hj⟩ := Option.bind_eq_some_iff.mp hj
    exact h (met i) (.head' hp (reaches_of_ancestor? hj))
  rcases lt_or_gt_of_ne hij with hlt | hlt
  · exact hcycle hlt hsame
  · exact hcycle hlt hsame.symm

theorem Acyclic.wellFounded (h : s.Acyclic) (hr : s.Rooted) :
    WellFounded fun parent id => s.Inherits id parent := by
  have hacc {n : Nat} {id : ObjectId} (he : s.ancestor? n id = none) :
      Acc (fun parent id => s.Inherits id parent) id := by
    induction n generalizing id with
    | zero => cases he
    | succ n ih =>
      refine ⟨_, fun parent hp => ih ?_⟩
      simpa [ancestor?, show s.parent? id = some parent from hp] using he
  exact ⟨fun id => hacc (h.ends hr)⟩

section Walks
variable {key : PropertyKey} {fuel n : Nat}

theorem lookupFrom_of_ends (h : s.ancestor? n id = none) (hn : n ≤ fuel) :
    s.lookupFrom key fuel id = s.lookupFrom key n id := by
  induction n generalizing id fuel with
  | zero => cases h
  | succ n ih =>
    obtain ⟨fuel, rfl⟩ := Nat.exists_eq_add_of_le' (Nat.lt_of_lt_of_le (Nat.succ_pos n) hn)
    unfold lookupFrom
    dsimp only
    split
    · rfl
    · rename_i hproxy
      split
      · rfl
      · split
        · rename_i parent hp
          refine ih ?_ (by omega)
          have hparent : s.parent? id = some parent := by
            unfold parent? Object.isProxy
            split <;> simp_all
          simpa [ancestor?, hparent] using h
        · rfl

theorem peekFrom_of_ends (h : s.ancestor? n id = none) (hn : n ≤ fuel) :
    s.peekFrom key fuel id = s.peekFrom key n id := by
  induction n generalizing id fuel with
  | zero => cases h
  | succ n ih =>
    obtain ⟨fuel, rfl⟩ := Nat.exists_eq_add_of_le' (Nat.lt_of_lt_of_le (Nat.succ_pos n) hn)
    unfold peekFrom
    dsimp only
    split
    · rfl
    · rename_i hproxy
      split
      · rfl
      · split
        · rename_i parent hp
          refine ih ?_ (by omega)
          simpa [ancestor?, parent?, hproxy, hp] using h
        · rfl

end Walks

theorem onChain_false {fuel n : Nat} (h : s.onChain target fuel (some id) = false)
    (hn : n < fuel) : s.ancestor? n id ≠ some target := by
  induction fuel generalizing id n with
  | zero => omega
  | succ fuel ih =>
    simp only [onChain, Bool.or_eq_false_iff, beq_eq_false_iff_ne, Bool.and_eq_false_iff,
      Bool.not_eq_false'] at h
    cases n with
    | zero => simpa [ancestor?] using h.1
    | succ n =>
      intro hr
      obtain ⟨p, hp, hr⟩ := Option.bind_eq_some_iff.mp hr
      unfold parent? at hp
      split at hp
      · cases hp
      · rcases h.2 with hproxy | hchain
        · simp_all
        · rw [hp] at hchain
          exact ih hchain (by omega) hr

theorem Acyclic.not_reaches (h : s.Acyclic) (hr : s.Rooted)
    (hc : s.onChain target (s.heap.size + 1) (some id) = false) :
    ¬ ReflTransGen s.Inherits id target := by
  intro hreach
  obtain ⟨n, hn⟩ := ancestor?_of_reaches hreach
  rcases Nat.lt_or_ge n (s.heap.size + 1) with hlt | hge
  · exact onChain_false hc hlt hn
  · rw [ancestor?_none (h.ends hr) hge] at hn
    cases hn

theorem Acyclic.of_parent?_eq (h : s.Acyclic) (he : ∀ a, s'.parent? a = s.parent? a) :
    s'.Acyclic := by
  have heq : s'.Inherits = s.Inherits := by
    funext a b
    exact congrArg (· = some b) (he a)
  intro a ha
  exact h a (heq ▸ ha)

theorem not_reaches_of_not_inherits (h : ∀ a, ¬ s.Inherits a x) (hx : a ≠ x) :
    ¬ ReflTransGen s.Inherits a x := by
  intro hreach
  rcases hreach.cases_tail with heq | ⟨b, -, hb⟩
  · exact hx heq.symm
  · exact h b hb

theorem Acyclic.update (h : s.Acyclic)
    (hne : ∀ a, a ≠ x → s'.parent? a = s.parent? a)
    (hx : ∀ p, s'.parent? x = some p → ¬ ReflTransGen s.Inherits p x) : s'.Acyclic := by
  -- A way to the object that has changed did not change before it gets there.
  have hold {p : ObjectId} (hp : ReflTransGen s'.Inherits p x) : ReflTransGen s.Inherits p x := by
    induction hp using ReflTransGen.head_induction_on with
    | refl => exact .refl
    | @head a b hab _ ih =>
      by_cases ha : a = x
      · exact ha ▸ .refl
      · exact .head ((hne a ha).symm.trans hab) ih
  have hsplit {a b : ObjectId} (hab : TransGen s'.Inherits a b) :
      TransGen s.Inherits a b ∨ ReflTransGen s'.Inherits a x ∧
        ∃ p, s'.parent? x = some p ∧ ReflTransGen s'.Inherits p b := by
    induction hab with
    | single hab =>
      by_cases ha : a = x
      · exact .inr ⟨ha ▸ .refl, _, ha ▸ hab, .refl⟩
      · exact .inl (.single ((hne a ha).symm.trans hab))
    | @tail b c hac hbc ih =>
      rcases ih with ih | ⟨hax, p, hp, hpb⟩
      · by_cases hb : b = x
        · exact .inr ⟨hb ▸ hac.to_reflTransGen, _, hb ▸ hbc, .refl⟩
        · exact .inl (.tail ih ((hne b hb).symm.trans hbc))
      · exact .inr ⟨hax, p, hp, hpb.tail hbc⟩
  intro a ha
  rcases hsplit ha with hold' | ⟨hax, p, hp, hpa⟩
  · exact h a hold'
  · exact hx p hp (hold (hpa.trans hax))

end State

/-! The objects along the prototypes, as a list. -/

namespace Lookup

def ofProperty? : Option Property → Lookup
  | some p => .found p
  | none => .absent

/-- The value that is found, as far as no code is run for it. -/
def value? : Lookup → Option Value
  | .found p => p.value?
  | .proxy _ => none
  | .absent => some .undefined

end Lookup

namespace State

/-- The objects that are met along the prototypes, none of which is a proxy. -/
inductive Chain (s : State) : Option ObjectId → List ObjectId → Prop where
  | nil : Chain s none []
  | cons {id : ObjectId} {ids : List ObjectId} (hproxy : (s.object id).isProxy = false)
    (h : Chain s (s.object id).prototype ids) : Chain s (some id) (id :: ids)

namespace Chain
variable {s : State} {id : ObjectId} {ids : List ObjectId} {key : PropertyKey}

theorem isProxy_eq (h : s.Chain (some id) ids) : (s.object id).isProxy = false := by
  cases h with
  | cons hproxy _ => exact hproxy

theorem congr {s' : State} {start : Option ObjectId} (h : s.Chain start ids) (hs : s'.heap = s.heap) :
    s'.Chain start ids := by
  have hobject (id : ObjectId) : s'.object id = s.object id := by simp only [object, hs]
  induction h with
  | nil => exact .nil
  | @cons id _ hproxy _ ih => exact .cons (by rw [hobject, hproxy]) (by rwa [hobject])

theorem ancestor?_iff (h : s.Chain (some id) ids) {n : Nat} :
    s.ancestor? n id = none ↔ ids.length ≤ n := by
  generalize hstart : some id = start at h
  induction h generalizing id n with
  | nil => cases hstart
  | @cons id' ids' hproxy h ih =>
    obtain rfl := Option.some.inj hstart
    cases n with
    | zero => simp [ancestor?]
    | succ n =>
      have hparent : s.parent? id = (s.object id).prototype := by simp [parent?, hproxy]
      cases hp : (s.object id).prototype with
      | none =>
        rw [hp] at h
        cases h
        simp [ancestor?, hparent, hp]
      | some parent => simp [ancestor?, hparent, hp, ih hp.symm]

theorem lookupFrom_eq (h : s.Chain (some id) ids) {fuel : Nat} :
    s.lookupFrom key fuel id = .ofProperty? ((ids.take fuel).findSome? (s.ownProperty? · key)) := by
  generalize hstart : some id = start at h
  induction h generalizing id fuel with
  | nil => cases hstart
  | @cons id' ids' hproxy h ih =>
    obtain rfl := Option.some.inj hstart
    cases fuel with
    | zero => rfl
    | succ fuel =>
      unfold lookupFrom
      dsimp only
      rw [List.take_succ_cons, List.findSome?_cons]
      split
      · simp_all [Object.isProxy]
      · cases hown : s.ownProperty? id key with
        | some p => rfl
        | none =>
          dsimp only
          cases hp : (s.object id).prototype with
          | none =>
            rw [hp] at h
            cases h
            simp [Lookup.ofProperty?]
          | some parent => exact ih hp.symm

theorem lookup_ne_proxy (h : s.Chain (some id) ids) {p : Option ProxyData} :
    s.lookup id key ≠ .proxy p := by
  rw [lookup, h.lookupFrom_eq]
  cases (ids.take (s.heap.size + 1)).findSome? (s.ownProperty? · key) <;> simp [Lookup.ofProperty?]

theorem lookup_absent (h : s.Chain (some id) ids) (hnone : ∀ id ∈ ids, s.ownProperty? id key = none) :
    s.lookup id key = .absent := by
  have hfound : (ids.take (s.heap.size + 1)).findSome? (s.ownProperty? · key) = none :=
    List.findSome?_eq_none_iff.mpr fun id hid => hnone id (List.mem_of_mem_take hid)
  rw [lookup, h.lookupFrom_eq, hfound]
  rfl

end Chain

theorem Acyclic.chain {s : State} {id : ObjectId} (h : s.Acyclic) (hr : s.Rooted)
    (hproxy : ∀ n a, s.ancestor? n id = some a → (s.object a).isProxy = false) :
    ∃ ids, s.Chain (some id) ids ∧ ids.length ≤ s.heap.size + 1 := by
  suffices hchain : ∃ ids, s.Chain (some id) ids by
    obtain ⟨ids, hids⟩ := hchain
    exact ⟨ids, hids, hids.ancestor?_iff.mp (h.ends hr)⟩
  have hends : s.ancestor? (s.heap.size + 1) id = none := h.ends hr
  generalize s.heap.size + 1 = n at hends
  induction n generalizing id with
  | zero => cases hends
  | succ n ih =>
    have hid : (s.object id).isProxy = false := hproxy 0 id rfl
    have hparent : s.parent? id = (s.object id).prototype := by simp [parent?, hid]
    cases hp : (s.object id).prototype with
    | none => exact ⟨[id], .cons hid (hp ▸ .nil)⟩
    | some parent =>
      have hstep (k : Nat) : s.ancestor? (k + 1) id = s.ancestor? k parent := by
        simp [ancestor?, hparent, hp]
      obtain ⟨ids, hids⟩ := ih (fun k a ha => hproxy (k + 1) a ((hstep k).trans ha))
        ((hstep n).symm.trans hends)
      exact ⟨id :: ids, .cons hid (hp ▸ hids)⟩

end State
end EcmaScript
