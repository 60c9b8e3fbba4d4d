import EcmaScript.Inspect.Value
import Mathlib.Data.List.Nodup
import Mathlib.Data.List.Perm.Subperm
import Mathlib.Logic.Relation

/-! The text of a value. Promises and proxies are shown as what they stand for, so that a value has a text
unless they stand for one another in a circle. -/
namespace EcmaScript
open Inspect Relation

namespace Inspect
variable {show? : Value → Option String}

/-! An object has a text if the values inside it have. -/

section Total
variable (hshow : ∀ v, (show? v).isSome = true)
include hshow

theorem isSome_fieldItems (isArray : Bool) (next : Nat) (key : PropertyKey) (slot : Slot) :
    (fieldItems show? isArray next key slot).isSome = true := by
  unfold fieldItems
  cases slot with
  | data v writable =>
    obtain ⟨text, htext⟩ := Option.isSome_iff_exists.mp (hshow v)
    simp only [htext]
    cases key <;> cases isArray <;> rfl
  | accessor getter setter => cases key <;> cases isArray <;> rfl

theorem isSome_fieldTexts (isArray : Bool) (fields : List (PropertyKey × Slot)) (items : List String)
    (next : Nat) : (fieldTexts show? isArray fields items next).isSome = true := by
  induction fields generalizing items next with
  | nil => rfl
  | cons field rest ih =>
    unfold fieldTexts
    split
    · rfl
    · split
      · exact ih _ _
      · rename_i hnone
        have hsome := isSome_fieldItems hshow isArray next field.1 field.2
        rw [hnone] at hsome
        cases hsome

theorem isSome_plainText {label : String} {fields : List (PropertyKey × Slot)} {length : Option Nat} :
    (plainText show? label fields length).isSome = true := by
  obtain ⟨p, hp⟩ := Option.isSome_iff_exists.mp
    (isSome_fieldTexts hshow length.isSome fields [] 0)
  unfold plainText
  rw [hp]
  cases length <;> rfl

theorem isSome_entryText (isMap : Bool) (entry : Value × Value) :
    (entryText show? isMap entry).isSome = true := by
  obtain ⟨key, hkey⟩ := Option.isSome_iff_exists.mp (hshow entry.1)
  obtain ⟨value, hvalue⟩ := Option.isSome_iff_exists.mp (hshow entry.2)
  unfold entryText
  rw [hkey, hvalue]
  cases isMap <;> rfl

theorem isSome_keyedText {entries : List (Value × Value)} {isMap : Bool} :
    (keyedText show? entries isMap).isSome = true := by
  have hitems (entries : List (Value × Value)) : (entries.mapM (entryText show? isMap)).isSome = true := by
    induction entries with
    | nil => rfl
    | cons entry rest ih =>
      obtain ⟨text, htext⟩ := Option.isSome_iff_exists.mp (isSome_entryText hshow isMap entry)
      obtain ⟨texts, htexts⟩ := Option.isSome_iff_exists.mp ih
      rw [List.mapM_cons, htext, htexts]
      rfl
  obtain ⟨items, hitems⟩ := Option.isSome_iff_exists.mp (hitems (entries.take inspectItems))
  unfold keyedText
  rw [hitems]
  rfl

end Total

/-! The text of an object does not change when more values have a text. -/

section More
variable {more? : Value → Option String} (hmore : ∀ v t, show? v = some t → more? v = some t)
include hmore

theorem fieldItems_mono {isArray : Bool} {next : Nat} {key : PropertyKey} {slot : Slot}
    {r : List String × Nat} (h : fieldItems show? isArray next key slot = some r) :
    fieldItems more? isArray next key slot = some r := by
  unfold fieldItems at *
  cases slot with
  | data v writable =>
    obtain ⟨text, htext, h⟩ := Option.bind_eq_some_iff.mp h
    exact Option.bind_eq_some_iff.mpr ⟨text, hmore v text htext, h⟩
  | accessor => exact h

theorem fieldTexts_mono {isArray : Bool} {fields : List (PropertyKey × Slot)} {items : List String}
    {next : Nat} {r : List String × Nat} (h : fieldTexts show? isArray fields items next = some r) :
    fieldTexts more? isArray fields items next = some r := by
  induction fields generalizing items next with
  | nil => exact h
  | cons field rest ih =>
    rw [fieldTexts] at h ⊢
    split at h
    · rename_i hfull
      rw [if_pos hfull]
      exact h
    · rename_i hfull
      rw [if_neg hfull]
      split at h
      · rename_i hitems
        rw [fieldItems_mono hmore hitems]
        exact ih h
      · cases h

theorem plainText_mono {label : String} {fields : List (PropertyKey × Slot)} {length : Option Nat} {t : String}
    (h : plainText show? label fields length = some t) : plainText more? label fields length = some t := by
  unfold plainText at *
  obtain ⟨p, hp, h⟩ := Option.bind_eq_some_iff.mp h
  exact Option.bind_eq_some_iff.mpr ⟨p, fieldTexts_mono hmore hp, h⟩

theorem entryText_mono {isMap : Bool} {entry : Value × Value} {t : String}
    (h : entryText show? isMap entry = some t) : entryText more? isMap entry = some t := by
  unfold entryText at *
  obtain ⟨key, hkey, h⟩ := Option.bind_eq_some_iff.mp h
  refine Option.bind_eq_some_iff.mpr ⟨key, hmore _ _ hkey, ?_⟩
  cases isMap with
  | false => exact h
  | true =>
    obtain ⟨value, hvalue, h⟩ := Option.bind_eq_some_iff.mp h
    exact Option.bind_eq_some_iff.mpr ⟨value, hmore _ _ hvalue, h⟩

theorem keyedText_mono {entries : List (Value × Value)} {isMap : Bool} {t : String}
    (h : keyedText show? entries isMap = some t) : keyedText more? entries isMap = some t := by
  have hitems {entries : List (Value × Value)} {texts : List String}
      (h : entries.mapM (entryText show? isMap) = some texts) :
      entries.mapM (entryText more? isMap) = some texts := by
    induction entries generalizing texts with
    | nil => exact h
    | cons entry rest ih =>
      rw [List.mapM_cons] at *
      obtain ⟨text, htext, h⟩ := Option.bind_eq_some_iff.mp h
      obtain ⟨texts, htexts, h⟩ := Option.bind_eq_some_iff.mp h
      exact Option.bind_eq_some_iff.mpr
        ⟨text, entryText_mono hmore htext, Option.bind_eq_some_iff.mpr ⟨texts, ih htexts, h⟩⟩
  unfold keyedText at *
  obtain ⟨items, hall, h⟩ := Option.bind_eq_some_iff.mp h
  exact Option.bind_eq_some_iff.mpr ⟨items, hitems hall, h⟩

end More

/-- A text that is made of the texts of values. -/
structure Composed (text : (Value → Option String) → Option String) : Prop where
  total : ∀ show?, (∀ v, (show? v).isSome = true) → (text show?).isSome = true
  mono : ∀ show? more? t, (∀ v t, show? v = some t → more? v = some t) → text show? = some t →
    text more? = some t

theorem Composed.const {t : String} : Composed fun _ => some t := ⟨fun _ _ => rfl, fun _ _ _ _ h => h⟩

theorem Composed.plainText {label : String} {fields : List (PropertyKey × Slot)} {length : Option Nat} :
    Composed (plainText · label fields length) :=
  ⟨fun _ hshow => isSome_plainText hshow, fun _ _ _ hmore => plainText_mono hmore⟩

theorem Composed.keyedText {entries : List (Value × Value)} {isMap : Bool} :
    Composed (keyedText · entries isMap) :=
  ⟨fun _ hshow => isSome_keyedText hshow, fun _ _ _ hmore => keyedText_mono hmore⟩

end Inspect

namespace State
variable {s : State} {id : ObjectId} {v : Value} {seen : List ObjectId} {depth steps : Nat}

def shownFor? (s : State) (id : ObjectId) : Option Value :=
  match s.shape id with
  | .proxy target => some (.object target)
  | .promise (.fulfilled v) | .promise (.rejected v) => some v
  | _ => none

def StandsFor (s : State) (id other : ObjectId) : Prop := s.shownFor? id = some (.object other)

theorem lt_of_shownFor? (h : s.shownFor? id = some v) : id.index < s.heap.size := by
  by_contra hlt
  have hdefault : s.object id = default := by
    simp [object, Array.getD_eq_getD_getElem?, Array.getElem?_eq_none (Nat.le_of_not_lt hlt)]
  have hkind : (s.object id).kind = .ordinary := by rw [hdefault]; rfl
  simp [shownFor?, shape, hkind] at h

theorem inspectFrom_next (h : s.shownFor? id = some v) (hnew : id ∉ seen) (depth : Nat) :
    ∃ wrap depth', depth ≤ depth' ∧ ∀ fuel, s.inspectFrom (fuel + 1) seen depth (.object id) =
      (s.inspectFrom fuel seen depth' v).map wrap := by
  have hseen : ¬ seen.contains id = true := by simpa using hnew
  unfold shownFor? at h
  cases hshape : s.shape id with
  | text | keyed | plain => simp [hshape] at h
  | proxy target =>
    rw [hshape] at h
    obtain rfl := Option.some.inj h
    refine ⟨fun t => t, depth, Nat.le_refl _, fun fuel => ?_⟩
    rw [inspectFrom, if_neg hseen, hshape, Option.map_id']
  | promise state =>
    rw [hshape] at h
    cases state with
    | pending => cases h
    | fulfilled v' =>
      obtain rfl : v' = v := Option.some.inj h
      refine ⟨fun t => "Promise " ++ braced [t], depth + 1, Nat.le_succ _, fun fuel => ?_⟩
      rw [inspectFrom, if_neg hseen, hshape]
    | rejected v' =>
      obtain rfl : v' = v := Option.some.inj h
      refine ⟨fun t => "Promise " ++ braced ["<rejected> " ++ t], depth + 1, Nat.le_succ _, fun fuel => ?_⟩
      rw [inspectFrom, if_neg hseen, hshape]

theorem inspectFrom_own (h : id ∈ seen ∨ s.shownFor? id = none) (depth : Nat) :
    ∃ text, Composed text ∧ (depth ≤ inspectDepth ∨ ∃ t, text = fun _ => some t) ∧
      ∀ fuel, s.inspectFrom (fuel + 1) seen depth (.object id) =
        text (s.inspectFrom fuel (id :: seen) (depth + 1)) := by
  have hconst {t : String} (ht : ∀ fuel, s.inspectFrom (fuel + 1) seen depth (.object id) = some t) :
      ∃ text, Composed text ∧ (depth ≤ inspectDepth ∨ ∃ t, text = fun _ => some t) ∧
        ∀ fuel, s.inspectFrom (fuel + 1) seen depth (.object id) =
          text (s.inspectFrom fuel (id :: seen) (depth + 1)) :=
    ⟨_, .const, .inr ⟨t, rfl⟩, ht⟩
  by_cases hmem : id ∈ seen
  · exact hconst fun fuel => by rw [inspectFrom, if_pos (by simpa using hmem)]
  have hseen : ¬ seen.contains id = true := by simpa using hmem
  have h := h.resolve_left hmem
  unfold shownFor? at h
  cases hshape : s.shape id with
  | proxy => simp [hshape] at h
  | text t => exact hconst fun fuel => by rw [inspectFrom, if_neg hseen, hshape]
  | promise state =>
    cases state with
    | pending => exact hconst fun fuel => by rw [inspectFrom, if_neg hseen, hshape]
    | fulfilled | rejected => simp [hshape] at h
  | keyed entries isMap =>
    by_cases hdepth : inspectDepth < depth
    · exact hconst fun fuel => by rw [inspectFrom, if_neg hseen, hshape]; exact if_pos hdepth
    · refine ⟨(keyedText · entries isMap), .keyedText, .inl (Nat.le_of_not_lt hdepth), fun fuel => ?_⟩
      rw [inspectFrom, if_neg hseen, hshape]
      exact if_neg hdepth
  | plain label fields length =>
    by_cases hdepth : inspectDepth < depth
    · exact hconst fun fuel => by rw [inspectFrom, if_neg hseen, hshape]; exact if_pos hdepth
    · refine ⟨(plainText · label fields length), .plainText, .inl (Nat.le_of_not_lt hdepth), fun fuel => ?_⟩
      rw [inspectFrom, if_neg hseen, hshape]
      exact if_neg hdepth

theorem inspectFrom_primitive (h : v.object? = none) (fuel : Nat) :
    s.inspectFrom (fuel + 1) seen depth v = some (primitiveText v) := by
  cases v with
  | object => cases h
  | _ => rfl

/-- After so many steps from one object to what it shows in its place, a value is reached that is shown as
it is. -/
inductive ShownAfter (s : State) (seen : List ObjectId) : (steps : Nat) → Value → Prop where
  | primitive {v : Value} (h : v.object? = none) : ShownAfter s seen 0 v
  | own {id : ObjectId} (h : id ∈ seen ∨ s.shownFor? id = none) : ShownAfter s seen 0 (.object id)
  | next {steps : Nat} {id : ObjectId} {v : Value} (hnew : id ∉ seen) (h : s.shownFor? id = some v)
    (hv : ShownAfter s seen steps v) : ShownAfter s seen (steps + 1) (.object id)

theorem ShownAfter.unique {steps' : Nat} (h : s.ShownAfter seen steps v) (h' : s.ShownAfter seen steps' v) :
    steps = steps' := by
  induction h generalizing steps' with
  | primitive h =>
    cases h' with
    | primitive => rfl
    | own | next => cases h
  | own h =>
    cases h' with
    | primitive h' => cases h'
    | own => rfl
    | next hnew hshown => simp_all
  | next hnew hshown _ ih =>
    cases h' with
    | primitive h' => cases h'
    | own h' => simp_all
    | next _ hshown' h' =>
      obtain rfl := Option.some.inj (hshown.symm.trans hshown')
      rw [ih h']

theorem length_le_of_nodup {met : List ObjectId} (hnodup : met.Nodup)
    (hmet : ∀ id ∈ met, id.index < s.heap.size) : met.length ≤ s.heap.size := by
  have hinjective : Function.Injective ObjectId.index := fun a b h => congrArg ObjectId.mk h
  have hindices : (met.map ObjectId.index).Nodup := hnodup.map hinjective
  have hsubset : met.map ObjectId.index ⊆ List.range s.heap.size := fun i hi => by
    obtain ⟨id, hid, rfl⟩ := List.mem_map.mp hi
    exact List.mem_range.mpr (hmet id hid)
  simpa using (hindices.subperm hsubset).length_le

theorem ShownAfter.add_length_le (met : List ObjectId) (h : s.ShownAfter seen steps v) (hnodup : met.Nodup)
    (hmet : ∀ id ∈ met, id.index < s.heap.size)
    (hahead : ∀ id ∈ met, ∃ more > steps, s.ShownAfter seen more (.object id)) :
    steps + met.length ≤ s.heap.size := by
  induction h generalizing met with
  | primitive | own =>
    rw [Nat.zero_add]
    exact length_le_of_nodup hnodup hmet
  | @next steps id v hnew hshown hv ih =>
    have hid : s.ShownAfter seen (steps + 1) (.object id) := .next hnew hshown hv
    have hfresh : id ∉ met := fun hmem => by
      obtain ⟨more, hmore, hway⟩ := hahead id hmem
      rw [hid.unique hway] at hmore
      exact Nat.lt_irrefl _ hmore
    have hle := ih (id :: met) (List.nodup_cons.mpr ⟨hfresh, hnodup⟩)
      (List.forall_mem_cons.mpr ⟨lt_of_shownFor? hshown, hmet⟩)
      (List.forall_mem_cons.mpr ⟨⟨steps + 1, Nat.lt_succ_self _, hid⟩, fun other hother =>
        (hahead other hother).imp fun more hmore => ⟨Nat.lt_of_succ_lt hmore.1, hmore.2⟩⟩)
    rw [List.length_cons] at hle
    omega

theorem ShownAfter.le (h : s.ShownAfter seen steps v) : steps ≤ s.heap.size :=
  h.add_length_le [] .nil nofun nofun

def fuelFor (s : State) (depth steps : Nat) : Nat :=
  steps + (inspectDepth + 1 - depth) * (s.heap.size + 2)

theorem fuelFor_next {depth' : Nat} (h : depth ≤ depth') : s.fuelFor depth' steps < s.fuelFor depth (steps + 1) := by
  have hlevels : (inspectDepth + 1 - depth') * (s.heap.size + 2) ≤
      (inspectDepth + 1 - depth) * (s.heap.size + 2) := Nat.mul_le_mul_right _ (by omega)
  unfold fuelFor
  omega

theorem fuelFor_inside (h : depth ≤ inspectDepth) (hsteps : steps ≤ s.heap.size) :
    s.fuelFor (depth + 1) steps < s.fuelFor depth 0 := by
  have hlevels : inspectDepth + 1 - depth = (inspectDepth + 1 - (depth + 1)) + 1 := by omega
  unfold fuelFor
  rw [hlevels, Nat.add_mul]
  omega

theorem fuelFor_lt_inspectFuel (hsteps : steps ≤ s.heap.size) : s.fuelFor 0 steps < s.inspectFuel := by
  have hlevels : (inspectDepth + 2) * (s.heap.size + 2) =
      (inspectDepth + 1 - 0) * (s.heap.size + 2) + (s.heap.size + 2) := by
    rw [Nat.sub_zero, ← Nat.succ_mul]
  unfold fuelFor inspectFuel
  omega

theorem exists_shownAfter_of_text {fuel : Nat} {t : String} (h : s.inspectFrom fuel seen depth v = some t) :
    ∃ steps, s.ShownAfter seen steps v := by
  induction fuel generalizing depth v t with
  | zero => cases h
  | succ fuel ih =>
    cases v with
    | object id =>
      by_cases hown : id ∈ seen ∨ s.shownFor? id = none
      · exact ⟨0, .own hown⟩
      · obtain ⟨hnew, hshown⟩ := not_or.mp hown
        obtain ⟨v, hv⟩ := Option.ne_none_iff_exists'.mp hshown
        obtain ⟨wrap, depth', -, heq⟩ := inspectFrom_next hv hnew depth
        rw [heq] at h
        obtain ⟨text, htext, -⟩ := Option.map_eq_some_iff.mp h
        obtain ⟨steps, hsteps⟩ := ih htext
        exact ⟨steps + 1, .next hnew hv hsteps⟩
    | _ => exact ⟨0, .primitive rfl⟩

theorem inspectFrom_of_text {fuel more : Nat} {t : String} (h : s.inspectFrom fuel seen depth v = some t)
    (hv : s.ShownAfter seen steps v) (hmore : s.fuelFor depth steps < more) :
    s.inspectFrom more seen depth v = some t := by
  induction fuel generalizing more seen depth steps v t with
  | zero => cases h
  | succ fuel ih =>
    obtain ⟨more, rfl⟩ := Nat.exists_eq_add_of_le' (Nat.lt_of_le_of_lt (Nat.zero_le _) hmore)
    cases hv with
    | primitive hv =>
      rw [inspectFrom_primitive hv] at h ⊢
      exact h
    | @own id hown =>
      obtain ⟨text, hcomposed, hinside, heq⟩ := inspectFrom_own hown depth
      rw [heq] at h ⊢
      rcases hinside with hdepth | ⟨t', rfl⟩
      · refine hcomposed.mono _ _ t (fun v t hv => ?_) h
        obtain ⟨steps, hsteps⟩ := exists_shownAfter_of_text hv
        exact ih hv hsteps (Nat.lt_of_lt_of_le (fuelFor_inside hdepth hsteps.le) (Nat.le_of_lt_succ hmore))
      · exact h
    | @next steps id v hnew hshown hv =>
      obtain ⟨wrap, depth', hdepth, heq⟩ := inspectFrom_next hshown hnew depth
      rw [heq] at h ⊢
      obtain ⟨text, htext, rfl⟩ := Option.map_eq_some_iff.mp h
      rw [ih htext hv (Nat.lt_of_lt_of_le (fuelFor_next hdepth) (Nat.le_of_lt_succ hmore))]
      rfl

theorem inspect?_eq_some_iff {t : String} :
    s.inspect? v = some t ↔ ∃ fuel, s.inspectFrom fuel [] 0 v = some t := by
  refine ⟨fun h => ⟨_, h⟩, fun ⟨fuel, h⟩ => ?_⟩
  obtain ⟨steps, hv⟩ := exists_shownAfter_of_text h
  exact inspectFrom_of_text h hv (fuelFor_lt_inspectFuel hv.le)

/-- Where there is no circle, the way goes on to an object that has not been met. -/
theorem exists_shownAfter_of_met (hacyclic : ∀ id, ¬ TransGen s.StandsFor id id) (seen : List ObjectId)
    {v : Value} {met : List ObjectId} (hnodup : met.Nodup)
    (hmet : ∀ id ∈ met, id.index < s.heap.size)
    (hway : ∀ id ∈ met, ∀ other, v = .object other → TransGen s.StandsFor id other) :
    ∃ steps, s.ShownAfter seen steps v := by
  cases v with
  | object id =>
    by_cases hown : id ∈ seen ∨ s.shownFor? id = none
    · exact ⟨0, .own hown⟩
    · obtain ⟨hunseen, hshown⟩ := not_or.mp hown
      obtain ⟨v, hshown⟩ := Option.ne_none_iff_exists'.mp hshown
      have hnew : id ∉ met := fun hid => hacyclic id (hway id hid id rfl)
      have hnodup' : (id :: met).Nodup := List.nodup_cons.mpr ⟨hnew, hnodup⟩
      have hmet' : ∀ other ∈ id :: met, other.index < s.heap.size :=
        List.forall_mem_cons.mpr ⟨lt_of_shownFor? hshown, hmet⟩
      have hlength := length_le_of_nodup hnodup' hmet'
      have hway' : ∀ first ∈ id :: met, ∀ other, v = .object other → TransGen s.StandsFor first other := by
        refine List.forall_mem_cons.mpr ⟨?_, fun first hfirst => ?_⟩
        · rintro other rfl
          exact .single hshown
        · rintro other rfl
          exact (hway first hfirst id rfl).tail hshown
      obtain ⟨steps, hv⟩ := exists_shownAfter_of_met hacyclic seen hnodup' hmet' hway'
      exact ⟨steps + 1, .next hunseen hshown hv⟩
  | _ => exact ⟨0, .primitive rfl⟩
  termination_by s.heap.size - met.length
  decreasing_by
    rw [List.length_cons] at hlength
    simp only [List.length_cons]
    omega

theorem exists_shownAfter (hacyclic : ∀ id, ¬ TransGen s.StandsFor id id) (seen : List ObjectId) (v : Value) :
    ∃ steps, s.ShownAfter seen steps v :=
  exists_shownAfter_of_met hacyclic seen .nil nofun nofun

theorem isSome_inspectFrom (hacyclic : ∀ id, ¬ TransGen s.StandsFor id id) {fuel : Nat}
    (hv : s.ShownAfter seen steps v) (hfuel : s.fuelFor depth steps < fuel) :
    (s.inspectFrom fuel seen depth v).isSome = true := by
  induction fuel generalizing steps depth seen v with
  | zero => cases hfuel
  | succ fuel ih =>
    cases hv with
    | primitive hv =>
      rw [inspectFrom_primitive hv]
      rfl
    | @own id hown =>
      obtain ⟨text, hcomposed, hinside, heq⟩ := inspectFrom_own hown depth
      rw [heq]
      rcases hinside with hdepth | ⟨t, rfl⟩
      · refine hcomposed.total _ fun v => ?_
        obtain ⟨steps, hsteps⟩ := exists_shownAfter hacyclic (id :: seen) v
        exact ih hsteps (Nat.lt_of_lt_of_le (fuelFor_inside hdepth hsteps.le) (Nat.le_of_lt_succ hfuel))
      · rfl
    | @next steps id v hnew hshown hv =>
      obtain ⟨wrap, depth', hdepth, heq⟩ := inspectFrom_next hshown hnew depth
      rw [heq, Option.isSome_map]
      exact ih hv (Nat.lt_of_lt_of_le (fuelFor_next hdepth) (Nat.le_of_lt_succ hfuel))

theorem inspectFrom_eq_none {fuel : Nat} (h : TransGen s.StandsFor id id) :
    s.inspectFrom fuel [] depth (.object id) = none := by
  induction fuel generalizing id depth with
  | zero => rfl
  | succ fuel ih =>
    obtain ⟨other, hother, hback⟩ := TransGen.head'_iff.mp h
    obtain ⟨wrap, depth', -, heq⟩ := inspectFrom_next hother List.not_mem_nil depth
    rw [heq, ih (TransGen.tail' hback hother)]
    rfl

theorem isSome_inspect?_iff :
    (∀ v, (s.inspect? v).isSome = true) ↔ ∀ id, ¬ TransGen s.StandsFor id id := by
  refine ⟨fun hall id hcircle => ?_, fun hacyclic v => ?_⟩
  · have hsome := hall (.object id)
    rw [inspect?, inspectFrom_eq_none hcircle] at hsome
    cases hsome
  · obtain ⟨steps, hv⟩ := exists_shownAfter hacyclic [] v
    exact isSome_inspectFrom hacyclic hv (fuelFor_lt_inspectFuel hv.le)

end State
end EcmaScript
