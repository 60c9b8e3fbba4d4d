import EcmaScript.Library.String
import EcmaScript.Proofs.Elements
import EcmaScript.Proofs.Text.Units

/-! Text that is cut where another one occurs. The search goes over code units and cuts between characters. -/
namespace EcmaScript.Text

/-- Text is cut at the occurrences of a pattern, each time at the first one that is left. -/
inductive Parts (p : List Char) : List Char → List (List Char) → Prop where
  | last {cs : List Char} (h : ¬ p <:+: cs) : Parts p cs [cs]
  | cut {before behind : List Char} {parts : List (List Char)}
    (hfirst : ∀ a b, before ++ p ++ behind = a ++ p ++ b → before.length ≤ a.length)
    (h : Parts p behind parts) : Parts p (before ++ p ++ behind) (before :: parts)

namespace Parts
variable {p cs : List Char} {parts : List (List Char)}

theorem ne_nil (h : Parts p cs parts) : parts ≠ [] := by cases h <;> exact List.cons_ne_nil _ _

theorem intercalate_eq (h : Parts p cs parts) : p.intercalate parts = cs := by
  induction h with
  | last => rw [List.intercalate_singleton]
  | cut _ h ih => rw [List.intercalate_cons_of_ne_nil h.ne_nil, ih]

theorem exists_parts (hp : p ≠ []) (cs : List Char) : ∃ parts, Parts p cs parts := by
  induction hn : cs.length using Nat.strongRecOn generalizing cs with
  | ind n ih =>
    subst hn
    by_cases h : p <:+: cs
    · -- The first of all occurrences.
      have hsome : ∃ k a b, a ++ p ++ b = cs ∧ a.length = k := by
        obtain ⟨a, b, hab⟩ := h
        exact ⟨a.length, a, b, hab, rfl⟩
      classical
      obtain ⟨a, b, rfl, hk⟩ := Nat.find_spec hsome
      have hpos : 0 < p.length := List.length_pos_iff.mpr hp
      obtain ⟨parts, hparts⟩ := ih b.length (by simp; omega) b rfl
      refine ⟨a :: parts, .cut (fun a' b' heq => ?_) hparts⟩
      rw [hk]
      exact Nat.find_le ⟨a', b', heq.symm, rfl⟩
    · exact ⟨[cs], .last h⟩

theorem length_le (hp : p ≠ []) (h : Parts p cs parts) : parts.length ≤ (unitsOf cs).length + 1 := by
  induction h with
  | last => simp
  | cut _ h ih =>
    have := length_unitsOf_pos hp
    simp only [List.length_cons, unitsOf_append, List.length_append]
    omega

end Parts

section Search
variable {us pattern : Units} {i n : Nat}

theorem occursAt_iff : occursAt us pattern i = true ↔
    ∃ xs ys, us.toList = xs ++ pattern.toList ++ ys ∧ xs.length = i := by
  rw [occursAt, Bool.and_eq_true, decide_eq_true_iff, List.all_eq_true]
  constructor
  · rintro ⟨hsize, hunits⟩
    refine ⟨us.toList.take i, us.toList.drop (i + pattern.size), ?_, by simp; omega⟩
    have hmiddle : (us.toList.drop i).take pattern.size = pattern.toList := by
      refine List.ext_getElem? fun k => ?_
      rw [List.getElem?_take]
      split
      · next hk =>
        have := eq_of_beq (hunits k (List.mem_range.mpr hk))
        rwa [List.getElem?_drop, Array.getElem?_toList, Array.getElem?_toList]
      · next hk => simp [Nat.le_of_not_lt hk]
    conv_rhs => rw [List.append_assoc, ← hmiddle, ← List.drop_drop, List.take_append_drop,
      List.take_append_drop]
  · rintro ⟨xs, ys, hus, rfl⟩
    have hsize : us.size = xs.length + pattern.size + ys.length := by
      rw [← Array.length_toList, hus]
      simp [Nat.add_assoc]
    refine ⟨by omega, fun k hk => ?_⟩
    have hk := List.mem_range.mp hk
    rw [← Array.getElem?_toList, hus, List.append_assoc, List.getElem?_append_right (by omega),
      Nat.add_sub_cancel_left, List.getElem?_append_left (by simpa using hk), Array.getElem?_toList]
    exact beq_self_eq_true _

theorem firstIndex_eq_none {q : Nat → Bool} (h : ∀ k, i ≤ k → k < i + n → q k = false) : firstIndex q n i = none := by
  induction n generalizing i with
  | zero => rfl
  | succ n ih =>
    rw [firstIndex, h i (Nat.le_refl i) (by omega), if_neg Bool.false_ne_true]
    exact ih fun k hk hlt => h k (by omega) (by omega)

theorem firstIndex_eq_some {q : Nat → Bool} {j : Nat} (hi : i ≤ j) (hj : j < i + n) (hq : q j = true)
    (h : ∀ k, i ≤ k → k < j → q k = false) : firstIndex q n i = some j := by
  induction n generalizing i with
  | zero => omega
  | succ n ih =>
    rw [firstIndex]
    obtain rfl | hlt := Nat.eq_or_lt_of_le hi
    · rw [hq, if_pos rfl]
    · rw [h i (Nat.le_refl i) hlt, if_neg Bool.false_ne_true]
      exact ih hlt (by omega) fun k hk => h k (by omega)

end Search

def unitArray (cs : List Char) : Units := (unitsOf cs).toArray

section Cut
variable {p a before behind cs : List Char} {parts : List (List Char)}

theorem size_unitArray : (unitArray cs).size = (unitsOf cs).length := List.size_toArray

theorem unitArray_append : unitArray (a ++ cs) = unitArray a ++ unitArray cs := by
  simp [unitArray]

theorem ofUnits_unitArray : ofUnits (unitArray cs) = String.ofList cs := by
  rw [ofUnits, unitArray, charsOfUnits_unitsOf]

theorem occursAt_unitArray (hp : p ≠ []) {i : Nat} : occursAt (unitArray cs) (unitArray p) i = true ↔
    ∃ a b, cs = a ++ p ++ b ∧ (unitsOf a).length = i := by
  rw [occursAt_iff]
  constructor
  · rintro ⟨xs, ys, hus, rfl⟩
    obtain ⟨a, b, rfl, rfl, rfl⟩ := unitsOf_infix hp hus.symm
    exact ⟨a, b, rfl, rfl⟩
  · rintro ⟨a, b, rfl, rfl⟩
    exact ⟨unitsOf a, unitsOf b, by simp [unitArray], rfl⟩

theorem prefix_of_length_le {a b : List Char} {xs ys : List Char} (h : a ++ xs = b ++ ys)
    (hle : (unitsOf a).length ≤ (unitsOf b).length) : ∃ d, b = a ++ d := by
  obtain ⟨d, rfl, -⟩ | ⟨d, rfl, -⟩ := List.append_eq_append_iff.mp h
  · exact ⟨d, rfl⟩
  · obtain rfl | hd := eq_or_ne d []
    · exact ⟨[], by simp⟩
    · have := length_unitsOf_pos hd
      rw [unitsOf_append, List.length_append] at hle
      omega

theorem find?_last (hp : p ≠ []) (h : ¬ p <:+: cs) :
    find? (unitArray (a ++ cs)) (unitArray p) (unitsOf a).length = none := by
  have hpos := length_unitsOf_pos hp
  have hnone (k : Nat) (hk : (unitsOf a).length ≤ k) :
      occursAt (unitArray (a ++ cs)) (unitArray p) k = false := by
    rw [Bool.eq_false_iff]
    intro hoccurs
    obtain ⟨b, e, heq, rfl⟩ := (occursAt_unitArray hp).mp hoccurs
    rw [List.append_assoc] at heq
    obtain ⟨d, rfl⟩ := prefix_of_length_le heq hk
    rw [List.append_assoc, List.append_cancel_left_eq] at heq
    exact h ⟨d, e, by rw [heq, List.append_assoc]⟩
  simp only [find?, size_unitArray, unitsOf_append, List.length_append, Array.isEmpty_iff_size_eq_zero]
  rw [if_neg (by omega), if_neg (by omega)]
  split
  · rfl
  · exact firstIndex_eq_none fun k hk _ => hnone k hk

theorem find?_cut (hp : p ≠ [])
    (hfirst : ∀ a b, before ++ p ++ behind = a ++ p ++ b → before.length ≤ a.length) :
    find? (unitArray (a ++ (before ++ p ++ behind))) (unitArray p) (unitsOf a).length =
      some (unitsOf (a ++ before)).length := by
  have hpos := length_unitsOf_pos hp
  simp only [find?, size_unitArray, unitsOf_append, List.length_append, Array.isEmpty_iff_size_eq_zero]
  rw [if_neg (by omega), if_neg (by omega), if_neg (by omega)]
  refine firstIndex_eq_some (by omega) (by omega) ?_ fun k hk hlt => ?_
  · exact (occursAt_unitArray hp).mpr ⟨a ++ before, behind, by simp, by simp⟩
  · rw [Bool.eq_false_iff]
    intro hoccurs
    obtain ⟨b, e, heq, rfl⟩ := (occursAt_unitArray hp).mp hoccurs
    rw [List.append_assoc b] at heq
    obtain ⟨d, rfl⟩ := prefix_of_length_le heq hk
    rw [List.append_assoc a, List.append_cancel_left_eq, ← List.append_assoc d] at heq
    -- The occurrence would be before the first one.
    obtain ⟨e', rfl⟩ : ∃ e', before = d ++ e' := by
      have hle := hfirst d e heq
      rw [List.append_assoc, List.append_assoc] at heq
      refine prefix_of_length_le heq.symm ?_
      rw [unitsOf_append, List.length_append] at hlt
      omega
    have hle := hfirst d e heq
    rw [List.length_append] at hle
    obtain rfl : e' = [] := List.length_eq_zero_iff.mp (by omega)
    rw [List.append_nil, unitsOf_append, List.length_append] at hlt
    exact Nat.lt_irrefl _ hlt

theorem sliceUnits_before : sliceUnits (unitArray (a ++ (before ++ p ++ behind))) (unitsOf a).length
    (unitsOf (a ++ before)).length = unitArray before := by
  simp [sliceUnits, unitArray, List.extract_eq_take_drop]

theorem sliceUnits_last : sliceUnits (unitArray (a ++ cs)) (unitsOf a).length (unitArray (a ++ cs)).size =
    unitArray cs := by
  simp [sliceUnits, unitArray, List.extract_eq_take_drop]

theorem length_behind : (unitsOf (a ++ before)).length + (unitArray p).size =
    (unitsOf (a ++ before ++ p)).length := by
  rw [size_unitArray, ← List.length_append, ← unitsOf_append]

theorem pieces_eq (hp : p ≠ []) (h : Parts p cs parts) (a : List Char) (limit : Nat) :
    pieces (unitArray (a ++ cs)) (unitArray p) limit (unitsOf a).length =
      (parts.take limit).map unitArray := by
  induction h generalizing a limit with
  | @last cs h =>
    cases limit with
    | zero => rfl
    | succ limit =>
      rw [pieces, find?_last hp h]
      dsimp only
      rw [sliceUnits_last, List.take_succ_cons, List.take_nil]
      rfl
  | @cut before behind parts hfirst h ih =>
    cases limit with
    | zero => rfl
    | succ limit =>
      rw [pieces, find?_cut hp hfirst]
      dsimp only
      rw [sliceUnits_before, length_behind, show a ++ (before ++ p ++ behind) = a ++ before ++ p ++ behind by simp,
        ih]
      rfl

def replaceAt (us pattern r : Units) (done : Units × Nat) (place : Nat) : Units × Nat :=
  (done.1 ++ sliceUnits us done.2 place ++ r, place + pattern.size)

def withRest (us : Units) (done : Units × Nat) : Units := done.1 ++ sliceUnits us done.2 us.size

/-- Replaced occurrences stand between the parts. -/
theorem replaced_eq (hp : p ≠ []) (h : Parts p cs parts) (r a out : List Char) {fuel : Nat}
    (hfuel : (unitsOf cs).length < fuel) :
    withRest (unitArray (a ++ cs)) ((occurrences (unitArray (a ++ cs)) (unitArray p) fuel (unitsOf a).length).foldl
      (replaceAt (unitArray (a ++ cs)) (unitArray p) (unitArray r)) (unitArray out, (unitsOf a).length)) =
      unitArray (out ++ r.intercalate parts) := by
  induction h generalizing a out fuel with
  | @last cs h =>
    obtain - | fuel := fuel
    · cases hfuel
    rw [occurrences, find?_last hp h, List.intercalate_singleton, unitArray_append (a := out)]
    exact congrArg _ sliceUnits_last
  | @cut before behind parts hfirst h ih =>
    obtain - | fuel := fuel
    · cases hfuel
    have hpos := length_unitsOf_pos hp
    have hmax : max (unitArray p).size 1 = (unitArray p).size := by
      rw [size_unitArray]
      omega
    have hinside : ¬ (unitArray (a ++ (before ++ p ++ behind))).size < (unitsOf (a ++ before ++ p)).length := by
      simp only [size_unitArray, unitsOf_append, List.length_append]
      omega
    have hrest := @ih (a ++ before ++ p) (out ++ before ++ r) fuel (by
      simp only [unitsOf_append, List.length_append] at hfuel
      omega)
    rw [show a ++ before ++ p ++ behind = a ++ (before ++ p ++ behind) by simp] at hrest
    rw [occurrences, find?_cut hp hfirst]
    dsimp only
    rw [hmax, length_behind, if_neg hinside, List.foldl_cons, replaceAt, sliceUnits_before, length_behind,
      ← unitArray_append, ← unitArray_append, hrest, List.intercalate_cons_of_ne_nil h.ne_nil]
    simp

end Cut
end EcmaScript.Text

/-! Splitting, joining and replacing are about the same parts of a text. -/
namespace EcmaScript
open Text

namespace Exec
variable {m : Machine} {c : Context} {s : State}

section Join
variable {id : ObjectId} {separator : String} {texts : List String}

theorem intercalate_take_succ {i : Nat} (hi : i < texts.length) : separator.intercalate (texts.take (i + 1)) =
    (if i = 0 then separator.intercalate (texts.take i) else separator.intercalate (texts.take i) ++ separator) ++
      texts[i] := by
  rw [List.take_succ_eq_append_getElem hi]
  split
  · next hzero =>
    subst hzero
    simp
  · next hpos =>
    have hne : texts.take i ≠ [] := List.ne_nil_of_length_pos (by rw [List.length_take]; omega)
    rw [String.intercalate_append_of_ne_nil hne (List.cons_ne_nil _ _), String.intercalate_singleton]

theorem joinElements_value (hm : texts.length < m.fuel)
    (htexts : ∀ i (hi : i < texts.length), getIndex id i m c s = .value (.string texts[i]) s) :
    joinElements id texts.length separator m c s = .value (separator.intercalate texts) s := by
  have hloop : ∃ a s', joinElements id texts.length separator m c s = .value a s' ∧
      a = separator.intercalate texts ∧ s' = s := by
    refine loop_value (I := fun i b s' => b = (i, separator.intercalate (texts.take i)) ∧ s' = s) hm ?_ ?_ ?_
    · exact ⟨by simp, rfl⟩
    · rintro i _ _ hi ⟨rfl, rfl⟩
      refine ⟨_, _, ?_, rfl, rfl⟩
      dsimp only
      rw [if_neg (Nat.not_le.mpr hi), bind_value (htexts i hi), intercalate_take_succ hi]
      rfl
    · rintro _ _ ⟨rfl, rfl⟩
      refine ⟨separator.intercalate texts, _, ?_, rfl, rfl⟩
      dsimp only
      rw [if_pos (Nat.le_refl _), List.take_length]
      rfl
  obtain ⟨a, s', h, rfl, rfl⟩ := hloop
  exact h

end Join

section Split
variable {subject pattern : String} {parts : List String}

def textsObject (prototype : ObjectId) (texts : List String) : Object :=
  arrayObject prototype (.ofItems (texts.map Value.string).toArray) (texts.map Value.string).toArray.size

theorem units_eq (text : String) : units text = unitArray text.toList := rfl

theorem splitText_value (hpattern : pattern ≠ "") (h : Parts pattern.toList subject.toList (parts.map String.toList))
    (hshort : parts.length < 2 ^ 32) : stringFunction .split (.string subject) #[.string pattern] m c s =
      .value (.object ⟨s.heap.size⟩)
        { s with heap := s.heap.push (textsObject s.intrinsics.arrayPrototype parts) } := by
  have hp : pattern.toList ≠ [] := fun hnil => hpattern (String.toList_inj.mp hnil)
  have hsome : (unitArray pattern.toList).isEmpty = false := by
    have := length_unitsOf_pos hp
    rw [Array.isEmpty_eq_false_iff, ← Array.size_pos_iff, size_unitArray]
    exact this
  have hall : parts.length ≤ min 4294967295 ((unitArray subject.toList).size + 1) := by
    have := h.length_le hp
    rw [List.length_map] at this
    rw [size_unitArray]
    omega
  have hpieces : (split (units subject) (units pattern) 4294967295).map unitsValue = parts.map .string := by
    have heq := pieces_eq hp h [] (min 4294967295 ((unitArray subject.toList).size + 1))
    rw [List.take_of_length_le (by simpa using hall)] at heq
    rw [units_eq, units_eq, split, hsome, if_neg Bool.false_ne_true]
    refine (congrArg (List.map unitsValue) heq).trans ?_
    rw [List.map_map, List.map_map]
    refine List.map_congr_left fun part _ => ?_
    simp [unitsValue, ofUnits_unitArray]
  change (newArray ((split (units subject) (units pattern) 4294967295).map unitsValue).toArray >>= fun id =>
    pure (Value.object id)) m c s = _
  rw [hpieces]
  rfl

theorem join_textsObject {id : ObjectId} {prototype : ObjectId} {separator : String}
    (hobject : s.object id = textsObject prototype parts) (hshort : parts.length < 2 ^ 32)
    (hm : parts.length < m.fuel) : arrayFunction .join (.object id) #[.string separator] m c s =
      .value (.string (separator.intercalate parts)) s := by
  have harray : (s.object id).IsArray parts.length true := by
    have hsize : (parts.map Value.string).toArray.size = parts.length := by simp
    rw [hobject, textsObject, ← hsize]
    exact Object.isArray_arrayObject (hsize ▸ hshort)
  have hreceiver : receiver (.object id) m c s = .value (id, parts.length) s := by
    rw [receiver, bind_value (show toObject (.object id) m c s = .value id s from rfl),
      bind_value (lengthOf_isArray harray)]
    rfl
  have helement (i : Nat) (hi : i < parts.length) : getIndex id i m c s = .value (.string parts[i]) s := by
    refine getIndex_isArray harray hi fun k hk => ?_
    subst hk
    rw [hobject, textsObject, Object.ownValue?, Object.own?_arrayObject]
    simp [hi, Property.plain, Property.value?, Property.data]
  rw [arrayFunction, bind_value hreceiver]
  change (joinElements id parts.length separator >>= fun text => pure (Value.string text)) m c s = _
  rw [bind_value (joinElements_value hm helement)]
  rfl

end Split

section Replace
variable {subject pattern replacement : String} {parts : List String}

theorem expand_plain {found before behind : Units} {us : List UInt16} (h : 0x24 ∉ us) :
    expand found before behind us = us := by
  fun_induction expand found before behind us with
  | case1 => rfl
  | case2 => rfl
  | _ => simp_all

theorem not_mem_unitsOf_dollar {cs : List Char} (h : '$' ∉ cs) : (0x24 : UInt16) ∉ unitsOf cs := by
  intro hmem
  obtain ⟨c, hc, hu⟩ := List.mem_flatMap.mp hmem
  obtain ⟨u, huc, -, -, hcode⟩ | ⟨u, v, huv, hhigh, hlow, -⟩ := unitsOfChar_cases c
  · rw [huc, List.mem_singleton] at hu
    subst hu
    exact h (by rwa [show '$' = charOfCode (0x24 : UInt16).toNat by decide, hcode])
  · rw [huv, List.mem_pair] at hu
    obtain rfl | rfl := hu
    · cases hhigh
    · cases hlow

theorem replacementFor_value {us pattern : Units} {replacer : Value} {place : Nat} (h : '$' ∉ replacement.toList) :
    replacementFor us pattern replacer (some (units replacement)) place m c s = .value (units replacement) s :=
  congrArg (Step.value · s) (congrArg List.toArray (expand_plain (not_mem_unitsOf_dollar h)))

theorem replaceAll_value (hpattern : pattern ≠ "") (hplain : '$' ∉ replacement.toList)
    (h : Parts pattern.toList subject.toList (parts.map String.toList)) :
    stringFunction .replaceAll (.string subject) #[.string pattern, .string replacement] m c s =
      .value (.string (replacement.intercalate parts)) s := by
  have hp : pattern.toList ≠ [] := fun hnil => hpattern (String.toList_inj.mp hnil)
  have hdone : withRest (units subject) ((allOccurrences (units subject) (units pattern)).foldl
      (replaceAt (units subject) (units pattern) (units replacement)) (#[], 0)) =
        unitArray (replacement.toList.intercalate (parts.map String.toList)) :=
    replaced_eq hp h replacement.toList [] [] (by rw [units_eq, size_unitArray]; exact Nat.lt_succ_self _)
  have hloop : ((allOccurrences (units subject) (units pattern)).foldlM (fun (done : Units × Nat) place => do
      let piece ← replacementFor (units subject) (units pattern) (.string replacement) (some (units replacement)) place
      return (done.1 ++ sliceUnits (units subject) done.2 place ++ piece, place + (units pattern).size)) (#[], 0) :
        Exec (Units × Nat)) m c s = .value ((allOccurrences (units subject) (units pattern)).foldl
          (replaceAt (units subject) (units pattern) (units replacement)) (#[], 0)) s := by
    refine foldlM_value fun done place => ?_
    rw [bind_value (replacementFor_value hplain)]
    rfl
  rw [stringFunction, replaceText, bind_value (show receiverUnits .replaceAll (.string subject) m c s = _ from rfl),
    bind_value (show unitsArgument #[.string pattern, .string replacement] 0 m c s = _ from rfl)]
  refine (bind_value hloop).trans ?_
  change Step.value (unitsValue (withRest _ _)) s = _
  rw [hdone, unitsValue, ofUnits_unitArray, ← String.toList_intercalate, String.ofList_toList]

end Replace

def splitJoin (subject pattern between : String) : Exec Value := do
  arrayFunction .join (← stringFunction .split (.string subject) #[.string pattern]) #[.string between]

/-- A text that is split can be joined again, with the pattern or with another text between its parts: that is what
replacing all occurrences of the pattern comes to. -/
theorem splitJoin_replaceAll (m : Machine) (c : Context) (s : State) (subject pattern : String)
    (hpattern : pattern ≠ "") : ∃ parts : List String,
      Parts pattern.toList subject.toList (parts.map String.toList) ∧
      (parts.length < 2 ^ 32 → parts.length < m.fuel →
        ∃ s', splitJoin subject pattern pattern m c s = .value (.string subject) s') ∧
      ∀ replacement : String, '$' ∉ replacement.toList →
        stringFunction .replaceAll (.string subject) #[.string pattern, .string replacement] m c s =
          .value (.string (replacement.intercalate parts)) s ∧
        (parts.length < 2 ^ 32 → parts.length < m.fuel →
          ∃ s', splitJoin subject pattern replacement m c s =
            .value (.string (replacement.intercalate parts)) s') := by
  have hp : pattern.toList ≠ [] := fun hnil => hpattern (String.toList_inj.mp hnil)
  obtain ⟨parts, hparts⟩ := Parts.exists_parts hp subject.toList
  obtain ⟨parts, rfl⟩ : ∃ texts : List String, texts.map String.toList = parts :=
    ⟨parts.map String.ofList, by simp⟩
  have hjoin (between : String) (hshort : parts.length < 2 ^ 32) (hm : parts.length < m.fuel) :
      ∃ s', splitJoin subject pattern between m c s = .value (.string (between.intercalate parts)) s' := by
    refine ⟨{ s with heap := s.heap.push (textsObject s.intrinsics.arrayPrototype parts) }, ?_⟩
    rw [splitJoin, bind_value (splitText_value hpattern hparts hshort)]
    exact join_textsObject (by rw [State.object_push, if_pos rfl]) hshort hm
  have hsubject : pattern.intercalate parts = subject := by
    rw [← String.toList_inj, String.toList_intercalate, hparts.intercalate_eq]
  exact ⟨parts, hparts, fun hshort hm => by simpa only [hsubject] using hjoin pattern hshort hm,
    fun replacement hplain => ⟨replaceAll_value hpattern hplain hparts, hjoin replacement⟩⟩

/-- The pattern is a surrogate pair, and a character that shares a code unit with it stays. -/
theorem splitJoin_replaceAll_pair : "😀" ≠ "" ∧ '$' ∉ "-".toList ∧
    (∃ s', splitJoin "a😀😁😀b" "😀" "😀" (machine 11) default default = .value (.string "a😀😁😀b") s') ∧
    ∃ s', splitJoin "a😀😁😀b" "😀" "-" (machine 11) default default = .value (.string "a-😁-b") s' := by
  obtain ⟨parts, hparts, hjoin, hreplace⟩ :=
    splitJoin_replaceAll (machine 11) default default "a😀😁😀b" "😀" (by decide)
  have hlength : parts.length ≤ 9 := List.length_map String.toList ▸ hparts.length_le (by decide)
  obtain ⟨hall, hwith⟩ := hreplace "-" (by decide)
  have htext : "-".intercalate parts = "a-😁-b" := by
    have hrun : stringFunction .replaceAll (.string "a😀😁😀b") #[.string "😀", .string "-"] (machine 11) default
        default = .value (.string "a-😁-b") default := by rfl
    rw [hrun] at hall
    injection hall with hvalue
    injection hvalue with htext
    exact htext.symm
  have hshort : parts.length < 2 ^ 32 := by omega
  have hfuel : parts.length < (machine 11).fuel := Nat.lt_of_le_of_lt hlength (by decide)
  exact ⟨by decide, by decide, hjoin hshort hfuel, htext ▸ hwith hshort hfuel⟩

end Exec
end EcmaScript
