import EcmaScript.Library.Array
import EcmaScript.Proofs.Safety.Library.Collection

/-! The functions of the library on arrays are safe. -/
namespace EcmaScript
open Exec

variable {P : Pairing} {c : Context} {w : World} {this : Value} {args : Array Value} {id : ObjectId}

theorem arrayWithLength_safe {prototype : ObjectId} {length : Nat} (hp : Met w prototype) :
    Safe P c w (arrayWithLength prototype length) New :=
  allocate_safe (met_arrayObject hp within_emptyTable) trivial

theorem callbackArgument_safe (ha : Met w args) : Safe P c w (callbackArgument args) Known :=
  .look_bind fun _ => .ite (fun _ => .look_bind fun _ => .raise_bind trivial) fun _ =>
    .pure (met_argument ha)

theorem comparisonArgument_safe (ha : Met w args) : Safe P c w (comparisonArgument args) Known :=
  .look_bind fun _ => .ite (fun _ => .raise_bind trivial) fun _ => .pure (met_argument ha)

theorem constructArray_safe {prototype : ObjectId} (hp : Met w prototype) (ha : Met w args) :
    Safe P c w (constructArray args prototype) Known := by
  unfold constructArray
  split
  · refine .ite (fun _ => .raise_bind trivial) fun _ => ?_
    exact .bind (arrayWithLength_safe hp) fun _ _ _ hid => .pure hid.met
  · exact .bind (allocate_safe (met_arrayObject hp (met_ofItems ha)) trivial) fun _ _ _ hid => .pure hid.met

theorem met_placeValue {place : Option Nat} : Met w (placeValue place) := by
  cases place <;> trivial

theorem met_found {found : Option (Nat × Value)} (hf : Met w found) :
    Met w ((found.map (·.2)).getD .undefined) := by
  cases found with
  | none => trivial
  | some e => exact hf.2

theorem met_join {items : Array (Option Value)} {i : Nat} (hi : Met w items) :
    Met w (items[i]?).join := by
  cases h : items[i]? with
  | none => trivial
  | some item => exact within_getElem? hi h

theorem met_present {items : Array Value} (hi : Met w items) : Met w (items.map some) := by
  intro item hitem
  obtain ⟨v, hv, rfl⟩ := Array.mem_map.mp hitem
  exact hi v hv

theorem met_replicate {α : Type} [Mentions α] {n : Nat} {a : α} (ha : Met w a) :
    Met w (Array.replicate n a) := by
  intro b hb
  obtain ⟨-, rfl⟩ := Array.mem_replicate.mp hb
  exact ha

variable [Serves P]

theorem receiver_safe (ht : Met w this) :
    Safe P c w (receiver this) fun r w' => Met w' r.1 :=
  .bind (toObject_safe ht) fun _ _ _ hid => .bind (lengthOf_safe hid) fun _ _ h _ => .pure (h.met hid)

theorem setIndex_safe {i : Nat} {v : Value} (hid : Met w id) (hv : Met w v) :
    Safe P c w (setIndex id i v) Known := putOf_safe hid hv

theorem deleteIndex_safe {i : Nat} : Safe P c w (deleteIndex id i) Known :=
  .bind delete_safe fun _ _ _ _ =>
    .ite (fun _ => .look_bind fun _ => throwType_safe) fun _ => .pure trivial

theorem setLength_safe {length : Nat} (hid : Met w id) : Safe P c w (setLength id length) Known :=
  putOf_safe hid trivial

theorem elementAt_safe {i : Nat} (hid : Met w id) : Safe P c w (elementAt id i) Known := by
  refine .bind hasIndex_safe fun _ w₁ h₁ _ => .ite (fun _ => ?_) fun _ => .pure trivial
  exact .bind (getIndex_safe (h₁.met hid)) fun _ _ _ hv => .pure hv

theorem elements_safe {start stop : Nat} (hid : Met w id) :
    Safe P c w (elements id start stop) Known := collect_safe fun _ _ hl => elementAt_safe (hl.met hid)

theorem writeBack_safe {items : Array (Option Value)} {oldLength : Nat} (hid : Met w id)
    (hi : Met w items) : Safe P c w (writeBack id items oldLength) Known := by
  refine .bind (upTo_safe fun i w₁ h₁ => ?_) fun _ w₁ h₁ _ => ?_
  · have hitem := h₁.met (met_join (i := i) hi)
    split
    · rename_i v hv
      rw [hv] at hitem
      exact setIndex_safe (h₁.met hid) hitem
    · exact deleteIndex_safe
  · exact .bind (upTo_safe fun _ _ _ => deleteIndex_safe) fun _ w₂ h₂ _ =>
      setLength_safe ((h₁.trans h₂).met hid)

theorem relativeArgument_safe {i length default : Nat} (ha : Met w args) :
    Safe P c w (relativeArgument args i length default) Known := by
  unfold relativeArgument
  split
  · exact .pure trivial
  · exact .bind (toNumber_safe (met_argument ha)) fun _ _ _ _ => .pure trivial

theorem visitElements_safe {α : Type} {I : α → World → Prop} {start : α}
    {visit : α → Value → Nat → Value → Exec (α × Bool)} (ht : Met w this) (ha : Met w args)
    (hlater : ∀ a w₁ w₂, Later w₁ w₂ → I a w₁ → I a w₂) (hstart : I start w)
    (hvisit : ∀ a v i r w', Later w w' → I a w' → Met w' v → Met w' r →
      Safe P c w' (visit a v i r) fun r w' => I r.1 w') :
    Safe P c w (visitElements this args start visit) I := by
  refine .bind (receiver_safe ht) fun r w₁ h₁ hid => ?_
  obtain ⟨id, length⟩ := r
  refine .bind (callbackArgument_safe (h₁.met ha)) fun f w₂ h₂ hf => ?_
  have hstart := hlater _ _ _ (h₁.trans h₂) hstart
  refine .loop (I := fun b w' => I b.2 w') hstart fun r w₃ h₃ hstate => ?_
  obtain ⟨i, state⟩ := r
  refine .ite (fun _ => .pure hstate) fun _ => ?_
  refine .bind (elementAt_safe ((h₂.trans h₃).met hid)) fun item w₄ h₄ hitem => ?_
  cases item with
  | none => exact .pure (hlater _ _ _ h₄ hstate)
  | some v =>
    have hl := h₁.trans (h₂.trans (h₃.trans h₄))
    have hobject : Met w₄ (Value.object id) := (h₂.trans (h₃.trans h₄)).met hid
    refine .bind (call_safe ((h₃.trans h₄).met hf) (hl.met (met_argument ha))
      (.three hitem trivial hobject)) fun result w₅ h₅ hr => ?_
    refine .bind (hvisit state v i result w₅ (hl.trans h₅) (hlater _ _ _ (h₄.trans h₅) hstate)
      (h₅.met hitem) hr) fun (state, stop) w₆ h₆ hs => .pure ?_
    split
    · exact hs
    · exact hs

theorem findElement_safe {backward : Bool} (ht : Met w this) (ha : Met w args) :
    Safe P c w (findElement this args backward) Known := by
  refine .bind (receiver_safe ht) fun r w₁ h₁ hid => ?_
  obtain ⟨id, length⟩ := r
  refine .bind (callbackArgument_safe (h₁.met ha)) fun f w₂ h₂ hf => ?_
  refine .loop (I := fun _ _ => True) trivial fun k w₃ h₃ _ => .ite (fun _ => .pure trivial) fun _ => ?_
  refine .bind (getIndex_safe ((h₂.trans h₃).met hid)) fun v w₄ h₄ hv => ?_
  have hobject : Met w₄ (Value.object id) := (h₂.trans (h₃.trans h₄)).met hid
  refine .bind (call_safe ((h₃.trans h₄).met hf)
    ((h₁.trans (h₂.trans (h₃.trans h₄))).met (met_argument ha)) (.three hv trivial hobject))
    fun result w₅ h₅ _ => .pure ?_
  split
  · exact ⟨trivial, h₅.met hv⟩
  · trivial

theorem reduceElements_safe {backward : Bool} (ht : Met w this) (ha : Met w args) :
    Safe P c w (reduceElements this args backward) Known := by
  refine .bind (receiver_safe ht) fun r w₁ h₁ hid => ?_
  obtain ⟨id, length⟩ := r
  refine .bind (callbackArgument_safe (h₁.met ha)) fun f w₂ h₂ hf => ?_
  have hstart : Met w₂ args[1]? :=
    met_option fun _ h => within_getElem? ((h₁.trans h₂).met ha) h
  refine .loop (I := fun b w' => Met w' b.2) hstart fun r w₃ h₃ hjoined => ?_
  obtain ⟨k, joined⟩ := r
  refine .ite (fun _ => ?_) fun _ => ?_
  · cases joined with
    | none => exact throwType_safe
    | some v => exact .pure hjoined
  · refine .bind (elementAt_safe ((h₂.trans h₃).met hid)) fun item w₄ h₄ hitem => ?_
    match item, joined, hitem, hjoined with
    | none, joined, _, hjoined => exact .pure (h₄.met hjoined)
    | some v, none, hitem, _ => exact .pure hitem
    | some v, some before, hitem, hjoined =>
      have hobject : Met w₄ (Value.object id) := (h₂.trans (h₃.trans h₄)).met hid
      have hbefore : Met w₄ before := h₄.met hjoined
      have hplace : Met w₄ (Value.ofNat (placeInTurn backward length k)) := trivial
      have hargs : Met w₄ #[before, v, .ofNat (placeInTurn backward length k), .object id] :=
        (Met.cons hbefore (.cons hitem (.cons hplace (.cons hobject .nil)))).toArray
      exact .bind (call_safe ((h₃.trans h₄).met hf) trivial hargs) fun _ _ _ hv => .pure hv

theorem firstPlace_safe {start length : Nat} {p : Nat → Exec Bool}
    (hp : ∀ i w', Later w w' → Safe P c w' (p i) Known) :
    Safe P c w (firstPlace start length p) Known := by
  refine .loop (I := fun _ _ => True) trivial fun i w₁ h₁ _ => .ite (fun _ => .pure trivial) fun _ => ?_
  refine .bind (hp i w₁ h₁) fun _ _ _ _ => .pure ?_
  split <;> trivial

theorem lastPlace_safe {count : Nat} {p : Nat → Exec Bool}
    (hp : ∀ i w', Later w w' → Safe P c w' (p i) Known) :
    Safe P c w (lastPlace count p) Known := by
  refine .loop (I := fun _ _ => True) trivial fun i w₁ h₁ _ => ?_
  cases i with
  | zero => exact .pure trivial
  | succ i =>
    refine .bind (hp i w₁ h₁) fun _ _ _ _ => .pure ?_
    split <;> trivial

theorem holdsAt_safe {v : Value} {i : Nat} (hid : Met w id) : Safe P c w (holdsAt id v i) Known :=
  .bind (elementAt_safe hid) fun _ _ _ _ => .pure trivial

theorem joinElements_safe {length : Nat} {separator : String} (hid : Met w id) :
    Safe P c w (joinElements id length separator) Known := by
  refine .loop (I := fun _ _ => True) trivial fun r w₁ h₁ _ => .ite (fun _ => .pure trivial) fun _ => ?_
  obtain ⟨i, out⟩ := r
  refine .bind (getIndex_safe (h₁.met hid)) fun v w₂ _ hv => ?_
  refine .ite (fun _ => .pure_bind (.pure trivial)) fun _ => ?_
  exact .bind (toText_safe hv) fun _ _ _ _ => .pure trivial

theorem flattenInto_safe {fuel : Nat} {depth : Float} {out : Array Value} (hid : Met w id)
    (ho : Met w out) : Safe P c w (flattenInto fuel id depth out) Known := by
  induction fuel generalizing w id depth out with
  | zero => exact .exhausted
  | succ fuel ih =>
    refine .bind (lengthOf_safe hid) fun length w₁ h₁ _ => ?_
    refine .loop (I := fun b w' => Met w' b.2) (h₁.met ho) fun r w₂ h₂ hout => ?_
    obtain ⟨i, out⟩ := r
    refine .ite (fun _ => .pure hout) fun _ => ?_
    refine .bind (elementAt_safe ((h₁.trans h₂).met hid)) fun item w₃ h₃ hitem => ?_
    cases item with
    | none => exact .pure (h₃.met hout)
    | some v =>
      refine .look_bind fun _ => ?_
      split
      · exact .bind (ih hitem (h₃.met hout)) fun _ _ _ ho => .pure ho
      · exact .pure (within_push (h₃.met hout) hitem)

section Sorting
omit [Serves P]
variable {greater : Value → Value → Exec Bool}

theorem merge_safe {left right out : List Value}
    (hg : ∀ a b w', Later w w' → Met w' a → Met w' b → Safe P c w' (greater a b) Known)
    (hl : Met w left) (hr : Met w right) (ho : Met w out) :
    Safe P c w (merge greater left right out) Known := by
  have hreverse {w' : World} {out : List Value} (h : Met w' out) : Met w' out.reverse :=
    within_of_subset h fun _ => List.mem_reverse.mp
  induction left, right, out using merge.induct generalizing w with
  | case1 right out =>
    rw [merge]
    exact .pure (within_append.mpr ⟨hreverse ho, hr⟩)
  | case2 a left out =>
    rw [merge]
    exact .pure (within_append.mpr ⟨hreverse ho, hl⟩)
  | case3 a left b right out ih₁ ih₂ =>
    rw [merge]
    obtain ⟨ha, hleft⟩ := within_cons.mp hl
    obtain ⟨hb, hright⟩ := within_cons.mp hr
    refine .bind (hg a b w .refl ha hb) fun after w₁ h₁ _ => .ite (fun _ => ?_) fun _ => ?_
    · exact ih₁ (fun a b w₂ h₂ => hg a b w₂ (h₁.trans h₂)) (h₁.met hl) (h₁.met hright)
        (.cons (h₁.met hb) (h₁.met ho))
    · exact ih₂ (fun a b w₂ h₂ => hg a b w₂ (h₁.trans h₂)) (h₁.met hleft) (h₁.met hr)
        (.cons (h₁.met ha) (h₁.met ho))

theorem mergeSort_safe {items : List Value}
    (hg : ∀ a b w', Later w w' → Met w' a → Met w' b → Safe P c w' (greater a b) Known)
    (hi : Met w items) : Safe P c w (mergeSort greater items) Known := by
  induction items using mergeSort.induct generalizing w with
  | case1 items hshort =>
    rw [mergeSort, dif_pos hshort]
    exact .pure hi
  | case2 items hlong ih₁ ih₂ =>
    rw [mergeSort, dif_neg hlong]
    refine .bind (ih₁ hg (within_of_subset hi fun _ => List.mem_of_mem_take)) fun left w₁ h₁ hleft => ?_
    refine .bind (ih₂ (fun a b w₂ h₂ => hg a b w₂ (h₁.trans h₂)) (h₁.met hi).drop)
      fun right w₂ h₂ hright => ?_
    exact merge_safe (fun a b w₃ h₃ => hg a b w₃ (h₁.trans (h₂.trans h₃))) (h₂.met hleft) hright .nil

end Sorting

theorem sortsAfter_safe {comparison a b : Value} (hc : Met w comparison) (ha : Met w a)
    (hb : Met w b) : Safe P c w (sortsAfter comparison a b) Known := by
  refine .ite (fun _ => ?_) fun _ => ?_
  · refine .bind (toText_safe ha) fun _ w₁ h₁ _ => ?_
    exact .bind (toText_safe (h₁.met hb)) fun _ _ _ _ => .pure trivial
  · refine .bind (call_safe hc trivial (.two ha hb)) fun v w₁ _ hv => ?_
    exact .bind (toNumber_safe hv) fun _ _ _ _ => .pure trivial

theorem sortElements_safe {items : Array (Option Value)} {comparison : Value} (hi : Met w items)
    (hc : Met w comparison) : Safe P c w (sortElements items comparison) Known := by
  have hpresent : Met w (items.toList.filterMap id) := by
    intro v hv
    obtain ⟨item, hitem, hv⟩ := List.mem_filterMap.mp hv
    have hmet : Met w item := within_toList hi item hitem
    rwa [show item = some v from hv] at hmet
  unfold sortElements
  dsimp only
  rw [List.partition_eq_filter_filter]
  refine .bind (mergeSort_safe (fun a b w₁ h₁ ha hb => sortsAfter_safe (h₁.met hc) ha hb)
    (within_of_subset hpresent fun _ h => (List.mem_filter.mp h).1)) fun sorted w₁ h₁ hs => .pure ?_
  refine ⟨Met.toArray (within_append.mpr ⟨hs, ?_⟩), trivial⟩
  exact within_of_subset (h₁.met hpresent) fun _ h => (List.mem_filter.mp h).1

theorem spliceArguments_safe {length : Nat} (ha : Met w args) :
    Safe P c w (spliceArguments args length) fun r w' => Met w' r.2.2 := by
  refine .bind (relativeArgument_safe ha) fun start w₁ h₁ _ => ?_
  dsimp only
  split
  · exact .pure (h₁.met ha).extract
  · exact .pure (h₁.met ha).extract
  · exact .bind (toIntegerOrInfinity_safe (h₁.met (met_argument ha))) fun _ _ h₂ _ =>
      .pure ((h₁.trans h₂).met ha).extract

theorem arrayFrom_safe (ha : Met w args) : Safe P c w (arrayFrom args) Known := by
  have harg {w' : World} {i : Nat} (hl : Later w w') : Met w' (argument args i) :=
    hl.met (met_argument ha)
  have hmap {w' : World} {items : Array Value} (hl : Later w w') (hi : Met w' items) :
      Safe P c w' (do
        let items ← if (argument args 1).isUndefined then pure items
          else collect items.size fun i =>
            call (argument args 1) (argument args 2) #[argument items i, .ofNat i]
        return Value.object (← newArray items)) Known := by
    have hmake {w' : World} {items : Array Value} (hi : Met w' items) :
        Safe P c w' (do return Value.object (← newArray items)) Known :=
      .bind (newArray_safe hi) fun _ _ _ hid => .pure hid.met
    refine .ite (fun _ => .pure_bind (hmake hi)) fun _ => ?_
    refine .bind (collect_safe fun i w₁ h₁ => ?_) fun _ _ _ hi => hmake hi
    exact call_safe (harg (hl.trans h₁)) (harg (hl.trans h₁)) (.two (met_argument (h₁.met hi)) trivial)
  refine .look_bind fun _ => .ite (fun _ => .look_bind fun _ => .raise_bind trivial) fun _ => ?_
  refine .ite (fun _ => .look_bind fun _ => .raise_bind trivial) fun _ => ?_
  refine .bind (methodOf_safe (harg .refl)) fun f w₁ h₁ _ => ?_
  cases f with
  | some f => exact .bind (listFromIterable_safe (harg h₁)) fun _ _ h₂ hi => hmap (h₁.trans h₂) hi
  | none =>
    refine .bind (toObject_safe (harg h₁)) fun id w₂ h₂ hid => ?_
    have hobject : Met w₂ (Value.object id) := hid
    exact .bind (listFromArrayLike_safe hobject) fun _ _ h₃ hi => hmap (h₁.trans (h₂.trans h₃)) hi

theorem concatenate_safe (ht : Met w this) (ha : Met w args) :
    Safe P c w (concatenate this args) Known := by
  refine .bind (toObject_safe ht) fun id w₁ h₁ hid => ?_
  have hitems : Met w₁ (Value.object id :: args.toList) := .cons hid (h₁.met (within_toList ha))
  refine .bind (Q := Known) (.foldlM (fun out item hmem w₂ h₂ hout => ?_) .empty) fun out w₂ _ hout => ?_
  · have hitem : Met w₂ item := h₂.met (hitems item hmem)
    refine .look_bind fun _ => ?_
    split
    · refine .bind (lengthOf_safe hitem) fun length w₃ h₃ _ => ?_
      refine .ite (fun _ => .raise_bind trivial) fun _ => ?_
      exact .bind (elements_safe (h₃.met hitem)) fun _ _ h₄ he => .pure (((h₃.trans h₄).met hout).append he)
    · exact .pure (within_push hout hitem)
  · exact .bind (newSparseArray_safe hout) fun _ _ _ hid => .pure hid.met

theorem mapElements_safe (ht : Met w this) (ha : Met w args) :
    Safe P c w (mapElements this args) Known := by
  refine .bind (receiver_safe ht) fun r w₁ h₁ _ => ?_
  obtain ⟨_, length⟩ := r
  refine .bind (visitElements_safe (I := Known) (h₁.met ht) (h₁.met ha) (fun _ _ _ hl h => hl.met h)
    (met_replicate trivial) fun out v i r w₂ h₂ hout hv hr => ?_) fun out w₂ _ hout => ?_
  · exact .ite (fun _ => halt_bind trivial) fun _ => .pure (within_setIfInBounds hout hr)
  · exact .bind (newSparseArray_safe hout) fun _ _ _ hid => .pure hid.met

theorem flatMapElements_safe (ht : Met w this) (ha : Met w args) :
    Safe P c w (flatMapElements this args) Known := by
  refine .bind (visitElements_safe (I := Known) ht ha (fun _ _ _ hl h => hl.met h) .empty
    fun out v i r w₁ h₁ hout hv hr => .pure (within_push hout hr)) fun results w₁ _ hresults => ?_
  refine .bind (Q := fun _ _ => True) (.fuel trivial) fun limit w₂ h₂ _ => ?_
  rw [← Array.foldlM_toList]
  refine .bind (Q := Known) (.foldlM (fun out v hmem w₃ h₃ hout => ?_) .empty) fun out w₃ _ hout => ?_
  · have hv : Met w₃ v := (h₂.trans h₃).met (within_toList hresults v hmem)
    refine .look_bind fun _ => ?_
    split
    · exact flattenInto_safe hv hout
    · exact .pure (within_push hout hv)
  · exact .bind (newArray_safe hout) fun _ _ _ hid => .pure hid.met

theorem pushElements_safe (ht : Met w this) (ha : Met w args) :
    Safe P c w (pushElements this args) Known := by
  refine .bind (receiver_safe ht) fun r w₁ h₁ hid => .ite (fun _ => .raise_bind trivial) fun _ => ?_
  obtain ⟨id, length⟩ := r
  refine .bind (upTo_safe fun i w₂ h₂ => ?_) fun _ w₂ h₂ _ => ?_
  · exact setIndex_safe (h₂.met hid) ((h₁.trans h₂).met (met_argument ha))
  · exact .bind (setLength_safe (h₂.met hid)) fun _ _ _ _ => .pure trivial

theorem popElement_safe (ht : Met w this) : Safe P c w (popElement this) Known := by
  refine .bind (receiver_safe ht) fun r w₁ h₁ hid => .ite (fun _ => ?_) fun _ => ?_
  obtain ⟨id, length⟩ := r
  · exact .bind (setLength_safe hid) fun _ _ _ _ => .pure trivial
  · refine .bind (getIndex_safe hid) fun last w₂ h₂ hlast => .bind deleteIndex_safe fun _ w₃ h₃ _ => ?_
    exact .bind (setLength_safe ((h₂.trans h₃).met hid)) fun _ _ h₄ _ => .pure ((h₃.trans h₄).met hlast)

theorem shiftElement_safe (ht : Met w this) : Safe P c w (shiftElement this) Known := by
  refine .bind (receiver_safe ht) fun r w₁ h₁ hid => .ite (fun _ => ?_) fun _ => ?_
  obtain ⟨id, length⟩ := r
  · exact .bind (setLength_safe hid) fun _ _ _ _ => .pure trivial
  · refine .bind (elements_safe hid) fun items w₂ h₂ hi => ?_
    exact .bind (writeBack_safe (h₂.met hid) hi.extract) fun _ _ h₃ _ =>
      .pure (met_getD (met_join (h₃.met hi)))

theorem unshiftElements_safe (ht : Met w this) (ha : Met w args) :
    Safe P c w (unshiftElements this args) Known := by
  refine .bind (receiver_safe ht) fun r w₁ h₁ hid => .ite (fun _ => ?_) fun _ => ?_
  obtain ⟨id, length⟩ := r
  · exact .bind (setLength_safe hid) fun _ _ _ _ => .pure trivial
  · refine .bind (elements_safe hid) fun items w₂ h₂ hi => ?_
    have hall := (met_present ((h₁.trans h₂).met ha)).append hi
    exact .bind (writeBack_safe (h₂.met hid) hall) fun _ _ _ _ => .pure trivial

theorem spliceElements_safe (ht : Met w this) (ha : Met w args) :
    Safe P c w (spliceElements this args) Known := by
  refine .bind (receiver_safe ht) fun r w₁ h₁ hid => ?_
  obtain ⟨id, length⟩ := r
  refine .bind (spliceArguments_safe (h₁.met ha)) fun r w₂ h₂ hinserted => ?_
  obtain ⟨start, count, inserted⟩ := r
  refine .bind (elements_safe (h₂.met hid)) fun items w₃ h₃ hi => ?_
  refine .bind (writeBack_safe ((h₂.trans h₃).met hid)
    ((hi.extract.append (met_present (h₃.met hinserted))).append hi.extract)) fun _ w₄ h₄ _ => ?_
  exact .bind (newSparseArray_safe (h₄.met hi).extract) fun _ _ _ hid => .pure hid.met

theorem splicedCopy_safe (ht : Met w this) (ha : Met w args) :
    Safe P c w (splicedCopy this args) Known := by
  refine .bind (receiver_safe ht) fun r w₁ h₁ hid => ?_
  obtain ⟨id, length⟩ := r
  refine .bind (spliceArguments_safe (h₁.met ha)) fun r w₂ h₂ hinserted => ?_
  obtain ⟨start, count, inserted⟩ := r
  refine .bind (collect_safe fun i w₃ h₃ => getIndex_safe ((h₂.trans h₃).met hid)) fun before w₃ h₃ hb => ?_
  refine .bind (collect_safe fun i w₄ h₄ => getIndex_safe ((h₂.trans (h₃.trans h₄)).met hid))
    fun behind w₄ h₄ hbehind => ?_
  have hall := ((h₄.met hb).append ((h₃.trans h₄).met hinserted)).append hbehind
  exact .bind (newArray_safe hall) fun _ _ _ hid => .pure hid.met

theorem sortInPlace_safe (ht : Met w this) (ha : Met w args) :
    Safe P c w (sortInPlace this args) Known := by
  refine .bind (comparisonArgument_safe ha) fun comparison w₁ h₁ hc => ?_
  refine .bind (receiver_safe (h₁.met ht)) fun r w₂ h₂ hid => ?_
  obtain ⟨id, length⟩ := r
  refine .bind (elements_safe hid) fun items w₃ h₃ hi => ?_
  refine .bind (sortElements_safe hi ((h₂.trans h₃).met hc)) fun r w₄ h₄ hs => ?_
  obtain ⟨sorted, holes⟩ := r
  have hall : Met w₄ (sorted.map some ++ Array.replicate holes none) :=
    (met_present hs.1).append (met_replicate trivial)
  exact .bind (writeBack_safe ((h₃.trans h₄).met hid) hall) fun _ _ h₅ _ =>
    .pure ((h₃.trans (h₄.trans h₅)).met hid)

theorem lastIndexOf_safe (ht : Met w this) (ha : Met w args) :
    Safe P c w (lastIndexOf this args) Known := by
  refine .bind (receiver_safe ht) fun r w₁ h₁ hid => .ite (fun _ => .pure trivial) fun _ => ?_
  obtain ⟨id, length⟩ := r
  have hsearch {w' : World} (hl : Later w₁ w') (start : Float) : Safe P c w' (do
      if start < 0.0 then return Value.number (-1.0)
      return placeValue (← lastPlace (Number.toNat start + 1) (holdsAt id (argument args 0)))) Known :=
    .ite (fun _ => .pure trivial) fun _ =>
      .bind (lastPlace_safe fun _ _ hl' => holdsAt_safe ((hl.trans hl').met hid))
        fun _ _ _ _ => .pure met_placeValue
  dsimp only
  split
  · exact .pure_bind (hsearch .refl _)
  · rename_i v hv
    have hv : Met w₁ v := h₁.met (within_getElem? ha hv)
    exact .bind (toIntegerOrInfinity_safe hv) fun _ _ h₂ _ => .pure_bind (hsearch h₂ _)

theorem arrayFunction_safe {f : ArrayFunction} (ht : Met w this) (ha : Met w args) :
    Safe P c w (arrayFunction f this args) Known := by
  have hfirst : Met w (argument args 0) := met_argument ha
  have hnewArray {w' : World} {items : Array Value} (hi : Met w' items) :
      Safe P c w' (do return Value.object (← newArray items)) Known :=
    .bind (newArray_safe hi) fun _ _ _ hid => .pure hid.met
  unfold arrayFunction
  cases f with
  | construct =>
    exact .look_bind fun hw => constructArray_safe (hw.intrinsic (by simp [Intrinsics.toList])) ha
  | isArray => exact .look_bind fun _ => .pure trivial
  | of => exact hnewArray ha
  | «from» => exact arrayFrom_safe ha
  | «at» =>
    refine .bind (receiver_safe ht) fun r w₁ h₁ hid => ?_
    obtain ⟨id, length⟩ := r
    refine .bind (toIntegerOrInfinity_safe (h₁.met hfirst)) fun n w₂ h₂ _ => ?_
    split
    · exact getIndex_safe (h₂.met hid)
    · exact .pure trivial
  | concat => exact concatenate_safe ht ha
  | entries => exact .bind (toObject_safe ht) fun _ _ _ hid => newArrayIterator_safe hid
  | keys => exact .bind (toObject_safe ht) fun _ _ _ hid => newArrayIterator_safe hid
  | values => exact .bind (toObject_safe ht) fun _ _ _ hid => newArrayIterator_safe hid
  | every =>
    exact .bind (visitElements_safe (I := fun _ _ => True) ht ha (fun _ _ _ _ _ => trivial) trivial
      fun _ _ _ _ _ _ _ _ _ => .pure trivial) fun _ _ _ _ => .pure trivial
  | some =>
    exact .bind (visitElements_safe (I := fun _ _ => True) ht ha (fun _ _ _ _ _ => trivial) trivial
      fun _ _ _ _ _ _ _ _ _ => .pure trivial) fun _ _ _ _ => .pure trivial
  | forEach =>
    exact .bind (visitElements_safe (I := fun _ _ => True) ht ha (fun _ _ _ _ _ => trivial) trivial
      fun _ _ _ _ _ _ _ _ _ => .pure trivial) fun _ _ _ _ => .pure trivial
  | filter =>
    refine .bind (visitElements_safe (I := Known) ht ha (fun _ _ _ hl h => hl.met h) .empty
      fun out v i r w₁ h₁ hout hv hr => .pure ?_) fun kept w₁ _ hkept => hnewArray hkept
    split
    · exact within_push hout hv
    · exact hout
  | map => exact mapElements_safe ht ha
  | flatMap => exact flatMapElements_safe ht ha
  | find => exact .bind (findElement_safe ht ha) fun _ _ _ hf => .pure (met_found hf)
  | findIndex => exact .bind (findElement_safe ht ha) fun _ _ _ _ => .pure met_placeValue
  | findLast => exact .bind (findElement_safe ht ha) fun _ _ _ hf => .pure (met_found hf)
  | findLastIndex => exact .bind (findElement_safe ht ha) fun _ _ _ _ => .pure met_placeValue
  | reduce => exact reduceElements_safe ht ha
  | reduceRight => exact reduceElements_safe ht ha
  | flat =>
    refine .bind (toObject_safe ht) fun id w₁ h₁ hid => ?_
    have hflat {w' : World} {depth : Float} (hl : Later w₁ w') : Safe P c w' (do
        return Value.object (← newArray (← flattenInto (← fuel) id depth #[]))) Known := by
      refine .bind (Q := fun _ _ => True) (.fuel trivial) fun _ w₂ h₂ _ => ?_
      exact .bind (flattenInto_safe ((hl.trans h₂).met hid) .empty) fun _ _ _ ho => hnewArray ho
    dsimp only
    split
    · exact .pure_bind (hflat .refl)
    · exact .bind (toIntegerOrInfinity_safe (h₁.met hfirst)) fun _ _ h₂ _ => hflat h₂
  | includes =>
    refine .bind (receiver_safe ht) fun r w₁ h₁ hid => ?_
    obtain ⟨id, length⟩ := r
    refine .bind (relativeArgument_safe (h₁.met ha)) fun start w₂ h₂ _ => ?_
    refine .bind (firstPlace_safe fun i w₃ h₃ => ?_) fun _ _ _ _ => .pure trivial
    exact .bind (getIndex_safe ((h₂.trans h₃).met hid)) fun _ _ _ _ => .pure trivial
  | indexOf =>
    refine .bind (receiver_safe ht) fun r w₁ h₁ hid => ?_
    obtain ⟨id, length⟩ := r
    refine .bind (relativeArgument_safe (h₁.met ha)) fun start w₂ h₂ _ => ?_
    exact .bind (firstPlace_safe fun i w₃ h₃ => holdsAt_safe ((h₂.trans h₃).met hid))
      fun _ _ _ _ => .pure met_placeValue
  | lastIndexOf => exact lastIndexOf_safe ht ha
  | join =>
    refine .bind (receiver_safe ht) fun r w₁ h₁ hid => ?_
    obtain ⟨id, length⟩ := r
    have hjoin {w' : World} {separator : String} (hl : Later w₁ w') : Safe P c w' (do
        return Value.string (← joinElements id length separator)) Known :=
      .bind (joinElements_safe (hl.met hid)) fun _ _ _ _ => .pure trivial
    dsimp only
    split
    · exact .pure_bind (hjoin .refl)
    · exact .bind (toText_safe (h₁.met hfirst)) fun _ _ h₂ _ => hjoin h₂
  | toString =>
    refine .bind (toObject_safe ht) fun id w₁ h₁ hid => .bind (getNamed_safe hid) fun join w₂ h₂ hj => ?_
    refine .look_bind fun _ => .ite (fun _ => ?_) fun _ => .look_bind fun _ => .pure trivial
    exact call_safe hj (h₂.met hid) .empty
  | slice =>
    refine .bind (receiver_safe ht) fun r w₁ h₁ hid => ?_
    obtain ⟨id, length⟩ := r
    refine .bind (relativeArgument_safe (h₁.met ha)) fun start w₂ h₂ _ => ?_
    refine .bind (relativeArgument_safe ((h₁.trans h₂).met ha)) fun stop w₃ h₃ _ => ?_
    refine .bind (elements_safe ((h₂.trans h₃).met hid)) fun items w₄ _ hi => ?_
    exact .bind (newSparseArray_safe hi) fun _ _ _ hid => .pure hid.met
  | toReversed =>
    refine .bind (receiver_safe ht) fun r w₁ h₁ hid => ?_
    obtain ⟨id, length⟩ := r
    exact .bind (collect_safe fun i w₂ h₂ => getIndex_safe (h₂.met hid)) fun _ _ _ hi => hnewArray hi
  | toSorted =>
    refine .bind (comparisonArgument_safe ha) fun comparison w₁ h₁ hc => ?_
    refine .bind (receiver_safe (h₁.met ht)) fun r w₂ h₂ hid => ?_
    obtain ⟨id, length⟩ := r
    refine .bind (collect_safe fun i w₃ h₃ => ?_) fun items w₃ h₃ hi => ?_
    · exact .map (getIndex_safe (h₃.met hid)) fun _ _ hv => hv
    · exact .bind (sortElements_safe hi ((h₂.trans h₃).met hc)) fun _ _ _ hs => hnewArray hs.1
  | toSpliced => exact splicedCopy_safe ht ha
  | «with» =>
    refine .bind (receiver_safe ht) fun r w₁ h₁ hid => ?_
    obtain ⟨id, length⟩ := r
    refine .bind (toIntegerOrInfinity_safe (h₁.met hfirst)) fun n w₂ h₂ _ => ?_
    split
    · exact throwRange_safe
    · refine .bind (collect_safe fun i w₃ h₃ => .ite (fun _ => .pure ?_) fun _ => ?_)
        fun _ _ _ hi => hnewArray hi
      · exact (h₁.trans (h₂.trans h₃)).met (met_argument ha)
      · exact getIndex_safe ((h₂.trans h₃).met hid)
  | push => exact pushElements_safe ht ha
  | pop => exact popElement_safe ht
  | shift => exact shiftElement_safe ht
  | unshift => exact unshiftElements_safe ht ha
  | splice => exact spliceElements_safe ht ha
  | reverse =>
    refine .bind (receiver_safe ht) fun r w₁ h₁ hid => ?_
    obtain ⟨id, length⟩ := r
    refine .bind (elements_safe hid) fun items w₂ h₂ hi => ?_
    refine .bind (writeBack_safe (h₂.met hid) fun v hv => hi v (Array.mem_reverse.mp hv)) fun _ w₃ h₃ _ => ?_
    exact .pure ((h₂.trans h₃).met hid)
  | fill =>
    refine .bind (receiver_safe ht) fun r w₁ h₁ hid => ?_
    obtain ⟨id, length⟩ := r
    refine .bind (relativeArgument_safe (h₁.met ha)) fun start w₂ h₂ _ => ?_
    refine .bind (relativeArgument_safe ((h₁.trans h₂).met ha)) fun stop w₃ h₃ _ => ?_
    refine .bind (upTo_safe fun i w₄ h₄ => ?_) fun _ w₄ h₄ _ => .pure ((h₂.trans (h₃.trans h₄)).met hid)
    exact setIndex_safe ((h₂.trans (h₃.trans h₄)).met hid)
      ((h₁.trans (h₂.trans (h₃.trans h₄))).met hfirst)
  | sort => exact sortInPlace_safe ht ha

end EcmaScript
