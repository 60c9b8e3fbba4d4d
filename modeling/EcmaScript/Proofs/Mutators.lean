import EcmaScript.Proofs.Elements

/-! What the methods of arrays that change an array do to it as a list. -/
namespace EcmaScript

namespace Exec
variable {m : Machine} {c : Context} {s : State} {id : ObjectId} {items : List (Option Value)}
  {args : Array Value}

section Runs
variable (hm : 2 ^ 32 ≤ m.fuel) (hc : c.MayChange id) (h : s.Lists id items)
include hc h

theorem setIndex_append (hlt : items.length < indexLimit) (v : Value) :
    ∃ s', setIndex id items.length v m c s = .value () s' ∧ s.Rewrites id s' ∧
      s'.Lists id (items ++ [some v]) := by
  obtain ⟨s', hset, hrewrites, h'⟩ := setIndex_value (m := m) hc h hlt v
  have hsize : (items ++ [some v]).length = items.length + 1 := by simp
  rw [Nat.max_eq_right (Nat.le_add_right _ 1), ← hsize] at h'
  refine ⟨s', hset, hrewrites, h'.lists fun i _ => ?_⟩
  rcases Nat.lt_trichotomy i items.length with hi | rfl | hi
  · rw [Function.update_of_ne (by omega), List.getElem?_append_left hi]
  · simp
  · rw [Function.update_of_ne (by omega)]
    simp [List.getElem?_eq_none, hi.le, Nat.succ_le_of_lt hi]

theorem setLength_lists (k : Nat) (hk : k ≤ items.length) :
    ∃ s', setLength id k m c s = .value () s' ∧ s.Rewrites id s' ∧ s'.Lists id (items.take k) := by
  have hlt := h.stores.lt
  obtain ⟨s', hset, hrewrites, h'⟩ := setLength_value (m := m) hc h (k := k) (by omega)
  rw [← List.length_take_of_le hk] at h'
  refine ⟨s', hset, hrewrites, h'.lists fun i _ => ?_⟩
  rw [List.length_take_of_le hk, List.getElem?_take]
  split <;> rfl

include hm

theorem push_value (hlen : items.length + args.size < 2 ^ 32) :
    ∃ s', pushElements (.object id) args m c s = .value (.ofNat (items.length + args.size)) s' ∧
      s.Rewrites id s' ∧ s'.Lists id (items ++ args.toList.map some) := by
  have hid := h.size_lt
  obtain ⟨s₁, hpush, hrewrites, h₁⟩ := upTo_value (m := m) (c := c) (s := s) (n := args.size)
    (g := fun i => setIndex id (items.length + i) (argument args i))
    (I := fun k s' => s.Rewrites id s' ∧ s'.Lists id (items ++ (args.toList.take k).map some))
    (by omega) ⟨.refl, by simpa using h⟩ fun k s' hk hI => by
      obtain ⟨hrewrites, h'⟩ := hI
      have hsize : (items ++ (args.toList.take k).map some).length = items.length + k := by
        simp [Nat.min_eq_left hk.le]
      obtain ⟨s'', hset, hrewrites', h''⟩ := setIndex_append (m := m) hc h'
        (by unfold indexLimit; omega) (argument args k)
      rw [hsize] at hset
      refine ⟨s'', hset, hrewrites.trans hid hrewrites', ?_⟩
      have harg : argument args k = args[k] := by simp [argument, hk]
      rw [List.take_succ_eq_append_getElem (by simpa using hk), List.map_append, ← List.append_assoc]
      simpa [harg] using h''
  rw [List.take_of_length_le (by simp)] at h₁
  have hsize : (items ++ args.toList.map some).length = items.length + args.size := by simp
  obtain ⟨s₂, hlength, hrewrites', h₂⟩ := setLength_lists (m := m) hc h₁ _ (Nat.le_refl _)
  rw [List.take_of_length_le (Nat.le_refl _)] at h₂
  rw [hsize] at hlength
  refine ⟨s₂, ?_, hrewrites.trans hid hrewrites', h₂⟩
  have hmax : ¬ maxLength < Float.ofNat (items.length + args.size) := by
    rw [Number.isWhole_maxLength.lt_iff (Number.isWhole_ofNat (by omega))]
    omega
  rw [pushElements, bind_value (receiver_value h)]
  dsimp only
  rw [if_neg hmax]
  rw [bind_value hpush, bind_value hlength]
  rfl

omit hm in
theorem pop_value : ∃ s', popElement (.object id) m c s =
      .value ((items.getLast?).join.getD .undefined) s' ∧
    s.Rewrites id s' ∧ s'.Lists id items.dropLast := by
  have hlt := h.stores.lt
  rcases List.eq_nil_or_concat' items with rfl | ⟨front, last, rfl⟩
  · obtain ⟨s', hlength, hrewrites, h'⟩ := setLength_lists (m := m) hc h 0 (Nat.zero_le _)
    refine ⟨s', ?_, hrewrites, h'⟩
    rw [popElement, bind_value (receiver_value h)]
    dsimp only [List.length_nil]
    rw [if_pos rfl, bind_value hlength]
    rfl
  · have hsize : (front ++ [last]).length = front.length + 1 := by simp
    have hlimit : front.length < indexLimit := by unfold indexLimit; omega
    obtain ⟨s₁, hdelete, hrewrites, h₁⟩ := deleteIndex_value (m := m) hc h hlimit
    obtain ⟨s₂, hlength, hrewrites', h₂⟩ := setLength_value (m := m) hc h₁ (k := front.length)
      (by omega)
    refine ⟨s₂, ?_, hrewrites.trans h.size_lt hrewrites', ?_⟩
    · rw [popElement, bind_value (receiver_value h)]
      dsimp only
      rw [hsize, if_neg (Nat.succ_ne_zero _), Nat.add_sub_cancel, bind_value (getIndex_value h hlimit),
        bind_value hdelete, bind_value hlength, List.getElem?_concat_length, List.getLast?_concat]
      rfl
    · rw [List.dropLast_concat]
      refine h₂.lists fun i _ => ?_
      split
      · rename_i hi
        rw [Function.update_of_ne (by omega), List.getElem?_append_left hi]
      · rename_i hi
        rw [List.getElem?_eq_none (by omega)]
        rfl

theorem shift_value : ∃ s', shiftElement (.object id) m c s =
      .value ((items.head?).join.getD .undefined) s' ∧
    s.Rewrites id s' ∧ s'.Lists id items.tail := by
  have hlt := h.stores.lt
  cases items with
  | nil =>
    obtain ⟨s', hlength, hrewrites, h'⟩ := setLength_lists (m := m) hc h 0 (Nat.zero_le _)
    refine ⟨s', ?_, hrewrites, h'⟩
    rw [shiftElement, bind_value (receiver_value h)]
    dsimp only [List.length_nil]
    rw [if_pos rfl, bind_value hlength]
    rfl
  | cons first rest =>
    have hnew : (((first :: rest).toArray).extract 1 ((first :: rest).toArray).size).toList = rest := by
      simp
    obtain ⟨s', hwrite, hrewrites, h'⟩ := writeBack_value (m := m)
      (((first :: rest).toArray).extract 1 ((first :: rest).toArray).size) hc h hm (by simp at hlt ⊢; omega)
    rw [hnew] at h'
    refine ⟨s', ?_, hrewrites, h'⟩
    rw [shiftElement, bind_value (receiver_value h)]
    dsimp only
    rw [List.length_cons, if_neg (Nat.succ_ne_zero _), ← List.length_cons (a := first),
      bind_value (elements_value h hm), bind_value hwrite]
    rfl

theorem unshift_value (hlen : items.length + args.size < 2 ^ 32) :
    ∃ s', unshiftElements (.object id) args m c s = .value (.ofNat (items.length + args.size)) s' ∧
      s.Rewrites id s' ∧ s'.Lists id (args.toList.map some ++ items) := by
  rw [unshiftElements, bind_value (receiver_value h)]
  dsimp only
  split
  · rename_i hempty
    obtain rfl := Array.isEmpty_iff.mp hempty
    obtain ⟨s', hlength, hrewrites, h'⟩ := setLength_lists (m := m) hc h _ (Nat.le_refl _)
    rw [List.take_of_length_le (Nat.le_refl _)] at h'
    refine ⟨s', ?_, hrewrites, h'⟩
    rw [bind_value hlength]
    rfl
  · obtain ⟨s', hwrite, hrewrites, h'⟩ := writeBack_value (m := m)
      (args.map some ++ items.toArray) hc h hm (by simp; omega)
    refine ⟨s', ?_, hrewrites, by simpa using h'⟩
    have hsize : (args.map some ++ items.toArray).size = items.length + args.size := by
      simp [Nat.add_comm]
    rw [bind_value (elements_value h hm), bind_value hwrite, hsize]
    rfl

theorem reverse_value : ∃ s', arrayFunction .reverse (.object id) args m c s = .value (.object id) s' ∧
    s.Rewrites id s' ∧ s'.Lists id items.reverse := by
  have hlt := h.stores.lt
  obtain ⟨s', hwrite, hrewrites, h'⟩ := writeBack_value (m := m) items.toArray.reverse hc
    h hm (by simpa using hlt)
  refine ⟨s', ?_, hrewrites, by simpa using h'⟩
  change (receiver (.object id) >>= _) m c s = _
  rw [bind_value (receiver_value h)]
  dsimp only
  rw [bind_value (elements_value h hm), bind_value hwrite]
  rfl

end Runs

def place (length : Nat) (x : Float) : Nat := Number.placeIn length (Number.integerPart length x)

theorem place_le {length : Nat} {x : Float} : place length x ≤ length := by
  unfold place Number.placeIn
  split <;> omega

/-- What the arguments of `splice` come to for a list: where to cut it, and how much to remove. -/
inductive Cuts (m : Machine) (c : Context) (s : State) (args : Array Value) (length : Nat) :
    (start count : Nat) → State → Prop where
  | nothing (hargs : args.size = 0) : Cuts m c s args length 0 0 s
  | rest {x : Float} {s' : State} (hargs : args.size = 1)
    (hx : (toNumber (argument args 0)).Gives m c s x s') :
    Cuts m c s args length (place length x) (length - place length x) s'
  | counted {x y : Float} {s' s'' : State} (hargs : 2 ≤ args.size)
    (hx : (toNumber (argument args 0)).Gives m c s x s')
    (hy : (toNumber (argument args 1)).Gives m c s' y s'') :
    Cuts m c s args length (place length x)
      (min (Number.integerPart length y).toNat (length - place length x)) s''

variable {length start count : Nat} {s' : State}

theorem Cuts.le (h : Cuts m c s args length start count s') : start + count ≤ length := by
  have hle {x : Float} : place length x ≤ length := place_le
  cases h with
  | nothing => exact Nat.zero_le _
  | rest => exact Nat.le_of_eq (Nat.add_sub_cancel' hle)
  | @counted x =>
    have := @hle x
    omega

theorem gives_relativeArgument {i : Nat} {x : Float} (hlength : length < 2 ^ 52)
    (hx : (toNumber (argument args i)).Gives m c s x s') :
    (relativeArgument args i length 0).Gives m c s (place length x) s' := by
  unfold relativeArgument
  split
  · rename_i harg
    rw [harg] at hx
    obtain ⟨rfl, rfl⟩ := gives_pure.mp hx
    exact gives_pure.mpr ⟨rfl, rfl⟩
  · rw [place, ← Number.relativeIndex_eq hlength]
    exact gives_bind.mpr ⟨x, s', hx, gives_pure.mpr ⟨rfl, rfl⟩⟩

theorem gives_spliceArguments (hlength : length < 2 ^ 52) (h : Cuts m c s args length start count s') :
    (spliceArguments args length).Gives m c s (start, count, args.extract 2 args.size) s' := by
  unfold spliceArguments
  cases h with
  | nothing hargs =>
    obtain rfl := Array.eq_empty_of_size_eq_zero hargs
    exact gives_pure.mpr ⟨rfl, rfl⟩
  | rest hargs hx =>
    refine gives_bind.mpr ⟨_, _, gives_relativeArgument hlength hx, ?_⟩
    simp [hargs]
  | @counted x y s₁ _ hargs hx hy =>
    rw [← Number.min_toNat_eq hlength (Nat.sub_le length (place length x))]
    refine gives_bind.mpr ⟨_, _, gives_relativeArgument hlength hx, ?_⟩
    obtain ⟨k, hk⟩ : ∃ k, args.size = k + 2 := ⟨args.size - 2, by omega⟩
    rw [hk]
    dsimp only
    exact gives_bind.mpr ⟨_, s', gives_bind.mpr ⟨y, s', hy, gives_pure.mpr ⟨rfl, rfl⟩⟩,
      gives_pure.mpr ⟨rfl, rfl⟩⟩

/-- What is cut out makes an array of its own, and what is put in stands in its place. -/
theorem gives_splice (hm : 2 ^ 32 ≤ m.fuel) (hc : c.MayChange id)
    (hcut : Cuts m c s args items.length start count s') (h : s.Lists id items) (h' : s'.Lists id items)
    (hlen : items.length + (args.size - 2) - count < 2 ^ 32) :
    ∃ removed s'', (spliceElements (.object id) args).Gives m c s (.object removed) s'' ∧
      (s''.object removed).Holds ((items.drop start).take count) ∧
      (s''.object id).Holds
        (items.take start ++ (args.toList.drop 2).map some ++ items.drop (start + count)) := by
  have hlt := h.stores.lt
  have hle := hcut.le
  have hid := h'.size_lt
  let new := items.toArray.extract 0 start ++ (args.extract 2 args.size).map some ++
    items.toArray.extract (start + count) items.toArray.size
  have hnew : new.toList =
      items.take start ++ (args.toList.drop 2).map some ++ items.drop (start + count) := by
    simp [new, List.extract_eq_take_drop, List.take_of_length_le]
  have hsize : new.size < 2 ^ 32 := by
    rw [← Array.length_toList, hnew]
    simp
    omega
  obtain ⟨s₁, hwrite, -, h₁⟩ := writeBack_value (m := m) new hc h' hm hsize
  let cut := items.toArray.extract start (start + count)
  have hcutList : cut.toList = (items.drop start).take count := by
    simp [cut, List.extract_eq_take_drop]
  refine ⟨⟨s₁.heap.size⟩, { s₁ with heap := s₁.heap.push (arrayObject s₁.intrinsics.arrayPrototype
    (sparseElements cut).1 cut.size) }, ?_, ?_, ?_⟩
  · refine (gives_bind_value (receiver_value h)).mpr ?_
    dsimp only
    refine gives_bind.mpr ⟨_, s', gives_spliceArguments (by omega) hcut, ?_⟩
    dsimp only
    refine (gives_bind_value (elements_value h' hm)).mpr ?_
    refine (gives_bind_value hwrite).mpr ?_
    exact (gives_bind_value rfl).mpr (gives_pure.mpr ⟨rfl, rfl⟩)
  · rw [State.object_push, if_pos rfl, ← hcutList]
    refine Object.holds_arrayObject ?_
    rw [← Array.length_toList, hcutList]
    simp
    omega
  · rw [State.object_push, if_neg (Nat.ne_of_lt h₁.size_lt), ← hnew]
    exact h₁.holds

/-- A method of an array returns a value and turns the list that the array is into another one. Nothing
but that array changes. -/
def Transforms (m : Machine) (c : Context) (s : State) (id : ObjectId) (f : ArrayFunction)
    (args : Array Value) (result : Value) (after : List (Option Value)) : Prop :=
  ∃ s', arrayFunction f (.object id) args m c s = .value result s' ∧ s.Rewrites id s' ∧ s'.Lists id after

/-- The methods that change an array do to it what they do to a list, holes included, and return what the
list says. A cut stays within the list, wherever the arguments of `splice` ask for it, and what is cut out
is an array of its own. -/
theorem mutators_as_on_lists (args : Array Value) (hm : 2 ^ 32 ≤ m.fuel) (hc : c.MayChange id)
    (h : s.Lists id items) :
    (items.length + args.size < 2 ^ 32 → Transforms m c s id .push args (.ofNat (items.length + args.size))
      (items ++ args.toList.map some)) ∧
    Transforms m c s id .pop args ((items.getLast?).join.getD .undefined) items.dropLast ∧
    Transforms m c s id .shift args ((items.head?).join.getD .undefined) items.tail ∧
    (items.length + args.size < 2 ^ 32 → Transforms m c s id .unshift args
      (.ofNat (items.length + args.size)) (args.toList.map some ++ items)) ∧
    Transforms m c s id .reverse args (.object id) items.reverse ∧
    ∀ start count s', Cuts m c s args items.length start count s' → start + count ≤ items.length ∧
      (s'.Lists id items → items.length + (args.size - 2) - count < 2 ^ 32 →
        ∃ removed s'', (arrayFunction .splice (.object id) args).Gives m c s (.object removed) s'' ∧
          (s''.object removed).Holds ((items.drop start).take count) ∧
          (s''.object id).Holds
            (items.take start ++ (args.toList.drop 2).map some ++ items.drop (start + count))) :=
  ⟨push_value hm hc h, pop_value hc h, shift_value hm hc h, unshift_value hm hc h, reverse_value hm hc h,
    fun _ _ _ hcut => ⟨hcut.le, fun h' hlen => gives_splice hm hc hcut h h' hlen⟩⟩

end Exec

/-- Three elements, of which the second one is a hole. -/
def State.withHole : State := .withItems #[some .undefined, none, some .null] true ⟨1⟩

namespace Exec

/-- `true` is added to an array with a hole, its first element is taken away, it is reversed, and `true` is put
in the place of the hole. -/
theorem mutators_as_on_lists_hole :
    Transforms (machine ampleFuel) default .withHole ⟨0⟩ .push #[.boolean true] (.ofNat 4)
      [some .undefined, none, some .null, some (.boolean true)] ∧
    Transforms (machine ampleFuel) default .withHole ⟨0⟩ .shift #[] .undefined [none, some .null] ∧
    Transforms (machine ampleFuel) default .withHole ⟨0⟩ .reverse #[] (.object ⟨0⟩)
      [some .null, none, some .undefined] ∧
    ∃ removed s', (arrayFunction .splice (.object ⟨0⟩) #[.number (-2.0), .number 1.0, .boolean true]).Gives
        (machine ampleFuel) default .withHole (.object removed) s' ∧ (s'.object removed).Holds [none] ∧
      (s'.object ⟨0⟩).Holds [some .undefined, some (.boolean true), some .null] := by
  have hm : 2 ^ 32 ≤ (machine ampleFuel).fuel := by decide
  have hc : (default : Context).MayChange ⟨0⟩ := fun hdry => by cases hdry
  have hlists : State.withHole.Lists ⟨0⟩ [some .undefined, none, some .null] :=
    State.lists_withItems #[some .undefined, none, some .null] (by decide)
  obtain ⟨-, -, hshift, -, hreverse, -⟩ := mutators_as_on_lists #[] hm hc hlists
  refine ⟨(mutators_as_on_lists #[.boolean true] hm hc hlists).1 (by decide), hshift, hreverse, ?_⟩
  let args : Array Value := #[.number (-2.0), .number 1.0, .boolean true]
  have hcut : Cuts (machine ampleFuel) default .withHole args 3 (place 3 (-2.0))
      (min (Number.integerPart 3 1.0).toNat (3 - place 3 (-2.0))) .withHole :=
    .counted (show 2 ≤ args.size by decide) (gives_pure.mpr ⟨rfl, rfl⟩) (gives_pure.mpr ⟨rfl, rfl⟩)
  rw [show place 3 (-2.0) = 1 by decide +kernel,
    show (Number.integerPart 3 1.0).toNat = 1 by decide +kernel] at hcut
  exact ((mutators_as_on_lists args hm hc hlists).2.2.2.2.2 1 1 _ hcut).2 hlists (by decide)

end Exec

/-- An array whose `valueOf` removes its last element. -/
def State.withPop : State := { (default : State) with
  heap := #[(Object.ofItems #[some .undefined] true ⟨1⟩).put (.name "valueOf") (.plain (.object ⟨2⟩)),
    { prototype := none },
    { kind := .function (.native "pop" (.array .pop)), prototype := some ⟨1⟩ }] }

theorem State.displays_withPop : withPop.Displays ⟨0⟩ [some .undefined] := by
  have hown (key : PropertyKey) (hkey : key ≠ .name "valueOf") : (withPop.object ⟨0⟩).own? key =
      (Object.ofItems #[some .undefined] true ⟨1⟩).own? key := by
    change (Object.put _ _ _).own? key = _
    rw [Object.own?_put, if_neg hkey]
  obtain ⟨⟨w, harray⟩, -, hshows, -⟩ := displays_withItems #[some .undefined] true ⟨1⟩
    (by decide)
  refine ⟨⟨w, harray.congr rfl (hown _ (by decide)) fun i hi => ?_⟩, rfl, fun i => ?_, fun p hp hne i => ?_⟩
  · rwa [hown _ (by simp)] at hi
  · rw [hown _ (by simp)]
    exact hshows i
  · obtain ⟨_ | _ | _ | k⟩ := p
    · exact absurd rfl hne
    · rfl
    · rfl
    · rfl

/-- Nothing is added to an empty array. -/
def RefusesPush (c : Context) (s : State) : Prop :=
  s.Displays ⟨0⟩ [] ∧ ∃ e s', (Exec.arrayFunction .push (.object ⟨0⟩) #[.null]).Comes (machine 10) c s
    (.error e) s' ∧ ¬ (s'.object ⟨0⟩).Holds [some .null]

theorem refusesPush_withItems {c : Context} {writable : Bool} {prototype : ObjectId}
    (h : ((Exec.arrayFunction .push (.object ⟨0⟩) #[.null] (machine 10) c
      (.withItems #[] writable prototype)).endsIn
        fun r s' => !r.toBool && s'.lacks 0 (.object ⟨0⟩)) = true) :
    RefusesPush c (.withItems #[] writable prototype) := by
  obtain ⟨e, s', hfails, hlacks⟩ := Step.fails_of_endsIn h
  exact ⟨State.displays_withItems _ _ _ (by decide), e, s', hfails, State.not_holds_of_lacks hlacks rfl⟩

/-- Other arrays are no lists: a fixed length and a proxy among the prototypes let `push` fail, a dry run
leaves older arrays alone, and `splice` loses an element that its argument removes while it is made a
number. -/
theorem mutators_beyond_lists :
    RefusesPush default (.withItems #[] false ⟨1⟩) ∧ RefusesPush default (.withItems #[] true ⟨2⟩) ∧
    RefusesPush .dry (.withItems #[] true ⟨1⟩) ∧
    State.withPop.Displays ⟨0⟩ [some .undefined] ∧ ∃ removed s',
      (Exec.arrayFunction .splice (.object ⟨0⟩) #[.object ⟨0⟩]).Gives (machine 10) default .withPop
        (.object removed) s' ∧ ¬ (s'.object ⟨0⟩).Holds [some .undefined] ∧
        ¬ (s'.object removed).Holds [some .undefined] := by
  refine ⟨refusesPush_withItems (by decide +kernel), refusesPush_withItems (by decide +kernel),
    refusesPush_withItems (by decide +kernel), State.displays_withPop, ?_⟩
  obtain ⟨r, s', houtcome, hends⟩ := Step.outcome_of_endsIn (show ((Exec.arrayFunction .splice
    (.object ⟨0⟩) #[.object ⟨0⟩] (machine 10) default .withPop).endsIn fun r s' =>
      r.toOption.any (s'.lacks 0) && s'.lacks 0 (.object ⟨0⟩)) = true by decide +kernel)
  obtain ⟨hr, hlacks⟩ := Bool.and_eq_true_iff.mp hends
  cases r with
  | error e => cases hr
  | ok v =>
    cases v with
    | object removed =>
      exact ⟨removed, s', houtcome, State.not_holds_of_lacks hlacks rfl,
        State.not_holds_of_lacks hr rfl⟩
    | _ => cases hr

end EcmaScript
