import EcmaScript.Proofs.Elements

/-! Sorting: whatever the comparison answers, nothing is lost or made up, and if it answers as an order
does, the elements come out in that order. -/
namespace EcmaScript

/-- A list is merged from two others, by the answers to whether a front of the first one belongs behind
that of the second one. `P` says which answers there may be. -/
inductive Merges (P : Value → Value → Bool → Prop) : (left right merged : List Value) → Prop where
  | rest (right : List Value) : Merges P [] right right
  | done (left : List Value) : Merges P left [] left
  | second {a b : Value} {left right merged : List Value} (h : P a b true)
    (hm : Merges P (a :: left) right merged) : Merges P (a :: left) (b :: right) (b :: merged)
  | first {a b : Value} {left right merged : List Value} (h : P a b false)
    (hm : Merges P left (b :: right) merged) : Merges P (a :: left) (b :: right) (a :: merged)

/-- A list is sorted in parts that are merged. -/
inductive Sorts (P : Value → Value → Bool → Prop) : (items sorted : List Value) → Prop where
  | short {items : List Value} (h : items.length ≤ 1) : Sorts P items items
  | parts {items left right sorted : List Value} {k : Nat} (hl : Sorts P (items.take k) left)
    (hr : Sorts P (items.drop k) right) (hm : Merges P left right sorted) : Sorts P items sorted

variable {P : Value → Value → Bool → Prop} {left right merged items sorted : List Value}

theorem Merges.perm (h : Merges P left right merged) : merged.Perm (left ++ right) := by
  induction h with
  | rest right => exact .refl _
  | done left => rw [List.append_nil]
  | second _ _ ih => exact (ih.cons _).trans List.perm_middle.symm
  | first _ _ ih => exact ih.cons _

theorem Sorts.perm (h : Sorts P items sorted) : sorted.Perm items := by
  induction h with
  | short => exact .refl _
  | parts _ _ hm ihl ihr =>
    have h := hm.perm.trans (ihl.append ihr)
    rwa [List.take_append_drop] at h

/-- A total preorder on some values. -/
structure IsTotalPreorderOn (le : Value → Value → Bool) (S : Value → Prop) : Prop where
  total {a b : Value} (ha : S a) (hb : S b) : le a b = true ∨ le b a = true
  trans {a b c : Value} (ha : S a) (hb : S b) (hc : S c) (hab : le a b = true) (hbc : le b c = true) :
    le a c = true

def Strictly (le : Value → Value → Bool) (a b : Value) (answer : Bool) : Prop := answer = !le a b

def Equivalent (le : Value → Value → Bool) (a b : Value) : Bool := le a b && le b a

section Order
variable {le : Value → Value → Bool} {S : Value → Prop} (hle : IsTotalPreorderOn le S)
include hle

theorem Merges.ordered (h : Merges (Strictly le) left right merged) (hSl : ∀ a ∈ left, S a)
    (hSr : ∀ b ∈ right, S b) (hl : left.Pairwise (le · ·)) (hr : right.Pairwise (le · ·)) :
    merged.Pairwise (le · ·) := by
  induction h with
  | rest => exact hr
  | done => exact hl
  | @second a b left right merged h hm ih =>
    obtain ⟨hb, hSr⟩ := List.forall_mem_cons.mp hSr
    obtain ⟨hbr, hr⟩ := List.pairwise_cons.mp hr
    have ha := hSl a List.mem_cons_self
    have hab : le a b = false := by simpa [Strictly] using h
    have hba : le b a = true := (hle.total hb ha).resolve_right (by simp [hab])
    refine List.pairwise_cons.mpr ⟨fun x hx => ?_, ih hSl hSr hl hr⟩
    rcases List.mem_append.mp (hm.perm.mem_iff.mp hx) with hx | hx
    · rcases List.mem_cons.mp hx with rfl | hx'
      · exact hba
      · exact hle.trans hb ha (hSl x hx) hba ((List.pairwise_cons.mp hl).1 x hx')
    · exact hbr x hx
  | @first a b left right merged h hm ih =>
    obtain ⟨ha, hSl⟩ := List.forall_mem_cons.mp hSl
    obtain ⟨hal, hl⟩ := List.pairwise_cons.mp hl
    have hb := hSr b List.mem_cons_self
    have hab : le a b = true := by simpa [Strictly] using h
    refine List.pairwise_cons.mpr ⟨fun x hx => ?_, ih hSl hSr hl hr⟩
    rcases List.mem_append.mp (hm.perm.mem_iff.mp hx) with hx | hx
    · exact hal x hx
    · rcases List.mem_cons.mp hx with rfl | hx'
      · exact hab
      · exact hle.trans ha hb (hSr x hx) hab ((List.pairwise_cons.mp hr).1 x hx')

theorem Merges.stable (h : Merges (Strictly le) left right merged) (hSl : ∀ a ∈ left, S a)
    (hSr : ∀ b ∈ right, S b) (hl : left.Pairwise (le · ·)) {v : Value} (hv : S v) :
    merged.filter (Equivalent le v) =
      left.filter (Equivalent le v) ++ right.filter (Equivalent le v) := by
  induction h with
  | rest => rfl
  | done => rw [List.filter_nil, List.append_nil]
  | @second a b left right merged h hm ih =>
    obtain ⟨hb, hSr⟩ := List.forall_mem_cons.mp hSr
    have ha := hSl a List.mem_cons_self
    have hab : le a b = false := by simpa [Strictly] using h
    rw [List.filter_cons, ih hSl hSr hl, List.filter_cons (x := b)]
    split
    · rename_i hvb
      -- `b` and what is equivalent to it are less than `a`, which comes first in its list
      have hnone : (a :: left).filter (Equivalent le v) = [] := by
        refine List.filter_eq_nil_iff.mpr fun x hx hvx => ?_
        simp only [Equivalent, Bool.and_eq_true] at hvb hvx
        have hxb := hle.trans (hSl x hx) hv hb hvx.2 hvb.1
        have hax : x = a ∨ le a x = true :=
          (List.mem_cons.mp hx).imp_right ((List.pairwise_cons.mp hl).1 x)
        rcases hax with rfl | hax
        · simp [hab] at hxb
        · simp [hle.trans ha (hSl x hx) hb hax hxb] at hab
      rw [hnone]
      rfl
    · rfl
  | @first a b left right merged h hm ih =>
    obtain ⟨ha, hSl⟩ := List.forall_mem_cons.mp hSl
    rw [List.filter_cons, ih hSl hSr (List.pairwise_cons.mp hl).2, List.filter_cons (x := a)]
    split <;> rfl

end Order

/-- A list in an order, in which equivalent values stand as they stood in the list it is made of. -/
structure Arranges (le : Value → Value → Bool) (items sorted : List Value) : Prop where
  ordered : sorted.Pairwise (le · ·)
  stable : ∀ v ∈ items, sorted.filter (Equivalent le v) = items.filter (Equivalent le v)

theorem Sorts.arranges {le : Value → Value → Bool} (hle : IsTotalPreorderOn le (· ∈ items))
    (h : Sorts (Strictly le) items sorted) : Arranges le items sorted := by
  suffices hparts : ∀ S, IsTotalPreorderOn le S → (∀ a ∈ items, S a) → sorted.Pairwise (le · ·) ∧
      ∀ v, S v → sorted.filter (Equivalent le v) = items.filter (Equivalent le v) from
    have := hparts _ hle fun _ ha => ha
    ⟨this.1, this.2⟩
  clear hle
  intro S hle hS
  induction h with
  | @short items h =>
    refine ⟨?_, fun v _ => rfl⟩
    rcases items with _ | ⟨a, _ | ⟨b, rest⟩⟩
    · exact .nil
    · exact List.pairwise_singleton _ _
    · simp at h
  | @parts items left right sorted k hl hr hm ihl ihr =>
    have htake : ∀ a ∈ items.take k, S a := fun a ha => hS a (List.mem_of_mem_take ha)
    have hdrop : ∀ a ∈ items.drop k, S a := fun a ha => hS a (List.mem_of_mem_drop ha)
    have hleft : ∀ a ∈ left, S a := fun a ha => htake a (hl.perm.mem_iff.mp ha)
    have hright : ∀ a ∈ right, S a := fun a ha => hdrop a (hr.perm.mem_iff.mp ha)
    obtain ⟨hol, hsl⟩ := ihl htake
    obtain ⟨hor, hsr⟩ := ihr hdrop
    refine ⟨hm.ordered hle hleft hright hol hor, fun v hv => ?_⟩
    rw [hm.stable hle hleft hright hol hv, hsl v hv, hsr v hv, ← List.filter_append,
      List.take_append_drop]

namespace Exec
variable {m : Machine} {c : Context} {s : State} {I : State → Prop}

/-- A way to say what a computation comes to, which goes along with how computations are put together. -/
structure Judgement (m : Machine) (c : Context) where
  holds {α : Type} : Exec α → State → (α → State → Prop) → Prop
  pure {α : Type} {a : α} {s : State} {Q : α → State → Prop} (h : Q a s) : holds (Pure.pure a) s Q
  bind {α β : Type} {x : Exec α} {f : α → Exec β} {s : State} {R : α → State → Prop}
    {Q : β → State → Prop} (hx : holds x s R) (hf : ∀ a s', R a s' → holds (f a) s' Q) :
    holds (x >>= f) s Q

namespace Judgement

def certain : Judgement m c where
  holds x s Q := ∃ a s', x.Gives m c s a s' ∧ Q a s'
  pure h := ⟨_, _, gives_pure.mpr ⟨rfl, rfl⟩, h⟩
  bind := by
    rintro _ _ x f s R Q ⟨a, s₁, hx, hR⟩ hf
    obtain ⟨b, s', hb, hQ⟩ := hf a s₁ hR
    exact ⟨b, s', gives_bind.mpr ⟨a, s₁, hx, hb⟩, hQ⟩

/-- Every result that the computation can come to is as it should be, and so is the state after every
failure. -/
def possible (E : State → Prop) : Judgement m c where
  holds x s Q :=
    (∀ a s', x.Comes m c s (.ok a) s' → Q a s') ∧ ∀ e s', x.Comes m c s (.error e) s' → E s'
  pure := by
    intro _ a s Q h
    refine ⟨fun a' s' ha => ?_, fun e s' he => ?_⟩
    · obtain ⟨heq, rfl⟩ := comes_pure.mp ha
      cases heq
      exact h
    · cases (comes_pure.mp he).1
  bind := by
    intro _ _ x f s R Q hx hf
    refine ⟨fun b s' hb => ?_, fun e s' he => ?_⟩
    · obtain ⟨a, s₁, ha, hb⟩ := comes_bind_ok.mp hb
      exact (hf a s₁ (hx.1 a s₁ ha)).1 b s' hb
    · obtain ⟨a, s₁, ha, he⟩ | ⟨e', he, heq⟩ := comes_bind.mp he
      · exact (hf a s₁ (hx.1 a s₁ ha)).2 e s' he
      · exact hx.2 e' s' he

theorem holds.mono {J : Judgement m c} {α : Type} {x : Exec α} {Q R : α → State → Prop}
    (h : J.holds x s R) (hQ : ∀ a s', R a s' → Q a s') : J.holds x s Q := by
  rw [← bind_pure x]
  exact J.bind h fun a s' hR => J.pure (hQ a s' hR)

end Judgement

variable {J : Judgement m c} {P : Value → Value → Bool → Prop} {greater : Value → Value → Exec Bool}
  {values : List Value}

def Compares (J : Judgement m c) (I : State → Prop) (P : Value → Value → Bool → Prop)
    (greater : Value → Value → Exec Bool) (values : List Value) : Prop :=
  ∀ a ∈ values, ∀ b ∈ values, ∀ s, I s → J.holds (greater a b) s fun answer s' => P a b answer ∧ I s'

theorem Compares.mono {values' : List Value} (h : Compares J I P greater values)
    (hsub : values' ⊆ values) : Compares J I P greater values' :=
  fun a ha b hb => h a (hsub ha) b (hsub hb)

theorem merge_holds {left right : List Value} (h : Compares J I P greater (left ++ right)) (hI : I s)
    (out : List Value) : J.holds (merge greater left right out) s fun merged s' =>
      (∃ rest, merged = out.reverse ++ rest ∧ Merges P left right rest) ∧ I s' := by
  induction left, right, out using merge.induct generalizing s with
  | case1 right out =>
    rw [merge]
    exact J.pure ⟨⟨_, rfl, .rest _⟩, hI⟩
  | case2 out a left =>
    rw [merge]
    exact J.pure ⟨⟨_, rfl, .done _⟩, hI⟩
  | case3 a left b right out ihs ihf =>
    rw [merge]
    refine J.bind (h a (by simp) b (by simp) s hI) ?_
    rintro answer s₁ ⟨hP, hI₁⟩
    cases answer with
    | true =>
      refine (ihs (h.mono (by grind)) hI₁).mono ?_
      rintro _ s' ⟨⟨rest, rfl, hm⟩, hI'⟩
      exact ⟨⟨b :: rest, by simp, .second hP hm⟩, hI'⟩
    | false =>
      refine (ihf (h.mono (by simp)) hI₁).mono ?_
      rintro _ s' ⟨⟨rest, rfl, hm⟩, hI'⟩
      exact ⟨⟨a :: rest, by simp, .first hP hm⟩, hI'⟩

theorem mergeSort_holds {items : List Value} (h : Compares J I P greater items) (hI : I s) :
    J.holds (mergeSort greater items) s fun sorted s' => Sorts P items sorted ∧ I s' := by
  induction items using mergeSort.induct generalizing s with
  | case1 items hshort =>
    rw [mergeSort, dif_pos hshort]
    exact J.pure ⟨.short hshort, hI⟩
  | case2 items hlong ihl ihr =>
    rw [mergeSort, dif_neg hlong]
    refine J.bind (ihl (h.mono (List.take_subset _ _)) hI) ?_
    rintro left s₁ ⟨hl, hI₁⟩
    refine J.bind (ihr (h.mono (List.drop_subset _ _)) hI₁) ?_
    rintro right s₂ ⟨hr, hI₂⟩
    have hsub : left ++ right ⊆ items :=
      List.append_subset.mpr ⟨List.Subset.trans hl.perm.subset (List.take_subset _ _),
        List.Subset.trans hr.perm.subset (List.drop_subset _ _)⟩
    refine (merge_holds (h.mono hsub) hI₂ []).mono ?_
    rintro _ s' ⟨⟨rest, rfl, hm⟩, hI'⟩
    exact ⟨.parts hl hr hm, hI'⟩

end Exec

def definedIn (values : List Value) : List Value := values.filter fun v => !v.isUndefined

def presentIn (items : List (Option Value)) : List Value := items.filterMap id

/-- The values of a list with holes in another order: none is lost or added, those that are undefined come
last, and the holes are counted. -/
structure IsSorting (items : List (Option Value)) (sorted : List Value) (holes : Nat) : Prop where
  perm : sorted.Perm (presentIn items)
  last : ∃ n, sorted = definedIn sorted ++ List.replicate n .undefined
  holes : holes = items.countP (·.isNone)

theorem length_presentIn (items : List (Option Value)) :
    (presentIn items).length + items.countP (·.isNone) = items.length := by
  have hsome : items.countP (fun item => decide ¬item.isNone = true) =
      items.countP fun item => (id item).isSome :=
    List.countP_congr fun item _ => by cases item <;> simp
  rw [presentIn, List.length_filterMap_eq_countP, List.length_eq_countP_add_countP (·.isNone), hsome,
    Nat.add_comm]

theorem IsSorting.length_eq {items : List (Option Value)} {sorted : List Value} {holes : Nat}
    (h : IsSorting items sorted holes) :
    (sorted.map some ++ List.replicate holes none).length = items.length := by
  rw [List.length_append, List.length_map, List.length_replicate, h.holes, h.perm.length_eq,
    length_presentIn]

theorem isSorting_append {items : List (Option Value)} {sorted : List Value}
    (h : sorted.Perm (definedIn (presentIn items))) :
    IsSorting items (sorted ++ (presentIn items).filter (·.isUndefined))
        (items.length - (presentIn items).length) ∧
      definedIn (sorted ++ (presentIn items).filter (·.isUndefined)) = sorted := by
  have hdefined : definedIn (sorted ++ (presentIn items).filter (·.isUndefined)) = sorted := by
    rw [definedIn, List.filter_append, List.filter_filter,
      List.filter_eq_self.mpr fun v hv => (List.mem_filter.mp (h.mem_iff.mp hv)).2]
    simp
  refine ⟨⟨?_, ⟨((presentIn items).filter (·.isUndefined)).length, ?_⟩, ?_⟩, hdefined⟩
  · exact (h.append_right _).trans (List.perm_append_comm.trans (List.filter_append_perm _ _))
  · rw [hdefined]
    refine congrArg _ (List.eq_replicate_iff.mpr ⟨rfl, fun v hv => ?_⟩)
    have hundefined := (List.mem_filter.mp hv).2
    cases v <;> first | rfl | cases hundefined
  · rw [← length_presentIn items, Nat.add_sub_cancel_left]

namespace Exec
variable {m : Machine} {c : Context} {s : State} {I : State → Prop} {J : Judgement m c}

theorem sortElements_holds {items : Array (Option Value)} {comparison : Value}
    (h : Compares J I P (sortsAfter comparison) (definedIn (presentIn items.toList))) (hI : I s) :
    J.holds (sortElements items comparison) s fun r s' => IsSorting items.toList r.1.toList r.2 ∧
      Sorts P (definedIn (presentIn items.toList)) (definedIn r.1.toList) ∧ I s' := by
  rw [sortElements]
  simp only [List.partition_eq_filter_filter]
  refine J.bind (mergeSort_holds h hI) ?_
  rintro sorted s' ⟨hsorts, hI'⟩
  obtain ⟨hsorting, hdefined⟩ := isSorting_append hsorts.perm
  refine J.pure ⟨hsorting, ?_, hI'⟩
  change Sorts P _ (definedIn (sorted ++ (presentIn items.toList).filter (·.isUndefined)))
  rw [hdefined]
  exact hsorts

end Exec

def textLe (text : Value → String) (a b : Value) : Bool :=
  decide ((Text.units (text a)).toList ≤ (Text.units (text b)).toList)

theorem isTotalPreorderOn_textLe {text : Value → String} {S : Value → Prop} :
    IsTotalPreorderOn (textLe text) S where
  total _ _ := by
    simp only [textLe, decide_eq_true_iff]
    exact List.le_total _ _
  trans _ _ _ hab hbc := by
    simp only [textLe, decide_eq_true_iff] at *
    exact List.le_trans hab hbc

theorem Text.unitsLt_iff {as bs : List UInt16} : Text.unitsLt as bs = true ↔ as < bs := by
  fun_induction Text.unitsLt as bs with
  | case1 => simp
  | case2 => simp
  | case3 a as b bs heq ih => simp_all
  | case4 a as b bs hne => simp_all [List.cons_lt_cons_iff]

theorem before_eq_not_textLe {text : Value → String} {a b : Value} :
    Text.before (text b) (text a) = !textLe text a b := by
  rw [Bool.eq_iff_iff, Text.before, Text.unitsLt_iff]
  simp [textLe]

namespace Exec

/-- A comparison of two defined elements of a list always returns an answer, one of those that there may be.
`I` is what it keeps. -/
def Answers (m : Machine) (c : Context) (I : State → Prop) (P : Value → Value → Bool → Prop)
    (comparison : Value) (items : List (Option Value)) : Prop :=
  ∀ a ∈ definedIn (presentIn items), ∀ b ∈ definedIn (presentIn items), ∀ s, I s →
    ∃ answer s', (sortsAfter comparison a b).Gives m c s answer s' ∧ P a b answer ∧ I s'

/-- Whatever a comparison of two defined elements of a list comes to, it keeps `I`. -/
def Leaves (m : Machine) (c : Context) (I : State → Prop) (comparison : Value)
    (items : List (Option Value)) : Prop :=
  ∀ a ∈ definedIn (presentIn items), ∀ b ∈ definedIn (presentIn items), ∀ s r s', I s →
    (sortsAfter comparison a b).Comes m c s r s' → I s'

variable {m : Machine} {c : Context} {s s' : State} {I : State → Prop} {comparison : Value}

theorem gives_sortElements (items : Array (Option Value))
    (h : Answers m c I P comparison items.toList) (hI : I s) :
    ∃ sorted holes s', (sortElements items comparison).Gives m c s (sorted, holes) s' ∧ I s' ∧
      IsSorting items.toList sorted.toList holes ∧
      Sorts P (definedIn (presentIn items.toList)) (definedIn sorted.toList) := by
  obtain ⟨⟨sorted, holes⟩, s', hgives, hsorting, hsorts, hI'⟩ :=
    sortElements_holds (J := Judgement.certain) h hI
  exact ⟨sorted, holes, s', hgives, hI', hsorting, hsorts⟩

theorem comes_sortElements_error (items : Array (Option Value)) {e : Abrupt}
    (h : Leaves m c I comparison items.toList) (hI : I s)
    (he : (sortElements items comparison).Comes m c s (.error e) s') : I s' := by
  have hcompares : Compares (Judgement.possible (m := m) (c := c) I) I (fun _ _ _ => True)
      (sortsAfter comparison) (definedIn (presentIn items.toList)) := fun a ha b hb s hI =>
    ⟨fun answer s' hr => ⟨trivial, h a ha b hb s _ s' hI hr⟩, fun e s' hr => h a ha b hb s _ s' hI hr⟩
  exact (sortElements_holds hcompares hI).2 e s' he

theorem answers_texts {text : Value → String} {items : List (Option Value)}
    (h : ∀ v ∈ definedIn (presentIn items), ∀ s, I s → ∃ s', (toText v).Gives m c s (text v) s' ∧ I s') :
    Answers m c I (Strictly (textLe text)) .undefined items := by
  intro a ha b hb s hI
  obtain ⟨s₁, hx, hI₁⟩ := h a ha s hI
  obtain ⟨s', hy, hI'⟩ := h b hb s₁ hI₁
  refine ⟨Text.before (text b) (text a), s', ?_, before_eq_not_textLe, hI'⟩
  exact gives_bind.mpr ⟨_, s₁, hx, gives_bind.mpr ⟨_, s', hy, gives_pure.mpr ⟨rfl, rfl⟩⟩⟩

section InPlace
variable {id : ObjectId} {items : List (Option Value)} {args : Array Value}

theorem comparisonArgument_value (hf : (argument args 0).isUndefined = true ∨
    s.callableValue (argument args 0) = true) :
    comparisonArgument args m c s = .value (argument args 0) s := by
  have hpasses : (!(argument args 0).isUndefined && !s.callableValue (argument args 0)) = false := by
    rcases hf with hf | hf <;> simp [hf]
  rw [comparisonArgument, bind_value (show isCallable _ m c s = .value (s.callableValue _) s from rfl)]
  dsimp only
  rw [hpasses]
  rfl

/-- Of an array that is a list, `sort` sorts the list and writes it back. -/
theorem sort_eq (hm : 2 ^ 32 ≤ m.fuel) (h : s.Lists id items)
    (hf : (argument args 0).isUndefined = true ∨ s.callableValue (argument args 0) = true) :
    arrayFunction .sort (.object id) args m c s = (do
      let r ← sortElements items.toArray (argument args 0)
      writeBack id (r.1.map some ++ Array.replicate r.2 none) items.length
      return .object id : Exec Value) m c s := by
  change (comparisonArgument args >>= _) m c s = _
  rw [bind_value (comparisonArgument_value hf), bind_value (receiver_value h)]
  dsimp only
  rw [bind_value (elements_value h hm)]

theorem writeBack_sorted {sorted : Array Value} {holes : Nat} (hm : 2 ^ 32 ≤ m.fuel) (hc : c.MayChange id)
    (h : s.Lists id items) (hsorting : IsSorting items sorted.toList holes) :
    ∃ s', writeBack id (sorted.map some ++ Array.replicate holes none) items.length m c s = .value () s' ∧
      s.Rewrites id s' ∧ s'.Lists id (sorted.toList.map some ++ List.replicate holes none) := by
  have htoList : (sorted.map some ++ Array.replicate holes none).toList =
      sorted.toList.map some ++ List.replicate holes none := by simp
  obtain ⟨s', hwrite, hrewrites, h'⟩ := writeBack_value (m := m)
    (sorted.map some ++ Array.replicate holes none) hc h hm (by
      rw [← Array.length_toList, htoList, hsorting.length_eq]
      exact h.stores.lt)
  exact ⟨s', hwrite, hrewrites, htoList ▸ h'⟩

/-- What has been sorted is stored in the array. -/
theorem gives_sort (hm : 2 ^ 32 ≤ m.fuel) (hc : c.MayChange id) (hlists : ∀ s, I s → s.Lists id items)
    (hf : (argument args 0).isUndefined = true ∨ s.callableValue (argument args 0) = true)
    (h : Answers m c I P (argument args 0) items) (hI : I s) : ∃ sorted holes s₁ s',
      (sortElements items.toArray (argument args 0)).Gives m c s (sorted, holes) s₁ ∧
      (arrayFunction .sort (.object id) args).Gives m c s (.object id) s' ∧ s₁.Rewrites id s' ∧
      s'.Lists id (sorted.toList.map some ++ List.replicate holes none) ∧
      (sorted.toList.map some ++ List.replicate holes none).length = items.length := by
  obtain ⟨sorted, holes, s₁, hgives, hI₁, hsorting, -⟩ :=
    gives_sortElements items.toArray h hI
  obtain ⟨s', hwrite, hrewrites, h'⟩ := writeBack_sorted hm hc (hlists s₁ hI₁) hsorting
  refine ⟨sorted, holes, s₁, s', hgives, ?_, hrewrites, h', hsorting.length_eq⟩
  rw [Gives, sort_eq hm (hlists s hI) hf]
  exact gives_bind.mpr ⟨_, s₁, hgives, (gives_bind_value hwrite).mpr (gives_pure.mpr ⟨rfl, rfl⟩)⟩

theorem comes_sort_error {e : Abrupt} (hm : 2 ^ 32 ≤ m.fuel) (hlists : s.Lists id items)
    (hf : (argument args 0).isUndefined = true ∨ s.callableValue (argument args 0) = true)
    (he : (sortElements items.toArray (argument args 0)).Comes m c s (.error e) s') :
    (arrayFunction .sort (.object id) args).Comes m c s (.error e) s' := by
  rw [Comes, sort_eq hm hlists hf]
  exact comes_bind.mpr (.inr ⟨e, he, rfl⟩)

end InPlace

/-- Sorting a list with holes, whatever the comparisons do besides answering: `I` is what they keep. If all
of them answer, no element is lost or added; if they answer as an order does, such as that of the texts, the
elements are in that order, and equivalent ones stand as they stood. `sort` writes what has been sorted over
an array that the comparisons leave alone; and it fails as a comparison does, and then writes nothing. -/
theorem sorting_sound (m : Machine) (c : Context) (s : State) (I : State → Prop) (hI : I s) :
    (∀ items comparison, Answers m c I (fun _ _ _ => True) comparison items.toList →
      ∃ sorted holes s', (sortElements items comparison).Gives m c s (sorted, holes) s' ∧ I s' ∧
        IsSorting items.toList sorted.toList holes) ∧
    (∀ items comparison le, IsTotalPreorderOn le (· ∈ definedIn (presentIn items.toList)) →
      Answers m c I (Strictly le) comparison items.toList →
      ∃ sorted holes s', (sortElements items comparison).Gives m c s (sorted, holes) s' ∧ I s' ∧
        IsSorting items.toList sorted.toList holes ∧
        Arranges le (definedIn (presentIn items.toList)) (definedIn sorted.toList)) ∧
    (∀ items text, (∀ v ∈ definedIn (presentIn items.toList), ∀ s, I s →
        ∃ s', (toText v).Gives m c s (text v) s' ∧ I s') →
      ∃ sorted holes s', (sortElements items .undefined).Gives m c s (sorted, holes) s' ∧ I s' ∧
        IsSorting items.toList sorted.toList holes ∧
        Arranges (textLe text) (definedIn (presentIn items.toList)) (definedIn sorted.toList)) ∧
    ∀ id items args, 2 ^ 32 ≤ m.fuel → (∀ s, I s → s.Lists id items) →
      (argument args 0).isUndefined = true ∨ s.callableValue (argument args 0) = true →
      (c.MayChange id → Answers m c I (fun _ _ _ => True) (argument args 0) items →
        ∃ sorted holes s₁ s',
          (sortElements items.toArray (argument args 0)).Gives m c s (sorted, holes) s₁ ∧
          (arrayFunction .sort (.object id) args).Gives m c s (.object id) s' ∧ s₁.Rewrites id s' ∧
          s'.Lists id (sorted.toList.map some ++ List.replicate holes none) ∧
          (sorted.toList.map some ++ List.replicate holes none).length = items.length) ∧
      (Leaves m c I (argument args 0) items → ∀ e s',
        (sortElements items.toArray (argument args 0)).Comes m c s (.error e) s' →
        (arrayFunction .sort (.object id) args).Comes m c s (.error e) s' ∧ I s') := by
  refine ⟨fun items comparison h => ?_, fun items comparison le hle h => ?_, fun items text htext => ?_,
    fun id items args hm hlists hf => ⟨fun hc h => gives_sort hm hc hlists hf h hI, fun h e s' he => ?_⟩⟩
  · obtain ⟨sorted, holes, s', hgives, hI', hsorting, -⟩ := gives_sortElements _ h hI
    exact ⟨sorted, holes, s', hgives, hI', hsorting⟩
  · obtain ⟨sorted, holes, s', hgives, hI', hsorting, hsorts⟩ := gives_sortElements _ h hI
    exact ⟨sorted, holes, s', hgives, hI', hsorting, hsorts.arranges hle⟩
  · obtain ⟨sorted, holes, s', hgives, hI', hsorting, hsorts⟩ :=
      gives_sortElements _ (answers_texts htext) hI
    exact ⟨sorted, holes, s', hgives, hI', hsorting, hsorts.arranges isTotalPreorderOn_textLe⟩
  · exact ⟨comes_sort_error hm (hlists s hI) hf he,
      comes_sortElements_error items.toArray h hI he⟩

/-- Two texts are sorted, with a hole between them. -/
theorem sorting_sound_texts :
    (∃ sorted holes s', (sortElements #[some (.string "b"), none, some (.string "a")] .undefined).Gives
        (machine ampleFuel) default (.withItems #[some (.string "b"), none, some (.string "a")] true ⟨1⟩)
        (sorted, holes) s' ∧
      IsSorting [some (.string "b"), none, some (.string "a")] sorted.toList holes ∧
      Arranges (textLe (·.primitiveText)) [.string "b", .string "a"] (definedIn sorted.toList)) ∧
    ∃ (sorted : List Value) (holes : Nat) (s' : State),
      (arrayFunction .sort (.object ⟨0⟩) #[]).Gives (machine ampleFuel) default
        (.withItems #[some (.string "b"), none, some (.string "a")] true ⟨1⟩) (.object ⟨0⟩) s' ∧
      s'.Lists ⟨0⟩ (sorted.map some ++ List.replicate holes none) ∧
      (sorted.map some ++ List.replicate holes none).length = 3 := by
  let s : State := .withItems #[some (.string "b"), none, some (.string "a")] true ⟨1⟩
  have htext : ∀ v ∈ definedIn (presentIn [some (.string "b"), none, some (.string "a")]), ∀ s₁, s₁ = s →
      ∃ s', (toText v).Gives (machine ampleFuel) default s₁ v.primitiveText s' ∧ s' = s := by
    intro v hv s₁ hs₁
    have hcases : v = .string "b" ∨ v = .string "a" := by
      simpa [definedIn, presentIn, Value.isUndefined] using hv
    rcases hcases with rfl | rfl <;> exact ⟨s₁, gives_pure.mpr ⟨rfl, rfl⟩, hs₁⟩
  obtain ⟨-, -, htexts, harrays⟩ := sorting_sound (machine ampleFuel) default s (· = s) rfl
  constructor
  · obtain ⟨sorted, holes, s', hgives, -, hsorting, harranges⟩ :=
      htexts #[some (.string "b"), none, some (.string "a")] _ htext
    exact ⟨sorted, holes, s', hgives, hsorting, harranges⟩
  · have hlists : ∀ s₁, s₁ = s → s₁.Lists ⟨0⟩ [some (.string "b"), none, some (.string "a")] := by
      rintro _ rfl
      exact State.lists_withItems _ (by decide)
    have hanswers := answers_texts htext
    obtain ⟨sorted, holes, -, s', -, hgives, -, hlists', hlength⟩ :=
      (harrays ⟨0⟩ _ #[] (by decide) hlists (.inl rfl)).1 (fun hdry => by cases hdry)
        fun a ha b hb s₁ hs₁ => by
          obtain ⟨answer, s', hgives, -, hs'⟩ := hanswers a ha b hb s₁ hs₁
          exact ⟨answer, s', hgives, trivial, hs'⟩
    exact ⟨sorted.toList, holes, s', hgives, hlists', hlength⟩

/-- An array of a hole and an element is not sorted, though nothing is to be compared. -/
def RefusesSort (c : Context) (s : State) : Prop :=
  s.Displays ⟨0⟩ [none, some .undefined] ∧
  Answers (machine 10) c (fun _ => True) (fun _ _ _ => True) .undefined [none, some .undefined] ∧
  ∃ e s', (arrayFunction .sort (.object ⟨0⟩) #[]).Comes (machine 10) c s (.error e) s' ∧
    ¬ (s'.object ⟨0⟩).Holds [some .undefined, none]

theorem refusesSort_withItems {prototype : ObjectId} (h : ((arrayFunction .sort (.object ⟨0⟩) #[]
      (machine 10) c (.withItems #[none, some .undefined] true prototype)).endsIn
        fun r s' => !r.toBool && s'.lacks 0 (.object ⟨0⟩)) = true) :
    RefusesSort c (.withItems #[none, some .undefined] true prototype) := by
  obtain ⟨e, s', hfails, hlacks⟩ := Step.fails_of_endsIn h
  refine ⟨State.displays_withItems _ _ _ (by decide), fun a ha => ?_, e, s', hfails,
    State.not_holds_of_lacks hlacks rfl⟩
  simp [definedIn, presentIn, Value.isUndefined] at ha

/-- Nothing is sorted in a dry run that is younger than the array, or where a proxy among the prototypes is
asked for what is in a hole. -/
theorem sorting_refused :
    RefusesSort .dry (.withItems #[none, some .undefined] true ⟨1⟩) ∧
    RefusesSort default (.withItems #[none, some .undefined] true ⟨2⟩) :=
  ⟨refusesSort_withItems (by decide +kernel), refusesSort_withItems (by decide +kernel)⟩

end Exec

end EcmaScript
