import EcmaScript.Proofs.Realm.Wake

/-! A new realm is in order: its objects refer to each other only, and each inherits from an older
one. -/
namespace EcmaScript

/-- A function of the library that refers to no objects of its own. -/
def Native.isFixed : Native → Bool
  | .capturing _ => false
  | _ => true

def ObjectKind.isBasic : ObjectKind → Bool
  | .ordinary | .array | .string _ | .number _ | .boolean _ => true
  | .function (.native _ f) => f.isFixed
  | _ => false

def Object.isBasic (o : Object) : Bool := o.privates.isEmpty && o.kind.isBasic

/-- A feature that refers to no objects but those that are made for it. -/
def Feature.isFixed : Feature → Bool
  | .method _ _ f | .guarded _ _ f _ | .getter _ f => f.isFixed
  | .accessor _ get set => get.isFixed && set.isFixed
  | .constant _ value => value.object?.isNone
  | .synonym .. | .tag _ => true

namespace State

/-- A realm in the making. -/
structure Laid (s : State) : Prop where
  basic : ∀ o ∈ s.heap, o.isBasic = true
  closed : within (fun id => id.index < s.heap.size) s.heap
  older : ∀ (i : Nat) (h : i < s.heap.size) (p : ObjectId), s.heap[i].prototype = some p → p.index < i
  size : 25 < s.heap.size
  rest : s = { base with heap := s.heap, effectTables := s.effectTables }

namespace Laid
variable {s : State} {id : ObjectId} {key : PropertyKey} {p : Property} {f : Native}

theorem intrinsics (h : s.Laid) : s.intrinsics = basicIntrinsics := congrArg State.intrinsics h.rest

theorem globalObject (h : s.Laid) : s.globalObject = ⟨25⟩ := congrArg State.globalObject h.rest

theorem alloc {o : Object} (h : s.Laid) (hb : o.isBasic = true)
    (ho : within (fun id => id.index < s.heap.size) o) : (s.alloc o).2.Laid where
  basic o' ho' := (Array.mem_push.mp ho').elim (h.basic o') fun he => he ▸ hb
  closed := by
    have hlt : ∀ id : ObjectId, id.index < s.heap.size → id.index < (s.alloc o).2.heap.size :=
      fun id hid => by simpa [State.alloc] using Nat.lt_succ_of_lt hid
    exact within_push (Mentions.mono hlt h.closed) (Mentions.mono hlt ho)
  older i hi p hp := by
    simp only [State.alloc, Array.getElem_push] at hp
    split at hp
    · exact h.older i _ p hp
    · have hp' : within (fun id : ObjectId => id.index < s.heap.size) o.prototype := ho.2.1
      rw [hp] at hp'
      have hlt : p.index < s.heap.size := hp'
      omega
  size := by
    have := h.size
    simp only [State.alloc, Array.size_push]
    omega
  rest := by
    rw [h.rest]
    rfl

/-- The properties of an object change, or it inherits from another one that is older. -/
theorem modify {i : Nat} {g : Object → Object} (h : s.Laid) (hb : ∀ o, (g o).isBasic = o.isBasic)
    (hm : ∀ o, within (fun id => id.index < s.heap.size) o → within (fun id => id.index < s.heap.size) (g o))
    (ho : ∀ o p, (g o).prototype = some p → o.prototype = some p ∨ p.index < i) :
    ({ s with heap := s.heap.modify i g } : State).Laid where
  basic o ho := by
    obtain ⟨j, hj, rfl⟩ := Array.getElem_of_mem ho
    rw [Array.getElem_modify]
    split
    · rw [hb]
      exact h.basic _ (Array.getElem_mem _)
    · exact h.basic _ (Array.getElem_mem _)
  closed := by
    have hclosed := within_modify (i := i) h.closed fun o ho => hm o ho
    simpa using hclosed
  older j hj p hp := by
    rw [Array.getElem_modify] at hp
    split at hp
    · rename_i he
      rcases ho _ p hp with hp | hlt
      · exact h.older j (by simpa using hj) p hp
      · exact he ▸ hlt
    · exact h.older j (by simpa using hj) p hp
  size := by simpa using h.size
  rest := by rw [h.rest]

theorem putProperty (h : s.Laid) (hp : within (fun id => id.index < s.heap.size) p) :
    (s.putProperty id key p).Laid :=
  h.modify (fun _ => rfl) (fun _ ho => ⟨ho.1, ho.2.1, within_put ho.2.2.1 hp, ho.2.2.2⟩)
    fun _ _ hp => .inl hp

theorem addNative {name : String} {length : Nat} (h : s.Laid) (hf : f.isFixed = true) :
    (s.addNative name length f).2.Laid := by
  refine h.alloc hf ⟨?_, ?_, within_put (within_put within_emptyTable trivial) trivial, within_nil⟩
  · cases f <;> trivial
  · show s.intrinsics.functionPrototype.index < s.heap.size
    rw [h.intrinsics]
    exact Nat.lt_trans (by decide) h.size

theorem addNative_size {name : String} {length : Nat} :
    s.heap.size < (s.addNative name length f).2.heap.size := by simp [State.addNative, State.alloc]

theorem within_native {name : String} {length : Nat} {writable enumerable configurable : Bool} :
    within (fun id => id.index < (s.addNative name length f).2.heap.size)
      (Property.data (.object (s.addNative name length f).1) writable enumerable configurable) :=
  addNative_size

theorem install {feature : Feature} (h : s.Laid) (hf : feature.isFixed = true) :
    (s.install id feature).Laid := by
  cases feature with
  | method key length f => exact (h.addNative hf).putProperty within_native
  | guarded key length f configurable => exact (h.addNative hf).putProperty within_native
  | getter key f => exact (h.addNative hf).putProperty ⟨addNative_size, trivial⟩
  | accessor key getter setter =>
    obtain ⟨hget, hset⟩ := Bool.and_eq_true_iff.mp hf
    exact ((h.addNative hget).addNative hset).putProperty
      ⟨Nat.lt_trans addNative_size addNative_size, addNative_size⟩
  | synonym key former =>
    unfold State.install
    dsimp only
    split
    · rename_i p hp
      refine h.putProperty ?_
      have hobject : within (fun id => id.index < s.heap.size) (s.object id) :=
        within_getD h.closed ⟨trivial, trivial, within_emptyTable, within_nil⟩
      exact hobject.2.2.1 _ p hp
    · exact h
  | constant key value =>
    refine h.putProperty ?_
    show within _ value.object?
    rw [Option.isNone_iff_eq_none.mp hf]
    trivial
  | tag word => exact h.putProperty trivial

theorem installAll {features : List Feature} (h : s.Laid) (hf : features.all Feature.isFixed = true) :
    (s.installAll id features).Laid := by
  induction features generalizing s with
  | nil => exact h
  | cons feature features ih =>
    obtain ⟨hfeature, hf⟩ := Bool.and_eq_true_iff.mp hf
    exact ih (h.install hfeature) hf

end Laid

section Sizes
variable {s : State} {id : ObjectId}

theorem size_putProperty {key : PropertyKey} {p : Property} :
    (s.putProperty id key p).heap.size = s.heap.size := by simp [putProperty]

theorem size_install {feature : Feature} : s.heap.size ≤ (s.install id feature).heap.size := by
  unfold install
  split
  case h_5 =>
    split
    · exact Nat.le_of_eq (size_putProperty).symm
    · exact Nat.le_refl _
  all_goals
    simp only [size_putProperty, addNative, alloc, Array.size_push]
    omega

theorem size_installAll {features : List Feature} :
    s.heap.size ≤ (s.installAll id features).heap.size := by
  induction features generalizing s with
  | nil => exact Nat.le_refl _
  | cons feature features ih => exact Nat.le_trans size_install ih

end Sizes

namespace Laid
variable {s : State} {id : ObjectId} {name : String} {f : Native}

theorem putGlobal {p : Property} (h : s.Laid) (hp : within (fun id => id.index < s.heap.size) p) :
    (s.putGlobal name p).Laid := h.putProperty hp

/-- A constructor is the next object. In the end its name leads to it. -/
theorem installConstructor_eq {length : Nat} {prototype : ObjectId} {statics methods : List Feature}
    (h : s.Laid) (hf : f.isFixed = true) (hp : prototype.index ≤ 25)
    (hs : statics.all Feature.isFixed = true) (hm : methods.all Feature.isFixed = true) :
    ∃ t : State, t.Laid ∧ s.heap.size < t.heap.size ∧
      s.installConstructor name length f prototype statics methods =
        t.putGlobal name (.standard (.object ⟨s.heap.size⟩)) := by
  have h₁ : (s.addNative name length f).2.Laid := h.addNative hf
  have hid : s.heap.size < (s.addNative name length f).2.heap.size := addNative_size
  have h₂ : ((s.addNative name length f).2.putProperty ⟨s.heap.size⟩ (.name "prototype")
      (.constant (.object prototype))).Laid := h₁.putProperty (Nat.lt_of_le_of_lt hp h₁.size)
  have h₃ : (((s.addNative name length f).2.putProperty ⟨s.heap.size⟩ (.name "prototype")
      (.constant (.object prototype))).putProperty prototype (.name "constructor")
      (.standard (.object ⟨s.heap.size⟩))).Laid :=
    h₂.putProperty (by rw [size_putProperty]; exact hid)
  refine ⟨_, (h₃.installAll hs).installAll hm, ?_, rfl⟩
  refine Nat.lt_of_lt_of_le ?_ (Nat.le_trans size_installAll size_installAll)
  rwa [size_putProperty, size_putProperty]

theorem installConstructor {length : Nat} {prototype : ObjectId} {statics methods : List Feature}
    (h : s.Laid) (hf : f.isFixed = true) (hp : prototype.index ≤ 25)
    (hs : statics.all Feature.isFixed = true) (hm : methods.all Feature.isFixed = true) :
    (s.installConstructor name length f prototype statics methods).Laid := by
  obtain ⟨t, ht, hlt, heq⟩ := h.installConstructor_eq hf hp hs hm
  rw [heq]
  exact ht.putGlobal hlt

theorem installNamespace {features : List Feature} (h : s.Laid)
    (hf : features.all Feature.isFixed = true) : (s.installNamespace name features).Laid := by
  unfold State.installNamespace
  have h₁ : (s.alloc { prototype := some s.intrinsics.objectPrototype }).2.Laid := by
    refine h.alloc rfl ⟨trivial, ?_, within_emptyTable, within_nil⟩
    show s.intrinsics.objectPrototype.index < s.heap.size
    rw [h.intrinsics]
    exact Nat.lt_trans (by decide) h.size
  refine (h₁.installAll hf).putProperty (Nat.lt_of_lt_of_le ?_ size_installAll)
  simp [State.alloc]

theorem installFunctions (h : s.Laid) : s.installFunctions.Laid := by
  have h₁ : ({ s with heap := s.heap.modify s.intrinsics.functionPrototype.index fun o =>
      { o with properties := functionProperties "" 0 } } : State).Laid :=
    h.modify (fun _ => rfl) (fun _ ho =>
      ⟨ho.1, ho.2.1, within_put (within_put within_emptyTable trivial) trivial, ho.2.2.2⟩)
      fun _ _ hp => .inl hp
  exact h₁.installConstructor rfl (by rw [h₁.intrinsics]; decide) rfl (by decide)

theorem installIterators (h : s.Laid) : s.installIterators.Laid :=
  ((((h.installAll (by decide)).installAll (by decide)).installAll (by decide)).installAll
    (by decide)).installAll (by decide)

theorem installStrings (h : s.Laid) : s.installStrings.Laid := by
  have h₁ : (s.install s.intrinsics.stringPrototype (.constant (.name "length") (.number 0.0))).Laid :=
    h.install rfl
  exact h₁.installConstructor rfl (by rw [h.intrinsics]; decide) (by decide) (by decide)

theorem within_ownValue {key : PropertyKey} {v : Value} (h : s.Laid)
    (hv : (s.object id).ownValue? key = some v) : within (fun id => id.index < s.heap.size) v := by
  have hobject : within (fun id => id.index < s.heap.size) (s.object id) :=
    within_getD h.closed ⟨trivial, trivial, within_emptyTable, within_nil⟩
  obtain ⟨p, hp, hv⟩ := Option.bind_eq_some_iff.mp hv
  have hp : within (fun id : ObjectId => id.index < s.heap.size) p := hobject.2.2.1 _ p hp
  obtain ⟨slot, _, _⟩ := p
  cases slot with
  | data v' =>
    obtain rfl : v' = v := Option.some.inj hv
    exact hp
  | accessor => cases hv

theorem globalValue_lt (h : s.Laid) (hv : s.globalValue name = .object id) :
    id.index < s.heap.size := by
  unfold globalValue at hv
  cases hown : (s.object s.globalObject).ownValue? (.name name) with
  | none =>
    rw [hown] at hv
    cases hv
  | some v =>
    rw [hown] at hv
    obtain rfl : v = .object id := hv
    exact h.within_ownValue hown

theorem globalValue_putGlobal {v : Value} (h : s.Laid) :
    (s.putGlobal name (.standard v)).globalValue name = v := by
  have hglobal : s.globalObject.index < s.heap.size := by
    rw [h.globalObject]
    exact h.size
  have hobject : (s.putGlobal name (.standard v)).object s.globalObject =
      (s.object s.globalObject).put (.name name) (.standard v) := by
    simp [State.object, State.putGlobal, State.putProperty, Array.getElem_modify, hglobal]
  show (((s.putGlobal name (.standard v)).object s.globalObject).ownValue? (.name name)).getD _ = v
  rw [hobject]
  simp [Object.ownValue?, Object.own?_put, Property.standard, Property.data, Property.value?]

theorem shareGlobal {holder : String} (h : s.Laid) : (s.shareGlobal holder name).Laid := by
  unfold State.shareGlobal
  split
  · split
    · exact h.putGlobal (h.within_ownValue ‹_›)
    · exact h
  · exact h

theorem installNumbers (h : s.Laid) : s.installNumbers.Laid := by
  have h₁ : (s.installConstructor "Number" 1 (.number .construct) s.intrinsics.numberPrototype
      numberStatics numberMethods).Laid :=
    h.installConstructor rfl (by rw [h.intrinsics]; decide) (by decide) (by decide)
  exact (h₁.shareGlobal.shareGlobal).installAll (by decide)

theorem errorPrototypeFor (h : s.Laid) (kind : ErrorKind) :
    (s.intrinsics.errorPrototypeFor kind).index ≤ 25 := by
  rw [h.intrinsics]
  cases kind <;> decide

theorem installError (h : s.Laid) (kind : ErrorKind) : (s.installError kind).Laid := by
  have hstatics : (if kind = ErrorKind.error then errorStatics else []).all Feature.isFixed = true := by
    split <;> decide
  have hmethods : (errorMethods kind).all Feature.isFixed = true := by cases kind <;> decide
  obtain ⟨t, ht, hlt, heq⟩ : ∃ t : State, t.Laid ∧ s.heap.size < t.heap.size ∧
      s.installConstructor kind.name 1 (.error (.construct kind)) (s.intrinsics.errorPrototypeFor kind)
        (if kind = .error then errorStatics else []) [] =
          t.putGlobal kind.name (.standard (.object ⟨s.heap.size⟩)) :=
    h.installConstructor_eq rfl (h.errorPrototypeFor kind) hstatics rfl
  have h₁ : (t.putGlobal kind.name (.standard (.object ⟨s.heap.size⟩))).Laid := ht.putGlobal hlt
  unfold State.installError
  dsimp only
  rw [heq, ht.globalValue_putGlobal]
  refine (Laid.putProperty (Laid.putProperty ?_ ?_) ?_).installAll hmethods
  rotate_left
  · trivial
  · trivial
  split
  · rename_i parent id hparent hid
    split
    · exact h₁
    · -- The constructor inherits from one that was there before it.
      cases hid
      refine h₁.modify (fun _ => rfl) (fun o ho => ⟨ho.1, ?_, ho.2.2⟩) fun o p hp => .inr ?_
      · show parent.index < _
        rw [State.putGlobal, size_putProperty]
        exact Nat.lt_trans (h.globalValue_lt hparent) hlt
      · cases hp
        exact h.globalValue_lt hparent
  · exact h₁

theorem installProxy (h : s.Laid) : s.installProxy.Laid := by
  have h₁ : (s.addNative "Proxy" 2 (.proxy .construct)).2.Laid := h.addNative rfl
  refine (h₁.installAll (by decide)).putGlobal ?_
  exact Nat.lt_of_lt_of_le addNative_size size_installAll

theorem installCollections (h : s.Laid) : s.installCollections.Laid := by
  unfold State.installCollections
  rw [h.intrinsics]
  refine Laid.installConstructor (Laid.installConstructor (Laid.installConstructor
    (Laid.installConstructor (h.installConstructor ?_ ?_ ?_ ?_) ?_ ?_ ?_ ?_) ?_ ?_ ?_ ?_) ?_ ?_ ?_ ?_)
    ?_ ?_ ?_ ?_ <;> decide

theorem installSelf (h : s.Laid) : s.installSelf.Laid := by
  have hself : s.globalObject.index < s.heap.size := by
    rw [h.globalObject]
    exact h.size
  have h₁ : (s.putGlobal "globalThis" (.standard (.object s.globalObject))).Laid := h.putGlobal hself
  have h₂ : ((s.putGlobal "globalThis" (.standard (.object s.globalObject))).putGlobal "global"
      (.standard (.object s.globalObject))).Laid :=
    h₁.putGlobal (by rw [State.putGlobal, size_putProperty]; exact hself)
  refine ((h₂.putGlobal ?_).putGlobal ?_).putGlobal ?_ <;> trivial

theorem installErrors (kinds : List ErrorKind) (h : s.Laid) :
    (kinds.foldl State.installError s).Laid := by
  induction kinds generalizing s with
  | nil => exact h
  | cons kind kinds ih => exact ih (h.installError kind)

theorem installLibrary (h : s.Laid) : s.installLibrary.Laid := by
  unfold State.installLibrary
  rw [h.intrinsics]
  dsimp only
  refine Laid.installSelf (.installAll ?_ (by decide))
  refine Laid.installNamespace (.installCollections ?_) (by decide)
  refine Laid.installNamespace (.installProxy ?_) (by decide)
  refine Laid.installConstructor (.installErrors _ ?_) rfl (by decide) (by decide) (by decide)
  refine Laid.installNamespace (.installNamespace ?_ (by decide)) (by decide)
  refine Laid.installConstructor (Laid.installConstructor ?_ rfl (by decide) rfl (by decide)) rfl
    (by decide) (by decide) (by decide)
  refine Laid.installNumbers (.installStrings (.installIterators ?_))
  refine Laid.installConstructor (.installFunctions ?_) rfl (by decide) (by decide) (by decide)
  exact h.installConstructor rfl (by decide) (by decide) (by decide)

theorem addStandardEffects {table : Nat} (h : s.Laid) : (s.addStandardEffects table).Laid := by
  have hpath {s : State} (h : s.Laid) (path : String) (flags : EffectFlags) :
      (s.registerPath table path flags).2.Laid := by
    unfold State.registerPath
    split
    · exact { h with rest := by rw [h.rest] }
    · exact h
  unfold State.addStandardEffects
  induction standardEffects generalizing s with
  | nil => exact h
  | cons e es ih => exact ih (hpath h e.1 e.2)

end Laid

theorem basicObjects_older :
    ∀ i : Fin 25, (basicObjects[i].prototype.all (·.index < i.val)) = true := by decide

theorem within_basicObjects : within (fun id => id.index < 26) basicObjects := by
  have hbare {p : ObjectId} {kind : ObjectKind} (hp : p.index < 26)
      (hk : within (fun id => id.index < 26) kind) :
      within (fun id => id.index < 26) (bareObject p kind) := ⟨hk, hp, within_emptyTable, within_nil⟩
  have hroot : within (fun id : ObjectId => id.index < 26) ({ prototype := none } : Object) :=
    ⟨trivial, trivial, within_emptyTable, within_nil⟩
  have harray : within (fun id => id.index < 26) (bareObject basicIntrinsics.objectPrototype .array) :=
    hbare (by decide) trivial
  intro o ho
  simp only [basicObjects, List.mem_toArray, List.mem_cons, List.not_mem_nil, or_false] at ho
  rcases ho with rfl | ho
  · exact hroot
  rcases ho with rfl | rfl | ho
  · exact hbare (by decide) trivial
  · exact ⟨harray.1, harray.2.1, within_put within_emptyTable trivial, within_nil⟩
  rcases ho with rfl | rfl | rfl | rfl | rfl | rfl | rfl | rfl | rfl | rfl | rfl | rfl | rfl | rfl |
    rfl | rfl | rfl | rfl | rfl | rfl | rfl | rfl
  all_goals exact hbare (by decide) trivial

/-- The basic objects, of which each inherits from an older one. -/
theorem laid_basic {globalObject : Object} (hb : globalObject.isBasic = true)
    (hg : within (fun id => id.index < 26) globalObject)
    (hp : globalObject.prototype = some basicIntrinsics.objectPrototype) :
    Laid { base with heap := basicObjects.push globalObject, effectTables := #[[]] } where
  basic o ho := by
    have hbasic : ∀ o ∈ basicObjects, o.isBasic = true := by
      simp [basicObjects, bareObject, Object.isBasic, ObjectKind.isBasic, Object.put, Native.isFixed]
    exact (Array.mem_push.mp ho).elim (hbasic o) fun he => he ▸ hb
  closed := within_push within_basicObjects hg
  older i hi p hp' := by
    simp only [Array.getElem_push] at hp'
    split at hp'
    · have hbasic := basicObjects_older ⟨i, ‹_›⟩
      rw [Fin.getElem_fin, hp'] at hbasic
      simpa using hbasic
    · obtain rfl : p = basicIntrinsics.objectPrototype := Option.some.inj (hp'.symm.trans hp)
      exact Nat.lt_of_lt_of_le (show 0 < 25 by decide) (Nat.le_of_not_lt ‹_›)
  size := Nat.lt_succ_self 25
  rest := rfl

theorem within_plainTable {K : Sight} {globals : List (String × Value)} {t : PropertyTable}
    (hg : ∀ g ∈ globals, g.2.object? = none) (ht : within K t) :
    within K (globals.foldl (fun t (g : String × Value) => t.put (.ofString g.1) (.plain g.2)) t) := by
  induction globals generalizing t with
  | nil => exact ht
  | cons g globals ih =>
    refine ih (fun g hg' => hg g (List.mem_cons_of_mem _ hg')) (within_put ht ?_)
    show within _ g.2.object?
    rw [hg g List.mem_cons_self]
    trivial

theorem laid_initial {globals : List (String × Value)} (hg : ∀ g ∈ globals, g.2.object? = none) :
    (initial globals).Laid := by
  let globalObject : Object :=
    { prototype := some basicIntrinsics.objectPrototype
      properties := globals.foldl (fun t (g : String × Value) => t.put (.ofString g.1) (.plain g.2)) {} }
  have hlaid := @laid_basic globalObject rfl
    ⟨trivial, (show 0 < 26 by decide), within_plainTable hg within_emptyTable, within_nil⟩ rfl
  exact hlaid.installLibrary.addStandardEffects

end State

/-- A world of a state in which nothing is kept back. -/
def World.fresh (s : State) : World where
  tracked := True
  dry := none
  hidden _ := False
  own _ := False
  filling _ := False
  quiet := False
  since := 0
  state := s

namespace State.Laid
variable {s : State}

theorem isBasic (h : s.Laid) (id : ObjectId) : (s.object id).isBasic = true := by
  by_cases hid : id.index < s.heap.size
  · simp only [State.object, Array.getD, hid, ↓reduceDIte]
    exact h.basic _ (Array.getElem_mem hid)
  · rw [State.object_of_size_le (Nat.le_of_not_lt hid)]
    rfl

theorem kind_isBasic (h : s.Laid) (id : ObjectId) : (s.object id).kind.isBasic = true :=
  (Bool.and_eq_true_iff.mp (h.isBasic id)).2

theorem privates_eq_nil (h : s.Laid) (id : ObjectId) : (s.object id).privates = [] :=
  List.isEmpty_iff.mp (Bool.and_eq_true_iff.mp (h.isBasic id)).1

theorem named (h : s.Laid) : s.Named := by
  have hdeclares (name : PrivateName) : ¬ s.Declares name := by
    rintro ⟨id, spelling, hname⟩
    rw [h.rest] at hname
    obtain ⟨i⟩ := id
    obtain rfl : i = 0 := Nat.lt_one_iff.mp (State.scope_lt_of_name hname)
    cases hname
  refine ⟨fun name hd => (hdeclares name hd).elim, fun name _ hd => (hdeclares name hd).elim,
    fun id name hu => ?_, fun id => by simp [h.privates_eq_nil id]⟩
  rcases hu with hu | ⟨c, hc, -⟩
  · rw [h.privates_eq_nil id] at hu
    cases hu
  · have hk := h.kind_isBasic id
    rw [hc] at hk
    cases hk

theorem not_secret (h : s.Laid) (id : ObjectId) : ¬ (s.object id).secret := by
  have hk := h.kind_isBasic id
  rintro (⟨he, -⟩ | hw)
  · rw [he] at hk
    cases hk
  · refine hw ?_
    generalize (s.object id).kind = k at hk
    unfold ObjectKind.wakes? Native.wakes?
    split
    · split
      · cases hk
      · rfl
    · rfl

theorem within {K : Sight} (h : s.Laid) (hK : ∀ id, id.index < s.heap.size → K id) :
    Mentions.within K s := by
  have hbasic (id : ObjectId) (hid : id.index ≤ 25) : K id := hK id (Nat.lt_of_le_of_lt hid h.size)
  rw [h.rest]
  exact {
    heap := Mentions.mono hK h.closed
    scopes := within_push (a := #[]) (by simp [Mentions.within]) ⟨hbasic _ (Nat.le_refl _), within_nil⟩
    intrinsics := fun id hid => hbasic id (by
      have hall : ∀ id ∈ basicIntrinsics.toList, id.index ≤ 25 := by decide
      exact hall id hid)
    globalObject := hbasic _ (Nat.le_refl _)
    jobs := within_nil
    timers := within_nil
    fatal := trivial
    awaits := by simp [Mentions.within, base]
    outcomes := by simp [Mentions.within, base]
    resolvers := by simp [Mentions.within, base]
    aggregates := by simp [Mentions.within, base]
    templates := within_nil
    first := hbasic _ (Nat.zero_le _) }

theorem acyclic (h : s.Laid) : s.Acyclic := by
  have hlt {a b : ObjectId} (hab : Relation.TransGen s.Inherits a b) : b.index < a.index := by
    have hstep {a b : ObjectId} (hab : s.Inherits a b) : b.index < a.index := by
      have hparent : s.parent? a = some b := hab
      unfold State.parent? at hparent
      split at hparent
      · cases hparent
      · by_cases ha : a.index < s.heap.size
        · simp only [State.object, Array.getD, ha, ↓reduceDIte] at hparent
          exact h.older a.index ha b hparent
        · rw [State.object_of_size_le (Nat.le_of_not_lt ha)] at hparent
          cases hparent
    induction hab with
    | single hab => exact hstep hab
    | tail _ hbc ih => exact Nat.lt_trans (hstep hbc) ih
  exact fun id hid => Nat.lt_irrefl _ (hlt hid)

theorem rests (h : s.Laid) : (World.fresh s).Rests where
  tracked := trivial
  isOpen := rfl
  own := rfl
  filling := rfl
  quiet := id
  inv := {
    closed := h.within fun id hid _ => ⟨hid, not_false, h.not_secret id⟩
    hidden := nofun
    own := nofun
    since := Nat.zero_le _
    dry := nofun
    quiet := nofun
    numbered := fun _ => by
      show s.timers.Numbered
      rw [h.rest]
      simp [TimerQueue.Numbered, State.base]
    acyclic := fun _ => h.acyclic
    mapped := fun _ id key hm => by
      have hk : (s.object id).kind.isBasic = true := h.kind_isBasic id
      have hm : (s.object id).maps key = true := hm
      unfold Object.maps at hm
      split at hm
      · rename_i hkind
        rw [hkind] at hk
        cases hk
      · cases hm
    waking := fun _ r hr => by
      cases hr with
      | job v hj =>
        have hj : Job.react r v ∈ s.jobs.toList := hj
        rw [h.rest] at hj
        exact (List.not_mem_nil hj).elim
      | promise id p hp _ =>
        have hk := h.kind_isBasic id
        rw [show (s.object id).kind = .promise p from hp] at hk
        cases hk
    named := fun _ => h.named
    binds := fun _ id target this args hk => by
      have hbasic := h.kind_isBasic id
      rw [show (s.object id).kind = .function (.bound target this args) from hk] at hbasic
      cases hbasic }

end State.Laid
end EcmaScript
