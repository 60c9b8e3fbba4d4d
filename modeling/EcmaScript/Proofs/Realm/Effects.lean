import EcmaScript.Proofs.Realm.Initial

/-! What the standard table of effects says of the functions of the library is true of them. -/
namespace EcmaScript

def Native.suits (f : Native) (key : PropertyKey) : Bool :=
  (!f.registers || key == .name "then") && (!f.advances || key == .name "next")

namespace PropertyKey

def places : List String :=
  ["prototype", "Math", "JSON", "Reflect", "console", "globalThis", "global"]

def isPlace (key : PropertyKey) : Bool :=
  places.any (key == .name ·)

def isCommon (key : PropertyKey) : Bool :=
  !key.isPlace && key != .name "then" && key != .name "next"

end PropertyKey

def Feature.suits : Feature → Bool
  | .method key _ f | .guarded key _ f _ | .getter key f => f.suits key
  | .accessor key get set => get.suits key && set.suits key
  | .synonym _ former => former.isCommon
  | .constant _ value => value.object?.isNone
  | .tag _ => true

namespace State

def Suits (s : State) (key : PropertyKey) : Sight := fun id =>
  key.isPlace = true ∨ ∃ name f, (s.object id).kind = .function (.native name f) ∧ f.suits key = true

def Suited (s : State) : Prop :=
  ∀ id key p, (s.object id).own? key = some p → within (s.Suits key) p

/-- A realm in the making, of whose functions nothing is known yet. -/
structure Untold (s : State) : Prop where
  suited : s.Suited
  tables : s.effectTables = #[[]]

section
variable {s s' : State} {id : ObjectId} {key : PropertyKey} {p : Property} {f : Native}

theorem Suits.mono (h : s.Suits key id) (hs : s.KeepsNatives s') : s'.Suits key id :=
  h.imp_right fun ⟨name, f, hk, hf⟩ => ⟨name, f, hs id name f hk, hf⟩

theorem Suits.of_common {former : PropertyKey} (h : s.Suits former id) (hc : former.isCommon = true) :
    s.Suits key id := by
  simp only [PropertyKey.isCommon, Bool.and_eq_true, Bool.not_eq_true', bne_iff_ne] at hc
  obtain ⟨⟨hplace, hthen⟩, hnext⟩ := hc
  rcases h with h | ⟨name, f, hk, hf⟩
  · rw [hplace] at h
    cases h
  · refine .inr ⟨name, f, hk, ?_⟩
    simp only [Native.suits, Bool.and_eq_true, Bool.or_eq_true, Bool.not_eq_true', beq_iff_eq] at hf ⊢
    exact ⟨.inl (hf.1.resolve_right hthen), .inl (hf.2.resolve_right hnext)⟩

theorem keepsNatives_alloc {o : Object} : s.KeepsNatives (s.alloc o).2 := by
  intro id name f hk
  have hlt : id.index < s.heap.size := State.lt_of_kind (by simp [hk])
  rw [State.alloc, State.object_push, if_neg (by omega), hk]

theorem keepsNatives_modify {g : Object → Object} (hg : ∀ o, (g o).kind = o.kind) :
    s.KeepsNatives { s with heap := s.heap.modify id.index g } := by
  intro other name f hk
  rw [State.heap_modify]
  change ((s.replace id (g (s.object id))).object other).kind = _
  rw [State.object_replace]
  split
  case isTrue he =>
    obtain ⟨rfl, -⟩ := he
    exact (hg _).trans hk
  case isFalse => exact hk

theorem keepsNatives_putProperty : s.KeepsNatives (s.putProperty id key p) := keepsNatives_modify fun _ => rfl

theorem keepsNatives_install {feature : Feature} : s.KeepsNatives (s.install id feature) := by
  cases feature with
  | method | guarded | getter => exact keepsNatives_alloc.trans keepsNatives_putProperty
  | accessor => exact (keepsNatives_alloc.trans keepsNatives_alloc).trans keepsNatives_putProperty
  | synonym =>
    unfold State.install
    dsimp only
    split
    · exact keepsNatives_putProperty
    · exact .refl
  | constant | tag => exact keepsNatives_putProperty

theorem keepsNatives_installAll {features : List Feature} : s.KeepsNatives (s.installAll id features) := by
  induction features generalizing s with
  | nil => exact .refl
  | cons feature features ih => exact keepsNatives_install.trans ih

theorem suits_addNative {name : String} {length : Nat} (hf : f.suits key = true) :
    (s.addNative name length f).2.Suits key (s.addNative name length f).1 := by
  refine .inr ⟨name, f, ?_, hf⟩
  rw [State.addNative, State.alloc, State.object_push, if_pos rfl]
  rfl

end

namespace Suited
variable {s : State} {id : ObjectId} {key : PropertyKey}

theorem ownValue {v : Value} (h : s.Suited) (hv : (s.object id).ownValue? key = some v) :
    within (s.Suits key) v := by
  obtain ⟨p, hp, hv⟩ := Option.bind_eq_some_iff.mp hv
  have hp : within (s.Suits key) p := h id key p hp
  obtain ⟨slot, _, _⟩ := p
  cases slot with
  | data v' =>
    obtain rfl : v' = v := Option.some.inj hv
    exact hp
  | accessor => cases hv

theorem follow {getter : Bool} {parts : List String} {root target : ObjectId} (h : s.Suited)
    (ht : s.follow getter parts root = some target) (hp : parts ≠ []) :
    ∃ key, parts.getLast?.bind Path.key? = some key ∧ s.Suits key target := by
  induction parts generalizing root with
  | nil => exact absurd rfl hp
  | cons part rest ih =>
    unfold State.follow at ht
    obtain ⟨key, hkey, ht⟩ := Option.bind_eq_some_iff.mp ht
    obtain ⟨p, hown, ht⟩ := Option.bind_eq_some_iff.mp ht
    obtain ⟨next, hnext, ht⟩ : ∃ next, s.Suits key next ∧ s.follow getter rest next = some target := by
      have hp : within (s.Suits key) p := h root key p hown
      obtain ⟨slot, _, _⟩ := p
      cases slot with
      | data v _ =>
        dsimp only at ht
        split at ht
        · cases ht
        · obtain ⟨next, hv, ht⟩ := Option.bind_eq_some_iff.mp ht
          have hv' : within (s.Suits key) v.object? := hp
          rw [hv] at hv'
          exact ⟨next, hv', ht⟩
      | accessor get set =>
        cases get with
        | none => cases ht
        | some g =>
          dsimp only at ht
          split at ht
          · obtain ⟨next, hv, ht⟩ := Option.bind_eq_some_iff.mp ht
            have hv' : within (s.Suits key) g.object? := hp.1
            rw [hv] at hv'
            exact ⟨next, hv', ht⟩
          · cases ht
    cases rest with
    | nil =>
      obtain rfl : next = target := Option.some.inj ht
      exact ⟨key, hkey, hnext⟩
    | cons part' rest => simpa using ih ht (List.cons_ne_nil _ _)

end Suited

namespace Untold
variable {s : State} {id : ObjectId} {key : PropertyKey} {p : Property} {name : String} {length : Nat}
  {f : Native}

theorem alloc {o : Object} (h : s.Untold)
    (ho : ∀ key p, o.own? key = some p → within (fun _ => False) p) : (s.alloc o).2.Untold where
  suited id key p hp := by
    rw [State.alloc, State.object_push] at hp
    split at hp
    · exact Mentions.mono (fun _ h => h.elim) (ho key p hp)
    · exact Mentions.mono (fun _ hid => hid.mono keepsNatives_alloc) (h.suited id key p hp)
  tables := h.tables

theorem modify {g : Object → Object} (h : s.Untold) (hk : ∀ o, (g o).kind = o.kind)
    (hg : ∀ o key p, (g o).own? key = some p → o.own? key = some p ∨ within (s.Suits key) p) :
    ({ s with heap := s.heap.modify id.index g } : State).Untold where
  suited other key p hp := by
    refine Mentions.mono (K := s.Suits key) (fun _ hid => hid.mono (keepsNatives_modify hk)) ?_
    rw [State.heap_modify] at hp
    change ((s.replace id (g (s.object id))).object other).own? key = some p at hp
    rw [State.object_replace] at hp
    split at hp
    · exact (hg _ _ _ hp).elim (h.suited id key p) fun hp => hp
    · exact h.suited other key p hp
  tables := h.tables

theorem putProperty (h : s.Untold) (hp : within (s.Suits key) p) : (s.putProperty id key p).Untold := by
  refine h.modify (fun _ => rfl) fun o other q hq => ?_
  rw [Object.own?_put] at hq
  split at hq
  · cases hq
    exact .inr (‹other = key› ▸ hp)
  · exact .inl hq

theorem putPlain (h : s.Untold) (hp : within (fun _ => False) p) : (s.putProperty id key p).Untold :=
  h.putProperty (Mentions.mono (fun _ h => h.elim) hp)

theorem plain_functionProperties :
    within (fun _ => False) (functionProperties name length) :=
  within_put (within_put within_emptyTable trivial) trivial

theorem addNative (h : s.Untold) : (s.addNative name length f).2.Untold :=
  h.alloc plain_functionProperties

theorem install {feature : Feature} (h : s.Untold) (hf : feature.suits = true) : (s.install id feature).Untold := by
  cases feature with
  | method key length f => exact h.addNative.putProperty (suits_addNative hf)
  | guarded key length f configurable => exact h.addNative.putProperty (suits_addNative hf)
  | getter key f => exact h.addNative.putProperty ⟨suits_addNative hf, trivial⟩
  | accessor key getter setter =>
    obtain ⟨hget, hset⟩ := Bool.and_eq_true_iff.mp hf
    exact h.addNative.addNative.putProperty
      ⟨(suits_addNative hget).mono keepsNatives_alloc, suits_addNative hset⟩
  | synonym key former =>
    unfold State.install
    dsimp only
    split
    · rename_i p hp
      exact h.putProperty (Mentions.mono (fun _ hid => hid.of_common hf) (h.suited id former p hp))
    · exact h
  | constant key value =>
    refine h.putPlain ?_
    show within _ value.object?
    rw [Option.isNone_iff_eq_none.mp hf]
    trivial
  | tag word => exact h.putPlain trivial

theorem installAll {features : List Feature} (h : s.Untold) (hf : features.all Feature.suits = true) :
    (s.installAll id features).Untold := by
  induction features generalizing s with
  | nil => exact h
  | cons feature features ih =>
    obtain ⟨hfeature, hf⟩ := Bool.and_eq_true_iff.mp hf
    exact ih (h.install hfeature) hf

theorem installConstructor {prototype : ObjectId} {statics methods : List Feature} (h : s.Untold)
    (hf : f.suits (.name name) = true) (hc : f.suits (.name "constructor") = true)
    (hs : statics.all Feature.suits = true) (hm : methods.all Feature.suits = true) :
    (s.installConstructor name length f prototype statics methods).Untold := by
  have hadded {key : PropertyKey} (hf : f.suits key = true) : (s.addNative name length f).2.Suits key
      (s.addNative name length f).1 := suits_addNative hf
  refine Untold.putProperty (Untold.installAll (Untold.installAll (Untold.putProperty
    (Untold.putProperty h.addNative ?_) ?_) hs) hm) ?_
  · exact .inl rfl
  · exact (hadded hc).mono keepsNatives_putProperty
  · exact (hadded hf).mono (((keepsNatives_putProperty.trans keepsNatives_putProperty).trans
      keepsNatives_installAll).trans keepsNatives_installAll)

theorem installNamespace {features : List Feature} (h : s.Untold) (hn : (PropertyKey.name name).isPlace = true)
    (hf : features.all Feature.suits = true) : (s.installNamespace name features).Untold :=
  ((h.alloc (o := { prototype := some s.intrinsics.objectPrototype }) within_emptyTable).installAll
    hf).putProperty (.inl hn)

theorem installFunctions (h : s.Untold) : s.installFunctions.Untold := by
  have hfirst : ({ s with heap := s.heap.modify s.intrinsics.functionPrototype.index fun o =>
      { o with properties := functionProperties "" 0 } } : State).Untold :=
    h.modify (fun _ => rfl) fun _ key p hp =>
      .inr (Mentions.mono (fun _ h => h.elim) (plain_functionProperties key p hp))
  exact hfirst.installConstructor (by decide) (by decide) (by decide) (by decide)

theorem installIterators (h : s.Untold) : s.installIterators.Untold :=
  ((((h.installAll (by decide)).installAll (by decide)).installAll (by decide)).installAll
    (by decide)).installAll (by decide)

theorem installStrings (h : s.Untold) : s.installStrings.Untold :=
  (h.putPlain (p := .constant (.number 0.0)) trivial).installConstructor (by decide) (by decide) (by decide)
    (by decide)

theorem shareGlobal {holder : String} (h : s.Untold) : (s.shareGlobal holder name).Untold := by
  unfold State.shareGlobal
  split
  · split
    · exact h.putProperty (h.suited.ownValue ‹_›)
    · exact h
  · exact h

theorem installNumbers (h : s.Untold) : s.installNumbers.Untold := by
  have hfirst : (s.installConstructor "Number" 1 (.number .construct) s.intrinsics.numberPrototype
      numberStatics numberMethods).Untold :=
    h.installConstructor (by decide) (by decide) (by decide) (by decide)
  exact (hfirst.shareGlobal.shareGlobal).installAll (by decide)

theorem installError (h : s.Untold) (kind : ErrorKind) : (s.installError kind).Untold := by
  have hstatics : (if kind = ErrorKind.error then errorStatics else []).all Feature.suits = true := by
    split <;> decide
  have hmethods : (errorMethods kind).all Feature.suits = true := by cases kind <;> decide
  have hfirst : (s.installConstructor kind.name 1 (.error (.construct kind))
      (s.intrinsics.errorPrototypeFor kind) (if kind = .error then errorStatics else []) []).Untold :=
    h.installConstructor (by cases kind <;> decide) (by cases kind <;> decide) hstatics rfl
  unfold State.installError
  dsimp only
  generalize s.installConstructor kind.name 1 (.error (.construct kind))
    (s.intrinsics.errorPrototypeFor kind) (if kind = .error then errorStatics else []) [] = t at hfirst ⊢
  refine (Untold.putPlain (Untold.putPlain ?_ ?_) ?_).installAll hmethods
  · split
    · split
      · exact hfirst
      · exact hfirst.modify (fun _ => rfl) fun _ _ _ hp => .inl hp
    · exact hfirst
  · trivial
  · trivial

theorem installErrors (kinds : List ErrorKind) (h : s.Untold) :
    (kinds.foldl State.installError s).Untold := by
  induction kinds generalizing s with
  | nil => exact h
  | cons kind kinds ih => exact ih (h.installError kind)

theorem installProxy (h : s.Untold) : s.installProxy.Untold :=
  (h.addNative.installAll (by decide)).putProperty
    ((suits_addNative (by decide)).mono keepsNatives_installAll)

theorem installCollections (h : s.Untold) : s.installCollections.Untold := by
  unfold State.installCollections
  refine Untold.installConstructor (Untold.installConstructor (Untold.installConstructor
    (Untold.installConstructor (h.installConstructor ?_ ?_ ?_ ?_) ?_ ?_ ?_ ?_) ?_ ?_ ?_ ?_) ?_ ?_ ?_ ?_)
    ?_ ?_ ?_ ?_ <;> decide

theorem installSelf (h : s.Untold) : s.installSelf.Untold := by
  have hself {s : State} {name : String} {target : ObjectId} (h : s.Untold)
      (hn : (PropertyKey.name name).isPlace = true) :
      (s.putGlobal name (.standard (.object target))).Untold := h.putProperty (.inl hn)
  refine Untold.putPlain (Untold.putPlain (Untold.putPlain (hself (hself h (by decide)) (by decide)) ?_) ?_) ?_
  all_goals trivial

theorem installLibrary (h : s.Untold) : s.installLibrary.Untold := by
  unfold State.installLibrary
  dsimp only
  refine Untold.installSelf (.installAll ?_ (by decide))
  refine Untold.installNamespace (.installCollections ?_) (by decide) (by decide)
  refine Untold.installNamespace (.installProxy ?_) (by decide) (by decide)
  refine Untold.installConstructor (.installErrors _ ?_) (by decide) (by decide) (by decide) (by decide)
  refine Untold.installNamespace (.installNamespace ?_ (by decide) (by decide)) (by decide) (by decide)
  refine Untold.installConstructor (Untold.installConstructor ?_ (by decide) (by decide) (by decide)
    (by decide)) (by decide) (by decide) (by decide) (by decide)
  refine Untold.installNumbers (.installStrings (.installIterators ?_))
  refine Untold.installConstructor (.installFunctions ?_) (by decide) (by decide) (by decide) (by decide)
  exact h.installConstructor (by decide) (by decide) (by decide) (by decide)

theorem basic {globalObject : Object} (hg : within (fun _ => False) globalObject.properties) :
    Untold { base with heap := basicObjects.push globalObject, effectTables := #[[]] } where
  suited id key p hp := by
    have hbare {p : ObjectId} {kind : ObjectKind} :
        within (fun _ => False) (bareObject p kind).properties := within_emptyTable
    have hbasic : ∀ o ∈ basicObjects, within (fun _ => False) o.properties := by
      intro o ho
      simp only [basicObjects, List.mem_toArray, List.mem_cons, List.not_mem_nil, or_false] at ho
      rcases ho with rfl | ho
      · exact within_emptyTable
      rcases ho with rfl | rfl | ho
      · exact hbare
      · exact within_put hbare trivial
      rcases ho with rfl | rfl | rfl | rfl | rfl | rfl | rfl | rfl | rfl | rfl | rfl | rfl | rfl | rfl |
        rfl | rfl | rfl | rfl | rfl | rfl | rfl | rfl
      all_goals exact hbare
    have hobject : within (fun _ => False) (State.object { base with
        heap := basicObjects.push globalObject, effectTables := #[[]] } id).properties := by
      unfold State.object
      rw [Array.getD_eq_getD_getElem?]
      cases ho : (basicObjects.push globalObject)[id.index]? with
      | none => exact within_emptyTable
      | some o =>
        exact (Array.mem_push.mp (Array.mem_of_getElem? ho)).elim (hbasic o) fun he => he ▸ hg
    exact Mentions.mono (fun _ h => h.elim) (hobject key p hp)
  tables := rfl

theorem of_initial {globals : List (String × Value)} (hg : ∀ g ∈ globals, g.2.object? = none) :
    ∃ s : State, s.Untold ∧ State.initial globals = s.addStandardEffects 0 := by
  let globalObject : Object :=
    { prototype := some basicIntrinsics.objectPrototype
      properties := globals.foldl (fun t (g : String × Value) => t.put (.ofString g.1) (.plain g.2)) {} }
  have hglobals : within (fun _ => False) globalObject.properties := within_plainTable hg within_emptyTable
  exact ⟨_, (basic hglobals).installLibrary, rfl⟩

end Untold
end State

theorem PropertyKey.ofString_eq_name {s name : String} (h : PropertyKey.ofString s = .name name) :
    name = s := by
  unfold PropertyKey.ofString at h
  split at h
  · cases h
  · exact (PropertyKey.name.inj h).symm

namespace Path

/-- Whether a path asks for a getter, and what it consists of otherwise. -/
def start (path : String) : Bool × List Char :=
  match path.toList with
  | 'g' :: 'e' :: 't' :: ' ' :: rest => (true, rest)
  | cs => (false, cs)

theorem part_eq (reversed : List Char) (h : reversed ≠ []) : part reversed = [String.ofList reversed.reverse] := by
  unfold part
  rw [if_neg (by simpa using h)]

theorem getLast?_parts {cs : List Char} (depth : Nat) (current : List Char) (h : ¬ ['.'] <:+ cs) :
    cs = [] ∧ current = [] ∨
      ∃ p, (parts cs depth current).getLast? = some p ∧ p.toList <:+ current.reverse ++ cs := by
  have hlast {p : String} {before after : List String} (hp : after.getLast? = some p) :
      (before ++ after).getLast? = some p := by simp [hp]
  induction cs, depth, current using parts.induct with
  | case1 depth current =>
    by_cases hc : current = []
    · exact .inl ⟨rfl, hc⟩
    · refine .inr ⟨String.ofList current.reverse, ?_, by simp⟩
      rw [parts, part_eq current hc, List.getLast?_singleton]
  | case2 cs current ih =>
    rcases ih fun hs => h (hs.trans (List.suffix_cons _ _)) with ⟨-, hc⟩ | ⟨p, hp, hs⟩
    · cases hc
    · refine .inr ⟨p, ?_, hs.trans (List.suffix_append _ _)⟩
      rw [parts, if_pos rfl, if_pos rfl]
      exact hlast hp
  | case3 cs depth current hd ih =>
    rcases ih fun hs => h (hs.trans (List.suffix_cons _ _)) with ⟨-, hc⟩ | ⟨p, hp, hs⟩
    · cases hc
    · refine .inr ⟨p, ?_, by simpa using hs⟩
      rw [parts, if_pos rfl, if_neg hd, hp]
  | case4 cs depth current hd hne ih =>
    refine .inr ?_
    rw [parts, if_neg hne, if_pos rfl, if_pos hd, part_eq _ (List.cons_ne_nil _ _)]
    rcases ih fun hs => h (hs.trans (List.suffix_cons _ _)) with ⟨rfl, -⟩ | ⟨p, hp, hs⟩
    · exact ⟨String.ofList (']' :: current).reverse, rfl, by simp⟩
    · refine ⟨p, hlast hp, ?_⟩
      exact hs.trans ((List.suffix_cons _ _).trans (List.suffix_append _ _))
  | case5 cs depth current hd hne ih =>
    rcases ih fun hs => h (hs.trans (List.suffix_cons _ _)) with ⟨-, hc⟩ | ⟨p, hp, hs⟩
    · cases hc
    · refine .inr ⟨p, ?_, by simpa using hs⟩
      rw [parts, if_neg hne, if_pos rfl, if_neg hd, hp]
  | case6 c cs depth current hopen hclose hpoint ih =>
    rcases ih fun hs => h (hs.trans (List.suffix_cons _ _)) with ⟨rfl, -⟩ | ⟨p, hp, hs⟩
    · obtain rfl : c = '.' := by simpa using (Bool.and_eq_true_iff.mp hpoint).1
      exact absurd List.suffix_rfl h
    · refine .inr ⟨p, ?_, hs.trans ((List.suffix_cons _ _).trans (List.suffix_append _ _))⟩
      rw [parts, if_neg hopen, if_neg hclose, if_pos hpoint]
      exact hlast hp
  | case7 c cs depth current hopen hclose hpoint ih =>
    rcases ih fun hs => h (hs.trans (List.suffix_cons _ _)) with ⟨-, hc⟩ | ⟨p, hp, hs⟩
    · cases hc
    · refine .inr ⟨p, ?_, by simpa using hs⟩
      rw [parts, if_neg hopen, if_neg hclose, if_neg hpoint, hp]

theorem key?_eq_name {part name : String} (h : key? part = some (.name name)) : name = part := by
  unfold key? at h
  split at h
  · split at h
    · obtain ⟨symbol, -, hsymbol⟩ := Option.map_eq_some_iff.mp h
      cases hsymbol
    · exact PropertyKey.ofString_eq_name (Option.some.inj h)
  · exact PropertyKey.ofString_eq_name (Option.some.inj h)

def endsWith (path word : String) : Bool :=
  word.toByteArray.data.toList.isSuffixOf path.toByteArray.data.toList

theorem endsWith_of_suffix {path : String} (word : String) (h : word.toList <:+ path.toList) :
    endsWith path word = true := by
  obtain ⟨before, h⟩ := h
  have heq : path = String.ofList before ++ word := by
    rw [← String.toList_inj, String.toList_append, String.toList_ofList, h]
  refine List.isSuffixOf_iff_suffix.mpr ⟨(String.ofList before).toByteArray.data.toList, ?_⟩
  rw [heq, String.toByteArray_append, ByteArray.data_append, Array.toList_append]

theorem start_suffix {path : String} : (start path).2 <:+ path.toList := by
  unfold start
  split
  · rename_i rest heq
    exact ⟨['g', 'e', 't', ' '], heq.symm⟩
  · exact List.suffix_rfl

end Path

namespace Intrinsics

def pathNames : List String :=
  ["%IteratorPrototype%", "%ArrayIteratorPrototype%", "%StringIteratorPrototype%", "%MapIteratorPrototype%",
    "%SetIteratorPrototype%"]

theorem mem_pathNames {i : Intrinsics} {name : String} {id : ObjectId} (h : i.byPathName? name = some id) :
    name ∈ pathNames := by
  obtain ⟨before, after, heq, -⟩ := List.lookup_eq_some_iff.mp h
  have hmem : (name, id) ∈ before ++ (name, id) :: after := by simp
  exact List.mem_map_of_mem (f := Prod.fst) (heq ▸ hmem)

end Intrinsics

def EffectFlags.agree (flags : EffectFlags) (path : String) : Bool :=
  ("." :: "then" :: PropertyKey.places ++ Intrinsics.pathNames).all (!Path.endsWith path ·) &&
    (!Path.endsWith path "next" || flags.changesReceiver)

theorem standardEffects_agree : standardEffects.all (fun e => e.2.agree e.1) = true := by decide +kernel

theorem EffectTable.lookup_insert {t : EffectTable} {f id : ObjectId} {flags : EffectFlags} :
    (t.insert f flags).lookup id = if id = f then some flags else t.lookup id := by
  have hfilter (h : id ≠ f) : List.lookup id (t.filter (·.1 != f)) = t.lookup id := by
    induction t with
    | nil => rfl
    | cons e rest ih =>
      by_cases he : e.1 = f
      · rw [List.filter_cons_of_neg (by simpa using he), ih, List.lookup_cons,
          beq_false_of_ne (he ▸ h)]
      · rw [List.filter_cons_of_pos (by simpa using he), List.lookup_cons, List.lookup_cons, ih]
  rw [EffectTable.insert, List.lookup_cons]
  by_cases h : id = f
  · simp [h]
  · rw [hfilter h, if_neg h, beq_false_of_ne h]

namespace State
variable {s : State} {table : Nat}

/-- A table of effects lets a dry run call only functions of the library that register no reactions, and
it tells of those that move an iterator on that they change their receiver. -/
def Honest (s : State) (table : Nat) : Prop :=
  ∀ id flags, (s.effectTables.getD table []).lookup id = some flags → flags.pure = true →
    ∃ name f, (s.object id).kind = .function (.native name f) ∧ f.registers = false ∧
      (f.advances = true → flags.changesReceiver = true)

theorem Honest.later {s' : State} {table' : Nat} (h : s.Honest table) (hs : s.KeepsNatives s')
    (ht : s'.effectTables.getD table' [] = s.effectTables.getD table []) : s'.Honest table' := by
  intro id flags hl hp
  obtain ⟨name, f, hk, hf⟩ := h id flags (ht ▸ hl) hp
  exact ⟨name, f, hs id name f hk, hf⟩

theorem resolvePath_eq {path : String} : s.resolvePath path =
    match Path.parts (Path.start path).2 0 [] with
    | [] => none
    | first :: rest => ((s.intrinsics.byPathName? first).or
        (((s.object s.globalObject).ownValue? (.ofString first)).bind Value.object?)).bind
          (s.follow (Path.start path).1 rest) := rfl

theorem Suited.resolvePath {path : String} {target : ObjectId} (h : s.Suited)
    (ht : s.resolvePath path = some target) (hpoint : Path.endsWith path "." = false) :
    ∃ part : String, Path.endsWith path part = true ∧ (part ∈ Intrinsics.pathNames ∨
      ∃ key, s.Suits key target ∧ ∀ name, key = .name name → name = part) := by
  rw [resolvePath_eq] at ht
  have hstart : ¬ ['.'] <:+ (Path.start path).2 := fun hs => by
    have hends := Path.endsWith_of_suffix "." (hs.trans Path.start_suffix)
    rw [hpoint] at hends
    cases hends
  rcases Path.getLast?_parts 0 [] hstart with ⟨hnil, -⟩ | ⟨part, hlast, hsuffix⟩
  · rw [hnil] at ht
    cases ht
  · have hends := Path.endsWith_of_suffix part (hsuffix.trans Path.start_suffix)
    refine ⟨part, hends, ?_⟩
    generalize Path.parts (Path.start path).2 0 [] = parts at ht hlast
    cases parts with
    | nil => cases ht
    | cons first rest =>
      obtain ⟨root, hroot, ht⟩ := Option.bind_eq_some_iff.mp ht
      cases rest with
      | nil =>
        obtain rfl : root = target := Option.some.inj ht
        obtain rfl : first = part := Option.some.inj hlast
        rcases Option.or_eq_some_iff.mp hroot with hroot | ⟨-, hroot⟩
        · exact .inl (Intrinsics.mem_pathNames hroot)
        · obtain ⟨v, hv, hobject⟩ := Option.bind_eq_some_iff.mp hroot
          have hv' : within (s.Suits (.ofString first)) v.object? := h.ownValue hv
          rw [hobject] at hv'
          exact .inr ⟨_, hv', fun name => PropertyKey.ofString_eq_name⟩
      | cons next rest =>
        obtain ⟨key, hkey, hsuits⟩ := h.follow ht (List.cons_ne_nil _ _)
        refine .inr ⟨key, hsuits, fun name hname => Path.key?_eq_name ?_⟩
        have hlast' : (next :: rest).getLast? = some part := by simpa using hlast
        rwa [hlast', Option.bind_some, hname] at hkey

theorem Suited.native_of_agree {path : String} {target : ObjectId} {flags : EffectFlags} (h : s.Suited)
    (ht : s.resolvePath path = some target) (hf : flags.agree path = true) :
    ∃ name f, (s.object target).kind = .function (.native name f) ∧
      f.registers = false ∧ (f.advances = true → flags.changesReceiver = true) := by
  obtain ⟨hwords, hnext⟩ := Bool.and_eq_true_iff.mp hf
  have hnot (word : String) (hw : word ∈ "." :: "then" :: PropertyKey.places ++ Intrinsics.pathNames) :
      Path.endsWith path word = false := by simpa using List.all_eq_true.mp hwords word hw
  obtain ⟨part, hends, hpart⟩ := h.resolvePath ht (hnot "." (by simp))
  have hother {word : String} (hw : word ∈ "." :: "then" :: PropertyKey.places ++ Intrinsics.pathNames) :
      part ≠ word := fun he => by
    rw [he, hnot word hw] at hends
    cases hends
  rcases hpart with hname | ⟨key, hplace | ⟨name, f, hkind, hsuits⟩, hkey⟩
  · exact absurd rfl (hother (by simp [hname]))
  · obtain ⟨word, hword, he⟩ := List.any_eq_true.mp hplace
    exact absurd (hkey word (beq_iff_eq.mp he)).symm (hother (by simp [hword]))
  · simp only [Native.suits, Bool.and_eq_true, Bool.or_eq_true, Bool.not_eq_true', beq_iff_eq] at hsuits
    refine ⟨name, f, hkind, hsuits.1.resolve_right fun he => ?_, fun ha => ?_⟩
    · exact absurd (hkey _ he).symm (hother (by simp))
    · obtain rfl := hkey _ (hsuits.2.resolve_left (by simp [ha]))
      simpa [hends] using hnext

theorem Honest.registerPath {path : String} {flags : EffectFlags} (h : s.Honest table) (hs : s.Suited)
    (hf : flags.agree path = true) :
    (s.registerPath table path flags).2.Honest table := by
  unfold State.registerPath
  cases hpath : s.resolvePath path with
  | none => exact h
  | some target =>
    intro id flags' hl hp
    change ((s.effectTables.modify table (EffectTable.insert · target flags)).getD table []).lookup id =
      some flags' at hl
    rw [Array.getD_eq_getD_getElem?, Array.getElem?_modify, if_pos rfl] at hl
    cases ht : s.effectTables[table]? with
    | none =>
      rw [ht] at hl
      cases hl
    | some t =>
      rw [ht] at hl
      have hl : (t.insert target flags).lookup id = some flags' := hl
      rw [EffectTable.lookup_insert] at hl
      split at hl
      · obtain rfl : flags = flags' := Option.some.inj hl
        subst id
        exact hs.native_of_agree hpath hf
      · exact h id flags' (by rw [Array.getD_eq_getD_getElem?, ht]; exact hl) hp

theorem Suited.registerPath {path : String} {flags : EffectFlags} (hs : s.Suited) :
    (s.registerPath table path flags).2.Suited := by
  unfold State.registerPath
  split <;> exact hs

theorem Honest.registerPaths {entries : List (String × EffectFlags)} (hh : s.Honest 0) (hs : s.Suited)
    (ha : entries.all (fun e => e.2.agree e.1) = true) :
    (entries.foldl (fun s e => (s.registerPath 0 e.1 e.2).2) s).Honest 0 := by
  induction entries generalizing s with
  | nil => exact hh
  | cons e rest ih =>
    obtain ⟨he, hrest⟩ := Bool.and_eq_true_iff.mp ha
    exact ih (hh.registerPath hs he) hs.registerPath hrest

theorem initial_honest {globals : List (String × Value)} (hg : ∀ g ∈ globals, g.2.object? = none) :
    (State.initial globals).Honest 0 := by
  obtain ⟨s, huntold, heq⟩ := Untold.of_initial hg
  rw [heq, addStandardEffects]
  have hhonest : s.Honest 0 := fun id flags hl => by
    rw [huntold.tables] at hl
    cases hl
  exact hhonest.registerPaths huntold.suited standardEffects_agree

end State
end EcmaScript
