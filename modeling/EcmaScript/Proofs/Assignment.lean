import EcmaScript.Proofs.Arguments.Entry
import EcmaScript.Proofs.Definition
import EcmaScript.Proofs.Elements

/-! Assignment and reading agree: what is assigned is what is read next, nothing else of the object is
different, and an assignment that is refused leaves everything as it was. -/
namespace EcmaScript

def ArgumentMap.Apart (shared : ArgumentMap) : Prop :=
  ∀ key other name, shared.parameter? key = some name → shared.parameter? other = some name → key = other

theorem ArgumentMap.Apart.without {shared : ArgumentMap} (h : shared.Apart) (n : Nat) :
    (shared.without n).Apart := by
  have hsome {key : PropertyKey} {name : String} (hkey : (shared.without n).parameter? key = some name) :
      shared.parameter? key = some name := by
    cases key with
    | index i =>
      simp only [parameter?, ArgumentMap.without, Array.getElem?_setIfInBounds] at hkey ⊢
      split at hkey
      · split at hkey <;> simp at hkey
      · exact hkey
    | _ => cases hkey
  exact fun key other name hkey hother => h key other name (hsome hkey) (hsome hother)

theorem ArgumentMap.apart_sharedNames {scope : ScopeId} {count : Nat} {params : List Pattern}
    (h : params.all Pattern.isSimple = true) :
    (⟨scope, (sharedNames count params).toArray⟩ : ArgumentMap).Apart := by
  have hplace {i j : Nat} {name : String} (hlt : i < j)
      (hi : ((sharedNames count params)[i]?).join = some name)
      (hj : ((sharedNames count params)[j]?).join = some name) : False := by
    obtain ⟨-, -, hlast⟩ := (sharedNames_eq_some h).mp hi
    obtain ⟨hcount, hname, -⟩ := (sharedNames_eq_some h).mp hj
    refine hlast (List.mem_of_getElem? (i := j - (i + 1)) ?_)
    rw [List.getElem?_drop, show i + 1 + (j - (i + 1)) = j by omega, List.getElem?_take, if_pos hcount, hname]
  intro key other name hkey hother
  obtain ⟨i, rfl⟩ := eq_index (show (parameter? _ key).isSome = true by rw [hkey]; rfl)
  obtain ⟨j, rfl⟩ := eq_index (show (parameter? _ other).isSome = true by rw [hother]; rfl)
  simp only [parameter?, List.getElem?_toArray] at hkey hother
  rcases Nat.lt_trichotomy i.val j.val with hlt | heq | hlt
  · exact (hplace hlt hkey hother).elim
  · rw [Fin.ext heq]
  · exact (hplace hlt hother hkey).elim

namespace Object
variable {o o' : Object} {N : PrivateName → Prop}

def Apart (o : Object) : Prop := ∀ shared, o.kind = .arguments (some shared) → shared.Apart

theorem KindKept.apart {k k' : ObjectKind} (h : KindKept k k')
    (hk : ∀ shared, k = .arguments (some shared) → shared.Apart) :
    ∀ shared, k' = .arguments (some shared) → shared.Apart := by
  induction h with
  | same => exact hk
  | alters _ h' ih =>
    intro shared heq
    cases h' with
    | unmap shared' n =>
      cases heq
      exact (ih hk shared' rfl).without n
    | _ => cases heq

theorem Apart.congr (h : o.Apart) (hk : o'.kind = o.kind) : o'.Apart := by
  intro shared hshared
  exact h shared (hk ▸ hshared)

end Object

theorem Leads.apart {s s' : State} {id : ObjectId} (h : Leads (.bare s) s') (hid : id.index < s.heap.size)
    (ho : (s.object id).Apart) : (s'.object id).Apart := by
  refine h.keeps (I := fun s => (s.object id).Apart) ho fun w s _ hle hact ho => ?_
  have hsize : id.index < w.state.heap.size := Nat.lt_of_lt_of_le hid hle
  cases hact.keeps id hsize with
  | same heq => exact heq ▸ ho
  | alters _ halters => exact halters.kind_kept.apart ho
  | build _ _ _ hbuilt =>
    obtain ⟨stamp, heq⟩ := hbuilt
    exact ho.congr (by rw [heq])
  | reparent _ _ heq => exact ho.congr (by rw [heq])
  | settle _ _ _ heq | register _ _ _ _ heq =>
    intro shared hk
    rw [heq] at hk
    cases hk

theorem Exec.apart_argumentsObject {m : Machine} {c : Context} {s s' : State} {scope : ScopeId}
    {node : FunctionNode} {f id : ObjectId} {args : Array Value}
    (h : (argumentsObject scope f node args).Gives m c s id s') : (s'.object id).Apart := by
  have h := gives_intrinsics_bind.mp h
  have h := gives_context_bind.mp h
  have h := gives_look_bind.mp h
  have hmade {s₁ : State} {o : Object} (hnew : (allocate o).Gives m c s₁ id s') (ho : o.Apart) :
      (s'.object id).Apart := by
    obtain ⟨rfl, rfl⟩ := gives_allocate.mp hnew
    rwa [State.object_push, if_pos rfl]
  dsimp only at h
  split at h
  · rename_i hshares
    obtain ⟨callee, s₁, -, hnew⟩ := gives_bind.mp h
    refine hmade hnew fun shared hk => ?_
    obtain rfl := Option.some.inj (ObjectKind.arguments.inj hk)
    exact ArgumentMap.apart_sharedNames (Bool.and_eq_true_iff.mp hshares).2
  · obtain ⟨refuse, s₁, -, h⟩ := gives_bind.mp h
    obtain ⟨callee, s₂, -, hnew⟩ := gives_bind.mp h
    exact hmade hnew nofun

namespace State
variable {s s' : State} {id : ObjectId} {key other : PropertyKey}

/-- What a property is depends on the slots of the object, and on a parameter if it stands for one. -/
theorem ownProperty?_congr (hk : (s'.object id).kind = (s.object id).kind)
    (hown : (s'.object id).own? key = (s.object id).own? key)
    (hv : ∀ shared name, (s.object id).kind = .arguments (some shared) →
      shared.parameter? key = some name → s'.argument? shared name = s.argument? shared name) :
    s'.ownProperty? id key = s.ownProperty? id key := by
  cases hm : (s.object id).maps key with
  | false =>
    have hm' : (s'.object id).maps key = false := by rw [Object.maps_eq hk, hm]
    rw [ownProperty?_of_not_maps hm, ownProperty?_of_not_maps hm', Object.element?_congr hk, hown]
  | true =>
    unfold Object.maps at hm
    split at hm
    · rename_i shared hshared
      obtain ⟨n, rfl⟩ := ArgumentMap.eq_index hm
      obtain ⟨name, hname⟩ := Option.isSome_iff_exists.mp hm
      have hvalue := hv shared name hshared hname
      have hname : (shared.names[n.val]?).join = some name := hname
      unfold argument? at hvalue
      cases hp : (s.object id).own? (.index n) with
      | none => simp only [ownProperty?, hk, hshared, hname, hown, hp]
      | some p => simp only [ownProperty?, hk, hshared, hname, hown, hp, hvalue]
    · cases hm

/-- The own properties of an object under other keys are as they were, the length of an array apart. -/
def KeepsOthers (s : State) (id : ObjectId) (key : PropertyKey) (s' : State) : Prop :=
  ∀ other, other ≠ key → ¬ ((s.object id).isArray = true ∧ other = Object.lengthKey) →
    s'.ownProperty? id other = s.ownProperty? id other

theorem KeepsOthers.refl : s.KeepsOthers id key s := fun _ _ _ => rfl

theorem argument?_fill_ne {shared : ArgumentMap} {name name' : String} {v : Value} (h : name' ≠ name) :
    (s.replaceScope shared.scope ((s.scope shared.scope).fill name v)).argument? shared name' =
      s.argument? shared name' := by
  unfold argument?
  rw [scope_replace]
  split
  · rw [Scope.binding?_fill_ne h]
  · rfl

end State

namespace Object
variable {o o' : Object} {key other : PropertyKey} {d : Descriptor}

theorem own?_define?_ne (h : o.define? key d = some o') (hne : other ≠ key) :
    o'.own? other = o.own? other := by
  rcases define?_cases h with ⟨-, -, rfl⟩ | ⟨p, -, -, rfl⟩ <;> rw [own?_put, if_neg hne]

theorem own?_defineElement?_ne {n : ArrayIndex} (h : o.defineElement? n d = some o')
    (hne : other ≠ .index n) (hlength : other ≠ lengthKey) : o'.own? other = o.own? other := by
  obtain ⟨o₁, hd, -, rfl⟩ := defineElement?_cases h
  split
  · rw [own?_put, if_neg hlength, own?_define?_ne hd hne]
  · exact own?_define?_ne hd hne

end Object

namespace Exec
variable {m : Machine} {c : Context} {s s' : State} {id : ObjectId} {key : PropertyKey}
  {d : Descriptor} {b : Bool}

theorem replaceWith_keeps {f : Object → Option Object} (h : (replaceWith id f).Gives m c s b s')
    (hid : id.index < s.heap.size)
    (hf : ∀ o, f (s.object id) = some o → o.kind = (s.object id).kind ∧ ∀ other, other ≠ key →
      ¬ ((s.object id).isArray = true ∧ other = Object.lengthKey) →
        o.own? other = (s.object id).own? other) :
    s.KeepsOthers id key s' := by
  rcases gives_replaceWith.mp h with ⟨-, -, rfl⟩ | ⟨o, ho, -, rfl⟩
  · exact .refl
  · obtain ⟨hk, hown⟩ := hf o ho
    have hself : (s.replace id o).object id = o := State.object_replace_self hid
    intro other hne hlength
    exact State.ownProperty?_congr (by rw [hself, hk]) (by rw [hself, hown other hne hlength])
      fun _ _ _ _ => rfl

theorem define?_keeps (h : (replaceWith id (·.define? key d)).Gives m c s b s')
    (hid : id.index < s.heap.size) : s.KeepsOthers id key s' :=
  replaceWith_keeps h hid fun _ ho =>
    ⟨(Object.sameBut_define? ho).kind_eq, fun _ hne _ => Object.own?_define?_ne ho hne⟩

theorem defineArgument_keeps {shared : ArgumentMap} (h : (defineArgument id shared key d).Gives m c s b s')
    (hk : (s.object id).kind = .arguments (some shared)) (hapart : shared.Apart) (hd : d.unmaps = false) :
    s.KeepsOthers id key s' := by
  have hid : id.index < s.heap.size := State.lt_of_kind (by simp [hk])
  cases hmap : shared.parameter? key with
  | none =>
    rw [defineArgument_unmapped hmap] at h
    exact define?_keeps h hid
  | some name =>
    obtain ⟨n, rfl⟩ := ArgumentMap.eq_index (show (shared.parameter? key).isSome = true by simp [hmap])
    rw [Gives, defineArgument_mapped hk hmap] at h
    have hfixing (current : Option Value) : (d.fixing current).unmaps = false := by
      unfold Descriptor.fixing
      split <;> exact hd
    dsimp only at h
    generalize s.argument? shared name = current at h
    cases hdef : (s.object id).define? (.index n) (d.fixing current) with
    | none =>
      simp only [hdef, Step.outcome, Option.some.injEq, Prod.mk.injEq] at h
      obtain ⟨-, rfl⟩ := h
      exact .refl
    | some o =>
      simp only [hdef, hfixing, Step.outcome, Option.some.injEq, Prod.mk.injEq] at h
      obtain ⟨-, rfl⟩ := h
      intro other hne hlength
      have hself : (s.replace id o).object id = o := State.object_replace_self hid
      have hscoped (sc : Scope) : ((s.replace id o).replaceScope shared.scope sc).object id = o := hself
      have hkind : o.kind = (s.object id).kind := (Object.sameBut_define? hdef).kind_eq
      have hown := Object.own?_define?_ne hdef hne
      simp only [Bool.false_eq_true, if_false]
      split
      · rename_i v hv
        refine State.ownProperty?_congr (by rw [hscoped, hkind]) (by rw [hscoped, hown])
          fun shared' name' hk' hname' => ?_
        obtain rfl : shared = shared' := by simpa using hk.symm.trans hk'
        exact State.argument?_fill_ne fun he => hne (hapart _ _ _ hname' (he ▸ hmap))
      · exact State.ownProperty?_congr (by rw [hself, hkind]) (by rw [hself, hown]) fun _ _ _ _ => rfl

theorem defineOnArray_keeps (h : (defineOnArray id d key).Gives m c s b s') (hid : id.index < s.heap.size)
    (ha : (s.object id).isArray = true) (hkey : key ≠ Object.lengthKey) : s.KeepsOthers id key s' := by
  unfold defineOnArray at h
  split at h
  · exact replaceWith_keeps h hid fun o ho => ⟨(Object.sameBut_defineElement? ho).kind_eq,
      fun _ hne hlength => Object.own?_defineElement?_ne ho hne fun he => hlength ⟨ha, he⟩⟩
  · rw [if_neg hkey] at h
    exact define?_keeps h hid

theorem defineOrdinary_keeps (h : (defineOrdinary id key d).Gives m c s b s') (hid : id.index < s.heap.size)
    (hkey : ¬ ((s.object id).isArray = true ∧ key = Object.lengthKey)) (hapart : (s.object id).Apart)
    (hd : d.unmaps = false) : s.KeepsOthers id key s' := by
  have h := gives_look_bind.mp (gives_checked h)
  split at h
  · rename_i hk
    have ha : (s.object id).isArray = true := Object.isArray_iff_kind.mpr hk
    exact defineOnArray_keeps h hid ha fun he => hkey ⟨ha, he⟩
  · split at h
    · obtain ⟨-, rfl⟩ := gives_pure.mp h
      exact .refl
    · exact define?_keeps h hid
  · rename_i shared hk
    exact defineArgument_keeps h hk (hapart shared hk) hd
  · exact define?_keeps h hid

theorem replaceWith_value {f : Object → Option Object} :
    ∃ b s', replaceWith id f m c s = .value b s' := by
  unfold replaceWith
  cases f (s.object id) with
  | none => exact ⟨_, _, rfl⟩
  | some o => exact ⟨_, _, rfl⟩

theorem defineArgument_value {shared : ArgumentMap} (hk : (s.object id).kind = .arguments (some shared)) :
    ∃ b s', defineArgument id shared key d m c s = .value b s' := by
  cases hmap : shared.parameter? key with
  | none =>
    rw [defineArgument_unmapped hmap]
    exact replaceWith_value
  | some name =>
    obtain ⟨n, rfl⟩ := ArgumentMap.eq_index (show (shared.parameter? key).isSome = true by simp [hmap])
    rw [defineArgument_mapped hk hmap]
    dsimp only
    split
    · exact ⟨_, _, rfl⟩
    · exact ⟨_, _, rfl⟩

theorem define_value (hc : c.MayChange id) (hproxy : (s.object id).isProxy = false)
    (hkey : ¬ ((s.object id).isArray = true ∧ key = Object.lengthKey)) :
    ∃ b s', define id key d m c s = .value b s' := by
  rw [define, bind_value (proxyOf_ordinary hproxy)]
  dsimp only
  rw [defineOrdinary, bind_value (checkObjectWrite_value hc _),
    bind_value (show object id m c s = .value (s.object id) s from rfl)]
  cases hk : (s.object id).kind with
  | array =>
    dsimp only
    unfold defineOnArray
    cases key with
    | index n => exact replaceWith_value
    | _ =>
      dsimp only
      rw [if_neg fun he => hkey ⟨Object.isArray_iff_kind.mpr hk, he⟩]
      exact replaceWith_value
  | string text =>
    dsimp only
    cases stringElement? text key with
    | none => exact replaceWith_value
    | some p => exact ⟨_, _, rfl⟩
  | arguments shared =>
    cases shared with
    | none => exact replaceWith_value
    | some shared => exact defineArgument_value hk
  | _ => exact replaceWith_value

theorem define_refused {fuel : Nat} (hc : ¬ c.MayChange id) (hproxy : (s.object id).isProxy = false) :
    ∃ k, define id key d (machine (fuel + 1)) c s = .abrupt (.condition k) s := by
  have hrefuses : (c.isDryRun && decide (id.index < c.firstObject)) = true := by
    unfold Context.MayChange at hc
    simpa using hc
  refine ⟨.sideEffect ("property definition" ++ " on an object that outlives the evaluation"), ?_⟩
  rw [define, bind_value (proxyOf_ordinary hproxy)]
  have hcheck : checkObjectWrite id "property definition" (machine (fuel + 1)) c s =
      .abrupt (.condition (.sideEffect ("property definition" ++
        " on an object that outlives the evaluation"))) s := by
    rw [checkObjectWrite, bind_value (show context (machine (fuel + 1)) c s = .value c s from rfl),
      hrefuses]
    rfl
  change (checkObjectWrite id "property definition" (machine (fuel + 1)) c s).bind _ = _
  rw [hcheck]
  rfl

end Exec

/-- What an assignment comes to: when it is done, the value is read next and nothing else of the object
is different; otherwise everything is as it was. -/
structure State.Assigned (s : State) (id : ObjectId) (key : PropertyKey) (v : Value)
    (outcome : SetOutcome) (s' : State) : Prop where
  reads : outcome = .done → ∀ m c, Exec.get id key m c s' = .value v s'
  others : outcome = .done → s.KeepsOthers id key s'
  unchanged : outcome ≠ .done → s' = s

theorem State.Assigned.refused {s : State} {id : ObjectId} {key : PropertyKey} {v : Value}
    {outcome : SetOutcome} (h : outcome ≠ .done) : s.Assigned id key v outcome s where
  reads he := absurd he h
  others he := absurd he h
  unchanged _ := rfl

namespace Exec
variable {fuel : Nat} {c : Context} {s s' : State} {id : ObjectId} {key : PropertyKey} {v : Value}

/-- A definition that is agreed to and gives a value is read next. -/
theorem assigned_of_define {d : Descriptor} (h : define id key d (machine fuel) c s = .value true s')
    (hid : id.index < s.heap.size) (hproxy : (s.object id).isProxy = false)
    (hkey : ¬ ((s.object id).isArray = true ∧ key = Object.lengthKey)) (hapart : (s.object id).Apart)
    (ha : d.isAccessor = false) (hw : d.writable ≠ some false) (hv : d.value = some v) :
    s.Assigned id key v .done s' := by
  have hdefine : (define id key d).Gives (machine fuel) c s true s' := (gives_value h).mpr ⟨rfl, rfl⟩
  have hgives := (gives_define hproxy).mp hdefine
  have htruthful := truthful_defineOrdinary hgives hid (fun hl => hkey ⟨hl.1, hl.2.1⟩) (.inl ha)
  have hunmaps : d.unmaps = false := by simp [Descriptor.unmaps, ha, hw]
  refine ⟨fun _ m c => ?_, fun _ => defineOrdinary_keeps hgives hid hkey hapart hunmaps, by simp⟩
  obtain ⟨p, hp, hagrees⟩ := htruthful.agrees rfl
  have hproxy' : (s'.object id).isProxy = false :=
    ((leads_of_gives (define_safe World.met_bare) hdefine).isProxy_eq hid).trans hproxy
  have hslot : ∃ w, p.slot = .data v w := by
    have hvalue := hagrees.value v hv
    unfold Property.toDescriptor at hvalue
    split at hvalue
    · rename_i value w hslot
      cases hvalue
      exact ⟨w, hslot⟩
    · cases hvalue
  obtain ⟨w, hslot⟩ := hslot
  rw [get, getFor, bind_value (show look _ m c s' = .value (s'.lookup id key) s' from rfl),
    State.lookup_own hproxy' hp]
  dsimp only
  rw [hslot]
  rfl

/-- The definition that an assignment comes down to. -/
theorem assign_by_define {d : Descriptor} {x : Bool → Exec SetOutcome}
    (hid : id.index < s.heap.size) (hproxy : (s.object id).isProxy = false)
    (hkey : ¬ ((s.object id).isArray = true ∧ key = Object.lengthKey)) (hapart : (s.object id).Apart)
    (ha : d.isAccessor = false) (hw : d.writable ≠ some false) (hv : d.value = some v)
    (hdone : x true = pure .done)
    (hrefused : ∃ outcome, x false (machine (fuel + 1)) c s = .value outcome s ∧ outcome ≠ .done) :
    (∃ outcome s', (define id key d >>= x) (machine (fuel + 1)) c s = .value outcome s' ∧
      s.Assigned id key v outcome s') ∨
    ¬ c.MayChange id ∧ ∃ k, (define id key d >>= x) (machine (fuel + 1)) c s = .abrupt (.condition k) s := by
  by_cases hc : c.MayChange id
  · obtain ⟨b, s', hdefine⟩ := define_value (m := machine (fuel + 1)) (d := d) hc hproxy hkey
    rw [bind_value hdefine]
    cases b with
    | true =>
      rw [hdone]
      exact .inl ⟨.done, s', rfl, assigned_of_define hdefine hid hproxy hkey hapart ha hw hv⟩
    | false =>
      have hgives : (define id key d).Gives (machine (fuel + 1)) c s false s' :=
        (gives_value hdefine).mpr ⟨rfl, rfl⟩
      obtain rfl := (truthful_defineOrdinary ((gives_define hproxy).mp hgives) hid
        (fun hl => hkey ⟨hl.1, hl.2.1⟩) (.inl ha)).unchanged rfl
      obtain ⟨outcome, heq, hne⟩ := hrefused
      exact .inl ⟨outcome, s', heq, .refused hne⟩
  · obtain ⟨k, hk⟩ : ∃ k, define id key d (machine (fuel + 1)) c s = .abrupt (.condition k) s :=
      define_refused hc hproxy
    refine .inr ⟨hc, k, ?_⟩
    change (define id key d (machine (fuel + 1)) c s).bind _ = _
    rw [hk]
    rfl

theorem assignOwn_assigned (hid : id.index < s.heap.size) (hproxy : (s.object id).isProxy = false)
    (hkey : ¬ ((s.object id).isArray = true ∧ key = Object.lengthKey)) (hapart : (s.object id).Apart) :
    (∃ outcome s', assignOwn key v (.object id) (machine (fuel + 1)) c s = .value outcome s' ∧
      s.Assigned id key v outcome s') ∨
    ¬ c.MayChange id ∧ ∃ k, assignOwn key v (.object id) (machine (fuel + 1)) c s =
      .abrupt (.condition k) s := by
  rw [assignOwn, bind_value (getOwn_ordinary hproxy)]
  cases s.ownProperty? id key with
  | some p =>
    obtain ⟨slot, enumerable, configurable⟩ := p
    cases slot with
    | accessor getter setter => exact .inl ⟨.readOnly, s, rfl, .refused (by simp)⟩
    | data old writable =>
      cases writable with
      | false => exact .inl ⟨.readOnly, s, rfl, .refused (by simp)⟩
      | true =>
        exact assign_by_define hid hproxy hkey hapart rfl (by simp) rfl rfl ⟨.readOnly, rfl, by simp⟩
  | none =>
    refine assign_by_define hid hproxy hkey hapart rfl (by simp [Descriptor.plain, Descriptor.data]) rfl rfl ?_
    have hrefused : (do return if ← isExtensible id then SetOutcome.readOnly else .notExtensible : Exec SetOutcome)
        (machine (fuel + 1)) c s =
          .value (if (s.object id).extensible = true then .readOnly else .notExtensible) s := by
      rw [bind_value (isExtensible_ordinary hproxy)]
      rfl
    refine ⟨_, hrefused, ?_⟩
    split <;> simp

/-- Assignment and reading agree. For an object whose prototypes are no proxies and have no functions for the
key, with the object as the receiver, and unless the key is the length of an array: an assignment that is done
gives the value that is read next and changes no other own property, the length of an array apart. One that
is not done, for whatever reason, leaves the whole state as it was. That no two elements of an arguments
object stand for one parameter holds from its creation on, by the lemmas before. -/
theorem assignment_agrees_with_reading {ids : List ObjectId} (hid : id.index < s.heap.size)
    (hchain : s.Chain (some id) ids) (hapart : (s.object id).Apart)
    (hkey : ¬ ((s.object id).isArray = true ∧ key = Object.lengthKey))
    (hdata : ∀ p, s.lookup id key = .found p → p.isAccessor = false) :
    (∃ outcome s', setFor id key v (.object id) (machine (fuel + 1)) c s = .value outcome s' ∧
      s.Assigned id key v outcome s') ∨
    ¬ c.MayChange id ∧ ∃ k, setFor id key v (.object id) (machine (fuel + 1)) c s =
      .abrupt (.condition k) s := by
  rw [setFor, bind_value (show look (·.lookup id key) _ c s = .value (s.lookup id key) s from rfl)]
  cases hl : s.lookup id key with
  | proxy p => exact absurd hl hchain.lookup_ne_proxy
  | absent => exact assignOwn_assigned hid hchain.isProxy_eq hkey hapart
  | found p =>
    obtain ⟨slot, enumerable, configurable⟩ := p
    cases slot with
    | accessor getter setter => cases hdata _ hl
    | data old writable =>
      cases writable with
      | false => exact .inl ⟨.readOnly, s, rfl, .refused (by simp)⟩
      | true => exact assignOwn_assigned hid hchain.isProxy_eq hkey hapart

end Exec

/-- A state with the arguments object of a function with one parameter, which was called with `null`. -/
def State.withShared : State := { (default : State) with
  heap := #[{ kind := .arguments (some ⟨⟨0⟩, (sharedNames 1 [.identifier "x" default]).toArray⟩)
              prototype := none, properties := .ofItems #[.null] }]
  scopes := #[{ kind := .block, parent := none, bindings := [("x", ⟨some .null, .parameter⟩)] }] }

theorem assignment_agrees_on_shared_element : ∃ s',
    Exec.setFor ⟨0⟩ (.index 0) (.boolean true) (.object ⟨0⟩) (machine 1) default .withShared = .value .done s' ∧
      State.withShared.Assigned ⟨0⟩ (.index 0) (.boolean true) .done s' := by
  obtain ⟨s', hdone⟩ : ∃ s', Exec.setFor ⟨0⟩ (.index 0) (.boolean true) (.object ⟨0⟩) (machine 1) default
      .withShared = .value .done s' := ⟨_, rfl⟩
  have hapart : (State.withShared.object ⟨0⟩).Apart := by
    intro shared hk
    obtain rfl := Option.some.inj (ObjectKind.arguments.inj hk)
    exact ArgumentMap.apart_sharedNames rfl
  have hchain : State.withShared.Chain (some ⟨0⟩) [⟨0⟩] := .cons rfl .nil
  have hagrees : (∃ outcome s₁, Exec.setFor ⟨0⟩ (.index 0) (.boolean true) (.object ⟨0⟩) (machine 1) default
      .withShared = .value outcome s₁ ∧
        State.withShared.Assigned ⟨0⟩ (.index 0) (.boolean true) outcome s₁) ∨ _ :=
    Exec.assignment_agrees_with_reading (by decide) hchain hapart (by rintro ⟨ha, -⟩; cases ha)
      (by rintro p hp; cases hp; rfl)
  rcases hagrees with ⟨outcome, s₁, heq, hassigned⟩ | ⟨-, k, heq⟩
  · obtain ⟨rfl, rfl⟩ : SetOutcome.done = outcome ∧ s' = s₁ := by simpa [hdone] using heq
    exact ⟨s', hdone, hassigned⟩
  · rw [hdone] at heq
    cases heq

end EcmaScript
