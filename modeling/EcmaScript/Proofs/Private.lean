import EcmaScript.Evaluate.Class
import EcmaScript.Proofs.Realm.Integrity

/-! Private elements form a map per object, and each evaluation of a class has private names of its
own. -/
namespace EcmaScript
open Exec

section Elements
variable {s s' : State} {id : ObjectId} {name : PrivateName}

theorem lookup_replaceElement {other : PrivateName} {element : PrivateElement}
    {l : List (PrivateName × PrivateElement)} :
    (l.map fun e => if e.1 == name then (name, element) else e).lookup other =
      if other = name then (l.lookup name).map fun _ => element else l.lookup other := by
  induction l with
  | nil => simp
  | cons e l ih =>
    obtain ⟨key, old⟩ := e
    simp only [List.map_cons, beq_iff_eq] at ih ⊢
    by_cases hkey : key = name
    · subst hkey
      rw [if_pos rfl, List.lookup_cons, List.lookup_cons, List.lookup_cons, ih]
      by_cases hother : other = key
      · simp [hother]
      · simp [hother, beq_eq_false_iff_ne.mpr hother]
    · rw [if_neg hkey, List.lookup_cons, List.lookup_cons, List.lookup_cons, ih,
        beq_eq_false_iff_ne.mpr (Ne.symm hkey)]
      by_cases hother : other = name
      · simp [hother, beq_eq_false_iff_ne.mpr (Ne.symm hkey)]
      · simp [hother]

theorem Object.private?_putPrivate {o : Object} {other : PrivateName} {element : PrivateElement} :
    (o.putPrivate name element).private? other =
      if other = name then some element else o.private? other := by
  unfold putPrivate
  split
  · rename_i h
    obtain ⟨old, hold⟩ := Option.isSome_iff_exists.mp (show (o.private? name).isSome from h)
    simp only [private?] at *
    rw [lookup_replaceElement, hold]
    rfl
  · rename_i h
    have hnone : o.private? name = none := by simpa [hasPrivate] using h
    simp only [private?, List.lookup_append] at *
    by_cases hother : other = name
    · simp [hother, hnone]
    · have hne : (other == name) = false := beq_eq_false_iff_ne.mpr hother
      simp [List.lookup_cons, hother, hne]
/-- All objects have the private elements they had, but for the one that an object has by a name. -/
def State.KeepsElements (s s' : State) (id : ObjectId) (name : PrivateName) : Prop :=
  ∀ other name', other ≠ id ∨ name' ≠ name →
    (s'.object other).private? name' = (s.object other).private? name'

theorem State.KeepsElements.refl : s.KeepsElements s id name := fun _ _ _ => rfl

theorem keepsElements_putPrivate {element : PrivateElement} :
    s.KeepsElements (s.replace id ((s.object id).putPrivate name element)) id name := by
  intro other name' h
  rw [State.object_replace]
  split
  · rename_i he
    obtain rfl := he.1
    rw [Object.private?_putPrivate, if_neg (h.resolve_left (not_not_intro rfl))]
  · rfl

theorem private?_replace {element : PrivateElement} (hid : id.index < s.heap.size) :
    ((s.replace id ((s.object id).putPrivate name element)).object id).private? name =
      some element := by
  rw [State.object_replace_self hid, Object.private?_putPrivate, if_pos rfl]

theorem addPrivate_eq {element : PrivateElement} {m : Machine} {c : Context} :
    addPrivate id name element m c s = if (s.object id).hasPrivate name then .value false s
      else .value true (s.replace id ((s.object id).putPrivate name element)) := by
  cases h : (s.object id).hasPrivate name
  · rw [if_neg Bool.false_ne_true, State.replace, ← State.heap_modify (f := fun o => o.putPrivate name element)]
    show (if (s.object id).hasPrivate name then _ else _ : Exec Bool) m c s = _
    rw [h]
    rfl
  · show (if (s.object id).hasPrivate name then _ else _ : Exec Bool) m c s = _
    rw [h]
    rfl

end Elements

/-- Private elements form a map per object: no object has two elements by one name, and an element is
added exactly when there is none by its name. Names are told apart by their identities. -/
structure State.PrivateMaps (s : State) : Prop where
  nodup : ∀ id, ((s.object id).privates.map (·.1.id)).Nodup
  present : ∀ id name, s.Declares name →
    ((s.object id).hasPrivate name = true ↔ ∃ e ∈ (s.object id).privates, e.1.id = name.id)
  add : ∀ id name element m c, ∃ added s', addPrivate id name element m c s = .value added s' ∧
    (added = false ↔ (s.object id).hasPrivate name = true) ∧
    (added = false → s' = s) ∧
    (added = true → id.index < s.heap.size → (s'.object id).private? name = some element) ∧
    s.KeepsElements s' id name

theorem State.Named.privateMaps {s : State} (h : s.Named) : s.PrivateMaps where
  nodup id := by
    have hnodup := (h.nodup id).map_on fun name hname other hother he =>
      h.unique name other (h.used id name (.inl hname)) (h.used id other (.inl hother)) he
    rwa [List.map_map] at hnodup
  present id name hd := by
    rw [Object.hasPrivate_iff, List.mem_map]
    refine exists_congr fun e => and_congr_right fun he => ⟨fun he => he ▸ rfl, fun heq => ?_⟩
    exact h.unique _ _ (h.used id e.1 (.inl (List.mem_map_of_mem he))) hd heq
  add id name element m c := by
    rw [addPrivate_eq]
    cases (s.object id).hasPrivate name
    · exact ⟨true, _, rfl, by simp, nofun, fun _ hid => private?_replace hid, keepsElements_putPrivate⟩
    · exact ⟨false, s, rfl, by simp, fun _ => rfl, nofun, .refl⟩

/-- What a computation does is settled by the element that an object has by a name: in all states with
this element it goes on in one way. -/
def Exec.SettledBy {α : Type} (x : Exec α) (id : ObjectId) (name : PrivateName)
    (way : Exec α → Prop) : Prop :=
  ∀ element?, ∃ y, way y ∧ ∀ m c s, (s.object id).private? name = element? → x m c s = y m c s

/-- How a read of a private element goes on. -/
inductive ReadsPrivate (id : ObjectId) : Exec Value → Prop where
  | give (v : Value) : ReadsPrivate id (pure v)
  | call (getter : Value) : ReadsPrivate id (call getter (.object id) #[])
  | fail (message : String) : ReadsPrivate id (throwType message)

/-- How a write to a private element goes on. -/
inductive WritesPrivate (id : ObjectId) (name : PrivateName) (v : Value) : Exec Unit → Prop where
  | put : WritesPrivate id name v do
      checkObjectWrite id "private field assignment"
      modifyObject id (·.putPrivate name (.field v))
  | call (setter : Value) : WritesPrivate id name v do
      let _ ← call setter (.object id) #[v]
  | fail (message : String) : WritesPrivate id name v (throwType message)

section Access
variable {id : ObjectId} {name : PrivateName} {v : Value} {m : Machine} {c : Context} {s s' : State}

theorem readPrivate_eq : readPrivate (.object id) name m c s =
    (match (s.object id).private? name with
    | some (.field v) => pure v
    | some (.method f) => pure f
    | some (.accessor (some getter) _) => call getter (.object id) #[]
    | some (.accessor none _) => throwType ("'" ++ name.description ++ "' was defined without a getter")
    | none => undeclaredPrivate "read" "from" name : Exec Value) m c s := rfl

theorem writePrivate_eq : writePrivate (.object id) name v m c s =
    (match (s.object id).private? name with
    | some (.field _) => do
      checkObjectWrite id "private field assignment"
      modifyObject id (·.putPrivate name (.field v))
    | some (.method _) => throwType ("Private method '" ++ name.description ++ "' is not writable")
    | some (.accessor _ (some setter)) => do
      let _ ← call setter (.object id) #[v]
    | some (.accessor _ none) => throwType ("'" ++ name.description ++ "' was defined without a setter")
    | none => undeclaredPrivate "write" "to" name : Exec Unit) m c s := rfl

theorem readPrivate_settled : (readPrivate (.object id) name).SettledBy id name (ReadsPrivate id) := by
  intro element?
  refine ⟨_, ?_, fun m c s h => by rw [readPrivate_eq, h]⟩
  split
  · exact .give _
  · exact .give _
  · exact .call _
  · exact .fail _
  · exact .fail _

theorem writePrivate_settled :
    (writePrivate (.object id) name v).SettledBy id name (WritesPrivate id name v) := by
  intro element?
  refine ⟨_, ?_, fun m c s h => by rw [writePrivate_eq, h]⟩
  split
  · exact .put
  · exact .fail _
  · exact .call _
  · exact .fail _
  · exact .fail _

theorem keepsElements_modify {f : Object → PrivateElement} {r : Except Abrupt Unit}
    (h : (modifyObject id fun o => o.putPrivate name (f o)).Comes m c s r s') :
    s.KeepsElements s' id name := by
  obtain ⟨-, rfl⟩ := comes_change.mp h
  rw [State.heap_modify]
  exact keepsElements_putPrivate

/-- An assignment to a private field changes this field only. -/
theorem writePrivate_field {n : Nat} {old : Value} {r : Except Abrupt Unit}
    (hold : (s.object id).private? name = some (.field old))
    (h : (writePrivate (.object id) name v).Comes (machine n) c s r s') :
    s.KeepsElements s' id name ∧
      (r = .ok () → (s'.object id).private? name = some (.field v)) := by
  have hid : id.index < s.heap.size := by
    refine Nat.lt_of_not_le fun hle => ?_
    rw [State.object_of_size_le hle] at hold
    cases hold
  rw [Comes, writePrivate_eq, hold] at h
  obtain ⟨_, s₁, hcheck, hput⟩ | ⟨e, hcheck, rfl⟩ := comes_bind.mp h <;>
    obtain rfl := comes_checkObjectWrite hcheck
  · refine ⟨keepsElements_modify (f := fun _ => .field v) hput, fun _ => ?_⟩
    obtain ⟨-, rfl⟩ := comes_change.mp hput
    rw [State.heap_modify]
    exact private?_replace hid
  · refine ⟨.refl, fun he => ?_⟩
    cases he

/-- The operator `in` finds what the object has itself. -/
theorem comes_hasPrivateIn {scope : ScopeId} {spelling : String} {target : Expr} {span : Span} :
    (hasPrivateIn scope spelling target span).Comes m c s (.ok v) s' ↔
      ∃ name id, s.resolvePrivate scope spelling = some name ∧
        (evaluate scope target).Comes m c s (.ok (.object id)) s' ∧
        v = .boolean ((s'.object id).private? name).isSome := by
  unfold hasPrivateIn privateName
  rw [bind_assoc, comes_look_bind]
  constructor
  · intro h
    split at h
    · rename_i name hname
      rw [pure_bind] at h
      obtain ⟨base, s₁, hbase, htest⟩ := comes_bind_ok.mp h
      split at htest
      · rename_i id
        obtain ⟨he, rfl⟩ := comes_pure.mp (comes_look_bind.mp htest)
        exact ⟨name, id, hname, hbase, Except.ok.inj he⟩
      · nomatch (comes_raise.mp htest).1
    · nomatch (comes_raise_bind.mp h).1
  · rintro ⟨name, id, hname, hbase, rfl⟩
    simp only [hname, pure_bind]
    exact comes_bind_ok.mpr ⟨_, s', hbase, comes_look_bind.mpr (comes_pure.mpr ⟨rfl, rfl⟩)⟩

end Access

section Names
variable {node : ClassNode} {inner scope : ScopeId} {spelling : String} {s s' : State}
  {m : Machine} {c : Context}

theorem declarePrivate_eq : declarePrivate scope spelling m c s =
    match s.privateName? scope spelling with
    | some name => .value name s
    | none => .value ⟨s.nextPrivateName, "#" ++ spelling⟩ (s.declared scope spelling) := by
  cases h : s.privateName? scope spelling with
  | some name =>
    rw [State.privateName?] at h
    simp only [declarePrivate, update, h]
  | none =>
    rw [State.privateName?] at h
    simp only [declarePrivate, update, h, State.declared, State.replaceScope, State.scopes_modify]

theorem privateName?_declared_self {other : String} (h : scope.index < s.scopes.size) :
    (s.declared scope spelling).privateName? scope other =
      if other = spelling then some ⟨s.nextPrivateName, "#" ++ spelling⟩
      else s.privateName? scope other := by
  change ((s.replaceScope scope _).scope scope).privateNames.lookup other = _
  rw [State.scope_replace, if_pos ⟨rfl, h⟩, List.lookup_cons]
  by_cases he : other = spelling
  · simp [he]
  · simp [he, beq_eq_false_iff_ne.mpr he, State.privateName?]

/-- The scope of a class in the making: all its names are new, and all members but some that are still
to come have declared theirs. -/
structure Opening (node : ClassNode) (inner : ScopeId) (s : State) (rest : List Member) (s' : State) :
    Prop where
  exists_scope : inner.index < s'.scopes.size
  next : s.nextPrivateName ≤ s'.nextPrivateName
  new : ∀ spelling name, s'.privateName? inner spelling = some name →
    s.nextPrivateName ≤ name.id ∧ name.id < s'.nextPrivateName
  declared : ∀ m ∈ node.elements, m ∈ rest ∨
    ∀ spelling, m.spelling? = some spelling → ∃ name, s'.privateName? inner spelling = some name

theorem Opening.step {member : Member} {rest : List Member} {s₁ s₂ : State}
    (h : Opening node inner s (member :: rest) s₁)
    (hs : (match member.privateUse? with
      | some (spelling, _) => do
        let _ ← declarePrivate inner spelling
      | none => pure () : Exec PUnit).Comes m c s₁ (.ok ⟨⟩) s₂) : Opening node inner s rest s₂ := by
  -- Members that use no private name, or one that is declared, leave everything as it was.
  have hsame (hdeclared : ∀ spelling, member.spelling? = some spelling →
      ∃ name, s₁.privateName? inner spelling = some name) : Opening node inner s rest s₁ := by
    refine ⟨h.exists_scope, h.next, h.new, fun m hm => ?_⟩
    obtain hm | hm := h.declared m hm
    · obtain rfl | hm := List.mem_cons.mp hm
      · exact .inr hdeclared
      · exact .inl hm
    · exact .inr hm
  split at hs
  · rename_i spelling use hmember
    have hspelling : member.spelling? = some spelling := by simp [Member.spelling?, hmember]
    obtain ⟨_, s₃, hdeclare, hs⟩ := comes_bind_ok.mp hs
    obtain ⟨-, rfl⟩ := comes_pure.mp hs
    rw [Comes, declarePrivate_eq] at hdeclare
    split at hdeclare
    · rename_i name hname
      obtain ⟨-, rfl⟩ := Step.comes_value.mp hdeclare
      refine hsame fun other hother => ⟨name, ?_⟩
      obtain rfl := Option.some.inj (hspelling.symm.trans hother)
      exact hname
    · obtain ⟨-, rfl⟩ := Step.comes_value.mp hdeclare
      have hlookup (other : String) : (s₁.declared inner spelling).privateName? inner other = _ :=
        privateName?_declared_self h.exists_scope
      refine ⟨by simpa [State.declared, State.replaceScope] using h.exists_scope,
        Nat.le_succ_of_le h.next, fun other name hname => ?_, fun member' hmem => ?_⟩
      · rw [hlookup] at hname
        split at hname
        · cases hname
          exact ⟨h.next, Nat.lt_succ_self _⟩
        · exact ⟨(h.new other name hname).1, Nat.lt_succ_of_lt (h.new other name hname).2⟩
      · have hkept (other : String) (hother : ∃ name, s₁.privateName? inner other = some name) :
            ∃ name, (s₁.declared inner spelling).privateName? inner other = some name := by
          rw [hlookup]
          split
          · exact ⟨_, rfl⟩
          · exact hother
        obtain hm | hm := h.declared member' hmem
        · obtain rfl | hm := List.mem_cons.mp hm
          · refine .inr fun other hother => ?_
            obtain rfl := Option.some.inj (hspelling.symm.trans hother)
            exact ⟨_, by rw [hlookup, if_pos rfl]⟩
          · exact .inl hm
        · exact .inr fun other hother => hkept other (hm other hother)
  · rename_i hmember
    obtain ⟨-, rfl⟩ := comes_pure.mp hs
    exact hsame fun spelling hspelling => by simp [Member.spelling?, hmember] at hspelling

theorem classScope_opens {n : Nat}
    (h : (classScope scope node).Comes (machine n) c s (.ok inner) s') :
    s.Before s' ∧ Opening node inner s [] s' := by
  refine ⟨h.before classScope_safe, ?_⟩
  unfold classScope at h
  extract_lets opening at h
  cases hclash : privateClash? [] node.elements with
  | some clash =>
    rw [hclash] at h
    nomatch (comes_raise_bind.mp h).1
  | none =>
    rw [hclash] at h
    have h : (opening ⟨⟩).Comes (machine n) c s (.ok inner) s' := h
    obtain ⟨block, s₁, hblock, h⟩ := comes_bind_ok.mp h
    obtain ⟨he, rfl⟩ := comes_newScope.mp hblock
    obtain rfl := Except.ok.inj he
    extract_lets naming at h
    -- The block has just been made, so that it declares no private names.
    have hnaming {s₂ : State} (h : (naming ⟨⟩).Comes (machine n) c s₂ (.ok inner) s')
        (hsize : s₂.scopes.size = s.scopes.size + 1) (hnext : s₂.nextPrivateName = s.nextPrivateName)
        (hnone : ∀ spelling, s₂.privateName? ⟨s.scopes.size⟩ spelling = none) :
        Opening node inner s [] s' := by
      obtain ⟨_, s₃, hforM, h⟩ := comes_bind_ok.mp h
      obtain ⟨he, rfl⟩ := comes_pure.mp h
      obtain rfl := Except.ok.inj he
      refine hforM.forM (I := Opening node ⟨s.scopes.size⟩ s) ?_ fun _ _ _ _ hs hI => hI.step hs
      exact ⟨by simp [hsize], Nat.le_of_eq hnext.symm, by simp [hnone], fun m hm => .inl hm⟩
    have hnone (spelling : String) :
        (((({ s with scopes := s.scopes.push { kind := .block, parent := some scope } } : State).scope
          ⟨s.scopes.size⟩).privateNames).lookup spelling) = none := by
      rw [State.scope_push, if_pos rfl]
      rfl
    cases hname : node.name? with
    | none =>
      rw [hname] at h
      exact hnaming h (by simp) rfl hnone
    | some own =>
      rw [hname] at h
      obtain ⟨_, s₂, hbind, h⟩ := comes_bind_ok.mp h
      obtain ⟨-, rfl⟩ := comes_change.mp hbind
      refine hnaming h (by simp) rfl fun spelling => ?_
      rw [State.scopes_modify]
      change ((State.replaceScope _ _ _).scope _).privateNames.lookup spelling = none
      rw [State.scope_replace, if_pos ⟨rfl, by simp⟩, Scope.sameBut_bind.privateNames_eq]
      exact hnone spelling

def ClassNode.Opens (node : ClassNode) (inner : ScopeId) (s s' : State) : Prop :=
  ∃ n c scope, (classScope scope node).Comes (machine n) c s (.ok inner) s'

/-- What a spelling means in the scope of a class, from a state on: what is declared under it again gets
the same name, and code in this scope finds it. -/
def State.Means (s : State) (inner : ScopeId) (spelling : String) (name : PrivateName) : Prop :=
  ∀ s', s.Before s' → s'.privateName? inner spelling = some name ∧
    s'.resolvePrivate inner spelling = some name ∧
    ∀ m c, declarePrivate inner spelling m c s' = .value name s'

theorem State.means_of_privateName? {name : PrivateName}
    (h : s.privateName? inner spelling = some name) : s.Means inner spelling name := by
  intro s' hs
  have hname := hs.spellings inner spelling name h
  refine ⟨hname, ?_, fun m c => by rw [declarePrivate_eq, hname]⟩
  have hlookup : (s'.scope inner).privateNames.lookup spelling = some name := hname
  have hsome : ((s'.scope inner).privateNames.lookup spelling).isSome = true := by rw [hlookup]; rfl
  unfold State.resolvePrivate State.findScope
  simp only [hsome, if_true]
  exact hlookup

theorem ClassNode.Opens.means (h : node.Opens inner s s') (hspells : node.Spells spelling) :
    ∃ name, s.nextPrivateName ≤ name.id ∧ name.id < s'.nextPrivateName ∧
      s'.Means inner spelling name := by
  obtain ⟨n, c, scope, h⟩ := h
  obtain ⟨-, hopening⟩ := classScope_opens h
  obtain ⟨m, hm, hspelling⟩ := hspells
  obtain ⟨name, hname⟩ := (hopening.declared m hm).resolve_left List.not_mem_nil spelling hspelling
  exact ⟨name, (hopening.new _ _ hname).1, (hopening.new _ _ hname).2, State.means_of_privateName? hname⟩

theorem ClassNode.Opens.names_new {name : PrivateName} {s₁ : State} (h : node.Opens inner s s')
    (hs : s'.Before s₁) (hname : node.Names inner s₁ name) :
    s.nextPrivateName ≤ name.id ∧ name.id < s'.nextPrivateName := by
  obtain ⟨spelling, hspells, hname⟩ := hname
  obtain ⟨name', hge, hlt, hmeans⟩ := h.means hspells
  obtain rfl := Option.some.inj (hname.symm.trans (hmeans s₁ hs).1)
  exact ⟨hge, hlt⟩

theorem ClassNode.Opens.apart {node' : ClassNode} {inner' : ScopeId} {s₁ s₂ s₃ s₄ : State}
    {name name' : PrivateName} (h : node.Opens inner s₁ s₂) (hs : s₂.Before s₃)
    (h' : node'.Opens inner' s₃ s₄) (hs' : s₄.Before s) (hname : node.Names inner s name)
    (hname' : node'.Names inner' s name') : name.id < name'.id := by
  obtain ⟨n, c, scope, hclass⟩ := id h'
  have hbefore := (hs.trans (classScope_opens hclass).1).trans hs'
  calc name.id < s₂.nextPrivateName := (h.names_new hbefore hname).2
    _ ≤ s₃.nextPrivateName := hs.privateNames
    _ ≤ name'.id := (h'.names_new hs' hname').1

/-- A class names its elements in its own scope. -/
theorem defineClass_names {n : Nat} {name : String} {id : ObjectId}
    (h : (defineClass scope node name).Comes (machine n) c s (.ok id) s') :
    ∃ inner prototype pending s₁ s₂ s₃, node.Opens inner s s₁ ∧ s₁.Before s₂ ∧
      (node.elements.foldlM (addElement inner id prototype) {}).Comes (machine n)
        { c with strict := true } s₂ (.ok pending) s₃ ∧
      pending.Named node inner s₃ ∧ s₃.Before s' := by
  have howns {s : State} {id : ObjectId} : (World.bare s).owns id := fun _ hd => nomatch hd
  have hownsScope {s : State} {id : ScopeId} : (World.bare s).ownsScope id := fun _ hd => nomatch hd
  rw [defineClass, comes_within] at h
  obtain ⟨inner, s₁, hclass, h⟩ := comes_bind_ok.mp h
  obtain ⟨⟨constructor, prototype⟩, s₂, hmade, h⟩ := comes_bind_ok.mp h
  obtain ⟨pending, s₃, hpending, h⟩ := comes_bind_ok.mp h
  have hbefore₂ := hmade.before newConstructor_safe
  have hlt := Nat.lt_of_lt_of_le (classScope_opens hclass).2.exists_scope hbefore₂.scopes
  obtain ⟨w, rfl, -, hnamed⟩ := hpending.reaches (classElements_safe hownsScope hlt howns)
  obtain ⟨-, hnamed⟩ := hnamed pending rfl
  obtain ⟨_, _, hfinish, hid⟩ :=
    h.reaches (finishClass_safe hownsScope howns World.met_bare World.met_bare hnamed)
  obtain ⟨rfl, -⟩ := hid id rfl
  exact ⟨inner, prototype, pending, s₁, s₂, _, ⟨n, _, scope, hclass⟩, hbefore₂, hpending, hnamed, hfinish⟩

end Names

/-- What is done with the private element that an object has by a name is settled by this element, and
changes no other one. -/
structure PrivateAccess (id : ObjectId) (name : PrivateName) : Prop where
  read : (readPrivate (.object id) name).SettledBy id name (ReadsPrivate id)
  write : ∀ v, (writePrivate (.object id) name v).SettledBy id name (WritesPrivate id name v)
  field : ∀ old v n c s r s', (s.object id).private? name = some (.field old) →
    (writePrivate (.object id) name v).Comes (machine n) c s r s' → s.KeepsElements s' id name ∧
      (r = .ok () → (s'.object id).private? name = some (.field v))
  put : ∀ (f : Object → PrivateElement) m c s r s',
    (modifyObject id fun o => o.putPrivate name (f o)).Comes m c s r s' → s.KeepsElements s' id name

theorem privateAccess {id : ObjectId} {name : PrivateName} : PrivateAccess id name where
  read := readPrivate_settled
  write _ := writePrivate_settled
  field _ _ _ _ _ _ _ := writePrivate_field
  put _ _ _ _ _ _ := keepsElements_modify

/-- The names that one evaluation of a class uses find nothing that only another one has added. -/
structure ClassNode.Separate (node node' : ClassNode) (inner inner' : ScopeId) (s : State) : Prop where
  names : ∀ name name', node.Names inner s name → node'.Names inner' s name' → name.id ≠ name'.id
  hidden : ∀ id name, node.Names inner s name →
    (∀ e ∈ (s.object id).privates, node'.Names inner' s e.1) → (s.object id).private? name = none

theorem ClassNode.Separate.of_names {node node' : ClassNode} {inner inner' : ScopeId} {s : State}
    (h : ∀ name name', node.Names inner s name → node'.Names inner' s name' → name.id ≠ name'.id) :
    node.Separate node' inner inner' s where
  names := h
  hidden _ name hname hall := List.lookup_eq_none_iff.mpr fun e he =>
    bne_iff_ne.mpr fun heq => h name e.1 hname (hall e he) (congrArg PrivateName.id heq)

/-- In a realm that any sequence of evaluations has led to, and in every state that operations lead to from
there, private elements form a map per object. Reads, writes and the operator `in` go by the element that
an object has itself, whatever it inherits from and whatever it stands for, and change no other one. Two
evaluations of classes, of the same one or not, use different names, so that neither finds what only the
other one has added. -/
theorem private_elements {r : Realm} (hr : r.Reachable) {s : State} (hs : r.Visits s) :
    s.PrivateMaps ∧ (∀ id name, PrivateAccess id name) ∧
    (∀ scope spelling target span m c s v s',
      (hasPrivateIn scope spelling target span).Comes m c s (.ok v) s' ↔
        ∃ name id, s.resolvePrivate scope spelling = some name ∧
          (evaluate scope target).Comes m c s (.ok (.object id)) s' ∧
          v = .boolean ((s'.object id).private? name).isSome) ∧
    (∀ n c scope (node : ClassNode) name s id s',
      (defineClass scope node name).Comes (machine n) c s (.ok id) s' →
        ∃ inner prototype pending s₁ s₂ s₃, node.Opens inner s s₁ ∧ s₁.Before s₂ ∧
          (node.elements.foldlM (addElement inner id prototype) {}).Comes (machine n)
            { c with strict := true } s₂ (.ok pending) s₃ ∧
          pending.Named node inner s₃ ∧ s₃.Before s') ∧
    (∀ (node : ClassNode) inner s₁ s₂, node.Opens inner s₁ s₂ →
      (∀ spelling, node.Spells spelling → ∃ name, s₂.Means inner spelling name) ∧
      ∀ (node' : ClassNode) inner' s₃ s₄ s₅, s₂.Before s₃ → node'.Opens inner' s₃ s₄ → s₄.Before s₅ →
        node.Separate node' inner inner' s₅ ∧ node'.Separate node inner' inner s₅) := by
  obtain ⟨w, hw, rfl, ht, -⟩ := hs.world hr
  refine ⟨(hw.named ht).privateMaps, fun _ _ => privateAccess, fun _ _ _ _ _ _ _ _ _ => comes_hasPrivateIn,
    fun _ _ _ _ _ _ _ _ => defineClass_names, fun node inner s₁ s₂ h => ⟨fun spelling hspells => ?_,
      fun node' inner' s₃ s₄ s₅ hs h' hs' => ?_⟩⟩
  · obtain ⟨name, -, -, hmeans⟩ := h.means hspells
    exact ⟨name, hmeans⟩
  · exact ⟨.of_names fun _ _ hname hname' => Nat.ne_of_lt (h.apart hs h' hs' hname hname'),
      .of_names fun _ _ hname' hname => Nat.ne_of_gt (h.apart hs h' hs' hname hname')⟩

/-- The first private element of the global object of a new realm. -/
theorem private_elements_initial : (Realm.initial []).Reachable ∧
    (Realm.initial []).Visits (Realm.initial []).state ∧ ∃ s',
      addPrivate ⟨25⟩ ⟨0, "#x"⟩ (.field .null) (machine 1) default (Realm.initial []).state = .value true s' ∧
      (s'.object ⟨25⟩).private? ⟨0, "#x"⟩ = some (.field .null) := by
  have hlaid : (Realm.initial []).state.Laid := Realm.initial_laid nofun
  refine ⟨Realm.reachable_initial, .rest, ?_⟩
  obtain ⟨hmaps, -⟩ := private_elements Realm.reachable_initial .rest
  obtain ⟨added, s', hadd, hfails, -, hadds, -⟩ := hmaps.add ⟨25⟩ ⟨0, "#x"⟩ (.field .null) (machine 1) default
  have hnone : ((Realm.initial []).state.object ⟨25⟩).hasPrivate ⟨0, "#x"⟩ = false := by
    simp [Object.hasPrivate, Object.private?, hlaid.privates_eq_nil]
  obtain rfl : added = true := by simpa [hnone] using hfails
  exact ⟨s', hadd, hadds rfl hlaid.size⟩

end EcmaScript

/-! Which private names a class may declare more than once: only the two halves of an accessor share
one. -/
namespace EcmaScript

/-- The declarations of a private name among the members of a class, in order: whether each is static
and how it uses the name. -/
def declarationsOf (name : String) (members : List Member) : List (Bool × PrivateUse) :=
  members.filterMap fun m =>
    match m.privateUse? with
    | some (other, isStatic, use, _) => if other = name then some (isStatic, use) else none
    | none => none

/-- A name is declared once, or as a getter and a setter that are both static or both not. -/
def DeclaredOnce (declarations : List (Bool × PrivateUse)) : Prop :=
  declarations.length = 1 ∨ ∃ isStatic,
    declarations = [(isStatic, .getter), (isStatic, .setter)] ∨
      declarations = [(isStatic, .setter), (isStatic, .getter)]

def PrivateUse.counterpart? : PrivateUse → Option PrivateUse
  | .getter => some .setter
  | .setter => some .getter
  | .other => none

namespace PrivateDeclaration
variable {isStatic isStatic' : Bool} {use use' : PrivateUse} {d : PrivateDeclaration}
  {declarations : List (Bool × PrivateUse)}

def Admits : Option PrivateDeclaration → List (Bool × PrivateUse) → Prop
  | _, [] => True
  | known, (isStatic, use) :: rest =>
    (known.getD { isStatic := isStatic }).clashes isStatic use = false ∧
      Admits (some ((known.getD { isStatic := isStatic }).add use)) rest

def isFull (d : PrivateDeclaration) : Bool := d.other || d.getter && d.setter

theorem clashes_of_isFull (h : d.isFull = true) : d.clashes isStatic use = true := by
  obtain ⟨_, getter, setter, other⟩ := d
  cases other with
  | true => simp [clashes]
  | false =>
    obtain ⟨rfl, rfl⟩ : getter = true ∧ setter = true := by simpa [isFull] using h
    cases use <;> simp [clashes]

theorem admits_full (h : d.isFull = true) : Admits (some d) declarations ↔ declarations = [] := by
  cases declarations with
  | nil => simp [Admits]
  | cons declaration rest => simp [Admits, clashes_of_isFull h]

theorem clashes_fresh : clashes { isStatic := isStatic } isStatic use = false := by
  cases use <;> simp [clashes]

theorem clashes_second : (add { isStatic := isStatic } use).clashes isStatic' use' = false ↔
    isStatic' = isStatic ∧ use.counterpart? = some use' := by
  cases use <;> cases use' <;> simp [add, clashes, PrivateUse.counterpart?, eq_comm (a := isStatic)]

theorem isFull_second (h : use.counterpart? = some use') :
    ((add { isStatic := isStatic } use).add use').isFull = true := by
  cases use <;> cases h <;> rfl

theorem admits_second : Admits (some (add { isStatic := isStatic } use)) declarations ↔
    declarations = [] ∨ ∃ half, use.counterpart? = some half ∧ declarations = [(isStatic, half)] := by
  cases declarations with
  | nil => simp [Admits]
  | cons declaration rest =>
    obtain ⟨isStatic', use'⟩ := declaration
    rw [Admits, Option.getD_some, clashes_second]
    constructor
    · rintro ⟨⟨rfl, hhalf⟩, hrest⟩
      rw [(admits_full (isFull_second hhalf)).mp hrest]
      exact .inr ⟨use', hhalf, rfl⟩
    · rintro (hnil | ⟨half, hhalf, heq⟩)
      · cases hnil
      · cases heq
        exact ⟨⟨rfl, hhalf⟩, (admits_full (isFull_second hhalf)).mpr rfl⟩

theorem admits_none : Admits none declarations ↔ declarations = [] ∨ DeclaredOnce declarations := by
  cases declarations with
  | nil => simp [Admits]
  | cons declaration rest =>
    obtain ⟨isStatic, use⟩ := declaration
    rw [Admits, Option.getD_none, admits_second]
    constructor
    · rintro ⟨-, rfl | ⟨half, hhalf, rfl⟩⟩
      · exact .inr (.inl rfl)
      · cases use <;> cases hhalf
        · exact .inr (.inr ⟨isStatic, .inl rfl⟩)
        · exact .inr (.inr ⟨isStatic, .inr rfl⟩)
    · rintro (hnil | hone | ⟨_, heq | heq⟩)
      · cases hnil
      · exact ⟨clashes_fresh, .inl (List.length_eq_zero_iff.mp (Nat.succ.inj hone))⟩
      · cases heq
        exact ⟨clashes_fresh, .inr ⟨.setter, rfl, rfl⟩⟩
      · cases heq
        exact ⟨clashes_fresh, .inr ⟨.getter, rfl, rfl⟩⟩

end PrivateDeclaration

section Members
open PrivateDeclaration
variable {m : Member} {members : List Member} {name other : String} {isStatic : Bool} {use : PrivateUse}
  {span : Span} {seen : List (String × PrivateDeclaration)}

theorem declarationsOf_skip (h : m.privateUse? = none) :
    declarationsOf name (m :: members) = declarationsOf name members := by
  simp [declarationsOf, h]

/-- What a declaration of any name means for a name: nothing, or that it must not be one too many. -/
theorem admits_cons (huse : m.privateUse? = some (other, isStatic, use, span)) :
    let d := (seen.lookup other).getD { isStatic := isStatic }
    Admits (seen.lookup name) (declarationsOf name (m :: members)) ↔
      (other = name → d.clashes isStatic use = false) ∧
        Admits (((other, d.add use) :: seen).lookup name) (declarationsOf name members) := by
  intro d
  by_cases hname : other = name
  · subst hname
    have hdeclarations : declarationsOf other (m :: members) =
        (isStatic, use) :: declarationsOf other members := by
      simp [declarationsOf, huse]
    rw [hdeclarations, List.lookup_cons_self]
    exact and_congr_left' ⟨fun h _ => h, fun h => h rfl⟩
  · have hdeclarations : declarationsOf name (m :: members) = declarationsOf name members := by
      simp [declarationsOf, huse, hname]
    rw [hdeclarations, List.lookup_cons, beq_false_of_ne (Ne.symm hname)]
    exact ⟨fun h => ⟨fun heq => absurd heq hname, h⟩, fun h => h.2⟩

theorem admits_of_privateClash? (h : privateClash? seen members = none) (name : String) :
    Admits (seen.lookup name) (declarationsOf name members) := by
  induction members generalizing seen with
  | nil => trivial
  | cons m members ih =>
    rw [privateClash?] at h
    split at h
    · next huse =>
      rw [declarationsOf_skip huse]
      exact ih h
    · next huse =>
      dsimp only at h
      split at h
      · cases h
      · next hclash =>
        exact (admits_cons huse).mpr ⟨fun _ => eq_false_of_ne_true hclash, ih h⟩

theorem not_admits_of_privateClash? (h : privateClash? seen members = some (name, span)) :
    ¬ Admits (seen.lookup name) (declarationsOf name members) := by
  induction members generalizing seen with
  | nil => cases h
  | cons m members ih =>
    rw [privateClash?] at h
    split at h
    · next huse =>
      rw [declarationsOf_skip huse]
      exact ih h
    · next huse =>
      dsimp only at h
      intro hadmits
      obtain ⟨hsame, hrest⟩ := (admits_cons huse).mp hadmits
      split at h
      · next hclash =>
        cases h
        exact Bool.eq_false_iff.mp (hsame rfl) hclash
      · exact ih h hrest

end Members

/-- A class is accepted if and only if it declares each of its private names once, or as a getter and a
setter that are both static or both not; and the name for which a class is refused is one that it
declares otherwise. -/
theorem privateClash?_spec (node : ClassNode) :
    (privateClash? [] node.elements = none ↔ ∀ name,
      declarationsOf name node.elements = [] ∨ DeclaredOnce (declarationsOf name node.elements)) ∧
    ∀ name span, privateClash? [] node.elements = some (name, span) →
      ¬ DeclaredOnce (declarationsOf name node.elements) := by
  have hrefused (name : String) (span : Span) (h : privateClash? [] node.elements = some (name, span)) :
      ¬ (declarationsOf name node.elements = [] ∨ DeclaredOnce (declarationsOf name node.elements)) :=
    fun hdeclared => not_admits_of_privateClash? h (PrivateDeclaration.admits_none.mpr hdeclared)
  refine ⟨⟨fun h name => ?_, fun h => ?_⟩, fun name span h hone => hrefused name span h (.inr hone)⟩
  · exact PrivateDeclaration.admits_none.mp (admits_of_privateClash? h name)
  · cases hclash : privateClash? [] node.elements with
    | none => rfl
    | some refused => exact absurd (h refused.1) (hrefused refused.1 refused.2 hclash)

end EcmaScript
