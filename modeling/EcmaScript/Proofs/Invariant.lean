import EcmaScript.Proofs.Alters

/-! What every change of the state keeps. -/
namespace EcmaScript

namespace World
variable {w w' : World} {s : State}

theorem knows_mono (ht : w'.tracked = w.tracked)
    (hn : w.state.heap.size ≤ w'.state.heap.size)
    (hh : w.tracked → ∀ h, w'.hidden h → w.hidden h ∨ ¬ w.state.Has h)
    (hs : ∀ id, id.index < w.state.heap.size → (w'.state.object id).secret → (w.state.object id).secret)
    (id : ObjectId) (h : w.knows id) : w'.knows id := by
  intro htracked
  rw [ht] at htracked
  obtain ⟨hsize, hhidden, hsecret⟩ := h htracked
  refine ⟨by omega, fun hid => ?_, fun h' => hsecret (hs id hsize h')⟩
  rcases hh htracked _ hid with h' | h'
  · exact hhidden h'
  · exact h' hsize

end World

theorem Met.mono {α : Type} [Mentions α] {w w' : World} {a : α} (ha : Met w a)
    (h : ∀ id, w.knows id → w'.knows id) : Met w' a := Mentions.mono h ha

section Tables
variable {K : Sight} {t : PropertyTable} {key : PropertyKey} {p : Property}

theorem met_descriptor {w : World} {d : Descriptor} :
    Met w d ↔ Met w d.value ∧ Met w d.getter ∧ Met w d.setter := Iff.rfl

section Arrays
variable {α : Type} [Mentions α] {w : World} {a b c : α}

theorem Met.toArray {l : List α} (h : Met w l) : Met w l.toArray :=
  fun x hx => h x (by simpa using hx)

theorem Met.nil : Met w ([] : List α) := within_nil

theorem Met.cons {l : List α} (ha : Met w a) (hl : Met w l) : Met w (a :: l) :=
  within_cons.mpr ⟨ha, hl⟩

theorem Met.empty : Met w (#[] : Array α) := Met.nil.toArray

theorem Met.one (ha : Met w a) : Met w #[a] := (Met.cons ha .nil).toArray

theorem Met.two (ha : Met w a) (hb : Met w b) : Met w #[a, b] :=
  (Met.cons ha (.cons hb .nil)).toArray

theorem Met.three (ha : Met w a) (hb : Met w b) (hc : Met w c) : Met w #[a, b, c] :=
  (Met.cons ha (.cons hb (.cons hc .nil))).toArray

theorem Met.append {l l' : Array α} (h : Met w l) (h' : Met w l') : Met w (l ++ l') := by
  intro x hx
  rcases Array.mem_append.mp hx with hx | hx
  · exact h x hx
  · exact h' x hx

theorem Met.extract {l : Array α} {start stop : Nat} (h : Met w l) : Met w (l.extract start stop) := by
  intro x hx
  obtain ⟨j, -, rfl⟩ := Array.mem_extract_iff_getElem.mp hx
  exact h _ (Array.getElem_mem _)

theorem Met.drop {l : List α} {n : Nat} (h : Met w l) : Met w (l.drop n) :=
  within_of_subset h fun _ hx => List.mem_of_mem_drop hx

end Arrays

theorem within_emptyTable : within K ({} : PropertyTable) := by
  intro key p h
  simp at h

theorem within_put (ht : within K t) (hp : within K p) : within K (t.put key p) := by
  intro other q hq
  rw [PropertyTable.get?_put] at hq
  split at hq
  · cases hq
    exact hp
  · exact ht other q hq

theorem within_erase (ht : within K t) : within K (t.erase key) := by
  intro other q hq
  rw [PropertyTable.get?_erase] at hq
  split at hq
  · cases hq
  · exact ht other q hq

end Tables

theorem met_object {w : World} (hw : Met w w.state) (id : ObjectId) :
    Met w (w.state.object id) :=
  within_getD hw.heap ⟨trivial, trivial, within_emptyTable, within_nil⟩

theorem met_scope {w : World} (hw : Met w w.state) (id : ScopeId) : Met w (w.state.scope id) :=
  within_getD hw.scopes ⟨hw.first, within_nil⟩

namespace Act
variable {w : World} {s : State}

theorem size_le (h : Act w s) : w.state.heap.size ≤ s.heap.size := by
  cases h with
  | allocate => simp
  | settle => simp [State.settled]
  | register => simp [State.registered]
  | object | build | reparent => simp
  | _ => exact Nat.le_refl _

theorem lastTask_le (h : Act w s) : w.state.lastTask ≤ s.lastTask := by
  cases h with
  | name => exact Nat.le_succ _
  | _ => exact Nat.le_refl _

theorem has (h : Act w s) {held : Held} (hh : w.state.Has held) : s.Has held := by
  cases held with
  | object id => exact Nat.lt_of_lt_of_le hh h.size_le
  | task id => exact Nat.le_trans hh h.lastTask_le

theorem scopes_le (h : Act w s) : w.state.scopes.size ≤ s.scopes.size := by
  cases h with
  | newScope => simp
  | scope | activate | declarePrivate => simp [State.replaceScope, State.activated, State.declared]
  | _ => exact Nat.le_refl _

theorem heap_settled {s : State} {id : ObjectId} {state : PromiseState} {handled untracked : Bool}
    {reactions : List Reaction} {argument : Value} :
    (s.settled id state handled reactions argument untracked).heap =
      (s.replace id { s.object id with kind := .promise { state, handled } }).heap :=
  State.heap_modify (f := fun o => { o with kind := .promise { state, handled } })

theorem object_settled {s : State} {id other : ObjectId} {state : PromiseState}
    {handled untracked : Bool} {reactions : List Reaction} {argument : Value} :
    (s.settled id state handled reactions argument untracked).object other =
      (s.replace id { s.object id with kind := .promise { state, handled } }).object other := by
  simp only [State.object, heap_settled]

theorem heap_registered {s : State} {id : ObjectId} {p : PromiseData} {onValue onReason : Reaction} :
    (s.registered id p onValue onReason).heap =
      (s.replace id { s.object id with kind := .promise (p.register onValue onReason) }).heap :=
  State.heap_modify (f := fun o => { o with kind := .promise (p.register onValue onReason) })

theorem object_registered {s : State} {id other : ObjectId} {p : PromiseData}
    {onValue onReason : Reaction} : (s.registered id p onValue onReason).object other =
      (s.replace id { s.object id with kind := .promise (p.register onValue onReason) }).object
        other := by
  simp only [State.object, heap_registered]

/-- An object that exists keeps its prototype and what its kind promises, or is given a prototype
that is allowed, or is a promise that is settled or that reactions are registered with. -/
inductive Keeps (w : World) (id : ObjectId) (o : Object) : Prop where
  | same (h : o = w.state.object id)
  | alters (hid : w.owns id) (h : (w.state.object id).Alters w.Names o)
  | build (hid : w.owns id) (hnew : w.recent id ∨ (w.state.object id).unstamped)
    (hk : (w.state.object id).isArguments = false) (h : (w.state.object id).Built o)
  | reparent (hid : w.owns id) {prototype : Option ObjectId}
    (hnew : w.recent id ∨ (w.state.object id).extensible = true)
    (ho : o = { w.state.object id with prototype })
  | settle (hid : w.owns id) {p : PromiseData} {state : PromiseState}
    (hk : (w.state.object id).kind = .promise p) (hp : p.state = .pending)
    (ho : o = { w.state.object id with kind := .promise { state, handled := p.handled } })
  | register (h : w.isOpen) {p : PromiseData} {onValue onReason : Reaction}
    (hk : (w.state.object id).kind = .promise p) (hwv : w.tracked → onValue.Waking w.state)
    (hwr : w.tracked → onReason.Waking w.state)
    (ho : o = { w.state.object id with kind := .promise (p.register onValue onReason) })

theorem keeps (h : Act w s) (id : ObjectId) (hid : id.index < w.state.heap.size) :
    Keeps w id (s.object id) := by
  cases h with
  | allocate =>
    rw [State.object_push, if_neg (by omega)]
    exact .same rfl
  | @object id' o howns _ h =>
    rw [State.object_replace]
    split
    case isTrue he =>
      obtain ⟨rfl, -⟩ := he
      exact .alters howns h
    case isFalse => exact .same rfl
  | @build id' o' howns _ hnew hk h =>
    rw [State.object_replace]
    split
    case isTrue he =>
      obtain ⟨rfl, -⟩ := he
      exact .build howns hnew hk h
    case isFalse => exact .same rfl
  | @reparent id' _ howns _ hnew _ =>
    rw [State.object_replace]
    split
    case isTrue he =>
      obtain ⟨rfl, -⟩ := he
      exact .reparent howns hnew rfl
    case isFalse => exact .same rfl
  | @register id' _ _ _ hopen hk _ _ hwv hwr =>
    rw [object_registered, State.object_replace]
    split
    case isTrue he =>
      obtain ⟨rfl, -⟩ := he
      exact .register hopen hk hwv hwr rfl
    case isFalse => exact .same rfl
  | @settle id' p _ _ _ _ howns _ hk hp h =>
    rw [object_settled, State.object_replace]
    split
    case isTrue he =>
      obtain ⟨rfl, -⟩ := he
      exact .settle howns hk hp rfl
    case isFalse => exact .same rfl
  | _ => exact .same rfl

theorem Keeps.secret {id : ObjectId} {o : Object} (h : Keeps w id o) (ho : o.secret) :
    (w.state.object id).secret := by
  cases h with
  | same h => rwa [h] at ho
  | alters _ h => exact h.secret ho
  | build _ _ _ h =>
    obtain ⟨stamp, h⟩ := h
    refine Object.secret_of_kept (by rw [h]; exact .same _) (fun hs => ?_) ho
    rw [h, hs, Bool.or_true]
  | reparent _ _ h =>
    exact Object.secret_of_kept (by rw [h]; exact .same _) (by rw [h]; exact fun h => h) ho
  | settle _ _ _ h | register _ _ _ _ h =>
    rw [h] at ho
    rcases ho with ⟨herror, -⟩ | hwakes
    · cases herror
    · exact absurd rfl hwakes

theorem met {α : Type} [Mentions α] {a : α} (h : Act w s) (ha : Met w a) :
    Met { w with state := s } a :=
  ha.mono (World.knows_mono rfl h.size_le (fun _ _ => .inl) fun id hid => (h.keeps id hid).secret)

theorem Queue.toList_foldl_push {α β : Type} (f : β → α) (l : List β) (q : Queue α) :
    (l.foldl (fun q b => q.push (f b)) q).toList = q.toList ++ l.map f := by
  induction l generalizing q with
  | nil => simp
  | cons b rest ih => simp [ih, Queue.toList_push]

theorem met_register {p : PromiseData} {onValue onReason : Reaction}
    (hp : Met w (ObjectKind.promise p)) (hv : Met w onValue) (hr : Met w onReason) :
    Met w (ObjectKind.promise (p.register onValue onReason)) := by
  unfold PromiseData.register
  split
  · exact ⟨hp.1, within_append.mpr ⟨hp.2.1, within_cons.mpr ⟨hv, within_nil⟩⟩,
      within_append.mpr ⟨hp.2.2, within_cons.mpr ⟨hr, within_nil⟩⟩⟩
  · exact hp

theorem met_due {p : PromiseData} {onValue onReason : Reaction} {jobs : Queue Job}
    (hj : Met w jobs) (hp : Met w (ObjectKind.promise p)) (hv : Met w onValue)
    (hr : Met w onReason) : Met w ((p.due onValue onReason).foldl Queue.push jobs) := by
  have hpush {job : Job} (h : Met w job) : Met w (jobs.push job) := by
    have : within w.knows (jobs.toList ++ [job]) :=
      within_append.mpr ⟨hj, within_cons.mpr ⟨h, within_nil⟩⟩
    rwa [← Queue.toList_push] at this
  have hstate : Met w p.state := hp.1
  unfold PromiseData.due
  cases h : p.state with
  | pending => exact hj
  | fulfilled v => exact hpush ⟨hv, by rwa [h] at hstate⟩
  | rejected v => exact hpush ⟨hr, by rwa [h] at hstate⟩

theorem met_jobs {jobs : Queue Job} {reactions : List Reaction} {argument : Value}
    (hj : Met w jobs) (hr : Met w reactions) (ha : Met w argument) :
    Met w (reactions.foldl (fun jobs r => jobs.push (.react r argument)) jobs) := by
  induction reactions generalizing jobs with
  | nil => exact hj
  | cons r rest ih =>
    obtain ⟨hr, hrest⟩ := within_cons.mp hr
    refine ih ?_ hrest
    have : within w.knows (jobs.toList ++ [Job.react r argument]) :=
      within_append.mpr ⟨hj, within_cons.mpr ⟨⟨hr, ha⟩, within_nil⟩⟩
    rwa [← Queue.toList_push] at this

theorem met_activated {kind : ScopeKind} {this : ObjectId} (hv : Met w this) (hk : Met w kind) :
    Met w (kind.activated this) := by
  cases kind with
  | function a => exact ⟨hv, hk.2⟩
  | _ => exact hk

theorem closed (h : Act w s) (hw : Met w w.state) : Met { w with state := s } s := by
  have hk : Met { w with state := s } w.state := h.met hw
  have hm {α : Type} [Mentions α] {a : α} (ha : Met w a) : Met { w with state := s } a := h.met ha
  cases h with
  | allocate ho => exact { hk with heap := within_push hk.heap (hm ho) }
  | object _ ho => exact { hk with heap := within_setIfInBounds hk.heap (hm ho) }
  | build _ ho => exact { hk with heap := within_setIfInBounds hk.heap (hm ho) }
  | @reparent id _ _ hp =>
    have ho := met_object hw id
    exact { hk with heap := within_setIfInBounds hk.heap (hm ⟨ho.1, hp, ho.2.2⟩) }
  | @settle id p _ _ _ _ _ hs hkind _ h =>
    have ho := met_object hw id
    have hp : Met w (ObjectKind.promise p) := hkind ▸ (within_object.mp ho).1
    have hheap : Met w (ObjectKind.promise { state := _, handled := p.handled }) :=
      ⟨hs, within_nil, within_nil⟩
    refine { hk with
      heap := ?_
      jobs := ?_ }
    · rw [heap_settled]
      exact within_setIfInBounds hk.heap (hm ⟨hheap, ho.2⟩)
    · cases h with
      | fulfilled v => exact met_jobs hk.jobs (hm hp.2.1) (hm hs)
      | rejected v => exact met_jobs hk.jobs (hm hp.2.2) (hm hs)
  | @register id p _ _ _ hkind hv hr _ _ =>
    have ho := met_object hw id
    have hp : Met w (ObjectKind.promise p) := hkind ▸ (within_object.mp ho).1
    refine { hk with
      heap := ?_
      jobs := met_due hk.jobs (hm hp) (hm hv) (hm hr) }
    rw [heap_registered]
    exact within_setIfInBounds hk.heap (hm ⟨met_register hp hv hr, ho.2⟩)
  | newScope hs => exact { hk with scopes := within_push hk.scopes (hm hs) }
  | scope _ hs => exact { hk with scopes := within_setIfInBounds hk.scopes (hm hs) }
  | @declarePrivate id _ _ =>
    exact { hk with scopes := within_setIfInBounds hk.scopes (hm (met_scope hw id)) }
  | @activate id _ hv =>
    have hsc := within_scope.mp (met_scope hw id)
    refine { hk with scopes := within_setIfInBounds hk.scopes (hm ⟨?_, hsc.2⟩) }
    exact met_activated hv hsc.1
  | @enqueue job hj =>
    refine { hk with jobs := ?_ }
    have : within _ (w.state.jobs.toList ++ [job]) :=
      within_append.mpr ⟨hk.jobs, within_cons.mpr ⟨hm hj, within_nil⟩⟩
    rwa [← Queue.toList_push] at this
  | timers _ ht _ => exact { hk with timers := ht }
  | newSlot =>
    have hslot : Met w ({} : AwaitSlot) := trivial
    exact { hk with awaits := within_push hk.awaits (hm hslot) }
  | @wait slot task =>
    have h : Met { w with state := w.state.setWaiter slot task }
        (w.state.awaits.modify slot fun a => { a with waiter := some task }) :=
      within_modify hk.awaits fun _ h => h
    exact { hk with awaits := h }
  | @fill slot waiter outcome _ _ ho =>
    have hslot : Met w ({ outcome := some outcome } : AwaitSlot) := ho
    exact { hk with awaits := within_setIfInBounds hk.awaits (hm hslot) }
  | outcomes h => exact { hk with outcomes := h }
  | resolvers h => exact { hk with resolvers := h }
  | aggregates h => exact { hk with aggregates := h }
  | template h => exact { hk with templates := within_cons.mpr ⟨⟨⟨trivial, trivial⟩, h⟩, hk.templates⟩ }
  | latches => exact { hk with }
  | aside => exact { hk with }
  | name => exact { hk with }
  | takeFatal => exact { hk with fatal := trivial }

theorem rooted (hw : Met w w.state) (ht : w.tracked) : w.state.Rooted := by
  intro id parent hp
  have hprototype : Met w (w.state.object id).prototype := (met_object hw id).2.1
  rw [hp] at hprototype
  exact (hprototype ht).1

theorem acyclic (h : Act w s) (hw : Met w w.state) (ht : w.tracked) (ha : w.state.Acyclic) :
    s.Acyclic := by
  have hrooted := rooted hw ht
  have hkept {id : ObjectId} {o : Object} (hp : o.prototype = (w.state.object id).prototype)
      (hproxy : o.isProxy = (w.state.object id).isProxy) : (w.state.replace id o).Acyclic := by
    refine ha.of_parent?_eq fun a => ?_
    unfold State.parent?
    rw [State.object_replace]
    split
    case isTrue he =>
      obtain ⟨rfl, -⟩ := he
      rw [hp, hproxy]
    case isFalse => rfl
  cases h with
  | @allocate o ho =>
    refine ha.update (x := ⟨w.state.heap.size⟩) (fun a hne => ?_) fun p hp => ?_
    · unfold State.parent?
      rw [State.object_push, if_neg fun he => hne (congrArg ObjectId.mk he)]
    · have hprototype : Met w o.prototype := ho.2.1
      unfold State.parent? at hp
      rw [State.object_push, if_pos rfl] at hp
      split at hp
      · cases hp
      · rw [hp] at hprototype
        have hlt := (hprototype ht).1
        refine State.not_reaches_of_not_inherits (fun a hin => ?_) fun he => ?_
        · have := hrooted.parent? hin
          simp at this
        · simp [he] at hlt
  | object _ _ h => exact hkept h.prototype_eq h.isProxy_eq
  | build _ _ _ _ h =>
    obtain ⟨stamp, h⟩ := h
    exact hkept (by rw [h]) (by rw [h]; rfl)
  | @reparent id prototype _ hp _ h =>
    refine ha.update (x := id) (fun a hne => ?_) fun p hp => ?_
    · unfold State.parent?
      rw [State.object_replace_ne hne]
    · rcases Nat.lt_or_ge id.index w.state.heap.size with hin | hout
      · unfold State.parent? at hp
        rw [State.object_replace_self hin] at hp
        split at hp
        · cases hp
        · obtain rfl : prototype = some p := hp
          rcases h ht with h | ⟨h, hne⟩
          · exact ha.not_reaches hrooted h
          · refine State.not_reaches_of_not_inherits (fun a hin => ?_) fun he => hne (he ▸ rfl)
            unfold State.Inherits State.parent? at hin
            split at hin
            · cases hin
            · exact h a hin
      · unfold State.parent? at hp
        rw [State.object_of_size_le (by simpa using hout)] at hp
        cases hp
  | settle _ _ hk =>
    refine ha.of_parent?_eq fun a => ?_
    unfold State.parent?
    rw [object_settled, State.object_replace]
    split
    case isTrue he =>
      obtain ⟨rfl, -⟩ := he
      simp [Object.isProxy, hk]
    case isFalse => rfl
  | register _ hk =>
    refine ha.of_parent?_eq fun a => ?_
    unfold State.parent?
    rw [object_registered, State.object_replace]
    split
    case isTrue he =>
      obtain ⟨rfl, -⟩ := he
      simp [Object.isProxy, hk]
    case isFalse => rfl
  | _ => exact ha.of_parent?_eq fun a => rfl

theorem fatal_eq_none (h : Act w s) (hf : w.state.fatal = none) : s.fatal = none := by
  cases h with
  | takeFatal => rfl
  | _ => exact hf

theorem numbered (h : Act w s) (ht : w.tracked) (hn : w.state.timers.Numbered) :
    s.timers.Numbered := by
  cases h with
  | timers _ _ hn => exact hn ht
  | _ => exact hn

theorem globalObject_eq (h : Act w s) : s.globalObject = w.state.globalObject := by
  cases h <;> rfl

theorem effectTables_eq (h : Act w s) : s.effectTables = w.state.effectTables := by
  cases h <;> rfl

theorem new (h : Act w s) {id : ObjectId} (hid : w.state.heap.size ≤ id.index)
    (hkind : (s.object id).kind ≠ .ordinary) :
    ∃ o, s = { w.state with heap := w.state.heap.push o } ∧ s.object id = o ∧ Met w o ∧
      o.Begins w := by
  cases h with
  | @allocate o ho hb =>
    refine ⟨o, rfl, ?_, ho, hb⟩
    rw [State.object_push] at hkind ⊢
    split
    case isTrue => rfl
    case isFalse hne =>
      rw [if_neg hne, State.object_of_size_le hid] at hkind
      exact absurd rfl hkind
  | _ =>
    refine absurd ?_ hkind
    rw [State.object_of_size_le (by
      simpa [State.replaceScope, State.settled, State.registered, State.setWaiter, State.filled,
        State.declared, State.activated] using hid)]
    rfl

theorem Keeps.native {id : ObjectId} {o : Object} {name : String} {f : Native} (h : Keeps w id o)
    (hk : (w.state.object id).kind = .function (.native name f)) :
    o.kind = .function (.native name f) := by
  cases h with
  | same h => rw [h, hk]
  | alters _ h => exact h.kind_kept.native hk
  | build _ _ _ h =>
    obtain ⟨stamp, h⟩ := h
    rw [h, hk]
  | reparent _ _ h => rw [h, hk]
  | settle _ hp => simp [hk] at hp
  | register _ hp => simp [hk] at hp

theorem Keeps.arguments {id : ObjectId} {o : Object} {shared : ArgumentMap} (h : Keeps w id o)
    (hk : o.kind = .arguments (some shared)) :
    ∃ shared', (w.state.object id).kind = .arguments (some shared') ∧
      shared'.scope = shared.scope := by
  cases h with
  | same h => exact ⟨shared, h ▸ hk, rfl⟩
  | alters _ h => exact h.kind_kept.arguments hk
  | build _ _ _ h =>
    obtain ⟨stamp, h⟩ := h
    exact ⟨shared, by rw [h] at hk; exact hk, rfl⟩
  | reparent _ _ h => exact ⟨shared, by rw [h] at hk; exact hk, rfl⟩
  | settle _ _ _ h => simp [h] at hk
  | register _ _ _ _ h => simp [h] at hk

theorem dryInv (h : Act w s) {d : DryRun} (hd : d ∈ w.dry) (hw : World.DryInv d w.state) :
    World.DryInv d s where
  objects := Nat.le_trans hw.objects h.size_le
  scopes := Nat.le_trans hw.scopes h.scopes_le
  global := h.globalObject_eq ▸ hw.global
  arguments id shared hid hk := by
    by_cases hold : id.index < w.state.heap.size
    · obtain ⟨shared', hk', hscope⟩ := (h.keeps id hold).arguments hk
      exact hscope ▸ hw.arguments id shared' hid hk'
    · obtain ⟨o, -, rfl, -, hb⟩ := h.new (Nat.le_of_not_lt hold) (by simp [hk])
      have hb := (Object.begins_iff.mp hb).2
      rw [Object.KindBegins, hk] at hb
      exact hb.1 d hd
  table id flags hl hp := by
    rw [h.effectTables_eq] at hl
    obtain ⟨name, f, hk, hf⟩ := hw.table id flags hl hp
    refine ⟨name, f, (h.keeps id ?_).native hk, hf⟩
    exact State.lt_of_kind (by simp [hk])

theorem Keeps.name_eq {id : ObjectId} {o : Object} (h : Keeps w id o) :
    o.kind.name = (w.state.object id).kind.name := by
  cases h with
  | same h => rw [h]
  | alters _ h => exact h.kind_kept.name_eq
  | build _ _ _ h =>
    obtain ⟨stamp, h⟩ := h
    rw [h]
  | reparent _ _ h => rw [h]
  | settle _ hp _ h => rw [h, hp]; rfl
  | register _ hp _ _ h => rw [h, hp]; rfl

theorem Keeps.mapsPlain {id : ObjectId} {o : Object} (h : Keeps w id o)
    (ho : (w.state.object id).MapsPlain) : o.MapsPlain := by
  cases h with
  | same h => rwa [h]
  | alters _ h => exact h.mapsPlain ho
  | build _ _ hk h =>
    obtain ⟨stamp, h⟩ := h
    exact .of_kind (by rw [h]; exact hk)
  | reparent _ _ h => exact ho.congr (by rw [h]) (by rw [h])
  | settle _ _ _ h => exact .of_kind (by rw [h]; rfl)
  | register _ _ _ _ h => exact .of_kind (by rw [h]; rfl)

theorem mapsPlain (h : Act w s) (hw : ∀ id, (w.state.object id).MapsPlain) (id : ObjectId) :
    (s.object id).MapsPlain := by
  by_cases hold : id.index < w.state.heap.size
  · exact (h.keeps id hold).mapsPlain (hw id)
  · by_cases hkind : (s.object id).kind = .ordinary
    · exact .of_kind (by simp [Object.isArguments, hkind])
    · obtain ⟨o, -, rfl, -, hb⟩ := h.new (Nat.le_of_not_lt hold) hkind
      have hb := (Object.begins_iff.mp hb).2
      unfold Object.KindBegins at hb
      split at hb
      · rename_i hp
        exact .of_kind (by simp [Object.isArguments, hp])
      · rename_i hp
        exact .of_kind (by simp [Object.isArguments, hp])
      · exact hb.2
      · rename_i hargs
        intro key hmap
        unfold Object.maps at hmap
        split at hmap
        · exact absurd ‹_› (hargs _)
        · cases hmap

theorem Keeps.wakes {id : ObjectId} {o : Object} {slot : Nat} (h : Keeps w id o)
    (hk : (w.state.object id).kind.wakes? = some slot) : o.kind.wakes? = some slot := by
  cases h with
  | same h => rwa [h]
  | alters _ h => rwa [h.kind_kept.wakes?_eq]
  | build _ _ _ h =>
    obtain ⟨stamp, h⟩ := h
    rwa [h]
  | reparent _ _ h => rwa [h]
  | settle _ hp | register _ hp => simp [hp, ObjectKind.wakes?] at hk

theorem wakes (h : Act w s) {id : ObjectId} {slot : Nat}
    (hk : (w.state.object id).kind.wakes? = some slot) : (s.object id).kind.wakes? = some slot := by
  refine (h.keeps id (State.lt_of_kind fun hn => ?_)).wakes hk
  rw [hn] at hk
  cases hk

theorem Keeps.reactions {id : ObjectId} {o : Object} {p : PromiseData} {r : Reaction}
    (h : Keeps w id o) (hk : o.kind = .promise p) (hr : r ∈ p.onFulfilled ∨ r ∈ p.onRejected) :
    w.state.Registers r ∨ (w.tracked → r.Waking w.state) := by
  have hsame (heq : o.kind = (w.state.object id).kind) : w.state.Registers r :=
    .promise id p (heq ▸ hk) hr
  cases h with
  | same h => exact .inl (hsame (by rw [h]))
  | alters _ h => exact .inl (.promise id p (h.kind_kept.promise_iff.mp hk) hr)
  | build _ _ _ h =>
    obtain ⟨stamp, h⟩ := h
    exact .inl (hsame (by rw [h]))
  | reparent _ _ h => exact .inl (hsame (by rw [h]))
  | settle _ _ _ h =>
    rw [h] at hk
    cases hk
    simp at hr
  | @register _ p₀ onValue onReason hk₀ hwv hwr h =>
    rw [h] at hk
    cases hk
    unfold PromiseData.register at hr
    split at hr
    · simp only [List.mem_append, List.mem_singleton] at hr
      rcases hr with (hr | rfl) | hr | rfl
      · exact .inl (.promise id p₀ hk₀ (.inl hr))
      · exact .inr hwv
      · exact .inl (.promise id p₀ hk₀ (.inr hr))
      · exact .inr hwr
    · exact .inl (.promise id p₀ hk₀ hr)

theorem registers (h : Act w s) {r : Reaction} (hr : s.Registers r) :
    w.state.Registers r ∨ (w.tracked → r.Waking w.state) := by
  cases hr with
  | promise id p hk hr =>
    rcases Nat.lt_or_ge id.index w.state.heap.size with hold | hnew
    · exact (h.keeps id hold).reactions hk hr
    · obtain ⟨o, -, ho, -, hb⟩ := h.new hnew (by simp [hk])
      have hb := (Object.begins_iff.mp hb).2
      rw [← ho, Object.KindBegins, hk] at hb
      subst hb
      simp at hr
  | job v hjob =>
    cases h with
    | @settle id p _ _ _ _ _ _ hk _ h =>
      rw [State.settled, Queue.toList_foldl_push (Job.react · _), List.mem_append, List.mem_map] at hjob
      rcases hjob with hjob | ⟨r', hr', heq⟩
      · exact .inl (.job v hjob)
      · cases heq
        cases h with
        | fulfilled => exact .inl (.promise id p hk (.inl hr'))
        | rejected => exact .inl (.promise id p hk (.inr hr'))
    | @register id p onValue onReason _ _ _ _ hwv hwr =>
      rw [State.registered, Queue.toList_foldl_push fun job => job, List.mem_append, List.map_id'] at hjob
      rcases hjob with hjob | hjob
      · exact .inl (.job v hjob)
      · unfold PromiseData.due at hjob
        split at hjob
        · cases hjob
        · cases List.mem_singleton.mp hjob
          exact .inr hwv
        · cases List.mem_singleton.mp hjob
          exact .inr hwr
    | enqueue _ hn =>
      rw [Queue.toList_push, List.mem_append, List.mem_singleton] at hjob
      rcases hjob with hjob | rfl
      · exact .inl (.job v hjob)
      · cases hn
    | _ => exact .inl (.job v hjob)

theorem waking (h : Act w s) (ht : w.tracked)
    (hw : ∀ r, w.state.Registers r → r.Waking w.state) {r : Reaction} (hr : s.Registers r) :
    r.Waking s := by
  intro hc
  obtain ⟨id, slot, hid, hk⟩ := (h.registers hr).elim (hw r) (fun h => h ht) hc
  exact ⟨id, slot, hid, h.wakes hk⟩

/-- A scope that exists has its bindings changed, or declares a private name, or is given a `this`. -/
inductive KeepsScope (w : World) (id : ScopeId) (s : State) : Prop where
  | same (h : (w.state.scope id).SameBut (s.scope id))
  | declare (spelling : String) (hnew : w.state.privateName? id spelling = none)
    (h : s.scope id = { w.state.scope id with
      privateNames := (spelling, ⟨w.state.nextPrivateName, "#" ++ spelling⟩) ::
        (w.state.scope id).privateNames })
  | activate {this : ObjectId} (hsuper : w.state.SuperReturns id this)
    (hs : s = w.state.activated id this)
    (h : s.scope id = { w.state.scope id with kind := (w.state.scope id).kind.activated this })

theorem keepsScope (h : Act w s) (id : ScopeId) (hid : id.index < w.state.scopes.size) :
    KeepsScope w id s := by
  have hreplaced (sc : Scope) : (w.state.replaceScope id sc).scope id = sc := by
    rw [State.scope_replace, if_pos ⟨rfl, hid⟩]
  have hother {id' : ScopeId} (sc : Scope) (hne : id ≠ id') :
      (w.state.replaceScope id' sc).scope id = w.state.scope id := by
    rw [State.scope_replace, if_neg fun he => hne he.1]
  cases h with
  | newScope =>
    refine .same ?_
    rw [State.scope_push, if_neg (by omega)]
    rfl
  | @scope id' sc _ _ h =>
    refine .same ?_
    by_cases he : id = id'
    · subst he
      rw [hreplaced]
      exact h.sameBut
    · rw [hother sc he]
      rfl
  | @declarePrivate id' spelling _ hnew =>
    by_cases he : id = id'
    · subst he
      exact .declare spelling hnew (hreplaced _)
    · refine .same ?_
      change (w.state.scope id).SameBut ((w.state.replaceScope id' _).scope id)
      rw [hother _ he]
      rfl
  | @activate id' this _ hsuper =>
    by_cases he : id = id'
    · subst he
      exact .activate hsuper rfl (hreplaced _)
    · refine .same ?_
      rw [State.activated, hother _ he]
      rfl
  | _ => exact .same rfl

theorem KeepsScope.spellings {id : ScopeId} {spelling : String} {name : PrivateName}
    (h : KeepsScope w id s) (hn : w.state.privateName? id spelling = some name) :
    s.privateName? id spelling = some name := by
  unfold State.privateName? at *
  cases h with
  | same h => rwa [h.privateNames_eq]
  | declare other hnew h =>
    rw [h, List.lookup_cons]
    split
    · obtain rfl : spelling = other := beq_iff_eq.mp ‹_›
      rw [State.privateName?, hn] at hnew
      cases hnew
    · exact hn
  | activate _ _ h => rwa [h]

theorem KeepsScope.parent_eq {id : ScopeId} (h : KeepsScope w id s) :
    (s.scope id).parent = (w.state.scope id).parent := by
  cases h with
  | same h => exact h.parent_eq
  | declare _ _ h | activate _ _ h => rw [h]

theorem KeepsScope.becomes {id : ScopeId} {a : Activation} (h : KeepsScope w id s)
    (hk : (w.state.scope id).kind = .function a) :
    ∃ a', (s.scope id).kind = .function a' ∧ a.Becomes a' := by
  cases h with
  | same h => exact ⟨a, by rw [h.kind_eq, hk], .refl⟩
  | declare _ _ h => exact ⟨a, by rw [h, hk], .refl⟩
  | @activate this hsuper _ h =>
    obtain ⟨-, -, -, -, -, hnone⟩ := hsuper
    refine ⟨{ a with this := some (.object this) }, by rw [h, hk]; rfl, .inr ⟨?_, this, rfl⟩⟩
    simpa [Scope.activation?, hk] using hnone

theorem before (h : Act w s) : w.state.Before s where
  objects := h.size_le
  scopes := h.scopes_le
  tasks := h.lastTask_le
  privateNames := by
    cases h with
    | declarePrivate => exact Nat.le_succ _
    | _ => exact Nat.le_refl _
  kinds id hid := (h.keeps id hid).name_eq
  secrets id hid := (h.keeps id hid).secret
  wakes _ _ := h.wakes
  parents id hid := (h.keepsScope id hid).parent_eq
  activations id _ hk := (h.keepsScope id (State.scope_lt_of_kind hk)).becomes hk
  spellings id _ _ hn := (h.keepsScope id (State.scope_lt_of_name hn)).spellings hn

theorem supers (h : Act w s) : w.state.Supers s := by
  intro id a this hk hnone hthis
  cases h.keepsScope id (State.scope_lt_of_kind hk) with
  | same h => simp [Scope.activation?, h.kind_eq, hk, hnone] at hthis
  | declare _ _ h => simp [Scope.activation?, h, hk, hnone] at hthis
  | @activate v hsuper hs h =>
    have hv : Value.object v = this := by
      simpa [Scope.activation?, h, hk, ScopeKind.activated] using hthis
    exact ⟨w.state, v, hv.symm, .refl, hsuper, hs ▸ .refl⟩

/-- A private name that has just been declared is unlike all others. -/
theorem declares_cases (h : Act w s) (ht : w.tracked) :
    (∀ name, s.Declares name → w.state.Declares name) ∨
    ∃ fresh, fresh.id = w.state.nextPrivateName ∧
      s.nextPrivateName = w.state.nextPrivateName + 1 ∧
      ∀ name, s.Declares name → w.state.Declares name ∨ name = fresh := by
  cases h with
  | @newScope scope _ hn =>
    refine .inl ?_
    rintro name ⟨id, spelling, hname⟩
    rw [State.privateName?, State.scope_push] at hname
    split at hname
    · exact hn _ _ hname ht
    · exact ⟨id, spelling, hname⟩
  | @scope id' scope _ _ h =>
    refine .inl ?_
    rintro name ⟨id, spelling, hname⟩
    rw [State.privateName?, State.scope_replace] at hname
    split at hname
    · rw [h.sameBut.privateNames_eq] at hname
      exact ⟨id', spelling, hname⟩
    · exact ⟨id, spelling, hname⟩
  | @activate id' this _ _ =>
    refine .inl ?_
    rintro name ⟨id, spelling, hname⟩
    rw [State.privateName?, State.activated, State.scope_replace] at hname
    split at hname
    · exact ⟨id', spelling, hname⟩
    · exact ⟨id, spelling, hname⟩
  | @declarePrivate id' spelling' _ _ =>
    refine .inr ⟨⟨w.state.nextPrivateName, "#" ++ spelling'⟩, rfl, rfl, ?_⟩
    rintro name ⟨id, spelling, hname⟩
    change ((w.state.replaceScope id' _).scope id).privateNames.lookup spelling = some name at hname
    rw [State.scope_replace] at hname
    split at hname
    · rw [List.lookup_cons] at hname
      split at hname
      · exact .inr (Option.some.inj hname).symm
      · exact .inl ⟨id', spelling, hname⟩
    · exact .inl ⟨id, spelling, hname⟩
  | _ => exact .inl fun name hd => hd

theorem Keeps.uses {id : ObjectId} {o : Object} {name : PrivateName} (h : Keeps w id o)
    (hu : o.Uses name) : (w.state.object id).Uses name ∨ w.Names name := by
  cases h with
  | same h => exact .inl (h ▸ hu)
  | alters _ h => exact h.uses hu
  | build _ _ _ h =>
    obtain ⟨stamp, h⟩ := h
    exact .inl (hu.congr (by rw [h]) (by rw [h]))
  | reparent _ _ h => exact .inl (hu.congr (by rw [h]) (by rw [h]))
  | settle _ _ _ h | register _ _ _ _ h =>
    rw [h] at hu
    rcases hu with hu | ⟨c, hc, -⟩
    · exact .inl (.inl hu)
    · cases hc

theorem Keeps.nodup {id : ObjectId} {o : Object} (h : Keeps w id o)
    (ho : ((w.state.object id).privates.map (·.1)).Nodup) : (o.privates.map (·.1)).Nodup := by
  cases h with
  | same h => rwa [h]
  | alters _ h => exact h.nodup ho
  | build _ _ _ h =>
    obtain ⟨stamp, h⟩ := h
    rwa [h]
  | reparent _ _ h | settle _ _ _ h | register _ _ _ _ h => rwa [h]

theorem new_unmarked (h : Act w s) {id : ObjectId} (hid : w.state.heap.size ≤ id.index) :
    (s.object id).privates = [] ∧ ∀ name, ¬ (s.object id).Uses name := by
  cases h with
  | @allocate o ho hb =>
    obtain ⟨hp, hk⟩ := Object.begins_iff.mp hb
    rw [State.object_push]
    split
    · refine ⟨hp, fun name hu => ?_⟩
      rcases hu with hu | ⟨c, hc, e, he, -⟩
      · simp [hp] at hu
      · rw [Object.KindBegins, hc] at hk
        simp [show c.elements = [] from hk] at he
    · rw [State.object_of_size_le hid]
      exact ⟨rfl, by rintro name (hu | ⟨c, hc, -⟩) <;> contradiction⟩
  | _ =>
    rw [State.object_of_size_le (by
      simpa [State.replaceScope, State.settled, State.registered, State.setWaiter, State.filled,
        State.declared, State.activated] using hid)]
    exact ⟨rfl, by rintro name (hu | ⟨c, hc, -⟩) <;> contradiction⟩

theorem named (h : Act w s) (ht : w.tracked) (hw : w.state.Named) : s.Named where
  fresh name hd := by
    have hle := h.before.privateNames
    rcases h.declares_cases ht with hold | ⟨fresh, hid, hnext, hnew⟩
    · exact Nat.lt_of_lt_of_le (hw.fresh name (hold name hd)) hle
    · rcases hnew name hd with hd | rfl
      · exact Nat.lt_of_lt_of_le (hw.fresh name hd) hle
      · omega
  unique name other hd hd' heq := by
    rcases h.declares_cases ht with hold | ⟨fresh, hid, -, hnew⟩
    · exact hw.unique name other (hold name hd) (hold other hd') heq
    · rcases hnew name hd with hd | rfl <;> rcases hnew other hd' with hd' | rfl
      · exact hw.unique name other hd hd' heq
      · have := hw.fresh name hd
        omega
      · have := hw.fresh other hd'
        omega
      · rfl
  used id name hu := by
    refine h.before.declares ?_
    rcases Nat.lt_or_ge id.index w.state.heap.size with hold | hnew
    · rcases (h.keeps id hold).uses hu with hu | hn
      · exact hw.used id name hu
      · exact hn ht
    · exact absurd hu ((h.new_unmarked hnew).2 name)
  nodup id := by
    rcases Nat.lt_or_ge id.index w.state.heap.size with hold | hnew
    · exact (h.keeps id hold).nodup (hw.nodup id)
    · simp [(h.new_unmarked hnew).1]

theorem Keeps.bound {id target : ObjectId} {o : Object} {this : Value} {args : Array Value}
    (h : Keeps w id o) (hk : o.kind = .function (.bound target this args)) :
    (w.state.object id).kind = .function (.bound target this args) := by
  cases h with
  | same h => rwa [← h]
  | alters _ h => exact h.kind_kept.bound_iff.mp hk
  | build _ _ _ h =>
    obtain ⟨stamp, h⟩ := h
    rw [h] at hk
    exact hk
  | reparent _ _ h =>
    rw [h] at hk
    exact hk
  | settle _ _ _ h => simp [h] at hk
  | register _ _ _ _ h => simp [h] at hk

theorem bindsOlder (h : Act w s) (ht : w.tracked) (hw : w.state.BindsOlder) : s.BindsOlder := by
  intro id target this args hk
  rcases Nat.lt_or_ge id.index w.state.heap.size with hold | hnew
  · exact hw id target this args ((h.keeps id hold).bound hk)
  · obtain ⟨o, -, rfl, ho, -⟩ := h.new hnew (by simp [hk])
    have hkind : Met w (s.object id).kind := ho.1
    rw [hk] at hkind
    exact Mentions.mono (fun _ hknown => Nat.lt_of_lt_of_le (hknown ht).1 hnew) hkind

theorem inv (h : Act w s) (hw : w.Inv) : ({ w with state := s } : World).Inv where
  closed := h.closed hw.closed
  hidden held hh := h.has (hw.hidden held hh)
  own := hw.own
  since := Nat.le_trans hw.since h.size_le
  dry d hd := h.dryInv hd (hw.dry d hd)
  quiet hq := h.fatal_eq_none (hw.quiet hq)
  numbered ht := h.numbered ht (hw.numbered ht)
  acyclic ht := h.acyclic hw.closed ht (hw.acyclic ht)
  mapped ht := h.mapsPlain (hw.mapped ht)
  waking ht _ hr := h.waking ht (hw.waking ht) hr
  named ht := h.named ht (hw.named ht)
  binds ht := h.bindsOlder ht (hw.binds ht)

end Act

def State.KeepsNatives (s s' : State) : Prop := ∀ id name f,
  (s.object id).kind = .function (.native name f) → (s'.object id).kind = .function (.native name f)

namespace State.KeepsNatives
variable {s s₁ s₂ : State}

theorem of_eq (h : s₁.heap = s.heap) : s.KeepsNatives s₁ := by
  intro id name f hk
  simpa only [State.object, h] using hk

theorem refl : s.KeepsNatives s := .of_eq rfl

theorem trans (h : s.KeepsNatives s₁) (h' : s₁.KeepsNatives s₂) : s.KeepsNatives s₂ :=
  fun id name f hk => h' id name f (h id name f hk)

end State.KeepsNatives

theorem Act.keepsNatives {w : World} {s : State} (h : Act w s) : w.state.KeepsNatives s :=
  fun id _ _ hk => (h.keeps id (State.lt_of_kind (by simp [hk]))).native hk

namespace State.Supers
variable {s s₁ s₂ : State}

theorem of_eq (h : s₁.scopes = s.scopes) : s.Supers s₁ := by
  intro id a this hk hnone hthis
  have hscope : s₁.scope id = s.scope id := by simp only [State.scope, h]
  simp [Scope.activation?, hscope, hk, hnone] at hthis

theorem refl : s.Supers s := .of_eq rfl

theorem trans (h : s.Supers s₁) (hb : s.Before s₁) (h' : s₁.Supers s₂) (hb' : s₁.Before s₂) :
    s.Supers s₂ := by
  intro id a this hk hnone hthis
  obtain ⟨a₁, hk₁, -⟩ := hb.activations id a hk
  cases hthis₁ : a₁.this with
  | none =>
    obtain ⟨s', v, hv, hbefore, hsuper, hafter⟩ := h' id a₁ this hk₁ hthis₁ hthis
    exact ⟨s', v, hv, hb.trans hbefore, hsuper, hafter⟩
  | some this₁ =>
    obtain ⟨s', v, hv, hbefore, hsuper, hafter⟩ :=
      h id a this₁ hk hnone (by simp [Scope.activation?, hk₁, hthis₁])
    obtain ⟨a₂, hk₂, rfl | ⟨hnone₁, -⟩⟩ := hb'.activations id a₁ hk₁
    · obtain rfl : this₁ = this := by simpa [Scope.activation?, hk₂, hthis₁] using hthis
      exact ⟨s', v, hv, hbefore, hsuper, hafter.trans hb'⟩
    · rw [hthis₁] at hnone₁
      cases hnone₁

end State.Supers

/-- Time has passed: more has come up, and of what there was before nothing is hidden or secret that
was not. -/
structure Grows (w w' : World) : Prop extends State.Before w.state w'.state where
  tracked : w'.tracked = w.tracked
  dry : w'.dry = w.dry
  filling : w'.filling = w.filling
  hidden : ∀ h, w'.hidden h → w.hidden h ∨ ¬ w.state.Has h
  since : w'.since = w.since
  supers : w.tracked → w.state.Supers w'.state
  natives : w.tracked → w.state.KeepsNatives w'.state

namespace Grows
variable {w w₁ w₂ : World}

theorem refl : Grows w w :=
  ⟨.refl, rfl, rfl, rfl, fun _ => .inl, rfl, fun _ => .refl, fun _ => .refl⟩

/-- Nothing that matters here has changed. -/
theorem outer {s : State} (hobjects : s.heap = w.state.heap) (hscopes : s.scopes = w.state.scopes)
    (htask : s.lastTask = w.state.lastTask) (hname : s.nextPrivateName = w.state.nextPrivateName) :
    Grows w { w with state := s } where
  toBefore := .of_eq hobjects hscopes htask hname
  tracked := rfl
  dry := rfl
  filling := rfl
  hidden _ := .inl
  since := rfl
  supers _ := .of_eq hscopes
  natives _ := .of_eq hobjects

theorem has (h : Grows w w₁) {held : Held} (hh : w.state.Has held) : w₁.state.Has held := by
  cases held with
  | object id => exact Nat.lt_of_lt_of_le hh h.objects
  | task id => exact Nat.le_trans hh h.tasks

theorem trans (h : Grows w w₁) (h' : Grows w₁ w₂) : Grows w w₂ where
  toBefore := h.toBefore.trans h'.toBefore
  tracked := h'.tracked.trans h.tracked
  dry := h'.dry.trans h.dry
  filling := h'.filling.trans h.filling
  hidden held hid := by
    rcases h'.hidden held hid with h₁ | h₁
    · exact h.hidden held h₁
    · exact .inr fun hh => h₁ (h.has hh)
  since := h'.since.trans h.since
  supers ht := (h.supers ht).trans h.toBefore (h'.supers (h.tracked ▸ ht)) h'.toBefore
  natives ht := (h.natives ht).trans (h'.natives (h.tracked ▸ ht))

theorem met {α : Type} [Mentions α] {a : α} (h : Grows w w₁) (ha : Met w a) : Met w₁ a :=
  ha.mono (World.knows_mono h.tracked h.objects (fun _ => h.hidden) h.secrets)

end Grows

/-- Time has passed, and the present computation hides what it did before. -/
structure Later (w w' : World) : Prop extends Grows w w' where
  own : w'.own = w.own

namespace Later
variable {w w₁ w₂ : World}

theorem refl : Later w w := ⟨.refl, rfl⟩

theorem trans (h : Later w w₁) (h' : Later w₁ w₂) : Later w w₂ :=
  ⟨h.toGrows.trans h'.toGrows, h'.own.trans h.own⟩

theorem met {α : Type} [Mentions α] {a : α} (h : Later w w₁) (ha : Met w a) : Met w₁ a :=
  h.toGrows.met ha

theorem owns {id : ObjectId} (h : Later w w₁) (hid : w.owns id) : w₁.owns id := by
  intro d hd
  exact hid d (h.dry ▸ hd)

theorem ownsScope {id : ScopeId} (h : Later w w₁) (hid : w.ownsScope id) : w₁.ownsScope id := by
  intro d hd
  exact hid d (h.dry ▸ hd)

theorem names {name : PrivateName} (h : Later w w₁) (hn : w.Names name) : w₁.Names name :=
  fun ht => h.declares (hn (h.tracked ▸ ht))

theorem isArray {id : ObjectId} (h : Later w w₁) (hid : (w.state.object id).isArray = true) :
    (w₁.state.object id).isArray = true := by
  rw [Object.isArray_iff] at *
  rw [h.kinds id (State.lt_of_kind fun hk => by simp [hk, ObjectKind.name] at hid), hid]

theorem grants {f : Native} {this : Value} (h : Later w w₁) (hf : w.grants f this) :
    w₁.grants f this := by
  unfold World.grants
  rwa [h.dry, h.tracked, h.filling]

theorem recent {id : ObjectId} (h : Later w w₁) (hid : w.recent id) : w₁.recent id := by
  unfold World.recent
  rw [h.since]
  exact hid

end Later

namespace Acts
variable {w w₁ w₂ : World}

theorem grows (h : Acts w w₁) : Grows w w₁ := by
  induction h with
  | refl => exact .refl
  | step _ hs ih =>
    exact ih.trans {
      toBefore := hs.before
      tracked := rfl
      dry := rfl
      filling := rfl
      hidden := fun _ => .inl
      since := rfl
      supers := fun _ => hs.supers
      natives := fun _ => hs.keepsNatives }
  | hide _ hnew _ ih =>
    exact { ih with hidden := fun h hh => hh.elim (ih.hidden h) fun he => .inr (he ▸ hnew) }
  | reveal _ _ ih => exact { ih with hidden := fun h hh => ih.hidden h hh.1 }

theorem trans (h : Acts w w₁) (h' : Acts w₁ w₂) : Acts w w₂ := by
  induction h' with
  | refl => exact h
  | step _ hs ih => exact .step ih hs
  | hide _ hnew hinv ih => exact .hide ih (fun hh => hnew (h.grows.has hh)) hinv
  | reveal _ hA ih => exact .reveal ih hA

theorem of_act {s : State} (h : Act w s) : Acts w { w with state := s } := .step .refl h

theorem quiet_eq (h : Acts w w₁) : w₁.quiet = w.quiet := by
  induction h with
  | refl => rfl
  | step _ _ ih => exact ih
  | hide _ _ _ ih => exact ih
  | reveal _ _ ih => exact ih

end Acts

/-- What is hidden no longer can become known. -/
theorem World.Inv.reveal {w : World} {A : Held → Prop} (hw : w.Inv) : (w.reveal A).Inv where
  closed := Met.mono hw.closed fun _ hk ht => ⟨(hk ht).1, fun hid => (hk ht).2.1 hid.1, (hk ht).2.2⟩
  hidden h hh := hw.hidden h hh.1
  own h hh := ⟨hw.own h hh.1, hh.2⟩
  since := hw.since
  dry := hw.dry
  quiet := hw.quiet
  numbered := hw.numbered
  acyclic := hw.acyclic
  mapped := hw.mapped
  waking := hw.waking
  named := hw.named
  binds := hw.binds

theorem World.Inv.hide {w : World} {held : Held} (hw : w.Inv) (hh : w.state.Has held)
    (hc : Met (w.hide held) w.state) : (w.hide held).Inv where
  closed := hc
  hidden := by
    rintro other (h | rfl)
    · exact hw.hidden other h
    · exact hh
  own other h := h.imp_left (hw.own other)
  since := hw.since
  dry := hw.dry
  quiet := hw.quiet
  numbered := hw.numbered
  acyclic := hw.acyclic
  mapped := hw.mapped
  waking := hw.waking
  named := hw.named
  binds := hw.binds

namespace Acts
variable {w w₁ w₂ : World}

theorem inv (h : Acts w w₁) (hw : w.Inv) : w₁.Inv := by
  induction h with
  | refl => exact hw
  | step _ hs ih => exact hs.inv ih
  | hide _ _ hinv => exact hinv
  | reveal _ _ ih => exact ih.reveal

theorem own_new (h : Acts w w₁) (held : Held) (hh : w₁.own held) :
    w.own held ∨ ¬ w.state.Has held := by
  induction h with
  | refl => exact .inl hh
  | step _ _ ih => exact ih hh
  | hide _ hnew _ ih => exact hh.elim ih fun he => .inr (he ▸ hnew)
  | reveal _ _ ih => exact ih hh.1

theorem hidden_kept (h : Acts w w₁) {held : Held} (hh : w.hidden held) (hown : ¬ w.own held)
    (hold : w.state.Has held) : w₁.hidden held := by
  induction h with
  | refl => exact hh
  | step _ _ ih => exact ih
  | hide _ _ _ ih => exact .inl ih
  | reveal h hA ih =>
    refine ⟨ih, fun hh => ?_⟩
    rcases h.own_new _ (hA held hh) with h' | h'
    · exact hown h'
    · exact h' hold

end Acts

namespace World
variable {O : Held → Prop} {w w' : World}

def frame (w : World) (O : Held → Prop) : World := { w with own := fun h => O h ∨ w.own h }

def Apart (w : World) (O : Held → Prop) : Prop :=
  ∀ h, O h → w.hidden h ∧ ¬ w.own h ∧ w.state.Has h

theorem Apart.acts (hO : w.Apart O) (h : Acts w w') : w'.Apart O := by
  intro held hh
  obtain ⟨hhidden, hown, hold⟩ := hO held hh
  refine ⟨h.hidden_kept hhidden hown hold, fun h' => ?_, h.grows.has hold⟩
  rcases h.own_new held h' with h' | h'
  · exact hown h'
  · exact h' hold

end World

theorem Act.frame {w : World} {O : Held → Prop} {s : State} (h : Act w s) : Act (w.frame O) s := by
  cases h with
  | allocate ho hb => exact .allocate ho hb
  | object hid ho h => exact .object hid ho h
  | build hid ho hnew hk h => exact .build hid ho hnew hk h
  | reparent hid hp hnew h => exact .reparent hid hp hnew h
  | register h hk hv hr hwv hwr => exact .register h hk hv hr hwv hwr
  | settle hid hs hk hp h => exact .settle hid hs hk hp h
  | newScope hs hn => exact .newScope hs hn
  | scope hid hs h => exact .scope hid hs h
  | declarePrivate hid hnew => exact .declarePrivate hid hnew
  | activate hv h => exact .activate hv h
  | enqueue hj hn => exact .enqueue hj hn
  | timers h ht hn => exact .timers h ht hn
  | newSlot => exact .newSlot
  | wait h => exact .wait h
  | fill h hs ho => exact .fill h hs ho
  | outcomes h => exact .outcomes h
  | resolvers h => exact .resolvers h
  | aggregates h => exact .aggregates h
  | template h => exact .template h
  | latches h => exact .latches h
  | aside => exact .aside
  | name => exact .name
  | takeFatal => exact .takeFatal

theorem Acts.frame {w w' : World} {O : Held → Prop} (h : Acts w w') (hO : w.Apart O) :
    Acts (w.frame O) (w'.frame O) := by
  induction h with
  | refl => exact .refl
  | step _ hs ih => exact .step ih hs.frame
  | @hide w₁ held h hnew hinv ih =>
    have heq : (w₁.hide held).frame O = (w₁.frame O).hide held := by
      simp [World.frame, World.hide, or_assoc]
    rw [heq]
    refine ih.hide hnew { hinv with own := fun other hid => ?_ }
    rcases hid with (hid | hid) | hid
    · exact .inl (hO.acts h other hid).1
    · exact hinv.own other (.inl hid)
    · exact .inr hid
  | @reveal w₁ A h hA ih =>
    have heq : (w₁.reveal A).frame O = (w₁.frame O).reveal A := by
      have hdisjoint (held : Held) (hh : O held) : ¬ A held :=
        fun h' => (hO.acts h held hh).2.1 (hA held h')
      simp only [World.frame, World.reveal, World.mk.injEq, true_and, and_true]
      funext held
      grind
    rw [heq]
    exact ih.reveal fun held hh => .inr (hA held hh)

end EcmaScript
