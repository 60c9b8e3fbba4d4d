import EcmaScript.Evaluate.Class
import EcmaScript.Proofs.Safety.Reference

/-! Classes are safe. -/
namespace EcmaScript
open Exec

instance : Mentions StaticElement where
  within K
    | .field _ initializer => within K initializer
    | .block f => within K f
  mono {_ _ a} h ha := by cases a <;> exact Mentions.mono h ha
  all {_ a} h := by cases a <;> exact Mentions.all h

instance : Mentions PendingElements := .of fun p => (p.statics, p.instances)

/-- The private name that a static element goes by. -/
def StaticElement.name? : StaticElement → Option PrivateName
  | .field key _ => key.name?
  | .block _ => none

def Member.spelling? (m : Member) : Option String := m.privateUse?.map (·.1)

def ClassNode.Spells (node : ClassNode) (spelling : String) : Prop :=
  ∃ m ∈ node.elements, m.spelling? = some spelling

def ClassNode.Names (node : ClassNode) (scope : ScopeId) (s : State) (name : PrivateName) : Prop :=
  ∃ spelling, node.Spells spelling ∧ s.privateName? scope spelling = some name

/-- The elements that are not yet in place go by names that the class has declared. -/
structure PendingElements.Named (p : PendingElements) (node : ClassNode) (scope : ScopeId)
    (s : State) : Prop where
  statics : ∀ e ∈ p.statics.toList, ∀ name ∈ e.name?, node.Names scope s name
  instances : ∀ e ∈ p.instances, ∀ name ∈ e.name?, node.Names scope s name

section Names
variable {node : ClassNode} {scope : ScopeId} {s s' : State} {name : PrivateName}

theorem ClassNode.Names.later (h : node.Names scope s name) (hs : s.Before s') :
    node.Names scope s' name := by
  obtain ⟨spelling, hspells, hname⟩ := h
  exact ⟨spelling, hspells, hs.spellings _ _ _ hname⟩

theorem ClassNode.Names.declares (h : node.Names scope s name) : s.Declares name := by
  obtain ⟨spelling, -, hname⟩ := h
  exact ⟨scope, spelling, hname⟩

theorem PendingElements.Named.later {p : PendingElements} (h : p.Named node scope s)
    (hs : s.Before s') : p.Named node scope s' :=
  ⟨fun e he name hn => (h.statics e he name hn).later hs,
    fun e he name hn => (h.instances e he name hn).later hs⟩

end Names

theorem addInstanceMethod_names {N : PrivateName → Prop} {name : PrivateName} {kind : MethodKind}
    {f : Value} {elements : List InstanceElement} (hname : N name)
    (he : ∀ e ∈ elements, ∀ n ∈ e.name?, N n) :
    ∀ e ∈ addInstanceMethod name kind f elements, ∀ n ∈ e.name?, N n := by
  have hmethod (element : PrivateElement) (n : PrivateName)
      (hn : n ∈ (InstanceElement.method name element).name?) : N n := Option.some.inj hn ▸ hname
  induction elements with
  | nil => simpa [addInstanceMethod] using hmethod _
  | cons e rest ih =>
    obtain ⟨he, hrest⟩ := List.forall_mem_cons.mp he
    cases e with
    | field => exact List.forall_mem_cons.mpr ⟨he, ih hrest⟩
    | method other element =>
      unfold addInstanceMethod
      split
      · exact List.forall_mem_cons.mpr ⟨hmethod _, hrest⟩
      · exact List.forall_mem_cons.mpr ⟨he, ih hrest⟩

variable {P : Pairing} {c : Context} {w : World} {scope : ScopeId}

theorem met_merge {old : Option PrivateElement} {kind : MethodKind} {f : Value} (ho : Met w old)
    (hf : Met w f) : Met w (PrivateElement.merge old kind f) := by
  match kind, old, ho with
  | .method, _, _ => exact hf
  | .getter, some (.accessor _ setter), ho => exact ⟨hf, ho.2⟩
  | .setter, some (.accessor getter _), ho => exact ⟨ho.1, hf⟩
  | .getter, none, _ => exact ⟨hf, trivial⟩
  | .getter, some (.field _), _ => exact ⟨hf, trivial⟩
  | .getter, some (.method _), _ => exact ⟨hf, trivial⟩
  | .setter, none, _ => exact ⟨trivial, hf⟩
  | .setter, some (.field _), _ => exact ⟨trivial, hf⟩
  | .setter, some (.method _), _ => exact ⟨trivial, hf⟩

theorem met_addInstanceMethod {name : PrivateName} {kind : MethodKind} {f : Value}
    {elements : List InstanceElement} (he : Met w elements) (hf : Met w f) :
    Met w (addInstanceMethod name kind f elements) := by
  induction elements with
  | nil =>
    have hmethod : Met w (InstanceElement.method name (.merge none kind f)) := met_merge trivial hf
    exact .cons hmethod .nil
  | cons e rest ih =>
    obtain ⟨he, hrest⟩ := within_cons.mp he
    cases e with
    | field => exact .cons he (ih hrest)
    | method other element =>
      unfold addInstanceMethod
      split
      · have hmethod : Met w (InstanceElement.method name (.merge (some element) kind f)) :=
          met_merge he hf
        exact .cons hmethod hrest
      · exact .cons he (ih hrest)

theorem declarePrivate_safe {name : String} (hs : w.ownsScope scope)
    (hlt : scope.index < w.state.scopes.size) :
    Safe P c w (declarePrivate scope name)
      fun declared w' => w'.state.privateName? scope name = some declared := by
  refine .update (fun hw => ?_) fun hw => ?_
  · split
    · exact .refl
    · dsimp only
      rw [State.scopes_modify]
      exact .of_act (.declarePrivate hs ‹_›)
  · split
    · assumption
    · dsimp only
      rw [State.scopes_modify]
      exact State.privateName?_declared hlt

theorem addPrivate_safe {id : ObjectId} {name : PrivateName} {element : PrivateElement}
    (hid : w.owns id) (hn : w.Names name) (he : Met w element) :
    Safe P c w (addPrivate id name element) Known := by
  refine .look_bind fun _ => .ite (fun _ => .pure trivial) fun _ => ?_
  refine .bind (modifyObject_safe hid (fun _ => .putPrivate .refl (.inr hn)) fun hw => ?_)
    fun _ _ _ _ => .pure trivial
  exact met_putPrivate (met_object hw.closed id) he

variable [Serves P]

theorem defineField_safe {target : ObjectId} {key : FieldKey} {v : Value} (hv : Met w v)
    (hn : ∀ name ∈ key.name?, w.Names name) : Safe P c w (defineField target key v) Known := by
  cases key with
  | shared key => exact createOrThrow_safe hv
  | hidden name =>
    refine checkObjectWrite_bind fun hid => ?_
    refine .bind (addPrivate_safe hid (hn name rfl) hv) fun done w₁ _ _ => ?_
    exact .ite (fun _ => throwType_safe) fun _ => .pure trivial

theorem initialValue_safe {initializer : Option Value} {this : Value} (hi : Met w initializer)
    (ht : Met w this) : Safe P c w (initialValue initializer this) Known := by
  cases initializer with
  | none => exact .pure trivial
  | some f => exact call_safe hi ht .empty

theorem addInstanceElements_safe {this constructor : ObjectId} (ht : Met w this) :
    Safe P c w (addInstanceElements this constructor) Known := by
  refine .look_bind fun hw => ?_
  split
  · rename_i closure hclosure
    have helements : Met w closure.elements := hw.kind (Object.callable?_eq hclosure)
    have hnames {w' : World} (hl : Later w w') (e : InstanceElement) (he : e ∈ closure.elements) :
        ∀ name ∈ e.name?, w'.Names name := fun name hn => hl.names fun htracked =>
      (hw.named htracked).used constructor name (.inr ⟨closure, Object.callable?_eq hclosure, e, he, hn⟩)
    refine .bind (Q := Known) (.forM (fun e he w₁ h₁ => ?_) fun _ _ => trivial) fun _ w₁ h₁ _ =>
      .forM (fun e he w₂ h₂ => ?_) fun _ _ => trivial
    · have hmet := h₁.met (helements e he)
      cases e with
      | field => exact .pure trivial
      | method name element =>
        refine checkObjectWrite_bind fun hid => ?_
        refine .bind (addPrivate_safe hid (hnames h₁ _ he name rfl) hmet) fun done w₂ _ _ => ?_
        exact .ite (fun _ => .look_bind fun _ => throwType_safe) fun _ => .pure trivial
    · have hl := h₁.trans h₂
      have hmet := hl.met (helements e he)
      cases e with
      | method => exact .pure trivial
      | field key initializer =>
        exact .bind (initialValue_safe hmet (hl.met ht)) fun _ _ h₃ hv =>
          defineField_safe hv (hnames (hl.trans h₃) _ he)
  · exact .pure trivial

theorem heritageOf_safe {heritage : Option Expr} : Safe P c w (heritageOf scope heritage) Known := by
  refine .look_bind fun hw => ?_
  have hobject : Met w w.state.intrinsics.objectPrototype :=
    hw.intrinsic (by simp [Intrinsics.toList])
  have hfunction : Met w w.state.intrinsics.functionPrototype :=
    hw.intrinsic (by simp [Intrinsics.toList])
  cases heritage with
  | none => exact .pure ⟨hobject, hfunction, trivial⟩
  | some e =>
    refine .bind evaluate_safe fun v w₁ h₁ hv => ?_
    cases v with
    | null => exact .pure ⟨trivial, h₁.met hfunction, trivial⟩
    | object parent =>
      refine .look_bind fun _ => .ite (fun _ => .look_bind fun _ => .raise_bind trivial) fun _ => ?_
      refine .bind (getNamed_safe hv) fun p w₂ h₂ hp => ?_
      cases p with
      | object p => exact .pure ⟨hp, h₂.met hv, trivial⟩
      | null => exact .pure ⟨trivial, h₂.met hv, trivial⟩
      | _ => exact .look_bind fun _ => throwType_safe
    | _ => exact .look_bind fun _ => throwType_safe

theorem addElement_safe {node : ClassNode} {constructor prototype : ObjectId}
    {pending : PendingElements} {m : Member} (hs : w.ownsScope scope)
    (hlt : scope.index < w.state.scopes.size) (hc : w.owns constructor) (hm : m ∈ node.elements)
    (hp : Met w pending ∧ pending.Named node scope w.state) :
    Safe P c w (addElement scope constructor prototype pending m)
      fun p w' => Met w' p ∧ p.Named node scope w'.state := by
  unfold addElement
  cases m with
  | method key kind isStatic body =>
    refine .bind newFunction_safe fun f w₁ h₁ hf => ?_
    have hkey (key : Key) : Safe P c w₁ (do
        let key ← keyOf scope key
        nameFunction f key kind
        defineMethod (if isStatic then constructor else prototype) key kind f false
        return pending) fun p w' => Met w' p ∧ p.Named node scope w'.state := by
      refine .bind keyOf_safe fun key w₂ h₂ _ => .bind (nameFunction_safe (h₂.new hf)) fun _ w₃ h₃ _ => ?_
      refine .bind (defineMethod_safe ((h₂.trans h₃).met hf.met)) fun _ w₄ h₄ _ => .pure ?_
      have hl := h₁.trans (h₂.trans (h₃.trans h₄))
      exact ⟨hl.met hp.1, hp.2.later hl.toBefore⟩
    cases key with
    | hidden spelling =>
      refine .bind (declarePrivate_safe (h₁.ownsScope hs) (Nat.lt_of_lt_of_le hlt h₁.scopes))
        fun name w₂ h₂ hn => ?_
      refine .bind (nameFunction_safe (h₂.new hf)) fun _ w₃ h₃ _ => ?_
      have hl := h₁.trans (h₂.trans h₃)
      have hf₃ := (h₂.trans h₃).met hf.met
      have hn₃ : node.Names scope w₃.state name :=
        ⟨spelling, ⟨_, hm, rfl⟩, h₃.spellings _ _ _ hn⟩
      refine .ite (fun _ => ?_) fun _ => ?_
      · refine .bind (modifyObject_safe (hl.owns hc)
          (fun _ => .putPrivate .refl (.inr fun _ => hn₃.declares)) fun hw => ?_) fun _ w₄ h₄ _ =>
            .pure ⟨(hl.trans h₄).met hp.1, hp.2.later (hl.trans h₄).toBefore⟩
        have ho := met_object hw.closed constructor
        exact met_putPrivate ho (met_merge (met_option fun _ h => met_private ho h) hf₃)
      · obtain ⟨hstatics, hinstances⟩ := hl.met hp.1
        have hnamed := hp.2.later hl.toBefore
        exact .pure ⟨⟨hstatics, met_addInstanceMethod hinstances hf₃⟩,
          hnamed.statics, addInstanceMethod_names hn₃ hnamed.instances⟩
    | fixed key => exact hkey (.fixed key)
    | computed e => exact hkey (.computed e)
  | field key isStatic initializer span =>
    dsimp -zeta only
    extract_lets home adding
    have hadding {w' : World} (hl : Later w w') (key : FieldKey)
        (hn : ∀ name ∈ key.name?, node.Names scope w'.state name) :
        Safe P c w' (adding key) fun p w' => Met w' p ∧ p.Named node scope w'.state := by
      unfold adding
      extract_lets placing
      have hplacing {w'' : World} (hl' : Later w' w'') (initializer : Option Value)
          (hi : Met w'' initializer) :
          Safe P c w'' (placing initializer)
            fun p w' => Met w' p ∧ p.Named node scope w'.state := by
        obtain ⟨hstatics, hinstances⟩ := (hl.trans hl').met hp.1
        have hnamed := hp.2.later (hl.trans hl').toBefore
        have hstatic : Met w'' (StaticElement.field key initializer) := hi
        have hinstance : Met w'' (InstanceElement.field key initializer) := hi
        have hname (name : PrivateName) (h : name ∈ key.name?) := (hn name h).later hl'.toBefore
        refine .ite (fun _ => .pure ⟨⟨within_push hstatics hstatic, hinstances⟩, ?_, hnamed.instances⟩)
          fun _ => .pure ⟨⟨hstatics, ?_⟩, hnamed.statics, ?_⟩
        · rw [Array.toList_push, List.forall_mem_append, List.forall_mem_singleton]
          exact ⟨hnamed.statics, hname⟩
        · exact within_append.mpr ⟨hinstances, within_cons.mpr ⟨hinstance, within_nil⟩⟩
        · rw [List.forall_mem_append, List.forall_mem_singleton]
          exact ⟨hnamed.instances, hname⟩
      cases initializer with
      | none => exact hplacing .refl none trivial
      | some body => exact .bind newFunction_safe fun f w₁ h₁ hf => hplacing h₁ _ hf.met
    cases key with
    | hidden spelling =>
      refine .bind (declarePrivate_safe hs hlt) fun name w₁ h₁ hn => hadding h₁ _ ?_
      rintro _ ⟨⟩
      exact ⟨spelling, ⟨_, hm, rfl⟩, hn⟩
    | fixed key => exact .bind keyOf_safe fun _ w₁ h₁ _ => hadding h₁ _ nofun
    | computed e => exact .bind keyOf_safe fun _ w₁ h₁ _ => hadding h₁ _ nofun
  | staticBlock body =>
    refine .bind newFunction_safe fun f w₁ h₁ hf => .pure ?_
    obtain ⟨hstatics, hinstances⟩ := h₁.met hp.1
    have hnamed := hp.2.later h₁.toBefore
    have hblock : Met w₁ (StaticElement.block (.object f)) := hf.met
    refine ⟨⟨within_push hstatics hblock, hinstances⟩, ?_, hnamed.instances⟩
    rw [Array.toList_push, List.forall_mem_append, List.forall_mem_singleton]
    exact ⟨hnamed.statics, nofun⟩
  | _ => exact .pure hp

omit [Serves P] in
/-- The constructor of a class gets its prototype when nothing can inherit from it yet. -/
theorem newConstructor_bind {α : Type} {Q : α → World → Prop} {closure : Closure} {name : String}
    {parent : ObjectId} {f : ObjectId → Exec α} (hclass : closure.classKind.isSome = true)
    (he : closure.elements = []) (hparent : Met w parent)
    (hf : ∀ id w', Later w w' → New id w' → Safe P c w' (f id) Q) :
    Safe P c w (do
      let constructor ← newClosure closure name
      modifyObject constructor fun o => { o with prototype := some parent }
      f constructor) Q := by
  unfold newClosure
  rw [Exec.bind_assoc]
  refine .look_bind fun hw => ?_
  rw [Exec.bind_assoc]
  have ho : Met w (closureObject w.state.intrinsics name closure) :=
    ⟨met_closure he, hw.intrinsic (by simp [Intrinsics.toList]), met_functionProperties, within_nil⟩
  have hnone : closure.classKind.isNone = false := by simpa using hclass
  have h₁ : Later w (w.push (closureObject w.state.intrinsics name closure)) :=
    ⟨(Acts.of_act (World.act_push ho he)).grows, rfl⟩
  have hid : New ⟨w.state.heap.size⟩ (w.push (closureObject w.state.intrinsics name closure)) :=
    ⟨World.made_push hw rfl, World.met_push hw (ObjectKind.Fresh.not_secret he)⟩
  refine .allocate_bind ho he ?_
  simp only [hnone, Bool.and_false]
  refine .pure_bind (.bind (reparent_safe hid.owns (h₁.met hparent) (.inl hid.recent)
    fun _ ht => .inr ⟨?_, ?_⟩)
    fun _ w₂ h₂ _ => hf _ w₂ (h₁.trans h₂) (h₂.new hid))
  · exact World.childless_push hw ho ht
  · rintro ⟨⟩
    exact Nat.lt_irrefl _ (hparent ht).1

omit [Serves P] in
theorem classScope_safe {node : ClassNode} : Safe P c w (classScope scope node) fun id w' =>
    w'.ownsScope id ∧ id.index < w'.state.scopes.size := by
  unfold classScope
  extract_lets opening
  have hopening : Safe P c w (opening ⟨⟩) fun id w' =>
      w'.ownsScope id ∧ id.index < w'.state.scopes.size := by
    refine .bind newBlock_safe.comes fun inner w₁ _ hs => ?_
    obtain ⟨hs, hcomes⟩ := hs
    have hlt : inner.index < w₁.state.scopes.size := by
      obtain ⟨⟨⟩, heq⟩ := comes_newScope.mp hcomes
      simp [heq]
    extract_lets naming
    have hnaming {w' : World} (hl : Later w₁ w') : Safe P c w' (naming ⟨⟩) fun id w' =>
        w'.ownsScope id ∧ id.index < w'.state.scopes.size := by
      refine .bind (Q := Known) (.forM (fun m _ w₂ h₂ => ?_) fun _ _ => trivial)
        fun _ w₂ h₂ _ => .pure ⟨(hl.trans h₂).ownsScope hs, Nat.lt_of_lt_of_le hlt (hl.trans h₂).scopes⟩
      split
      · have hlt₂ := Nat.lt_of_lt_of_le hlt (hl.trans h₂).scopes
        exact .bind (declarePrivate_safe ((hl.trans h₂).ownsScope hs) hlt₂) fun _ _ _ _ => .pure trivial
      · exact .pure trivial
    cases node.name? with
    | none => exact hnaming .refl
    | some own => exact .bind (bindIn_safe hs trivial) fun _ w₂ h₂ _ => hnaming h₂
  cases privateClash? [] node.elements with
  | some clash => exact .raise_bind trivial
  | none => exact hopening

theorem newConstructor_safe {node : ClassNode} {name : String} :
    Safe P c w (newConstructor scope node name) fun r w' => New r.1 w' := by
  refine .bind heritageOf_safe fun parents w₁ _ hparents => ?_
  obtain ⟨hprototypeParent, hparent, -⟩ := hparents
  refine .bind (allocate_safe ⟨trivial, hprototypeParent, within_emptyTable, within_nil⟩ trivial)
    fun prototype w₂ h₂ hp => .context_bind fun _ => ?_
  refine newConstructor_bind rfl rfl (h₂.met hparent) fun id w₃ h₃ hid => ?_
  refine .bind (buildObject_safe hid.toMade rfl fun hw => ?_) fun _ w₄ h₄ _ => ?_
  · exact met_put (met_object hw.closed id) (h₃.met hp.met)
  refine .bind (buildObject_safe ((h₃.trans h₄).new hp).toMade rfl fun hw => ?_)
    fun _ w₅ h₅ _ => .pure ((h₄.trans h₅).new hid)
  exact met_put (met_object hw.closed prototype) (h₄.met hid.met)

theorem runStatic_safe {constructor : ObjectId} {e : StaticElement} (hc : Met w constructor)
    (he : Met w e) (hn : ∀ name ∈ e.name?, w.Names name) :
    Safe P c w (runStatic constructor e) Known := by
  cases e with
  | block f => exact .bind (call_safe he hc .empty) fun _ _ _ _ => .pure trivial
  | field key initializer =>
    exact .bind (initialValue_safe he hc) fun _ _ h₁ hv =>
      defineField_safe hv fun name h => h₁.names (hn name h)

theorem classElements_safe {node : ClassNode} {constructor prototype : ObjectId} (hs : w.ownsScope scope)
    (hlt : scope.index < w.state.scopes.size) (hc : w.owns constructor) :
    Safe P c w (node.elements.foldlM (addElement scope constructor prototype) {})
      fun p w' => Met w' p ∧ p.Named node scope w'.state := by
  refine .foldlM (fun pending m hm w₁ h₁ hp => ?_) ⟨⟨Met.empty, within_nil⟩, List.forall_mem_nil _, by simp⟩
  exact addElement_safe (h₁.ownsScope hs) (Nat.lt_of_lt_of_le hlt h₁.scopes) (h₁.owns hc) hm hp

/-- The elements that a class has kept for later come to their places. -/
theorem finishClass_safe {node : ClassNode} {constructor : ObjectId} {pending : PendingElements}
    (hs : w.ownsScope scope) (hc : w.owns constructor) (hm : Met w constructor) (hp : Met w pending)
    (hn : pending.Named node scope w.state) :
    Safe P c w (do
      modifyObject constructor (·.modifyKind fun
        | .function (.closure c) => .function (.closure { c with elements := pending.instances })
        | kind => kind)
      match node.name? with
      | some own => modifyScope scope (·.fill own (.object constructor))
      | none => pure ()
      pending.statics.toList.forM (runStatic constructor)
      return constructor) fun id w' => id = constructor ∧ Met w' id := by
  refine .bind (modifyKind_safe hc ?_ fun hw => ?_) fun _ w₁ h₁ _ => ?_
  · split
    · rename_i closure hk
      exact .inl (hk ▸ .closure closure fun e he name hname _ => (hn.instances e he name hname).declares)
    · exact .inr rfl
  · split
    · exact hp.2
    · exact hw.kind rfl
  have hstatics {w' : World} (hl : Later w w') : Safe P c w' (do
      pending.statics.toList.forM (runStatic constructor)
      return constructor) fun id w' => id = constructor ∧ Met w' id := by
    refine .bind (Q := Known) (.forM (fun e he w₂ h₂ => ?_) fun _ _ => trivial)
      fun _ w₂ h₂ _ => .pure ⟨rfl, (hl.trans h₂).met hm⟩
    have hmet := (hl.trans h₂).met (within_toList hp.1 e he)
    exact runStatic_safe ((hl.trans h₂).met hm) hmet fun name hname _ =>
      ((hn.later (hl.trans h₂).toBefore).statics e he name hname).declares
  split
  · refine .bind (modifyScope_safe (h₁.ownsScope hs) (.fill _ _ .refl) fun hw => ?_)
      fun _ w₂ h₂ _ => hstatics (h₁.trans h₂)
    exact met_fill (met_scope hw.closed scope) (h₁.met hm)
  · exact hstatics h₁

theorem defineClass_safe {node : ClassNode} {name : String} :
    Safe P c w (defineClass scope node name) Known := by
  refine .within ⟨rfl, rfl, rfl⟩ ?_
  refine .bind classScope_safe fun inner w₁ _ ⟨hs, hlt⟩ => ?_
  refine .bind newConstructor_safe fun made w₂ h₂ hid => ?_
  refine .bind (classElements_safe (h₂.ownsScope hs) (Nat.lt_of_lt_of_le hlt h₂.scopes) hid.owns)
    fun pending w₃ h₃ hp => ?_
  refine (finishClass_safe ((h₂.trans h₃).ownsScope hs) (h₃.owns hid.owns) (h₃.met hid.met) hp.1
    hp.2).mono fun _ _ _ h => h.2

omit [Serves P] in
theorem modifyScope_activated {id : ScopeId} {this : ObjectId} :
    (modifyScope id fun sc =>
      match sc.kind with
      | .function a => { sc with kind := .function { a with this := some (.object this) } }
      | _ => sc) = change (·.activated id this) := by
  refine congrArg change (funext fun s => ?_)
  rw [State.scopes_modify, State.activated]
  refine congrArg (s.replaceScope id) ?_
  unfold ScopeKind.activated
  split <;> simp_all

omit [Serves P] in
/-- Gives an activation the `this` that a call of `super` has constructed. -/
theorem activate_safe {this : ObjectId} (hv : Met w this) (h : w.state.SuperReturns scope this) :
    Safe P c w (modifyScope scope fun sc =>
      match sc.kind with
      | .function a => { sc with kind := .function { a with this := some (.object this) } }
      | _ => sc) Known := by
  rw [modifyScope_activated]
  exact .change (fun _ => .of_act (.activate hv h)) fun _ => trivial

theorem callSuper_safe {args : Array Value} (ha : Met w args) :
    Safe P c w (callSuper scope args) Known := by
  refine .look_bind fun _ => .look_bind fun hw => ?_
  dsimp only
  split
  · rename_i activation f hactivation hf
    have hmet := met_activation hw hactivation
    refine .bind prototypeOf_safe.comes fun parent w₁ h₁ hparent => ?_
    obtain ⟨hparent, hprototype⟩ := hparent
    cases parent with
    | none => exact throwType_safe
    | some p =>
      refine .look_bind fun _ => .ite (fun _ => .look_bind fun _ => .raise_bind trivial) fun _ => ?_
      have hnew : Met w₁ activation.newTarget := (h₁.met hmet).2.1
      refine .bind (construct_safe hparent (h₁.met ha) hnew).comes fun result w₂ _ hr => ?_
      obtain ⟨hr, hconstruct⟩ := hr
      cases result with
      | object this =>
        refine .look_bind fun _ => ?_
        split
        · exact .raise_bind trivial
        · rename_i hnone
          have hsuper : w₂.state.SuperReturns (w.state.thisScope scope) this := by
            obtain ⟨n, hreal⟩ := Serves.real (P := P)
            rw [hreal] at hprototype hconstruct
            exact .intro rfl (Scope.activation?_eq hactivation) (by simpa [hactivation] using hf)
              hprototype hconstruct hnone
          refine .bind (activate_safe hr hsuper) fun _ w₃ h₃ _ => ?_
          exact .bind (addInstanceElements_safe (h₃.met hr)) fun _ w₄ h₄ _ =>
            .pure ((h₃.trans h₄).met hr)
      | _ => exact halt_safe trivial
  · exact throwReference_safe

end EcmaScript
