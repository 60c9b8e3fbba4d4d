import EcmaScript.Error.Object
import EcmaScript.Proofs.Safety.Rules

/-! The operations of the machine, and errors, are safe. -/
namespace EcmaScript
open Exec

variable {P : Pairing} {c : Context} {w : World}

/-- An object that the present computation is making, and that stands for no parameters. -/
structure Made (id : ObjectId) (w : World) : Prop where
  owns : w.owns id
  recent : w.recent id
  lt : id.index < w.state.heap.size
  kind : (w.state.object id).isArguments = false

/-- An object that the present computation has made. -/
structure New (id : ObjectId) (w : World) : Prop extends Made id w where
  met : Met w id

theorem Later.made {w' : World} {id : ObjectId} (h : Later w w') (hid : Made id w) : Made id w' where
  owns := h.owns hid.owns
  recent := h.recent hid.recent
  lt := Nat.lt_of_lt_of_le hid.lt h.objects
  kind := (Object.isArguments_eq (h.kinds id hid.lt)).trans hid.kind

theorem Later.new {w' : World} {id : ObjectId} (h : Later w w') (hid : New id w) : New id w' :=
  ⟨h.made hid.toMade, h.met hid.met⟩

theorem Safe.known {x : Exec ObjectId} (h : Safe P c w x New) : Safe P c w x Known :=
  h.mono fun _ _ _ hid => hid.met

theorem World.Inv.intrinsic (hw : w.Inv) {id : ObjectId} (h : id ∈ w.state.intrinsics.toList) :
    Met w id := hw.closed.intrinsics id h

theorem World.Inv.kind (hw : w.Inv) {id : ObjectId} {k : ObjectKind}
    (hk : (w.state.object id).kind = k) : Met w k := hk ▸ (met_object hw.closed id).1

theorem World.met_push {o : Object} (hw : w.Inv) (ho : ¬ o.secret) :
    Met (w.push o) (⟨w.state.heap.size⟩ : ObjectId) := fun _ =>
  ⟨by simp [World.push], fun hid => Nat.lt_irrefl _ (hw.hidden _ hid),
    by rwa [World.push, State.object_push, if_pos rfl]⟩

theorem World.made_push {o : Object} (hw : w.Inv) (hk : o.isArguments = false) :
    Made ⟨w.state.heap.size⟩ (w.push o) where
  owns d hd := (hw.dry d hd).objects
  recent := hw.since
  lt := by simp [World.push]
  kind := by simpa [World.push, State.object_push] using hk

theorem World.childless_push {o : Object} (hw : w.Inv) (ho : Met w o) (ht : w.tracked) :
    (w.push o).state.Childless ⟨w.state.heap.size⟩ := by
  intro other hp
  have hother : Met w ((w.push o).state.object other) := by
    rw [World.push, State.object_push]
    split
    · exact ho
    · exact met_object hw.closed other
  have hprototype : Met w ((w.push o).state.object other).prototype := hother.2.1
  rw [hp] at hprototype
  exact Nat.lt_irrefl _ (hprototype ht).1

theorem allocate_known {o : Object} (ho : Met w o) (hb : o.Begins w) (hs : ¬ o.secret) :
    Safe P c w (allocate o) Known := by
  intro _ hw
  have hacts : Acts w (w.push o) := .of_act (.allocate ho hb)
  exact Runs.value hacts rfl (World.met_push hw hs)

theorem ObjectKind.Fresh.not_secret {o : Object} (hk : o.kind.Fresh) : ¬ o.secret := by
  rintro (⟨herror, -⟩ | hwakes)
  · rw [herror] at hk
    exact hk
  · unfold ObjectKind.wakes? at hwakes
    unfold ObjectKind.Fresh at hk
    grind

theorem allocate_safe {o : Object} (ho : Met w o) (hf : o.Fresh) :
    Safe P c w (allocate o) New := by
  intro _ hw
  obtain ⟨hp, hk⟩ := Object.fresh_iff.mp hf
  have hb : o.Begins w := by
    refine Object.begins_iff.mpr ⟨hp, ?_⟩
    unfold ObjectKind.Fresh at hk
    unfold Object.KindBegins
    grind
  have harguments : o.isArguments = false := by
    unfold ObjectKind.Fresh at hk
    unfold Object.isArguments
    grind
  have hacts : Acts w (w.push o) := .of_act (.allocate ho hb)
  exact Runs.value hacts rfl ⟨World.made_push hw harguments, World.met_push hw hk.not_secret⟩

/-- An error that the present computation is making. -/
structure MadeError (id : ObjectId) (w : World) : Prop extends Made id w where
  error : (w.state.object id).kind = .error
  shown : ¬ w.hidden (.object id)

theorem Later.madeError {w' : World} {id : ObjectId} (h : Later w w') (hid : MadeError id w) :
    MadeError id w' where
  toMade := h.made hid.toMade
  error := by
    rw [Object.error_iff, h.kinds id hid.lt, hid.error]
    rfl
  shown hh := (h.hidden _ hh).elim hid.shown fun hnew => hnew hid.lt

theorem allocateError_safe {o : Object} (ho : Met w o) (hp : o.privates = [])
    (hk : o.kind = .error) : Safe P c w (allocate o) MadeError := by
  intro _ hw
  have hacts : Acts w (w.push o) :=
    .of_act (.allocate ho (Object.begins_iff.mpr ⟨hp, by simp [Object.KindBegins, hk]⟩))
  refine Runs.value hacts rfl ⟨World.made_push hw (by simp [Object.isArguments, hk]), ?_, fun hh => ?_⟩
  · rw [World.push, State.object_push, if_pos rfl, hk]
  · exact Nat.lt_irrefl _ (hw.hidden _ hh)

/-! Errors and conditions. -/

section Errors
variable {α : Type} {Q : α → World → Prop} {message : String}

theorem throwType_safe : Safe P c w (throwType message) Q := .raise trivial

theorem throwRange_safe : Safe P c w (throwRange message) Q := .raise trivial

theorem throwReference_safe : Safe P c w (throwReference message) Q := .raise trivial

theorem throwSyntaxAt_safe {span : Span} : Safe P c w (throwSyntaxAt span message) Q :=
  .raise trivial

variable [Serves P]

theorem halt_safe {k : Condition} (hk : Met w k) : Safe P c w (halt k) Q :=
  .bind (.request hk fun _ _ _ h => h) fun a _ _ _ => a.elim

theorem halt_bind {β : Type} {k : Condition} {g : β → Exec α} (hk : Met w k) :
    Safe P c w (halt k >>= g) Q :=
  .bind (Q := fun _ _ => False) (halt_safe hk) (by simp)

theorem unsupported_safe : Safe P c w (unsupported message) Q := halt_safe trivial

end Errors

theorem checkInterrupts_safe [Serves P] : Safe P c w checkInterrupts Known := by
  refine .change_bind (fun _ => .of_act .aside) (.look_bind fun _ => .ite (fun _ => ?_) fun _ => ?_)
  · exact halt_bind trivial
  · refine .context_bind fun _ => ?_
    split
    · exact .pure trivial
    · exact .look_bind fun _ => .ite (fun _ => halt_safe trivial) fun _ => .pure trivial

/-! Objects and scopes. -/

theorem modifyObject_safe {id : ObjectId} {f : Object → Object} (hid : w.owns id)
    (h : w.Inv → (w.state.object id).Alters w.Names (f (w.state.object id)))
    (hf : w.Inv → Met w (f (w.state.object id))) : Safe P c w (modifyObject id f) Known := by
  refine .change (fun hw => ?_) fun _ => trivial
  rw [State.heap_modify]
  exact .of_act (.object hid (hf hw) (h hw))

theorem modifyKind_safe {id : ObjectId} {f : ObjectKind → ObjectKind} (hid : w.owns id)
    (h : (w.state.object id).kind.Alters w.Names (f (w.state.object id).kind) ∨
      f (w.state.object id).kind = (w.state.object id).kind)
    (hf : w.Inv → Met w (f (w.state.object id).kind)) :
    Safe P c w (modifyObject id (·.modifyKind f)) Known := by
  have heq (o : Object) : o.modifyKind f = { o with kind := f o.kind } := rfl
  refine modifyObject_safe hid (fun _ => ?_) fun hw => ?_
  · rw [heq]
    rcases h with h | h
    · exact .kind .refl h
    · rw [h]
      exact .refl
  · exact ⟨hf hw, (met_object hw.closed id).2⟩

theorem buildObject_safe {id : ObjectId} {f : Object → Object} (hid : Made id w)
    (h : f (w.state.object id) =
      { w.state.object id with properties := (f (w.state.object id)).properties })
    (hf : w.Inv → Met w (f (w.state.object id))) : Safe P c w (modifyObject id f) Known := by
  refine .change (fun hw => ?_) fun _ => trivial
  rw [State.heap_modify]
  exact .of_act (.build hid.owns (hf hw) (.inl hid.recent) hid.kind ⟨false, h⟩)

theorem reparent_safe {id : ObjectId} {prototype : Option ObjectId} (hid : w.owns id)
    (hp : Met w prototype) (hnew : w.recent id ∨ (w.state.object id).extensible = true)
    (h : w.Inv → w.tracked → w.state.Reparents id prototype) :
    Safe P c w (modifyObject id fun o => { o with prototype }) Known := by
  refine .change (fun hw => ?_) fun _ => trivial
  rw [State.heap_modify]
  exact .of_act (.reparent hid hp hnew (h hw))

theorem newOfKind_safe {prototype : ObjectId} {kind : ObjectKind} (hp : Met w prototype)
    (hk : Met w kind) (hf : kind.Fresh) : Safe P c w (newOfKind prototype kind) New :=
  allocate_safe ⟨hk, hp, within_emptyTable, within_nil⟩ hf

theorem newScope_safe {scope : Scope} (hs : Met w scope)
    (hn : ∀ spelling name, scope.privateNames.lookup spelling = some name → w.Names name) :
    Safe P c w (newScope scope) fun id w' => w'.ownsScope id := by
  intro _ hw
  have hacts := Acts.of_act (.newScope hs hn)
  exact Runs.value hacts rfl fun d hd => (hw.dry d hd).scopes

theorem newBlock_safe {parent : ScopeId} :
    Safe P c w (newBlock parent) fun id w' => w'.ownsScope id :=
  newScope_safe ⟨trivial, within_nil⟩ nofun

theorem modifyScope_safe {id : ScopeId} {f : Scope → Scope} (hid : w.ownsScope id)
    (h : (w.state.scope id).Alters (f (w.state.scope id)))
    (hf : w.Inv → Met w (f (w.state.scope id))) : Safe P c w (modifyScope id f) Known := by
  refine .change (fun hw => ?_) fun _ => trivial
  rw [State.scopes_modify]
  exact .of_act (.scope hid (hf hw) h)

section Bindings
variable {scope scope' : Scope} {name : String} {b : Binding} {v : Value}

theorem met_replace {l : List (String × Binding)} (hl : Met w l) (hb : Met w b) :
    Met w (Scope.replace name b l) := by
  induction l with
  | nil => exact .nil
  | cons e rest ih =>
    obtain ⟨he, hrest⟩ := within_cons.mp hl
    unfold Scope.replace
    split
    · exact .cons ⟨trivial, hb⟩ hrest
    · exact .cons he (ih hrest)

theorem met_bind (hs : Met w scope) (hb : Met w b) : Met w (scope.bind name b) := by
  unfold Scope.bind
  split
  · exact ⟨hs.1, met_replace hs.2 hb⟩
  · exact ⟨hs.1, Met.cons ⟨trivial, hb⟩ hs.2⟩

theorem met_fill (hs : Met w scope) (hv : Met w v) : Met w (scope.fill name v) := by
  unfold Scope.fill
  split
  · exact ⟨hs.1, met_replace hs.2 hv⟩
  · exact hs

theorem met_declare? {kind : BindingKind} (hs : Met w scope)
    (h : scope.declare? name kind = some scope') : Met w scope' := by
  unfold Scope.declare? at h
  split at h
  · split at h
    · cases h
    · cases h
      exact hs
  · cases h
    exact ⟨hs.1, Met.cons ⟨trivial, trivial⟩ hs.2⟩

theorem met_assign {strict : Bool} (hs : Met w scope) (hv : Met w v)
    (h : scope.assign name v strict = .ok scope') : Met w scope' := by
  unfold Scope.assign at h
  split at h
  · cases h
  · cases h
  · cases h
  · split at h
    · cases h
    · cases h
      exact hs
  · cases h
    exact ⟨hs.1, met_replace hs.2 hv⟩

end Bindings

theorem checkObjectWrite_bind [Serves P] {α : Type} {Q : α → World → Prop} {id : ObjectId} {what : String}
    {f : Unit → Exec α} (h : w.owns id → Safe P c w (f ()) Q) :
    Safe P c w (checkObjectWrite id what >>= f) Q := by
  unfold checkObjectWrite
  rw [Exec.bind_assoc]
  refine .context_bind fun hc => ?_
  split
  · exact halt_bind trivial
  · rename_i hold
    refine .pure_bind (h fun d hd => ?_)
    obtain ⟨he, ho, -⟩ := hc d hd
    simp only [Context.isDryRun, he, ho] at hold
    grind

theorem checkScopeWrite_bind [Serves P] {α : Type} {Q : α → World → Prop} {id : ScopeId} {name : String}
    {f : Unit → Exec α} (h : w.ownsScope id → Safe P c w (f ()) Q) :
    Safe P c w (checkScopeWrite id name >>= f) Q := by
  unfold checkScopeWrite
  rw [Exec.bind_assoc]
  refine .context_bind fun hc => ?_
  split
  · exact halt_bind trivial
  · rename_i hold
    refine .pure_bind (h fun d hd => ?_)
    obtain ⟨he, -, hs⟩ := hc d hd
    simp only [Context.isDryRun, he, hs] at hold
    grind

theorem met_plainTable {properties : List (String × Value)} {t : PropertyTable}
    (hp : Met w properties) (ht : Met w t) :
    Met w (properties.foldl (fun t (n, v) => t.put (.name n) (.plain v)) t) := by
  induction properties generalizing t with
  | nil => exact ht
  | cons e rest ih =>
    obtain ⟨he, hrest⟩ := within_cons.mp hp
    exact ih hrest (within_put ht he.2)

theorem newObject_safe {properties : List (String × Value)} (hp : Met w properties) :
    Safe P c w (newObject properties) New := by
  refine .look_bind fun hw => allocate_safe ?_ trivial
  exact ⟨trivial, hw.intrinsic (by simp [Intrinsics.toList]),
    met_plainTable hp within_emptyTable, within_nil⟩

theorem atSpan_safe {span : Span} : Safe P c w (atSpan span) Known := by
  refine .change (fun _ => ?_) fun _ => trivial
  split
  · exact .of_act .aside
  · exact .refl

theorem console_safe {level : ConsoleLevel} {message : String} :
    Safe P c w (console level message) Known := by
  refine .context_bind fun _ => ?_
  split
  · exact .pure trivial
  · exact .change (fun _ => .of_act .aside) fun _ => trivial

theorem newLatch_safe : Safe P c w newLatch Known := fun _ _ =>
  Runs.value (.of_act (.latches ⟨by simp, fun i hi => by grind⟩)) rfl trivial

theorem turnLatch_safe {latch : Nat} : Safe P c w (turnLatch latch) Known := fun _ _ =>
  Runs.value (.of_act (.latches ⟨by simp, fun i hi => by grind⟩)) rfl trivial

theorem enqueue_safe {job : Job} (hj : Met w job) (hn : job.isReaction = false) :
    Safe P c w (enqueue job) Known :=
  .change (fun _ => .of_act (.enqueue hj hn)) fun _ => trivial

/-! Error objects. -/

theorem stampStack_safe {id : ObjectId} {skip : Nat} (hid : w.owns id)
    (hk : (w.state.object id).kind = .error) :
    Safe P c w (stampStack id skip) fun _ w' => ¬ (w'.state.object id).secret := by
  have hsecret {o : Object} (hkind : o.kind = .error) (hs : o.stamped = true) : ¬ o.secret := by
    rintro (⟨-, hs'⟩ | hwakes)
    · rw [hs] at hs'
      cases hs'
    · rw [hkind] at hwakes
      exact hwakes rfl
  refine .look_bind fun _ => ?_
  split
  · rename_i hstamped
    exact .pure (hsecret hk hstamped)
  · rename_i hstamped
    have hlt : id.index < w.state.heap.size := State.lt_of_kind (by simp [hk])
    refine .look_bind fun _ => .change (fun hw => ?_) fun _ => ?_
    · have ho := met_object hw.closed id
      rw [State.heap_modify]
      exact .of_act (.build hid ⟨ho.1, ho.2.1, within_put ho.2.2.1 trivial, ho.2.2.2⟩
        (.inr ⟨hk, by simpa using hstamped⟩) (by simp [Object.isArguments, hk]) ⟨true, rfl⟩)
    · rw [State.heap_modify]
      exact State.object_replace_self hlt ▸ hsecret (by exact hk) rfl

theorem stampNew_safe {id : ObjectId} {skip : Nat} (hid : MadeError id w) :
    Safe P c w (stampStack id skip) fun _ => New id :=
  (stampStack_safe hid.owns hid.error).mono fun _ _ hl hs =>
    have hid := hl.madeError hid
    ⟨hid.toMade, fun _ => ⟨hid.lt, hid.shown, hs⟩⟩

theorem Intrinsics.errorPrototypeFor_mem {i : Intrinsics} {kind : ErrorKind} :
    i.errorPrototypeFor kind ∈ i.toList := by
  cases kind <;> simp [errorPrototypeFor, toList]

theorem newError_safe {kind : ErrorKind} {message : String} :
    Safe P c w (newError kind message) New := by
  refine .look_bind fun hw => ?_
  refine .bind (allocateError_safe ?_ rfl rfl) fun id w₁ h₁ hid => ?_
  · exact ⟨trivial, hw.intrinsic Intrinsics.errorPrototypeFor_mem,
      within_put within_emptyTable trivial, within_nil⟩
  · exact (stampNew_safe hid).bind fun _ w₂ _ hid => .pure hid

theorem thrownValue_safe {e : Abrupt} (he : Met w e) : Safe P c w (thrownValue e) Known := by
  cases e with
  | condition k => exact .raise he
  | failure f => exact (newError_safe).bind fun id w' _ hid => .pure hid.met
  | thrown v => exact .pure he

theorem onFrameExit_safe {e : Abrupt} (he : Met w e) : Safe P c w (onFrameExit e) Known := by
  cases e with
  | condition k => exact .pure he
  | failure f => exact (newError_safe).bind fun id w' _ hid => .pure hid.met
  | thrown v =>
    have hdone {w' : World} (hl : Later w w') :
        Safe P c w' (Pure.pure (Abrupt.thrown v) : Exec Abrupt) Known := .pure (hl.met he)
    cases v with
    | object id =>
      refine .context_bind fun hc => .look_bind fun _ => ?_
      split
      · split
        · rename_i hk hold
          refine (stampStack_safe (fun d hd => ?_) hk).bind fun _ _ hl _ => hdone hl
          obtain ⟨heffects, hobject, -⟩ := hc d hd
          simp only [Context.isDryRun, heffects, hobject] at hold
          grind
        · exact hdone .refl
      · exact hdone .refl
    | _ => exact hdone .refl

theorem uncaught_safe {e : Abrupt} (he : Met w e) : Safe P c w (uncaught e) Known := by
  refine .attempt_locked (thrownValue_safe he) (fun v w' _ hv => ?_) fun e w' _ he => ?_
  · exact .look_bind fun _ => .pure hv
  · cases e with
    | condition k => exact .pure he
    | failure f => exact .pure trivial
    | thrown v => exact .look_bind fun _ => .pure he

theorem enterFrame_safe {frame : Frame} : Safe P c w (enterFrame frame) Known := by
  intro _ _
  unfold enterFrame
  split
  · exact .abrupt .refl rfl trivial
  · have hacts : Acts w { w with state := { w.state with stack := frame :: w.state.stack } } :=
      .of_act .aside
    exact Runs.value hacts rfl trivial

theorem leaveFrames_safe {depth : Nat} : Safe P c w (leaveFrames depth) Known :=
  .change (fun _ => .of_act .aside) fun _ => trivial

theorem inFrame_safe [Serves P] {α : Type} [Mentions α] {frame : Frame} {x : Exec α}
    (hx : ∀ w', Later w w' → Safe P c w' x Known) : Safe P c w (inFrame frame x) Known := by
  refine .look_bind fun _ => (enterFrame_safe).bind fun _ w₁ hl _ => ?_
  refine .attempt (hx w₁ hl) (fun k w₂ _ _ hk => ?_) (fun a w₂ _ ha => ?_) fun e w₂ _ he => ?_
  · exact ⟨{ w₂ with state := w₂.state.leaveFrames w.state.stack.length }, .of_act .aside, rfl,
      ⟨Later.met ⟨(Acts.of_act .aside).grows, rfl⟩ hk.1, Serves.stack _ hk.2⟩, rfl⟩
  · exact (leaveFrames_safe).bind fun _ w₃ hl _ => .pure (hl.met ha)
  · refine (onFrameExit_safe he).bind fun e w₃ _ he => ?_
    exact (leaveFrames_safe).bind fun _ w₄ hl _ => .raise (hl.met he)

end EcmaScript
