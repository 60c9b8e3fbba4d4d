import EcmaScript.Evaluate.Machine
import EcmaScript.Function.Call
import EcmaScript.Proofs.Level.Expression
import EcmaScript.Proofs.Level.Library.Host
import EcmaScript.Proofs.Level.Statement
import EcmaScript.Proofs.Parser.Statement
import EcmaScript.Proofs.Realm.Initial
import Mathlib.Data.List.Forall2

/-! Calls leave the call stack as they find it. The body of a function that is not async runs to its end:
it never has to wait. -/
namespace EcmaScript.Exec
variable {P : Watch} {W : Prop} {α : Type}

@[grind ←] theorem closureFrame_level {f : ObjectId} {c : Closure} :
    Level P W (closureFrame f c) := by
  grind [closureFrame]

@[grind ←] theorem bindThis_level {strict : Bool} {this : Value} :
    Level P W (bindThis strict this) := by
  grind [bindThis]

@[grind ←] theorem functionScope_level {f : ObjectId} {c : Closure} {this : Option Value}
    {newTarget : Value} : Level P W (functionScope f c this newTarget) := by
  grind [functionScope]

theorem runToEnd_level {f : ObjectId} {c : Closure} {scope : ScopeId} {args : Array Value}
    (hl : P.lively) (hc : c.node.Plain) : Level P W (runToEnd f c scope args) := by
  have hhosts : P.Hosts False (.inside false false) := ⟨hl, nofun⟩
  refine .bind_with (LevelWith.now (evaluateFunction_level hhosts hc.calm)) fun v hv => ?_
  obtain ⟨a, rfl, -⟩ := hv
  exact .pure

theorem startAsync_level {f : ObjectId} {c : Closure} {scope : ScopeId} {args : Array Value}
    (hc : c.node.Lawful) : Level P W (startAsync f c scope args) := by
  refine newPromise_level.bind fun promise => (closureFrame_level).bind fun frame => ?_
  refine (spawn_level fun hl => settleFrom_level ?_).bind fun ended => ?_
  · exact evaluateFunction_level ⟨hl, fun _ _ => trivial⟩ hc.calm
  · refine takeFatal_level.bind fun fatal => ?_
    split
    · exact .raise
    · exact .pure

theorem callClosure_level {f : ObjectId} {c : Closure} {this : Value} {args : Array Value}
    (hc : c.Lawful) : Level P W (callClosure f c this args) := by
  have hrun {this : Option Value} (hclass : c.classKind = none) (hgenerator : c.node.isGenerator = false) :
      Level P W (do
        let scope ← functionScope f c this .undefined
        if c.node.isAsync then startAsync f c scope args
        else inFrame (← closureFrame f c) (runToEnd f c scope args)) := by
    have hnode : c.node.Lawful := hc.node hclass
    refine (functionScope_level).bind fun scope => .ite (fun _ => startAsync_level hnode) fun hasync => ?_
    refine (closureFrame_level).bind fun frame => inFrame_level fun hl => runToEnd_level hl ?_
    exact hnode.plain (by simpa using hasync) hgenerator
  unfold callClosure
  extract_lets run checkKind
  refine .ite (fun _ => ?_) fun hclass => ?_
  · exact object_bind fun o => .bind_with (Q := fun _ => False) .raise fun _ h => h.elim
  · have hclass : c.classKind = none := by simpa using hclass
    refine .ite (fun _ => ?_) fun hgenerator => ?_
    · exact .bind_with (Q := fun _ => False) unsupported_ends fun _ h => h.elim
    · have hrun (this : Option Value) := @hrun this hclass (by simpa using hgenerator)
      exact .within (.ite (fun _ => .bind .pure fun _ => hrun _) fun _ =>
        .bind (.map bindThis_level) fun _ => hrun _)

@[grind ←] theorem notAFunction_level {f : Value} : Level P W (notAFunction f : Exec α) := by
  grind [notAFunction]

@[grind ←] theorem callFunction_level {f this : Value} {args : Array Value} :
    Level P W (callFunction f this args) := by
  cases f with
  | object id =>
    refine checkInterrupts_level.bind fun _ => .bind_with object_level fun o ho => ?_
    split
    · exact revoked_level
    · exact .ite (fun _ => proxyCall_level) fun _ => notAFunction_level
    · rename_i callable hkind
      refine checkCall_level.bind fun _ => ?_
      cases callable with
      | native => exact inFrame_level fun hl => .request hl
      | bound => exact call_level
      | closure c => exact callClosure_level (ho c hkind)
    · exact notAFunction_level
  | _ => exact notAFunction_level

theorem runConstructor_level {f : ObjectId} {c : Closure} {scope : ScopeId} {this : Option ObjectId}
    {args : Array Value} (hl : P.lively) (hc : c.node.Plain) :
    Level P W (runConstructor f c scope this args) := by
  unfold runConstructor
  extract_lets require rest
  have hrest : Level P W (rest ()) := by
    refine (runToEnd_level hl hc).bind fun result => ?_
    grind
  split
  · exact addInstanceElements_level.bind fun _ => hrest
  · exact hrest

theorem constructClosure_level {f : ObjectId} {c : Closure} {args : Array Value}
    {newTarget : ObjectId} (hc : c.node.Plain) : Level P W (constructClosure f c args newTarget) := by
  have hrun {this : Option ObjectId} : Level P W (do
      let scope ← functionScope f c (this.map .object) (.object newTarget)
      inFrame (← closureFrame f c) (runConstructor f c scope this args)) :=
    (functionScope_level).bind fun scope => (closureFrame_level).bind fun frame =>
      inFrame_level fun hl => runConstructor_level hl hc
  refine .within (.ite (fun _ => .bind .pure fun _ => hrun) fun _ => ?_)
  refine intrinsics_level.bind fun i => prototypeFor_level.bind fun prototype => ?_
  exact .bind (.map (allocate_level (Object.lawful_of_kind nofun))) fun _ => hrun

theorem run_look_bind {β : Type} {f : State → β} {g : β → Exec α} {m : Machine} {c : Context}
    {s : State} : (look f >>= g) m c s = g (f s) m c s := rfl

@[grind ←] theorem constructorText_level {f : ObjectId} : Level P W (constructorText f) := by
  grind [constructorText]

theorem constructable_of_isConstructor {s : State} {id : ObjectId} {c : Closure}
    (h : s.isConstructor id = true) (hkind : (s.object id).kind = .function (.closure c)) :
    c.constructable = true := by
  simpa [State.isConstructor, State.isConstructorFrom, hkind] using h

@[grind ←] theorem constructWith_level {f : Value} {args : Array Value} {newTarget : Value} :
    Level P W (constructWith f args newTarget) := by
  cases f with
  | object id =>
    refine checkInterrupts_level.bind fun _ hP c L s hL hs => ?_
    have hrun {x : Exec Value} (hx : Level P W x) :
        Step.Abreast P.footings W (fun _ => True) L (x P.mate c s) (x P.machine c s) := hx hP c L s hL hs
    unfold isConstructor
    simp only [run_look_bind]
    cases hconstructs : s.constructorValue (.object id) with
    | false =>
      exact hrun ((constructorText_level).bind fun _ =>
        .bind_with (Q := fun _ => False) .raise fun _ h => h.elim)
    | true =>
      simp only [Bool.not_true, Bool.false_eq_true, if_false, object, run_look_bind]
      cases hkind : (s.object id).kind with
      | proxy p =>
        cases p with
        | none => exact hrun revoked_level
        | some p => exact hrun proxyConstruct_level
      | function callable =>
        refine hrun (checkCall_level.bind fun _ => ?_)
        cases newTarget with
        | object target =>
          cases callable with
          | native => exact inFrame_level fun hl => .request hl
          | bound => exact construct_level
          | closure c =>
            have hplain : c.node.Plain :=
              (hs.lawful id c hkind).plain (constructable_of_isConstructor hconstructs hkind)
            exact constructClosure_level hplain
        | _ => exact halt_level (by simp [Condition.suspended])
      | _ => exact hrun (describe_level.bind fun _ => throwType_level)
  | _ => exact describe_level.bind fun _ => throwType_level

end EcmaScript.Exec

/-! Every answer to a request leaves the call stack as it finds it. So a machine may be asked beside
another one that answers certain requests in ways of its own: where those are never made, nobody can tell
the two apart. -/
namespace EcmaScript
open Exec

variable {P : Watch} {W : Prop}

theorem answer_level {r : Request} (h : r.Permitted P W) : Level P W (answer r) := by
  cases r with
  | halt k => exact .raise
  | call f this args => exact callFunction_level
  | construct f args newTarget => exact constructWith_level
  | native f this args => exact callNative_level
  | nativeConstruct f args newTarget => exact constructNative_level
  | expression scope e =>
    obtain ⟨p, hp, he⟩ := h
    exact evaluateExpression_level hp he
  | chain scope e =>
    obtain ⟨p, hp, he⟩ := h
    exact evaluateChain_level hp he
  | statement scope st labels =>
    obtain ⟨p, hp, hst⟩ := h
    exact evaluateStatement_level hp hst
  | bind scope pattern value mode =>
    obtain ⟨p, hp, hpattern⟩ := h
    exact bindPattern_level hp hpattern
  | classDefinition scope node name =>
    obtain ⟨p, hp, hnode⟩ := h
    exact defineClass_level hp hnode
  | instanceOf value target => exact instanceOf_level
  | abandon source => exact closeSource_level h
  | proxyGetOwn p key => exact proxyGetOwn_level
  | proxyDefine p key d => exact proxyDefine_level
  | proxyHas p key => exact proxyHas_level
  | proxyGet p key receiver => exact proxyGet_level
  | proxySet p key value receiver => exact proxySet_level
  | proxyDelete p key => exact proxyDelete_level
  | proxyOwnKeys p => exact proxyOwnKeys_level
  | proxyGetPrototype p => exact proxyGetPrototype_level
  | proxySetPrototype p prototype => exact proxySetPrototype_level
  | proxyIsExtensible p => exact proxyIsExtensible_level
  | proxyPreventExtensions p => exact proxyPreventExtensions_level

theorem Watch.Admits.of_lively {P' : Watch} {sites : Place → List Site} (hl : P.lively → P'.lively) :
    P.Admits W sites → P'.Admits W sites
  | ⟨p, hp, hsites⟩ => ⟨p, ⟨hl hp.lively, hp.waits⟩, hsites⟩

theorem Request.Permitted.of_lively {P' : Watch} {r : Request} (h : r.Permitted P W)
    (hl : P.lively → P'.lively) : r.Permitted P' W := by
  cases r with
  | native | nativeConstruct => exact hl h
  | expression | chain | statement | bind | classDefinition => exact Watch.Admits.of_lively hl h
  | _ => exact h

abbrev Answers : Type := (r : Request) → Context → State → Step r.Result

open Classical in
/-- A machine that gives answers of another kind to some requests, wherever they are made. -/
noncomputable def diverted (bars : Request → State → Prop) (other : Answers) : (fuel : Nat) → Machine
  | 0 => ⟨0, fun _ _ _ => .exhausted⟩
  | fuel + 1 => ⟨fuel, fun r c s =>
      if bars r s then other r c s else answer r (diverted bars other fuel) c s⟩

noncomputable def Watch.beside (footings : Footing → Prop) (lively : Prop) (bars : Request → State → Prop)
    (other : Answers) (fuel : Nat) : Watch :=
  { machine := EcmaScript.machine fuel, mate := diverted bars other fuel, footings, lively }

/-- Where no permitted request is barred, the machine and the other one serve each other. By induction on
how deep requests may nest. -/
theorem beside_serves {footings : Footing → Prop} {lively : Prop} {bars : Request → State → Prop}
    {other : Answers}
    (hbars : ∀ (fuel : Nat) (W : Prop) (r : Request),
      r.Permitted (.beside footings lively bars other fuel) W → ∀ L s, footings L → s.Stands L →
        ¬ bars r s)
    (henters : ∀ (L : Footing) (frame : Frame), footings L → ¬ L.isFull →
      footings (L.push frame) ∧ lively) (fuel : Nat) :
    (Watch.beside footings lively bars other fuel).Serves := by
  induction fuel with
  | zero =>
    exact {
      fuel := rfl
      answers := fun _ _ _ _ _ _ _ _ => .exhausted
      enters := henters }
  | succ fuel ih =>
    refine { fuel := rfl, enters := henters, answers := fun W r hr c L s hL hs => ?_ }
    have hmate : (diverted bars other (fuel + 1)).run r c s = answer r (diverted bars other fuel) c s :=
      if_neg (hbars (fuel + 1) W r hr L s hL hs)
    have hanswer := answer_level (P := .beside footings lively bars other fuel) (hr.of_lively id)
    exact hmate ▸ hanswer ih c L s hL hs

end EcmaScript

/-! Work in a realm leaves the call stack empty. Two realms go abreast when the same was done in both by
machines that serve each other: whatever is done next, they do the same. -/
namespace EcmaScript

variable {P : Watch} {W : Prop} {ok : Footing → Prop} {α β : Type}

namespace Exec

theorem evaluateScript_level {scope : ScopeId} {body : List Statement} (hp : P.Hosts W .outside)
    (hbody : Calm W (sitesOfStatements .outside body)) : Level P W (evaluateScript scope body) := by
  have hrun {f : Completion → Exec Value} (hf : ∀ completion, Level P W (f completion)) :
      Level P W (evaluateStatements scope body none >>= f) := (evaluateStatements_level hp hbody).bind hf
  refine .bind .look fun outer => .ite (fun _ => ?_) fun _ => ?_
  · refine (hoistGlobal_level hbody).bind fun _ => hrun fun completion => ?_
    split <;> exact .pure
  · refine (hoistVars_level hbody).bind fun _ => hrun fun completion => ?_
    split <;> exact .pure

theorem record_level {slot : Nat} {result : Except EvaluationError Value}
    (hloose : ∀ L, P.footings L → L.outcomes = none) : Level P W (record slot result) :=
  fun _ _ L _ hL hs => .value { hs with outcomes := by simp [hloose L hL] } trivial

theorem evaluateInto_level {slot : Nat} {scope : ScopeId} {body : List Statement}
    (hloose : ∀ L, P.footings L → L.outcomes = none) (hp : P.Hosts W .outside)
    (hbody : Calm W (sitesOfStatements .outside body)) : Level P W (evaluateInto slot scope body) := by
  refine (evaluateScript_level hp hbody).attempt.bind fun r => ?_
  cases r with
  | ok v => exact record_level hloose
  | error e => exact onFrameExit_level.bind fun _ => uncaught_level.bind fun _ => record_level hloose

theorem runReporting_level {job : Job} : Level P W (runReporting job) := by
  refine runJob_level.attempt.bind fun r => ?_
  cases r with
  | ok => exact .pure
  | error => exact thrownValue_level.bind fun _ => .bind .look fun _ => console_level

end Exec

/-- Nothing runs, and all functions are lawful. -/
structure State.Idle (s : State) : Prop where
  stack : s.stack = []
  lawful : ∀ id, (s.object id).Lawful

def Footing.ground (maxDepth : Nat) : Footing := ⟨[], maxDepth, none⟩

namespace State
variable {s : State} {depth : Nat}

theorem Stands.idle (h : s.Stands (.ground depth)) : s.Idle where
  stack := List.map_eq_nil_iff.mp h.frames
  lawful := h.lawful

theorem Idle.stands (h : s.Idle) : s.Stands (.ground s.maxDepth) where
  frames := by simp [h.stack, Footing.ground]
  maxDepth := rfl
  outcomes := nofun
  lawful := h.lawful

theorem Idle.aside {s' : State} (h : s.Idle) (hheap : s'.heap = s.heap) (hstack : s'.stack = s.stack) :
    s'.Idle where
  stack := hstack.trans h.stack
  lawful id := by
    have hobject : s'.object id = s.object id := by simp [State.object, hheap]
    exact hobject ▸ h.lawful id

theorem Laid.idle (h : s.Laid) : s.Idle where
  stack := by
    rw [h.rest]
    rfl
  lawful id c hc := by simpa [hc, ObjectKind.isBasic] using h.kind_isBasic id

end State

/-- Two tasks wait for the same, and go on abreast. -/
structure ParkedTask.Abreast (ok : Footing → Prop) (t' t : ParkedTask) : Prop where
  id : t'.id = t.id
  slot : t'.slot = t.slot
  frame : t'.frame = t.frame
  resume : ∀ o L s, ok L → s.Stands L → Task.Abreast ok L (t'.resume o s) (t.resume o s)

/-- Nothing runs in two realms that have the same state, and their tasks go on abreast. -/
structure Realm.Abreast (ok : Footing → Prop) (r' r : Realm) : Prop where
  state : r'.state = r.state
  idle : r.state.Idle
  tasks : List.Forall₂ (ParkedTask.Abreast ok) r'.tasks r.tasks

inductive Progress.Abreast (ok : Footing → Prop) : Progress α → Progress α → Prop where
  | done {a : α} {r' r : Realm} (h : r'.Abreast ok r) : Abreast ok (.done a r') (.done a r)
  | stopped {e : EvaluationError} {r' r : Realm} (h : r'.Abreast ok r) :
    Abreast ok (.stopped e r') (.stopped e r)
  | exhausted : Abreast ok .exhausted .exhausted

def Run.Abreast (ok : Footing → Prop) (x' x : Run α) : Prop :=
  ∀ r' r : Realm, r'.Abreast ok r → Progress.Abreast ok (x' r') (x r)

/-- Where nothing runs, computations may begin and tasks may go on. -/
structure Watch.Bears (P : Watch) : Prop where
  serves : P.Serves
  lively : P.lively
  ground : ∀ depth, P.footings (.ground depth)
  resumed : ∀ depth frame, P.footings (Footing.push (.ground depth) frame)
  loose : ∀ L, P.footings L → L.outcomes = none

namespace Realm
variable {Q : α → Prop} {L : Footing}

theorem abreast_follow {x' x : Step α} (h : Step.Abreast ok False Q L x' x) {depth : Nat}
    (hL : L = .ground depth) {tasks' tasks : List ParkedTask}
    (ht : List.Forall₂ (ParkedTask.Abreast ok) tasks' tasks) :
    Progress.Abreast ok (follow x' tasks') (follow x tasks) := by
  induction h generalizing tasks' tasks with
  | value hs => exact .done ⟨rfl, (hL ▸ hs).idle, ht⟩
  | abrupt hs => exact .done ⟨rfl, (hL ▸ hs).idle, ht⟩
  | waiting hw => exact hw.elim
  | parked hresume _ ih => exact ih hL (.cons ⟨rfl, rfl, rfl, hresume⟩ ht)
  | exhausted => exact .exhausted

theorem abreast_advance {t' t : Task} (h : Task.Abreast ok L t' t) {depth : Nat} {frame : Frame}
    (hL : L = Footing.push (.ground depth) frame) {id : Nat} {tasks' tasks : List ParkedTask}
    (ht : List.Forall₂ (ParkedTask.Abreast ok) tasks' tasks) :
    Progress.Abreast ok (advance id 0 t' tasks') (advance id 0 t tasks) := by
  induction h generalizing tasks' tasks with
  | finished hs =>
    subst hL
    exact .done ⟨rfl, (State.Stands.leave hs).idle, ht⟩
  | waiting hs hr _ =>
    subst hL
    have hidle := (State.Stands.leave hs).idle
    exact .done ⟨rfl, hidle.aside rfl rfl, .cons ⟨rfl, rfl, rfl, hr⟩ ht⟩
  | parked hresume _ _ ih => exact ih hL (.cons ⟨rfl, rfl, rfl, hresume⟩ ht)
  | exhausted => exact .exhausted

variable {tasks' tasks : List ParkedTask}

theorem abreast_find? (ht : List.Forall₂ (ParkedTask.Abreast ok) tasks' tasks) (id : Nat) :
    (tasks'.find? (·.id == id) = none ∧ tasks.find? (·.id == id) = none) ∨
      ∃ t' t, tasks'.find? (·.id == id) = some t' ∧ tasks.find? (·.id == id) = some t ∧
        ParkedTask.Abreast ok t' t := by
  induction ht with
  | nil => exact .inl ⟨rfl, rfl⟩
  | @cons t' t tasks' tasks h _ ih =>
    cases hid : t.id == id with
    | true => exact .inr ⟨t', t, by simp [h.id, hid], by simp [hid], h⟩
    | false => simpa [h.id, hid] using ih

theorem abreast_filter (ht : List.Forall₂ (ParkedTask.Abreast ok) tasks' tasks) (id : Nat) :
    List.Forall₂ (ParkedTask.Abreast ok) (tasks'.filter (·.id != id)) (tasks.filter (·.id != id)) := by
  induction ht with
  | nil => exact .nil
  | @cons t' t tasks' tasks h _ ih =>
    cases hid : t.id != id with
    | true => simpa [h.id, hid] using ⟨h, ih⟩
    | false => simpa [h.id, hid] using ih

end Realm

namespace Run
variable {x' x : Run α}

namespace Abreast

theorem pure {a : α} : Run.Abreast ok (Pure.pure a) (Pure.pure a) := fun _ _ h => .done h

theorem stop {e : EvaluationError} : Run.Abreast ok (Run.stop e : Run α) (Run.stop e) :=
  fun _ _ h => .stopped h

theorem exhausted : Run.Abreast ok (Run.exhausted : Run α) Run.exhausted := fun _ _ _ => .exhausted

theorem bind {f' f : α → Run β} (hx : Run.Abreast ok x' x) (hf : ∀ a, Run.Abreast ok (f' a) (f a)) :
    Run.Abreast ok (x' >>= f') (x >>= f) := by
  intro r' r h
  show Progress.Abreast ok (Run.bind x' f' r') (Run.bind x f r)
  unfold Run.bind
  have hprogress := hx r' r h
  generalize x' r' = a', x r = a at hprogress
  cases hprogress with
  | done h => exact hf _ _ _ h
  | stopped h => exact .stopped h
  | exhausted => exact .exhausted

theorem look {f : State → α} : Run.Abreast ok (Run.look f) (Run.look f) := by
  intro r' r h
  unfold Run.look
  rw [h.state]
  exact .done h

theorem update {f : State → α × State} (hf : ∀ s, s.Idle → (f s).2.Idle) :
    Run.Abreast ok (Run.update f) (Run.update f) := by
  intro r' r h
  unfold Run.update
  rw [h.state]
  exact .done ⟨rfl, hf _ h.idle, h.tasks⟩

theorem change {f : State → State} (hf : ∀ s, s.Idle → (f s).Idle) :
    Run.Abreast ok (Run.change f) (Run.change f) := by
  intro r' r h
  unfold Run.change
  rw [h.state]
  exact .done ⟨rfl, hf _ h.idle, h.tasks⟩

theorem ite {b : Prop} [Decidable b] {y' y : Run α} (hx : Run.Abreast ok x' x)
    (hy : Run.Abreast ok y' y) : Run.Abreast ok (if b then x' else y') (if b then x else y) := by
  split
  · exact hx
  · exact hy

theorem stopFor {e : Abrupt} : Run.Abreast ok (Run.stopFor e : Run α) (Run.stopFor e) := by
  intro r' r h
  cases e with
  | thrown v =>
    unfold Run.stopFor
    rw [h.state]
    exact .stopped h
  | condition => exact .stopped h
  | failure => exact .stopped h

theorem attempt (hP : P.Bears) {c : Context} {x : Exec α} (hx : Level P False x) :
    Run.Abreast P.footings (Run.attempt P.mate c x) (Run.attempt P.machine c x) := by
  rintro ⟨s', tasks'⟩ ⟨s, tasks⟩ ⟨hs, hidle, ht⟩
  obtain rfl : s' = s := hs
  exact Realm.abreast_follow (hx hP.serves c _ _ (hP.ground _) hidle.stands) rfl ht

theorem execute (hP : P.Bears) {c : Context} {x : Exec α} (hx : Level P False x) :
    Run.Abreast P.footings (Run.execute P.mate c x) (Run.execute P.machine c x) := by
  refine (attempt hP hx).bind fun r => ?_
  cases r with
  | ok => exact pure
  | error => exact stopFor

theorem poll (hP : P.Bears) {id : Nat} : Run.Abreast P.footings (Realm.poll id) (Realm.poll id) := by
  rintro ⟨s', tasks'⟩ ⟨s, tasks⟩ ⟨hs, hidle, ht⟩
  obtain rfl : s' = s := hs
  have ht : List.Forall₂ (ParkedTask.Abreast P.footings) tasks' tasks := ht
  unfold Realm.poll
  obtain ⟨hnone', hnone⟩ | ⟨t', t, hfind', hfind, h⟩ := Realm.abreast_find? ht id
  · simp only [hnone', hnone]
    exact .done ⟨rfl, hidle, ht⟩
  · simp only [hfind', hfind, h.slot, h.frame]
    split
    · exact .done ⟨rfl, hidle.aside rfl rfl, ht⟩
    · rename_i outcome _
      have hresume := h.resume outcome _ _ (hP.resumed _ t.frame) hidle.stands.enter
      rw [hidle.stack] at hresume ⊢
      exact Realm.abreast_advance hresume rfl (Realm.abreast_filter ht id)

theorem takeReady : Run.Abreast ok Run.takeReady Run.takeReady :=
  update fun s hs => by
    split
    · exact hs.aside rfl rfl
    · exact hs

theorem takeJob : Run.Abreast ok Run.takeJob Run.takeJob :=
  update fun s hs => by
    split
    · exact hs.aside rfl rfl
    · exact hs

theorem takeTimer : Run.Abreast ok Run.takeTimer Run.takeTimer :=
  update fun s hs => by
    split
    · exact hs.aside rfl rfl
    · exact hs

theorem raiseFatal : Run.Abreast ok Run.raiseFatal Run.raiseFatal := by
  refine (update fun s hs => hs.aside rfl rfl).bind fun fatal => ?_
  cases fatal with
  | none => exact pure
  | some k => exact stop

theorem pollReady (hP : P.Bears) {fuel : Nat} :
    Run.Abreast P.footings (Run.pollReady fuel) (Run.pollReady fuel) := by
  induction fuel with
  | zero => exact exhausted
  | succ fuel ih =>
    refine (takeReady).bind fun id => ?_
    cases id with
    | none => exact pure
    | some id => exact (poll hP).bind fun _ => ih

theorem perform (hP : P.Bears) {c : Context} {job : Job} :
    Run.Abreast P.footings (Run.perform P.mate c job) (Run.perform P.machine c job) :=
  (execute hP Exec.checkInterrupts_level).bind fun _ => execute hP Exec.runReporting_level

theorem runJobs (hP : P.Bears) {c : Context} {fuel : Nat} :
    Run.Abreast P.footings (Run.runJobs P.mate c fuel) (Run.runJobs P.machine c fuel) := by
  induction fuel with
  | zero => exact exhausted
  | succ fuel ih =>
    unfold Run.runJobs
    rw [hP.serves.fuel]
    refine (pollReady hP).bind fun _ => (raiseFatal).bind fun _ => (takeJob).bind fun job => ?_
    cases job with
    | none => exact (look).bind fun _ => ite (execute hP Exec.reportRejections_level) ih
    | some job =>
      refine (execute hP Exec.checkInterrupts_level).bind fun _ => ?_
      exact (execute hP Exec.runReporting_level).bind fun _ => (raiseFatal).bind fun _ => ih

theorem runDueTimer (hP : P.Bears) {c : Context} :
    Run.Abreast P.footings (Run.runDueTimer P.mate c) (Run.runDueTimer P.machine c) := by
  unfold Run.runDueTimer
  rw [hP.serves.fuel]
  refine (takeTimer).bind fun t => ?_
  cases t with
  | none => exact pure
  | some t => exact (execute hP Exec.runTimer_level).bind fun _ => (runJobs hP).bind fun _ => pure

theorem waitUntil {time : Nat} :
    Run.Abreast ok (Run.change (·.waitUntil time)) (Run.change (·.waitUntil time)) :=
  change fun _ hs => hs.aside rfl rfl

theorem runAll (hP : P.Bears) {c : Context} {fuel : Nat} :
    Run.Abreast P.footings (Run.runAll P.mate c fuel) (Run.runAll P.machine c fuel) := by
  induction fuel with
  | zero => exact exhausted
  | succ fuel ih =>
    unfold Run.runAll
    rw [hP.serves.fuel]
    refine (runJobs hP).bind fun _ => (runDueTimer hP).bind fun again => ite ih ((look).bind fun due => ?_)
    cases due with
    | none => exact pure
    | some due =>
      exact (execute hP Exec.checkInterrupts_level).bind fun _ => (waitUntil).bind fun _ => ih

theorem awaitOutcome (hP : P.Bears) {c : Context} {slot fuel : Nat} :
    Run.Abreast P.footings (Run.awaitOutcome P.mate c slot fuel)
      (Run.awaitOutcome P.machine c slot fuel) := by
  induction fuel with
  | zero => exact exhausted
  | succ fuel ih =>
    unfold Run.awaitOutcome
    rw [hP.serves.fuel]
    refine (runJobs hP).bind fun _ => (look).bind fun outcome => ?_
    split
    · exact pure
    · exact stop
    · refine (execute hP Exec.checkInterrupts_level).bind fun _ => (runDueTimer hP).bind fun again => ?_
      refine ite ih ((look).bind fun due => ?_)
      split
      · exact stop
      · exact (waitUntil).bind fun _ => ih

theorem begin (hP : P.Bears) {source : String} {script : Script} {o : EvaluateOptions}
    (hscript : Calm True (sitesOfStatements .outside script.body)) :
    Run.Abreast P.footings (Run.begin P.mate source script o) (Run.begin P.machine source script o) := by
  have hspawn {c : Context} {slot : Nat} {scope : ScopeId} {frame : Frame} :
      Run.Abreast P.footings
        (Run.attempt P.mate c (Exec.spawn frame (Exec.evaluateInto slot scope script.body)))
        (Run.attempt P.machine c (Exec.spawn frame (Exec.evaluateInto slot scope script.body))) :=
    attempt hP (Exec.spawn_level fun hlively =>
      Exec.evaluateInto_level hP.loose ⟨hlively, fun _ _ => trivial⟩ hscript)
  have hdiscard {marks : Marks} :
      Run.Abreast P.footings (Run.change (·.discardAfter marks)) (Run.change (·.discardAfter marks)) :=
    change fun _ hs => hs.aside rfl rfl
  have henter {strict : Bool} :
      Run.Abreast P.footings (Run.enterScript source strict o) (Run.enterScript source strict o) :=
    update fun _ hs => hs.aside rfl rfl
  have hthrowaway {scope : ScopeId} :
      Run.Abreast P.footings (Run.throwawayScope scope) (Run.throwawayScope scope) :=
    update fun _ hs => hs.aside rfl rfl
  have houtcome : Run.Abreast P.footings Run.newOutcome Run.newOutcome :=
    update fun _ hs => hs.aside rfl rfl
  unfold Run.begin
  refine henter.bind fun c => ?_
  cases o.dryRun with
  | false =>
    refine pure.bind fun scope => (look).bind fun marks => houtcome.bind fun slot => hspawn.bind ?_
    rintro (e | ⟨⟩)
    · exact stopFor
    · exact pure
  | true =>
    refine hthrowaway.bind fun scope => (look).bind fun marks => houtcome.bind fun slot => hspawn.bind ?_
    rintro (e | ⟨⟩)
    · exact hdiscard.bind fun _ => stopFor
    · exact hdiscard.bind fun _ => pure

theorem evaluate (hP : P.Bears) {source : String} {o : EvaluateOptions} :
    Run.Abreast P.footings (Run.evaluate P.mate source o) (Run.evaluate P.machine source o) := by
  rw [evaluate_eq, evaluate_eq, hP.serves.fuel]
  split
  · exact stop
  · rename_i script hscript
    have hcalm : Calm True (sitesOfStatements .outside script.body) :=
      fun x hx => ⟨(parseScript_records hscript).1 x hx, fun _ => trivial⟩
    refine (begin hP hcalm).bind fun entered => (raiseFatal).bind fun _ => (look).bind fun outcome => ?_
    split
    · exact pure
    · exact stop
    · exact ite ((runJobs hP).bind fun _ => pure) pure

theorem finish (hP : P.Bears) {e : Evaluation} :
    Run.Abreast P.footings (Run.finish P.mate e) (Run.finish P.machine e) := by
  cases e with
  | complete => exact pure
  | pending c slot =>
    unfold Run.finish
    rw [hP.serves.fuel]
    exact awaitOutcome hP

theorem runEventLoop (hP : P.Bears) :
    Run.Abreast P.footings (Run.runEventLoop P.mate) (Run.runEventLoop P.machine) := by
  unfold Run.runEventLoop
  rw [hP.serves.fuel]
  exact (look).bind fun _ => runAll hP

end Abreast
end Run
end EcmaScript
