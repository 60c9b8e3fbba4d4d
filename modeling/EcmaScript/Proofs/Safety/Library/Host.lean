import EcmaScript.Library.Error
import EcmaScript.Library.Host
import EcmaScript.Proofs.Safety.Reference

/-! Constructors of errors, the console and timers are safe. -/
namespace EcmaScript
open Exec

variable {P : Pairing} {c : Context} {w : World} {this : Value} {args : Array Value}

/-! The console. -/

theorem changeConsole_safe {f : ConsoleData → ConsoleData} : Safe P c w (changeConsole f) Known :=
  .change (fun _ => .of_act .aside) fun _ => trivial

theorem emit_safe {level : ConsoleLevel} {message : String} :
    Safe P c w (emit level message) Known := .look_bind fun _ => console_safe

theorem shown_safe [Serves P] {text : Option String} : Safe P c w (shown text) Known := by
  cases text with
  | none => exact halt_safe trivial
  | some t => exact .pure trivial

theorem message_safe [Serves P] {args : List Value} : Safe P c w (message args) Known :=
  .look_bind fun _ => shown_safe

theorem labelOf_safe [Serves P] : Safe P c w (labelOf args) Known := by
  unfold labelOf
  split
  · exact .pure trivial
  · exact .look_bind fun _ => shown_safe

theorem traceText_safe {header : String} : Safe P c w (traceText header) Known := by
  refine .bind newError_safe fun _ _ _ _ => .look_bind fun _ => ?_
  split <;> exact .pure trivial

theorem showClock_safe {label : String} : Safe P c w (showClock label) Known := by
  refine .look_bind fun _ => .look_bind fun _ => ?_
  split <;> exact emit_safe

theorem consoleCall_safe [Serves P] {f : ConsoleFunction} : Safe P c w (consoleCall f args) Known := by
  cases f with
  | write level => exact .bind message_safe fun _ _ _ _ => emit_safe
  | dir => exact .bind (.look_bind fun _ => shown_safe) fun _ _ _ _ => emit_safe
  | trace => exact .bind message_safe fun _ _ _ _ => .bind traceText_safe fun _ _ _ _ => emit_safe
  | assert =>
    exact .ite (fun _ => .bind message_safe fun _ _ _ _ => emit_safe) fun _ => .pure trivial
  | count =>
    refine .bind labelOf_safe fun _ _ _ _ => .look_bind fun _ => ?_
    exact .bind changeConsole_safe fun _ _ _ _ => emit_safe
  | countReset => exact .bind labelOf_safe fun _ _ _ _ => changeConsole_safe
  | group =>
    refine .ite (fun _ => ?_) fun _ => changeConsole_safe
    exact .bind message_safe fun _ _ _ _ => .bind emit_safe fun _ _ _ _ => changeConsole_safe
  | groupEnd => exact .change (fun _ => .of_act .aside) fun _ => trivial
  | time => exact .bind labelOf_safe fun _ _ _ _ => .look_bind fun _ => changeConsole_safe
  | timeLog => exact .bind labelOf_safe fun _ _ _ _ => showClock_safe
  | timeEnd =>
    exact .bind labelOf_safe fun _ _ _ _ => .bind showClock_safe fun _ _ _ _ => changeConsole_safe

theorem consoleFunction_safe [Serves P] {f : ConsoleFunction} : Safe P c w (consoleFunction f args) Known :=
  .bind consoleCall_safe fun _ _ _ _ => .pure trivial

/-! Errors. -/

variable [Serves P]

theorem buildError_safe {prototype : ObjectId} (hp : Met w prototype) (ha : Met w args) :
    Safe P c w (buildError prototype args) Known := by
  refine .bind (allocateError_safe ⟨trivial, hp, within_emptyTable, within_nil⟩ rfl rfl)
    fun id w₁ h₁ hid => ?_
  have hput {w' : World} {name : String} {v : Value} (hl : Later w₁ w') (hv : Met w' v) :
      Safe P c w' (modifyObject id (·.put (.name name) (.standard v))) Known :=
    buildObject_safe (hl.made hid.toMade) rfl fun hw => met_put (met_object hw.closed id) hv
  extract_lets message stamping causing
  have hstamping {w' : World} (hl : Later w₁ w') : Safe P c w' (stamping ⟨⟩) Known :=
    .bind (stampNew_safe (hl.madeError hid)) fun _ _ _ hid => .pure hid.met
  have hcausing {w' : World} (hl : Later w₁ w') : Safe P c w' (causing ⟨⟩) Known := by
    have hoptions : Met w' (argument args 1) := (h₁.trans hl).met (met_argument ha)
    unfold causing
    split
    · rename_i options ho
      rw [ho] at hoptions
      refine .bind has_safe fun found w₂ h₂ _ => .ite (fun _ => ?_) fun _ => hstamping (hl.trans h₂)
      refine .bind (getNamed_safe (h₂.met hoptions)) fun cause w₃ h₃ hv => ?_
      exact .bind (hput (hl.trans (h₂.trans h₃)) hv) fun _ _ h₄ _ =>
        hstamping (hl.trans (h₂.trans (h₃.trans h₄)))
    · exact hstamping hl
  refine .ite (fun _ => ?_) fun _ => hcausing .refl
  refine .bind (toText_safe (h₁.met (met_argument ha))) fun text w₂ h₂ _ => ?_
  exact .bind (hput h₂ trivial) fun _ _ h₃ _ => hcausing (h₂.trans h₃)

theorem errorText_safe (ht : Met w this) : Safe P c w (errorText this) Known := by
  cases this with
  | object id =>
    refine .bind (getNamed_safe ht) fun v w₁ h₁ hv => ?_
    extract_lets showing
    have hshowing {w' : World} {name : String} (hl : Later w w') :
        Safe P c w' (showing name) Known := by
      refine .bind (getNamed_safe (hl.met ht)) fun v w₁ _ hv => ?_
      cases v with
      | undefined => exact .pure trivial
      | _ => exact .bind (toText_safe hv) fun _ _ _ _ => .pure trivial
    cases v with
    | undefined => exact hshowing h₁
    | _ => exact .bind (toText_safe hv) fun _ _ h₂ _ => hshowing (h₁.trans h₂)
  | _ => exact throwType_safe

theorem captureStack_safe (ha : Met w args) : Safe P c w (captureStack args) Known := by
  have hfirst : Met w (argument args 0) := met_argument ha
  unfold captureStack
  split
  · rename_i id hid
    rw [hid] at hfirst
    refine checkObjectWrite_bind fun howns => ?_
    extract_lets capturing
    have hcapturing {stop : Option ObjectId} : Safe P c w (capturing stop) Known := by
      refine .look_bind fun _ => ?_
      extract_lets writing
      have hwriting {w' : World} {header : String} (hl : Later w w') :
          Safe P c w' (writing header) Known := by
        refine .look_bind fun _ => .bind (modifyObject_safe (hl.owns howns)
          (fun _ => .stamp .refl) fun hw => met_object hw.closed id) fun _ w₁ _ _ => ?_
        exact .bind (defineOrThrow_safe ⟨trivial, trivial, trivial⟩) fun _ _ _ _ => .pure trivial
      split
      · exact .pure_bind (hwriting .refl)
      · exact .bind (toText_safe hfirst) fun _ _ h₁ _ => hwriting h₁
    split
    · exact .look_bind fun _ => .pure_bind hcapturing
    · exact .pure_bind hcapturing
  · exact throwType_safe

theorem constructError_safe {kind : ErrorKind} {newTarget : ObjectId} (ha : Met w args)
    (hn : Met w newTarget) : Safe P c w (constructError kind args newTarget) Known := by
  refine .look_bind fun hw => ?_
  exact .bind (prototypeFor_safe hn (hw.intrinsic Intrinsics.errorPrototypeFor_mem))
    fun prototype w₁ h₁ hp => buildError_safe hp (h₁.met ha)

theorem errorFunction_safe {f : ErrorFunction} (ht : Met w this) (ha : Met w args) :
    Safe P c w (errorFunction f this args) Known := by
  cases f with
  | construct kind =>
    exact .look_bind fun hw => buildError_safe (hw.intrinsic Intrinsics.errorPrototypeFor_mem) ha
  | toString => exact errorText_safe ht
  | captureStackTrace => exact captureStack_safe ha

/-! Timers. -/

omit [Serves P] in
theorem World.Inv.isOpen (hw : w.Inv) (h : w.owns w.state.globalObject) : w.isOpen := by
  cases hd : w.dry with
  | none => exact hd
  | some d => exact absurd (h d hd) (Nat.not_le.mpr (hw.dry d hd).global)

omit [Serves P] in
theorem requireCallback_safe {v : Value} : Safe P c w (requireCallback v) Known :=
  .look_bind fun _ => .ite (fun _ => throwType_safe) fun _ => .pure trivial

omit [Serves P] in
theorem mem_place {e f : TimerEntry} {l : List TimerEntry} (h : f ∈ TimerQueue.place e l) :
    f = e ∨ f ∈ l := by
  induction l with
  | nil => simpa [TimerQueue.place] using h
  | cons g rest ih =>
    unfold TimerQueue.place at h
    split at h
    · simpa using h
    · rcases List.mem_cons.mp h with rfl | h
      · simp
      · rcases ih h with h | h
        · exact .inl h
        · exact .inr (.tail _ h)

section Timers
variable {q : TimerQueue} {t : Timer} {due : Nat}

omit [Serves P] in
theorem met_arm (hq : Met w q) (ht : Met w t) : Met w (q.arm due t) := by
  intro e he
  rcases mem_place he with rfl | he
  · exact ht
  · exact hq e he

omit [Serves P] in
theorem numbered_arm (hq : q.Numbered) (ht : t.id ≤ q.lastId) : (q.arm due t).Numbered := by
  intro e he
  rcases mem_place he with rfl | he
  · exact ht
  · exact hq e he

omit [Serves P] in
theorem numbered_schedule {callback : Value} {interval : Option Nat} (hq : q.Numbered) :
    (q.schedule due callback args interval).2.Numbered :=
  numbered_arm (fun e he => Nat.le_succ_of_le (hq e he)) (Nat.le_refl _)

end Timers

theorem scheduleTimer_safe {repeats : Bool} (ha : Met w args) :
    Safe P c w (scheduleTimer args repeats) Known := by
  refine .bind requireCallback_safe fun _ w₁ h₁ _ => .look_bind fun hw => checkObjectWrite_bind fun hg => ?_
  extract_lets setting
  have hsetting {w' : World} (hl : Later w₁ w') (delay : Nat) :
      Safe P c w' (setting delay) Known := by
    refine .bind (Q := fun _ _ => True) (.update (fun hw' => .of_act (.timers ?_ ?_
      fun ht => numbered_schedule (hw'.numbered ht))) fun _ => trivial) fun _ _ _ _ => .pure trivial
    · exact hl.dry.trans (hw.isOpen hg)
    · have hargs := (h₁.trans hl).met ha
      exact met_arm hw'.closed.timers ⟨met_argument hargs, hargs.extract⟩
  split
  · exact .pure_bind (hsetting .refl 0)
  · refine .bind (Q := Known) (.map (toNumber_safe (h₁.met (met_argument ha))) fun _ _ _ => trivial)
      fun delay _ h₂ _ => hsetting h₂ delay

theorem timerFunction_safe {f : TimerFunction} (ha : Met w args) :
    Safe P c w (timerFunction f args) Known := by
  cases f with
  | setTimeout => exact scheduleTimer_safe ha
  | setInterval => exact scheduleTimer_safe ha
  | clear =>
    unfold timerFunction
    dsimp only
    split
    · refine .look_bind fun hw => checkObjectWrite_bind fun hg => .change_bind (fun _ => ?_) (.pure trivial)
      refine .of_act (.timers (hw.isOpen hg) ?_ fun ht e he => ?_)
      · exact within_of_subset hw.closed.timers fun _ h => (List.mem_filter.mp h).1
      · exact hw.numbered ht e (List.mem_filter.mp he).1
    · exact .pure trivial
  | queueMicrotask =>
    refine .bind requireCallback_safe fun _ w₁ h₁ _ => .look_bind fun _ => checkObjectWrite_bind fun _ => ?_
    exact .bind (enqueue_safe (h₁.met (met_argument ha)) rfl) fun _ _ _ _ => .pure trivial

theorem runTimer_safe {t : Timer} (hopen : w.isOpen) (ht : Met w t)
    (hid : w.tracked → t.id ≤ w.state.timers.lastId) : Safe P c w (runTimer t) Known := by
  unfold runTimer
  extract_lets running
  have hrunning {w' : World} (hl : Later w w') : Safe P c w' (running ⟨⟩) Known := by
    refine .attempt (call_safe (hl.met ht).1 trivial (hl.met ht).2)
      (fun _ _ _ _ hk => Safe.passes_raise hk) (fun _ _ _ _ => .pure trivial) fun e w₁ _ he => ?_
    exact .bind (thrownValue_safe he) fun _ _ _ _ => .look_bind fun _ => console_safe
  split
  · refine .bind (Q := fun _ _ => True) (.change (fun hw => ?_) fun _ => trivial) fun _ _ h₁ _ => hrunning h₁
    exact .of_act (.timers hopen (met_arm hw.closed.timers ht)
      fun htracked => numbered_arm (hw.numbered htracked) (hid htracked))
  · exact hrunning .refl

end EcmaScript
