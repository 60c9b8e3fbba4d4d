import EcmaScript.Library.Number
import EcmaScript.Library.String
import EcmaScript.Library.Symbol
import EcmaScript.Proofs.Safety.Reference

/-! The functions of the library on numbers, texts and symbols are safe. -/
namespace EcmaScript
open Exec

variable {P : Pairing} {c : Context} {w : World} {this : Value} {args : Array Value}

/-! Receivers that wrap a value. -/

theorem wrappedNumber_safe {name : String} : Safe P c w (wrappedNumber name this) Known := by
  cases this with
  | number x => exact .pure trivial
  | object id =>
    refine .look_bind fun _ => ?_
    split
    · exact .pure trivial
    · exact throwType_safe
  | _ => exact throwType_safe

theorem wrappedBoolean_safe {name : String} : Safe P c w (wrappedBoolean name this) Known := by
  cases this with
  | boolean b => exact .pure trivial
  | object id =>
    refine .look_bind fun _ => ?_
    split
    · exact .pure trivial
    · exact throwType_safe
  | _ => exact throwType_safe

theorem wrappedSymbol_safe {name : String} : Safe P c w (wrappedSymbol name this) Known := by
  cases this with
  | symbol s => exact .pure trivial
  | object id =>
    refine .look_bind fun _ => ?_
    split
    · exact .pure trivial
    · exact throwType_safe
  | _ => exact throwType_safe

theorem wrappedString_safe {f : StringFunction} : Safe P c w (wrappedString f this) Known := by
  cases this with
  | string s => exact .pure trivial
  | object id =>
    refine .look_bind fun _ => ?_
    split
    · exact .pure trivial
    · exact throwType_safe
  | _ => exact throwType_safe

theorem newSymbol_safe {description : Option String} :
    Safe P c w (newSymbol description) Known :=
  .update (fun _ => .of_act .aside) fun _ => trivial

theorem registeredSymbol_safe {name : String} : Safe P c w (registeredSymbol name) Known := by
  refine .update (fun _ => ?_) fun _ => trivial
  split
  · exact .refl
  · exact .of_act .aside

theorem met_description {s : Symbol} : Met w (descriptionValue s) := by
  unfold descriptionValue
  cases s.description <;> trivial

theorem newStringIterator_safe {s : String} : Safe P c w (newStringIterator s) Known := by
  refine .look_bind fun hw => .bind (newOfKind_safe ?_ trivial trivial) fun _ _ _ hid => .pure hid.met
  exact hw.intrinsic (by simp [Intrinsics.toList])

variable [Serves P]

/-! Numbers. -/

theorem digitsArgument_safe {least : Nat} {name : String} (ha : Met w args) :
    Safe P c w (digitsArgument args least name) Known :=
  .bind (toIntegerOrInfinity_safe (met_argument ha)) fun _ _ _ _ =>
    .ite (fun _ => .raise_bind trivial) fun _ => .pure trivial

theorem numberArgument_safe (ha : Met w args) : Safe P c w (numberArgument args) Known := by
  unfold numberArgument
  split
  · rename_i v hv
    exact toNumber_safe (within_getElem? ha hv)
  · exact .pure trivial

theorem constructNumber_safe {newTarget : ObjectId} (ha : Met w args) (hn : Met w newTarget) :
    Safe P c w (constructNumber args newTarget) Known := by
  refine .bind (numberArgument_safe ha) fun x w₁ h₁ _ => .look_bind fun hw => ?_
  refine .bind (prototypeFor_safe (h₁.met hn) (hw.intrinsic (by simp [Intrinsics.toList])))
    fun prototype w₂ _ hp => ?_
  exact .bind (newOfKind_safe hp trivial trivial) fun _ _ _ hid => .pure hid.met

theorem constructBoolean_safe {newTarget : ObjectId} (hn : Met w newTarget) :
    Safe P c w (constructBoolean args newTarget) Known := by
  refine .look_bind fun hw => ?_
  refine .bind (prototypeFor_safe hn (hw.intrinsic (by simp [Intrinsics.toList])))
    fun prototype w₂ _ hp => ?_
  exact .bind (newOfKind_safe hp trivial trivial) fun _ _ _ hid => .pure hid.met

theorem numberFunction_safe {f : NumberFunction} (ha : Met w args) :
    Safe P c w (numberFunction f this args) Known := by
  have hfirst : Met w (argument args 0) := met_argument ha
  cases f with
  | construct => exact .bind (numberArgument_safe ha) fun _ _ _ _ => .pure trivial
  | isFinite =>
    unfold numberFunction
    dsimp only
    split <;> exact .pure trivial
  | isNaN =>
    unfold numberFunction
    dsimp only
    split <;> exact .pure trivial
  | isInteger => exact .pure trivial
  | isSafeInteger => exact .pure trivial
  | parseInt =>
    refine .bind (toText_safe hfirst) fun _ w₁ h₁ _ => ?_
    exact .bind (toInt32_safe (h₁.met (met_argument ha))) fun _ _ _ _ => .pure trivial
  | parseFloat => exact .bind (toText_safe hfirst) fun _ _ _ _ => .pure trivial
  | valueOf => exact .bind wrappedNumber_safe fun _ _ _ _ => .pure trivial
  | toString =>
    have hrest {x : Float} (radix : Float) (w' : World) : Safe P c w' (do
        if !(2.0 ≤ radix && radix ≤ 36.0) then
          throwRange "toString() radix must be between 2 and 36"
        if radix == 10.0 then return Value.string (Number.text x)
        return Value.string (Number.radixText x (Number.toNat radix))) Known :=
      .ite (fun _ => .raise_bind trivial) fun _ =>
        .ite (fun _ => .pure trivial) fun _ => .pure trivial
    refine .bind wrappedNumber_safe fun x w₁ h₁ _ => ?_
    dsimp only
    split
    · exact .pure_bind (hrest _ w₁)
    · exact .bind (toIntegerOrInfinity_safe (h₁.met hfirst)) fun radix w₂ _ _ => hrest radix w₂
  | toLocaleString => exact .bind wrappedNumber_safe fun _ _ _ _ => .pure trivial
  | toFixed =>
    refine .bind wrappedNumber_safe fun x w₁ h₁ _ => ?_
    exact .bind (digitsArgument_safe (h₁.met ha)) fun _ _ _ _ =>
      .ite (fun _ => .pure trivial) fun _ => .pure trivial
  | toExponential =>
    refine .bind wrappedNumber_safe fun x w₁ h₁ _ => .ite (fun _ => .pure trivial) fun _ => ?_
    refine .ite (fun _ => .pure trivial) fun _ => ?_
    exact .bind (digitsArgument_safe (h₁.met ha)) fun _ _ _ _ => .pure trivial
  | toPrecision =>
    refine .bind wrappedNumber_safe fun x w₁ h₁ _ => .ite (fun _ => .pure trivial) fun _ => ?_
    exact .bind (digitsArgument_safe (h₁.met ha)) fun _ _ _ _ => .pure trivial
  | globalIsNaN => exact .bind (toNumber_safe hfirst) fun _ _ _ _ => .pure trivial
  | globalIsFinite => exact .bind (toNumber_safe hfirst) fun _ _ _ _ => .pure trivial

omit [Serves P] in
theorem booleanFunction_safe {f : BooleanFunction} :
    Safe P c w (booleanFunction f this args) Known := by
  cases f with
  | construct => exact .pure trivial
  | toString => exact .bind wrappedBoolean_safe fun _ _ _ _ => .pure trivial
  | valueOf => exact .bind wrappedBoolean_safe fun _ _ _ _ => .pure trivial

theorem symbolFunction_safe {f : SymbolFunction} (ha : Met w args) :
    Safe P c w (symbolFunction f this args) Known := by
  have hfirst : Met w (argument args 0) := met_argument ha
  cases f with
  | construct =>
    have hnew {w' : World} {description : Option String} : Safe P c w' (do
        return Value.symbol (← newSymbol description)) Known :=
      .bind newSymbol_safe fun _ _ _ _ => .pure trivial
    unfold symbolFunction
    dsimp only
    split
    · exact .pure_bind hnew
    · exact .bind (Q := Known) (.map (toText_safe hfirst) fun _ _ _ => trivial) fun _ _ _ _ => hnew
  | «for» =>
    exact .bind (toText_safe hfirst) fun _ _ _ _ =>
      .bind registeredSymbol_safe fun _ _ _ _ => .pure trivial
  | keyFor =>
    unfold symbolFunction
    dsimp only
    split
    · refine .pure ?_
      split
      · exact met_description
      · trivial
    · exact .look_bind fun _ => throwType_safe
  | toString => exact .bind wrappedSymbol_safe fun _ _ _ _ => .pure trivial
  | valueOf => exact .bind wrappedSymbol_safe fun _ _ _ _ => .pure trivial
  | description => exact .bind wrappedSymbol_safe fun _ _ _ _ => .pure met_description
  | toPrimitive => exact .bind wrappedSymbol_safe fun _ _ _ _ => .pure trivial

theorem mathFunction_safe {f : MathFunction} (ha : Met w args) :
    Safe P c w (mathFunction f args) Known := by
  have hof {g : Float → Float} : Safe P c w (do
      return Value.number (g (← toNumber (argument args 0)))) Known :=
    .bind (toNumber_safe (met_argument ha)) fun _ _ _ _ => .pure trivial
  have hofTwo {g : Float → Float → Float} : Safe P c w (do
      let x ← toNumber (argument args 0)
      return Value.number (g x (← toNumber (argument args 1)))) Known :=
    .bind (toNumber_safe (met_argument ha)) fun _ _ h₁ _ =>
      .bind (toNumber_safe (h₁.met (met_argument ha))) fun _ _ _ _ => .pure trivial
  have hofAll {g : List Float → Float} : Safe P c w (do
      return Value.number (g (← args.toList.mapM toNumber))) Known :=
    .bind (.mapM fun v hv _ hl => toNumber_safe (hl.met (within_toList ha v hv)))
      fun _ _ _ _ => .pure trivial
  cases f with
  | clz32 => exact .bind (toUInt32_safe (met_argument ha)) fun _ _ _ _ => .pure trivial
  | imul =>
    refine .bind (toUInt32_safe (met_argument ha)) fun _ _ h₁ _ => ?_
    exact .bind (toUInt32_safe (h₁.met (met_argument ha))) fun _ _ _ _ => .pure trivial
  | random =>
    have hrandom : Safe P c w (update fun s => (Value.number (randomNumber (nextRandom s.random)),
        { s with random := nextRandom s.random })) Known :=
      .update (fun _ => .of_act .aside) fun _ => trivial
    exact hrandom
  | atan2 => exact hofTwo
  | pow => exact hofTwo
  | max => exact hofAll
  | min => exact hofAll
  | hypot => exact hofAll
  | _ => exact hof

/-! Texts. -/

theorem receiverText_safe {f : StringFunction} (ht : Met w this) :
    Safe P c w (receiverText f this) Known :=
  .ite (fun _ => .raise_bind trivial) fun _ => toText_safe ht

theorem receiverUnits_safe {f : StringFunction} (ht : Met w this) :
    Safe P c w (receiverUnits f this) Known :=
  .bind (receiverText_safe ht) fun _ _ _ _ => .pure fun _ _ => trivial

theorem unitsArgument_safe {i : Nat} (ha : Met w args) :
    Safe P c w (unitsArgument args i) Known :=
  .bind (toText_safe (met_argument ha)) fun _ _ _ _ => .pure fun _ _ => trivial

theorem placeArgument_safe {i default length : Nat} (ha : Met w args) :
    Safe P c w (placeArgument args i default length) Known := by
  unfold placeArgument
  split
  · exact .pure trivial
  · exact .bind (toIntegerOrInfinity_safe (met_argument ha)) fun _ _ _ _ => .pure trivial

theorem padText_safe {f : StringFunction} {atStart : Bool} (ht : Met w this) (ha : Met w args) :
    Safe P c w (padText f this args atStart) Known := by
  refine .bind (receiverUnits_safe ht) fun us w₁ h₁ _ => ?_
  refine .bind (toLength_safe (h₁.met (met_argument ha))) fun length w₂ h₂ _ => ?_
  refine .ite (fun _ => .pure trivial) fun _ => .ite (fun _ => .raise_bind trivial) fun _ => ?_
  dsimp only
  split
  · exact .pure_bind (.ite (fun _ => .pure trivial) fun _ => .pure trivial)
  · refine .bind (toText_safe ((h₁.trans h₂).met (met_argument ha))) fun _ _ _ _ => .pure_bind ?_
    exact .ite (fun _ => .pure trivial) fun _ => .pure trivial

theorem replacementFor_safe {subject pattern : Text.Units} {replacer : Value}
    {template : Option Text.Units} {place : Nat} (hr : Met w replacer) :
    Safe P c w (replacementFor subject pattern replacer template place) fun _ _ => True := by
  unfold replacementFor
  split
  · exact .pure trivial
  · refine .bind (call_safe hr trivial (.three trivial trivial trivial)) fun result w₁ _ hv => ?_
    exact .bind (toText_safe hv) fun _ _ _ _ => .pure trivial

theorem replaceText_safe {f : StringFunction} {all : Bool} (ht : Met w this) (ha : Met w args) :
    Safe P c w (replaceText f this args all) Known := by
  refine .bind (receiverUnits_safe ht) fun subject w₁ h₁ _ => ?_
  refine .bind (unitsArgument_safe (h₁.met ha)) fun pattern w₂ h₂ _ => .look_bind fun _ => ?_
  extract_lets found places replacing
  have hreplacing {w' : World} {template : Option Text.Units} (hl : Later w w') :
      Safe P c w' (replacing template) Known := by
    refine .bind (Q := fun _ _ => True) (.foldlM (fun _ _ _ w'' hl' _ => ?_) trivial)
      fun _ _ _ _ => .pure trivial
    exact .bind (replacementFor_safe ((hl.trans hl').met (met_argument ha))) fun _ _ _ _ => .pure trivial
  refine .ite (fun _ => .pure_bind (hreplacing (h₁.trans h₂))) fun _ => ?_
  exact .bind (Q := fun _ _ => True) (.map (unitsArgument_safe ((h₁.trans h₂).met ha)) fun _ _ _ => trivial)
    fun _ _ h₃ _ => hreplacing ((h₁.trans h₂).trans h₃)

theorem splitText_safe {f : StringFunction} (ht : Met w this) (ha : Met w args) :
    Safe P c w (splitText f this args) Known := by
  refine .bind (receiverUnits_safe ht) fun us w₁ h₁ _ => ?_
  have hpieces {pieces : List Text.Units} {w' : World} :
      Met w' (pieces.map unitsValue).toArray := by
    refine Met.toArray fun v hv => ?_
    obtain ⟨_, _, rfl⟩ := List.mem_map.mp hv
    trivial
  have hsplit {w' : World} {limit : Nat} (hl : Later w w') : Safe P c w' (do
      if limit = 0 then return Value.object (← newArray #[])
      if (argument args 0).isUndefined then return .object (← newArray #[unitsValue us])
      let pieces := Text.split us (Text.units (← toText (argument args 0))) limit
      return .object (← newArray (pieces.map unitsValue).toArray)) Known := by
    refine .ite (fun _ => .bind (newArray_safe .empty) fun _ _ _ hid => .pure hid.met) fun _ => ?_
    refine .ite (fun _ => .bind (newArray_safe (.one trivial)) fun _ _ _ hid => .pure hid.met) fun _ => ?_
    refine .bind (toText_safe (hl.met (met_argument ha))) fun _ _ _ _ => ?_
    exact .bind (newArray_safe hpieces) fun _ _ _ hid => .pure hid.met
  dsimp only
  split
  · exact .pure_bind (hsplit h₁)
  · exact .bind (toUInt32_safe (h₁.met (met_argument ha))) fun _ _ h₂ _ =>
      .pure_bind (hsplit (h₁.trans h₂))

theorem rawText_safe (ha : Met w args) : Safe P c w (Exec.rawText args) Known := by
  refine .bind (toObject_safe (met_argument ha)) fun cooked w₁ h₁ hcooked => ?_
  refine .bind (getNamed_safe hcooked) fun v w₂ h₂ hv => ?_
  refine .bind (toObject_safe hv) fun raw w₃ h₃ hraw => ?_
  refine .bind (lengthOf_safe hraw) fun length w₄ h₄ _ => ?_
  have hargs := ((h₁.trans h₂).trans (h₃.trans h₄)).met ha
  refine .bind (Q := fun _ _ => True) (.loop (I := fun _ _ => True) trivial fun (i, out) w₅ h₅ _ => ?_)
    fun _ _ _ _ => .pure trivial
  refine .ite (fun _ => .pure trivial) fun _ => ?_
  refine .bind (getIndex_safe ((h₄.trans h₅).met hraw)) fun item w₆ h₆ hitem => ?_
  refine .bind (toText_safe hitem) fun text w₇ h₇ _ => ?_
  refine .ite (fun _ => ?_) fun _ => .pure_bind (.pure trivial)
  exact .bind (toText_safe ((h₅.trans (h₆.trans h₇)).met (met_argument hargs)))
    fun _ _ _ _ => .pure trivial

theorem charOfPoint_safe {v : Value} (hv : Met w v) : Safe P c w (charOfPoint v) Known :=
  .bind (toNumber_safe hv) fun _ _ _ _ => .ite (fun _ => .pure trivial) fun _ => throwRange_safe

theorem repeatText_safe (ht : Met w this) (ha : Met w args) :
    Safe P c w (repeatText this args) Known := by
  refine .bind (receiverText_safe ht) fun s w₁ h₁ _ => ?_
  refine .bind (toIntegerOrInfinity_safe (h₁.met (met_argument ha))) fun n w₂ h₂ _ => ?_
  refine .ite (fun _ => .raise_bind trivial) fun _ => .ite (fun _ => .pure trivial) fun _ => ?_
  exact .ite (fun _ => .raise_bind trivial) fun _ => .pure trivial

theorem trimText_safe {f : StringFunction} {atStart atEnd : Bool} (ht : Met w this) :
    Safe P c w (trimText f this atStart atEnd) Known :=
  .bind (receiverText_safe ht) fun _ _ _ _ => .pure trivial

theorem stringArgument_safe (ha : Met w args) : Safe P c w (stringArgument args) Known := by
  unfold stringArgument
  split
  · exact .pure trivial
  · rename_i v hv
    exact toText_safe (within_getElem? ha hv)

theorem constructString_safe {newTarget : ObjectId} (ha : Met w args) (hn : Met w newTarget) :
    Safe P c w (constructString args newTarget) Known := by
  refine .bind (stringArgument_safe ha) fun s w₁ h₁ _ => .look_bind fun hw => ?_
  refine .bind (prototypeFor_safe (h₁.met hn) (hw.intrinsic (by simp [Intrinsics.toList])))
    fun prototype w₂ _ hp => ?_
  refine .bind (allocate_safe ?_ trivial) fun _ _ _ hid => .pure hid.met
  exact ⟨trivial, hp, within_put within_emptyTable trivial, within_nil⟩

theorem lastIndexIn_safe (ht : Met w this) (ha : Met w args) :
    Safe P c w (lastIndexIn this args) Known := by
  refine .bind (receiverUnits_safe ht) fun us w₁ h₁ _ => ?_
  refine .bind (unitsArgument_safe (h₁.met ha)) fun pattern w₂ h₂ _ => ?_
  extract_lets finding
  have hfinding {start : Nat} {w' : World} : Safe P c w' (finding start) Known := by
    refine .pure ?_
    split <;> trivial
  split
  · exact .pure_bind hfinding
  · exact .bind (toNumber_safe ((h₁.trans h₂).met (met_argument ha)))
      fun _ _ _ _ => .pure_bind hfinding

omit [Serves P] in
theorem unit_safe {us : Text.Units} {n : Float} {x : Nat → Value} {y : Value}
    (hx : ∀ i, Met w (x i)) (hy : Met w y) : Safe P c w (match unitAt? us n with
      | some i => pure (x i)
      | none => pure y) Known := by
  split
  · exact .pure (hx _)
  · exact .pure hy

theorem stringFunction_safe {f : StringFunction} (ht : Met w this) (ha : Met w args) :
    Safe P c w (stringFunction f this args) Known := by
  have hfirst : Met w (argument args 0) := met_argument ha
  cases f with
  | construct =>
    unfold stringFunction
    dsimp only
    split
    · exact .pure trivial
    · exact .bind (stringArgument_safe ha) fun _ _ _ _ => .pure trivial
  | fromCharCode =>
    refine .bind (Q := fun _ _ => True) ?_ fun _ _ _ _ => .pure trivial
    rw [Array.mapM_eq_mapM_toList]
    refine .map (.mapM (β := UInt16) fun v hv _ hl => ?_) fun _ _ _ => trivial
    exact .bind (toUInt32_safe (hl.met (within_toList ha v hv))) fun _ _ _ _ => .pure trivial
  | fromCodePoint =>
    exact .bind (.mapM fun v hv _ hl => charOfPoint_safe (hl.met (within_toList ha v hv)))
      fun _ _ _ _ => .pure trivial
  | raw => exact rawText_safe ha
  | toString => exact wrappedString_safe
  | valueOf => exact wrappedString_safe
  | «at» =>
    refine .bind (receiverUnits_safe ht) fun us w₁ h₁ _ => ?_
    exact .bind (toIntegerOrInfinity_safe (h₁.met hfirst)) fun n w₂ _ _ =>
      unit_safe (fun _ => trivial) trivial
  | charAt =>
    refine .bind (receiverUnits_safe ht) fun us w₁ h₁ _ => ?_
    exact .bind (toIntegerOrInfinity_safe (h₁.met hfirst)) fun n w₂ _ _ =>
      unit_safe (fun _ => trivial) trivial
  | charCodeAt =>
    refine .bind (receiverUnits_safe ht) fun us w₁ h₁ _ => ?_
    exact .bind (toIntegerOrInfinity_safe (h₁.met hfirst)) fun n w₂ _ _ =>
      unit_safe (fun _ => trivial) trivial
  | codePointAt =>
    refine .bind (receiverUnits_safe ht) fun us w₁ h₁ _ => ?_
    refine .bind (toIntegerOrInfinity_safe (h₁.met hfirst)) fun n w₂ _ _ => unit_safe (fun i => ?_) trivial
    cases Text.codePointAt? us i <;> trivial
  | concat =>
    refine .bind (receiverText_safe ht) fun s w₁ h₁ _ => ?_
    refine .bind (Q := fun _ _ => True) ?_ fun _ _ _ _ => .pure trivial
    rw [← Array.foldlM_toList]
    refine .foldlM (fun _ v hv _ hl _ => ?_) trivial
    exact .bind (toText_safe ((h₁.trans hl).met (within_toList ha v hv))) fun _ _ _ _ => .pure trivial
  | includes =>
    refine .bind (receiverUnits_safe ht) fun us w₁ h₁ _ => ?_
    refine .bind (unitsArgument_safe (h₁.met ha)) fun pattern w₂ h₂ _ => ?_
    exact .bind (placeArgument_safe ((h₁.trans h₂).met ha)) fun _ _ _ _ => .pure trivial
  | startsWith =>
    refine .bind (receiverUnits_safe ht) fun us w₁ h₁ _ => ?_
    refine .bind (unitsArgument_safe (h₁.met ha)) fun pattern w₂ h₂ _ => ?_
    exact .bind (placeArgument_safe ((h₁.trans h₂).met ha)) fun _ _ _ _ => .pure trivial
  | endsWith =>
    refine .bind (receiverUnits_safe ht) fun us w₁ h₁ _ => ?_
    refine .bind (unitsArgument_safe (h₁.met ha)) fun pattern w₂ h₂ _ => ?_
    exact .bind (placeArgument_safe ((h₁.trans h₂).met ha)) fun _ _ _ _ => .pure trivial
  | indexOf =>
    refine .bind (receiverUnits_safe ht) fun us w₁ h₁ _ => ?_
    refine .bind (unitsArgument_safe (h₁.met ha)) fun pattern w₂ h₂ _ => ?_
    refine .bind (placeArgument_safe ((h₁.trans h₂).met ha)) fun start w₃ _ _ => ?_
    split <;> exact .pure trivial
  | lastIndexOf => exact lastIndexIn_safe ht ha
  | padStart => exact padText_safe ht ha
  | padEnd => exact padText_safe ht ha
  | «repeat» => exact repeatText_safe ht ha
  | replace => exact replaceText_safe ht ha
  | replaceAll => exact replaceText_safe ht ha
  | slice =>
    refine .bind (receiverUnits_safe ht) fun us w₁ h₁ _ => ?_
    refine .bind (toNumber_safe (h₁.met hfirst)) fun start w₂ h₂ _ => ?_
    dsimp only
    split
    · exact .pure trivial
    · exact .bind (toNumber_safe ((h₁.trans h₂).met (met_argument ha))) fun _ _ _ _ => .pure trivial
  | substring =>
    refine .bind (receiverUnits_safe ht) fun us w₁ h₁ _ => ?_
    refine .bind (placeArgument_safe (h₁.met ha)) fun _ w₂ h₂ _ => ?_
    exact .bind (placeArgument_safe ((h₁.trans h₂).met ha)) fun _ _ _ _ => .pure trivial
  | substr =>
    refine .bind (receiverUnits_safe ht) fun us w₁ h₁ _ => ?_
    refine .bind (toNumber_safe (h₁.met hfirst)) fun start w₂ h₂ _ => ?_
    exact .bind (placeArgument_safe ((h₁.trans h₂).met ha)) fun _ _ _ _ => .pure trivial
  | split => exact splitText_safe ht ha
  | toLowerCase => exact .bind (receiverText_safe ht) fun _ _ _ _ => .pure trivial
  | toUpperCase => exact .bind (receiverText_safe ht) fun _ _ _ _ => .pure trivial
  | trim => exact trimText_safe ht
  | trimStart => exact trimText_safe ht
  | trimEnd => exact trimText_safe ht
  | localeCompare =>
    refine .bind (receiverText_safe ht) fun _ w₁ h₁ _ => ?_
    exact .bind (toText_safe (h₁.met hfirst)) fun _ _ _ _ => .pure trivial
  | iterator => exact .bind (receiverText_safe ht) fun _ _ _ _ => newStringIterator_safe

end EcmaScript
