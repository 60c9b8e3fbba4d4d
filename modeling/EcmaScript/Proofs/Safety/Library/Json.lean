import EcmaScript.Library.Json
import EcmaScript.Proofs.Safety.Reference

/-! Reading and writing documents is safe. -/
namespace EcmaScript
open Exec

variable {P : Pairing} {c : Context} {w : World} {args : Array Value}

instance : Mentions JsonStyle := .of JsonStyle.replacer

theorem jsonFault_safe {α : Type} {Q : α → World → Prop} {text : String} {fault : Json.Fault} :
    Safe P c w (jsonFault text fault) Q := .raise trivial

theorem gapOf_safe {space : Value} : Safe P c w (gapOf space) Known := by
  cases space with
  | object id =>
    refine .look_bind fun _ => ?_
    split <;> exact .pure_bind (.pure trivial)
  | _ => exact .pure trivial

variable [Serves P]

theorem createProperty_safe {id : ObjectId} {key : PropertyKey} {v : Value} (hv : Met w v) :
    Safe P c w (createProperty id key v) Known :=
  .bind (define_safe ⟨hv, trivial, trivial⟩) fun _ _ _ _ => .pure trivial

section Documents
omit [Serves P]

mutual

theorem fromJson_safe [Serves P] (json : Json) (w : World) : Safe P c w (fromJson json) Known := by
  cases json with
  | array items =>
    refine .bind (fromJsonItems_safe items w .empty) fun out w₁ _ ho => ?_
    exact .bind (newArray_safe ho) fun _ _ _ hid => .pure hid.met
  | object members =>
    refine .bind (newObject_safe .nil) fun id w₁ _ hid => ?_
    exact .bind (fromJsonMembers_safe members w₁) fun _ _ h₂ _ => .pure (h₂.new hid).met
  | _ => exact .pure trivial

theorem fromJsonItems_safe [Serves P] (items : List Json) (w : World) {out : Array Value} (ho : Met w out) :
    Safe P c w (fromJsonItems items out) Known := by
  cases items with
  | nil => exact .pure ho
  | cons item rest =>
    refine .bind (fromJson_safe item w) fun v w₁ h₁ hv => ?_
    exact fromJsonItems_safe rest w₁ (within_push (h₁.met ho) hv)

theorem fromJsonMembers_safe [Serves P] {id : ObjectId} (members : List (String × Json)) (w : World) :
    Safe P c w (fromJsonMembers id members) Known := by
  cases members with
  | nil => exact .pure trivial
  | cons member rest =>
    refine .bind (fromJson_safe member.2 w) fun v w₁ _ hv => ?_
    exact .bind (createProperty_safe hv) fun _ w₂ _ _ => fromJsonMembers_safe rest w₂

end

end Documents

theorem revivedKeys_safe {id : ObjectId} (hid : Met w id) : Safe P c w (revivedKeys id) Known := by
  refine .look_bind fun _ => .ite (fun _ => ?_) fun _ => enumerableKeys_safe
  exact .bind (lengthOf_safe hid) fun _ _ _ _ => .pure fun _ _ => trivial

theorem revive_safe {reviver : Value} {fuel : Nat} {holder : ObjectId} {key : PropertyKey}
    (hr : Met w reviver) (hh : Met w holder) : Safe P c w (revive reviver fuel holder key) Known := by
  induction fuel generalizing w holder key with
  | zero => exact .exhausted
  | succ fuel ih =>
    refine .bind (get_safe hh) fun v w₁ h₁ hv => ?_
    have hcall {w' : World} (hl : Later w₁ w') :
        Safe P c w' (call reviver (.object holder) #[key.toValue, v]) Known :=
      call_safe ((h₁.trans hl).met hr) ((h₁.trans hl).met hh) (.two (met_key key) (hl.met hv))
    cases v with
    | object id =>
      refine .bind (revivedKeys_safe hv) fun keys w₂ h₂ _ => ?_
      refine .bind (Q := fun _ _ => True) (.forM (fun k _ w₃ h₃ => ?_) fun _ _ => trivial)
        fun _ _ h₃ _ => hcall (h₂.trans h₃)
      have hl := h₂.trans h₃
      refine .bind (ih ((h₁.trans hl).met hr) (hl.met hv)) fun revived w₄ _ hrevived => ?_
      refine .ite (fun _ => ?_) fun _ => createProperty_safe hrevived
      exact .bind delete_safe fun _ _ _ _ => .pure trivial
    | _ => exact hcall .refl

theorem jsonParse_safe (ha : Met w args) : Safe P c w (jsonParse args) Known := by
  refine .bind (toText_safe (met_argument ha)) fun text w₁ h₁ _ => ?_
  split
  · exact jsonFault_safe
  · refine .bind (fromJson_safe _ w₁) fun v w₂ h₂ hv => .look_bind fun _ => .ite (fun _ => ?_)
      fun _ => .pure hv
    refine .bind (newObject_safe (.cons ⟨trivial, hv⟩ .nil)) fun root w₃ h₃ hroot => ?_
    refine .bind (Q := fun _ _ => True) (.fuel trivial) fun _ w₄ h₄ _ => ?_
    exact revive_safe ((h₁.trans (h₂.trans (h₃.trans h₄))).met (met_argument ha)) (h₄.new hroot).met

theorem preparedValue_safe {style : JsonStyle} {holder : Value} {key : PropertyKey}
    (hs : Met w style) (hh : Met w holder) :
    Safe P c w (preparedValue style holder key) Known := by
  refine .bind (getOf_safe hh) fun v w₁ h₁ hv => ?_
  extract_lets opening replacing
  have hopening {w' : World} {v : Value} (hv : Met w' v) : Safe P c w' (opening v) Known := by
    cases v with
    | object id =>
      refine .look_bind fun _ => ?_
      split
      · exact .bind (toNumber_safe hv) fun _ _ _ _ => .pure trivial
      · exact .bind (toText_safe hv) fun _ _ _ _ => .pure trivial
      · exact .pure trivial
      · exact .pure hv
    | _ => exact .pure hv
  have hreplacing {w' : World} {v : Value} (hl : Later w w') (hv : Met w' v) :
      Safe P c w' (replacing v) Known := by
    have hreplacer : Met w' style.replacer := hl.met hs
    unfold replacing
    split
    · rename_i f hf
      rw [hf] at hreplacer
      exact .bind (call_safe hreplacer (hl.met hh) (.two (met_key key) hv)) fun _ _ _ hv => hopening hv
    · exact .pure_bind (hopening hv)
  refine .ite (fun _ => ?_) fun _ => hreplacing h₁ hv
  refine .bind (getOf_safe hv) fun f w₂ h₂ hf => .look_bind fun _ => .ite (fun _ => ?_) fun _ => ?_
  · exact .bind (call_safe hf (h₂.met hv) (.one (met_key key))) fun _ _ h₃ hv =>
      hreplacing (h₁.trans (h₂.trans h₃)) hv
  · exact hreplacing (h₁.trans h₂) (h₂.met hv)

theorem serialize_safe {style : JsonStyle} {fuel : Nat} {indent : String} {around : List ObjectId}
    {holder : Value} {key : PropertyKey} (hs : Met w style) (hh : Met w holder) :
    Safe P c w (serialize style fuel indent around holder key) Known := by
  induction fuel generalizing w indent around holder key with
  | zero => exact .exhausted
  | succ fuel ih =>
    refine .bind (preparedValue_safe hs hh) fun v w₁ h₁ hv => ?_
    cases v with
    | object id =>
      refine .look_bind fun _ => .ite (fun _ => .pure trivial) fun _ => ?_
      refine .ite (fun _ => .raise_bind trivial) fun _ => .look_bind fun _ => .ite (fun _ => ?_) fun _ => ?_
      · refine .bind (lengthOf_safe hv) fun n w₂ h₂ _ => ?_
        refine .bind (collect_safe (α := String) fun i w₃ h₃ => ?_) fun _ _ _ _ => .pure trivial
        refine .bind checkInterrupts_safe fun _ w₄ h₄ _ => ?_
        have hl := h₂.trans (h₃.trans h₄)
        exact .bind (ih ((h₁.trans hl).met hs) (hl.met hv)) fun _ _ _ _ => .pure trivial
      · have hmembers {w' : World} {keys : List PropertyKey} (hl : Later w₁ w') : Safe P c w' (do
            let parts ← keys.filterMapM fun k => do
              return (← serialize style fuel (indent ++ style.gap) (id :: around) (.object id) k).map
                (memberText style k)
            return some (style.wrap "\x7b" "\x7d" indent parts)) Known := by
          refine .bind (.filterMapM (β := String) fun k _ w₂ h₂ => ?_) fun _ _ _ _ => .pure trivial
          have hl := hl.trans h₂
          exact .bind (ih ((h₁.trans hl).met hs) (hl.met hv)) fun _ _ _ _ =>
            .pure (met_option fun _ _ => trivial)
        dsimp only
        split
        · exact .pure_bind (hmembers .refl)
        · exact .bind enumerableKeys_safe fun _ _ h₂ _ => hmembers h₂
    | _ => exact .pure trivial

theorem allowedKeys_safe {v : Value} (hv : Met w v) :
    Safe P c w (allowedKeys v) fun _ _ => True := by
  refine .bind (getOf_safe hv) fun n w₁ h₁ hn => .bind (toLength_safe hn) fun length w₂ h₂ _ => ?_
  refine .bind (Q := fun _ _ => True) (.loop (I := fun _ _ => True) trivial
    fun (i, keys) w₃ h₃ _ => .ite (fun _ => .pure trivial) fun _ => ?_) fun _ _ _ _ => .pure trivial
  refine .bind (getOf_safe ((h₁.trans (h₂.trans h₃)).met hv)) fun item w₄ _ hi => ?_
  extract_lets adding
  have hadding {w' : World} (key : Option PropertyKey) : Safe P c w' (adding key)
      fun r w' => r.elim (fun _ => True) fun _ => True := by
    cases key <;> exact .pure trivial
  cases item with
  | string s =>
    exact .bind (Q := fun _ _ => True) (.map (toKey_safe hi) fun _ _ _ => trivial)
      fun key _ _ _ => hadding key
  | number x =>
    exact .bind (Q := fun _ _ => True) (.map (toKey_safe hi) fun _ _ _ => trivial)
      fun key _ _ _ => hadding key
  | object id =>
    refine .look_bind fun _ => ?_
    split
    · exact .bind (toText_safe hi) fun _ _ _ _ => .pure_bind (hadding (some _))
    · exact .bind (toText_safe hi) fun _ _ _ _ => .pure_bind (hadding (some _))
    · exact .pure_bind (hadding none)
  | _ => exact .pure_bind (hadding none)

theorem jsonStringify_safe (ha : Met w args) : Safe P c w (jsonStringify args) Known := by
  refine .bind gapOf_safe fun gap w₁ h₁ _ => ?_
  extract_lets replacer writing
  have hwriting {w' : World} {style : JsonStyle} (hl : Later w w') (hs : Met w' style) :
      Safe P c w' (writing style) Known := by
    have hfirst : Met w' (argument args 0) := hl.met (met_argument ha)
    refine .bind (newObject_safe (.cons ⟨trivial, hfirst⟩ .nil)) fun wrapper w₂ h₂ hw => ?_
    refine .bind (Q := fun _ _ => True) (.fuel trivial) fun limit w₃ h₃ _ => ?_
    refine .bind (serialize_safe ((h₂.trans h₃).met hs) (h₃.new hw).met) fun text w₄ _ _ => ?_
    split <;> exact .pure trivial
  have hreplacer : Met w₁ (argument args 1) := h₁.met (met_argument ha)
  refine .look_bind fun _ => .ite (fun _ => .pure_bind (hwriting h₁ hreplacer)) fun _ => ?_
  refine .look_bind fun _ => .ite (fun _ => ?_) fun _ => .pure_bind (hwriting h₁ trivial)
  exact .bind (allowedKeys_safe hreplacer) fun _ _ h₂ _ => .pure_bind (hwriting (h₁.trans h₂) trivial)

theorem jsonFunction_safe {f : JsonFunction} (ha : Met w args) :
    Safe P c w (jsonFunction f args) Known := by
  cases f with
  | parse => exact jsonParse_safe ha
  | stringify => exact jsonStringify_safe ha

end EcmaScript
