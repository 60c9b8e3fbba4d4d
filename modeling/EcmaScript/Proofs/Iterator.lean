import EcmaScript.Proofs.Result

/-! The protocol between an iterator and its user: when the iterator is closed, and how often. -/
namespace EcmaScript
open Exec

/-- What happens between an iterator and its user. -/
inductive IteratorEvent where
  | item (v : Value)
  /-- The iterator reports its end. -/
  | done
  /-- Asking the iterator for an item fails. -/
  | broken (e : Abrupt)
  /-- The user wants no more items. -/
  | enough
  /-- What the user does with an item fails. -/
  | failed (e : Abrupt)
  /-- The user closes the iterator. -/
  | closed (result : Except Abrupt Unit)

/-- The error that a result is, if it is one. -/
def error? {α : Type} : Except Abrupt α → Option Abrupt
  | .ok _ => none
  | .error e => some e

/-- The order of the events, and the error that the user ends with. -/
inductive IteratorEvent.Protocol : List IteratorEvent → Option Abrupt → Prop where
  | item (v : Value) {events : List IteratorEvent} {error : Option Abrupt}
    (h : Protocol events error) : Protocol (.item v :: events) error
  | done : Protocol [.done] none
  /-- Once the iterator has ended, nothing that fails closes it. -/
  | late (e : Abrupt) : Protocol [.done, .failed e] (some e)
  | broken (e : Abrupt) : Protocol [.broken e] (some e)
  | halted {e : Abrupt} (he : e.isCatchable = false) : Protocol [.failed e] (some e)
  /-- What comes of closing the iterator after an error is dropped. -/
  | failed {e : Abrupt} (he : e.isCatchable = true) (result : Except Abrupt Unit) :
    Protocol [.failed e, .closed result] (some e)
  | enough (result : Except Abrupt Unit) : Protocol [.enough, .closed result] (error? result)

namespace IteratorEvent

def isClosed : IteratorEvent → Bool
  | .closed _ => true
  | _ => false

namespace Protocol
variable {events : List IteratorEvent} {error : Option Abrupt}

theorem count_closed_le (h : Protocol events error) : events.countP isClosed ≤ 1 := by
  induction h with
  | item v _ ih => simpa [isClosed] using ih
  | _ => simp [isClosed]

theorem closed_iff (h : Protocol events error) : (∃ result, .closed result ∈ events) ↔
    .done ∉ events ∧ (.enough ∈ events ∨ ∃ e, .failed e ∈ events ∧ e.isCatchable = true) := by
  induction h with
  | item v _ ih => simpa using ih
  | halted he => simp [he]
  | failed he => simp [he]
  | _ => simp

theorem error_of_broken (h : Protocol events error) {e : Abrupt} (he : .broken e ∈ events) :
    error = some e ∧ ∀ result, .closed result ∉ events := by
  induction h with
  | item v _ ih => simpa using ih (by simpa using he)
  | broken => simp_all
  | _ => simp at he

theorem error_of_failed (h : Protocol events error) {e : Abrupt} (he : .failed e ∈ events) :
    error = some e := by
  induction h with
  | item v _ ih => exact ih (by simpa using he)
  | _ => simp_all

end Protocol
end IteratorEvent

/-- How an iterator is closed: its `return` is looked up, and called if there is one. -/
inductive Closes (m : Machine) (c : Context) (id : ObjectId) (s : State) :
    Except Abrupt Unit → State → Prop where
  | unreadable {e : Abrupt} {s' : State}
    (h : (getNamed id "return").Comes m c s (.error e) s') : Closes m c id s (.error e) s'
  | absent {f : Value} {s' : State} (h : (getNamed id "return").Comes m c s (.ok f) s')
    (hf : f.isNullish = true) : Closes m c id s (.ok ()) s'
  | fails {f : Value} {e : Abrupt} {s₁ s' : State}
    (h : (getNamed id "return").Comes m c s (.ok f) s₁) (hf : f.isNullish = false)
    (hc : (call f (.object id) #[]).Comes m c s₁ (.error e) s') : Closes m c id s (.error e) s'
  | answers {f v : Value} {r : Except Abrupt Unit} {s₁ s' : State}
    (h : (getNamed id "return").Comes m c s (.ok f) s₁) (hf : f.isNullish = false)
    (hc : (call f (.object id) #[]).Comes m c s₁ (.ok v) s')
    (hr : r = if v.isObject then .ok ()
      else .error (.failure ⟨.type, "Iterator result " ++ s'.describe v ++ " is not an object", 0, 0⟩)) :
    Closes m c id s r s'

/-- What a user does with an iterator after an error of its own: the iterator is closed if the error can
be caught. -/
inductive Abandons (c : Context) (id : ObjectId) (e : Abrupt) (s : State) :
    List IteratorEvent → State → Prop where
  | halted (he : e.isCatchable = false) : Abandons c id e s [.failed e] s
  | failed {k : Nat} {r : Except Abrupt Unit} {s' : State} (he : e.isCatchable = true)
    (hc : Closes (machine k) c id s r s') : Abandons c id e s [.failed e, .closed r] s'

/-- What asking an iterator for an item comes to. -/
def Asks (n : Nat) (c : Context) (id : ObjectId) (next : Value) (s : State)
    (r : Except Abrupt (Option Value)) (s' : State) : Prop :=
  (step ⟨.object id, next⟩).Comes (machine n) c s r s'

/-- Items are taken from an iterator one by one, and `use` does something with each: it gives what to
go on with, or a result. The events are those on the way. -/
inductive Consumes (n : Nat) (c : Context) (id : ObjectId) (next : Value) {α β : Type}
    (use : β → Value → Exec (β ⊕ α)) (finish : β → α) :
    β → State → List IteratorEvent → Except Abrupt α → State → Prop where
  | item {b b' : β} {v : Value} {s s₁ s₂ s' : State} {events : List IteratorEvent}
    {r : Except Abrupt α} (hv : Asks n c id next s (.ok (some v)) s₁)
    (hu : (use b v).Comes (machine n) c s₁ (.ok (.inl b')) s₂)
    (h : Consumes n c id next use finish b' s₂ events r s') :
    Consumes n c id next use finish b s (.item v :: events) r s'
  | done {b : β} {s s' : State} (h : Asks n c id next s (.ok none) s') :
    Consumes n c id next use finish b s [.done] (.ok (finish b)) s'
  | broken {b : β} {e : Abrupt} {s s' : State} (h : Asks n c id next s (.error e) s') :
    Consumes n c id next use finish b s [.broken e] (.error e) s'
  | enough {b : β} {a : α} {v : Value} {k : Nat} {s s₁ s₂ s' : State} {r : Except Abrupt Unit}
    (hv : Asks n c id next s (.ok (some v)) s₁)
    (hu : (use b v).Comes (machine n) c s₁ (.ok (.inr a)) s₂)
    (hc : Closes (machine k) c id s₂ r s') :
    Consumes n c id next use finish b s [.item v, .enough, .closed r] (r.map fun _ => a) s'
  | failed {b : β} {v : Value} {e : Abrupt} {s s₁ s₂ s' : State} {events : List IteratorEvent}
    (hv : Asks n c id next s (.ok (some v)) s₁)
    (hu : (use b v).Comes (machine n) c s₁ (.error e) s₂) (ha : Abandons c id e s₂ events s') :
    Consumes n c id next use finish b s (.item v :: events) (.error e) s'

/-- An element of a pattern takes an item, unless the iterator has ended. -/
inductive Draws (n : Nat) (c : Context) (id : ObjectId) (next : Value) (s : State) :
    (ended : Bool) → List IteratorEvent → Except Abrupt (Option Value) → State → Prop where
  | nothing : Draws n c id next s true [] (.ok none) s
  | item {v : Value} {s' : State} (h : Asks n c id next s (.ok (some v)) s') :
    Draws n c id next s false [.item v] (.ok (some v)) s'
  | done {s' : State} (h : Asks n c id next s (.ok none) s') :
    Draws n c id next s false [.done] (.ok none) s'
  | broken {e : Abrupt} {s' : State} (h : Asks n c id next s (.error e) s') :
    Draws n c id next s false [.broken e] (.error e) s'

/-- The rest of a pattern takes all items that are left. -/
inductive Drains (n : Nat) (c : Context) (id : ObjectId) (next : Value) : (ended : Bool) →
    Array Value → State → List IteratorEvent → Except Abrupt (Array Value) → State → Prop where
  | nothing {out : Array Value} {s : State} : Drains n c id next true out s [] (.ok out) s
  | item {out : Array Value} {v : Value} {s s₁ s' : State} {events : List IteratorEvent}
    {r : Except Abrupt (Array Value)} (hv : Asks n c id next s (.ok (some v)) s₁)
    (h : Drains n c id next false (out.push v) s₁ events r s') :
    Drains n c id next false out s (.item v :: events) r s'
  | done {out : Array Value} {s s' : State} (h : Asks n c id next s (.ok none) s') :
    Drains n c id next false out s [.done] (.ok out) s'
  | broken {out : Array Value} {e : Abrupt} {s s' : State} (h : Asks n c id next s (.error e) s') :
    Drains n c id next false out s [.broken e] (.error e) s'

/-- The items of an iterator are bound to the elements of a pattern. -/
inductive Distributes (n : Nat) (c : Context) (id : ObjectId) (next : Value) (scope : ScopeId)
    (mode : BindingMode) : (ended : Bool) → List Pattern → State → List IteratorEvent →
    Except Abrupt Unit → State → Prop where
  | exhausted {s : State} : Distributes n c id next scope mode true [] s [] (.ok ()) s
  | enough {k : Nat} {s s' : State} {r : Except Abrupt Unit}
    (hc : Closes (machine k) c id s r s') :
    Distributes n c id next scope mode false [] s [.enough, .closed r] r s'
  | broken {ended : Bool} {p : Pattern} {rest : List Pattern} {events : List IteratorEvent}
    {e : Abrupt} {s s' : State} (hd : Draws n c id next s ended events (.error e) s') :
    Distributes n c id next scope mode ended (p :: rest) s events (.error e) s'
  | hole {ended : Bool} {rest : List Pattern} {events events' : List IteratorEvent}
    {item : Option Value} {r : Except Abrupt Unit} {s s₁ s' : State}
    (hd : Draws n c id next s ended events (.ok item) s₁)
    (h : Distributes n c id next scope mode item.isNone rest s₁ events' r s') :
    Distributes n c id next scope mode ended (.hole :: rest) s (events ++ events') r s'
  | element {ended : Bool} {p : Pattern} {rest : List Pattern} {events events' : List IteratorEvent}
    {item : Option Value} {r : Except Abrupt Unit} {s s₁ s₂ s' : State}
    (hd : Draws n c id next s ended events (.ok item) s₁)
    (hb : (request (.bind scope p (item.getD .undefined) mode)).Comes (machine n) c s₁ (.ok ()) s₂)
    (h : Distributes n c id next scope mode item.isNone rest s₂ events' r s') :
    Distributes n c id next scope mode ended (p :: rest) s (events ++ events') r s'
  | late {ended : Bool} {p : Pattern} {rest : List Pattern} {events : List IteratorEvent}
    {e : Abrupt} {s s₁ s' : State} (hd : Draws n c id next s ended events (.ok none) s₁)
    (hb : (request (.bind scope p .undefined mode)).Comes (machine n) c s₁ (.error e) s') :
    Distributes n c id next scope mode ended (p :: rest) s (events ++ [.failed e]) (.error e) s'
  | failed {p : Pattern} {rest : List Pattern} {v : Value} {e : Abrupt} {s s₁ s₂ s' : State}
    {events : List IteratorEvent} (hv : Asks n c id next s (.ok (some v)) s₁)
    (hb : (request (.bind scope p v mode)).Comes (machine n) c s₁ (.error e) s₂)
    (ha : Abandons c id e s₂ events s') :
    Distributes n c id next scope mode false (p :: rest) s (.item v :: events) (.error e) s'
  | restBroken {ended : Bool} {target : Pattern} {rest : List Pattern} {events : List IteratorEvent}
    {e : Abrupt} {s s' : State} (hd : Drains n c id next ended #[] s events (.error e) s') :
    Distributes n c id next scope mode ended (.rest target :: rest) s events (.error e) s'
  | rest {ended : Bool} {target : Pattern} {rest : List Pattern} {events : List IteratorEvent}
    {items : Array Value} {r : Except Abrupt Unit} {s s₁ s' : State}
    (hd : Drains n c id next ended #[] s events (.ok items) s₁)
    (hb : (do request (.bind scope target (.object (← newArray items)) mode)).Comes
      (machine n) c s₁ r s') :
    Distributes n c id next scope mode ended (.rest target :: rest) s
      (events ++ ((error? r).map .failed).toList) r s'

/-! What the users do is read off their code. -/

/-- One turn of a user: an item is taken and used. -/
def turn {α β : Type} (r : IteratorRecord) (use : β → Value → Exec (β ⊕ α)) (finish : β → α) (b : β) :
    Exec (β ⊕ α) := do
  match ← step r with
  | none => return .inr (finish b)
  | some v =>
    match ← attempt (use b v) with
    | .ok (.inl b) => return .inl b
    | .ok (.inr a) =>
      close r
      return .inr a
    | .error e => closeOnError (.plain r) e

section Users
variable {n : Nat} {c : Context} {id : ObjectId} {next : Value} {s s' : State}

theorem comes_notAResult {m : Machine} {α : Type} {v : Value} {r : Except Abrupt α} :
    (notAResult v : Exec α).Comes m c s r s' ↔
      r = .error (.failure ⟨.type, "Iterator result " ++ s.describe v ++ " is not an object", 0, 0⟩) ∧
        s' = s :=
  comes_look_bind.trans comes_raise

theorem Closes.of_comes {m : Machine} {r : Except Abrupt Unit}
    (h : (close ⟨.object id, next⟩).Comes m c s r s') : Closes m c id s r s' := by
  obtain ⟨f, s₁, hf, h⟩ | ⟨e, he, rfl⟩ := comes_bind.mp h
  · cases hnull : f.isNullish with
    | true =>
      simp only [hnull, ↓reduceIte, comes_pure] at h
      obtain ⟨rfl, rfl⟩ := h
      exact .absent hf hnull
    | false =>
      simp only [hnull, Bool.false_eq_true, ↓reduceIte] at h
      obtain ⟨v, s₂, hv, h⟩ | ⟨e, he, rfl⟩ := comes_bind.mp h
      · cases hobject : v.isObject with
        | true =>
          simp only [hobject, Bool.not_true, Bool.false_eq_true, ↓reduceIte, comes_pure] at h
          obtain ⟨rfl, rfl⟩ := h
          exact .answers hf hnull hv (by simp [hobject])
        | false =>
          simp only [hobject, Bool.not_false, ↓reduceIte, comes_notAResult] at h
          obtain ⟨rfl, rfl⟩ := h
          exact .answers hf hnull hv (by simp [hobject])
      · exact .fails hf hnull he
  · exact .unreadable he

theorem Abandons.of_comes {α : Type} {e : Abrupt} {r : Except Abrupt α}
    (h : (closeOnError (.plain ⟨.object id, next⟩) e : Exec α).Comes (machine n) c s r s') :
    r = .error e ∧ ∃ events, Abandons c id e s events s' := by
  unfold closeOnError at h
  cases he : e.isCatchable with
  | true =>
    simp only [he, ↓reduceIte] at h
    obtain ⟨r₁, s₁, hclose, h⟩ := comes_attempt_bind.mp h
    obtain ⟨rfl, rfl⟩ := comes_raise.mp h
    obtain ⟨k, rfl, hclose⟩ := comes_request.mp hclose
    exact ⟨rfl, _, .failed he (.of_comes hclose)⟩
  | false =>
    simp only [he, Bool.false_eq_true, ↓reduceIte] at h
    obtain ⟨rfl, rfl⟩ := comes_raise.mp h
    exact ⟨rfl, _, .halted he⟩

section Loops
variable {α β : Type} {use : β → Value → Exec (β ⊕ α)} {finish : β → α} {b : β}

/-- A turn brings the next one, or is the last. -/
theorem comes_turn {r : Except Abrupt (β ⊕ α)}
    (h : (turn ⟨.object id, next⟩ use finish b).Comes (machine n) c s r s') :
    (∃ v b' s₁, r = .ok (.inl b') ∧ Asks n c id next s (.ok (some v)) s₁ ∧
      (use b v).Comes (machine n) c s₁ (.ok (.inl b')) s') ∨
    ∃ r' events, r = r'.map .inr ∧ Consumes n c id next use finish b s events r' s' := by
  obtain ⟨item, s₁, hitem, h⟩ | ⟨e, he, rfl⟩ := comes_bind.mp h
  · cases item with
    | none =>
      obtain ⟨rfl, rfl⟩ := comes_pure.mp h
      exact .inr ⟨.ok _, _, rfl, .done hitem⟩
    | some v =>
      obtain ⟨e | b' | a, s₂, huse, h⟩ := comes_attempt_bind.mp h
      · obtain ⟨rfl, events, ha⟩ := Abandons.of_comes h
        exact .inr ⟨.error e, _, rfl, .failed hitem huse ha⟩
      · obtain ⟨rfl, rfl⟩ := comes_pure.mp h
        exact .inl ⟨v, b', s₁, rfl, hitem, huse⟩
      · obtain ⟨_, s₃, hclose, h⟩ | ⟨e, hclose, rfl⟩ := comes_bind.mp h
        · obtain ⟨rfl, rfl⟩ := comes_pure.mp h
          exact .inr ⟨.ok a, _, rfl, .enough hitem huse (.of_comes hclose)⟩
        · exact .inr ⟨.error e, _, rfl, .enough hitem huse (.of_comes hclose)⟩
  · exact .inr ⟨.error e, _, rfl, .broken he⟩

theorem Consumes.of_loop {r : Except Abrupt α}
    (h : (loop b (turn ⟨.object id, next⟩ use finish)).Comes (machine n) c s r s') :
    ∃ events, Consumes n c id next use finish b s events r s' := by
  refine h.loop (P := fun b s => ∃ events, Consumes n c id next use finish b s events r s')
    (fun b b' s s₁ hturn ih => ?_) fun b s hturn => ?_
  · obtain ⟨v, b₁, s₂, heq, hitem, huse⟩ | ⟨_ | _, _, heq, -⟩ := comes_turn hturn
    · cases heq
      obtain ⟨events, ih⟩ := ih
      exact ⟨_, .item hitem huse ih⟩
    · cases heq
    · cases heq
  · obtain ⟨_, _, _, heq, -⟩ | ⟨_ | _, events, heq, hlast⟩ := comes_turn hturn
    · cases r <;> cases heq
    · cases r <;> cases heq
      exact ⟨events, hlast⟩
    · cases r <;> cases heq
      exact ⟨events, hlast⟩

end Loops

theorem getIterator_only {m : Machine} {v : Value} :
    Only m (getIterator v) fun r => ∃ id next, r = ⟨.object id, next⟩ := by
  have hcalled (f : Value) : Only m (do
      if !(← isCallable f) then throwType ((← describe v) ++ " is not iterable")
      let iterator ← call f v #[]
      if !iterator.isObject then throwType "Result of the Symbol.iterator method is not an object"
      return (⟨iterator, ← getOf iterator (.name "next")⟩ : IteratorRecord))
      fun r => ∃ id next, r = ⟨.object id, next⟩ := by
    refine .bind fun _ => .ite (fun _ => .bind fun _ => .raise_bind) fun _ => .bind fun iterator => ?_
    refine .ite (fun _ => .raise_bind) fun hobject => .bind fun next => .pure ?_
    cases iterator with
    | object id => exact ⟨id, next, rfl⟩
    | _ => exact absurd rfl hobject
  unfold getIterator
  dsimp only
  exact .ite (fun _ => hcalled .undefined) fun _ => .bind hcalled

theorem Drains.of_comes {out : Array Value} {r : Except Abrupt (Array Value)}
    (h : (loop out fun out => do
      match ← step ⟨.object id, next⟩ with
      | some v => return .inl (out.push v)
      | none => return .inr out : Exec (Array Value)).Comes (machine n) c s r s') :
    ∃ events, Drains n c id next false out s events r s' := by
  refine h.loop (P := fun out s => ∃ events, Drains n c id next false out s events r s')
    (fun out out' s s₁ hturn ih => ?_) fun out s hturn => ?_
  · obtain ⟨item, s₂, hitem, h⟩ := comes_bind_ok.mp hturn
    cases item with
    | none => cases (comes_pure.mp h).1
    | some v =>
      obtain ⟨heq, rfl⟩ := comes_pure.mp h
      cases heq
      obtain ⟨events, ih⟩ := ih
      exact ⟨_, .item hitem ih⟩
  · obtain ⟨item, s₂, hitem, h⟩ | ⟨e, he, heq⟩ := comes_bind.mp hturn
    · cases item with
      | none =>
        obtain ⟨heq, rfl⟩ := comes_pure.mp h
        cases r <;> cases heq
        exact ⟨_, .done hitem⟩
      | some v =>
        obtain ⟨heq, -⟩ := comes_pure.mp h
        cases r <;> cases heq
    · cases r <;> cases heq
      exact ⟨_, .broken he⟩

/-- What is done with what an element takes. -/
theorem Draws.of_bind {α : Type} {ended : Bool} {f : Option Value → Exec α} {r : Except Abrupt α}
    (h : (if ended then pure none >>= f else step ⟨.object id, next⟩ >>= f).Comes (machine n) c s r s') :
    (∃ events item s₁, Draws n c id next s ended events (.ok item) s₁ ∧
      (f item).Comes (machine n) c s₁ r s') ∨
    ∃ events e, Draws n c id next s ended events (.error e) s' ∧ r = .error e := by
  cases ended with
  | true => exact .inl ⟨_, none, s, .nothing, h⟩
  | false =>
    obtain ⟨_ | v, s₁, hitem, h⟩ | ⟨e, he, rfl⟩ := comes_bind.mp h
    · exact .inl ⟨_, none, s₁, .done hitem, h⟩
    · exact .inl ⟨_, some v, s₁, .item hitem, h⟩
    · exact .inr ⟨_, e, .broken he, rfl⟩

theorem Distributes.of_comes {scope : ScopeId} {mode : BindingMode} {ended : Bool}
    {elements : List Pattern} {r : Except Abrupt Unit}
    (h : (bindElements scope mode ⟨.object id, next⟩ ended elements).Comes (machine n) c s r s') :
    ∃ events, Distributes n c id next scope mode ended elements s events r s' := by
  induction elements generalizing ended s with
  | nil =>
    cases ended with
    | true =>
      obtain ⟨rfl, rfl⟩ := comes_pure.mp h
      exact ⟨_, .exhausted⟩
    | false => exact ⟨_, .enough (.of_comes h)⟩
  | cons p rest ih =>
    have hrest (target : Pattern)
        (h : (bindElements scope mode ⟨.object id, next⟩ ended (.rest target :: rest)).Comes
          (machine n) c s r s') :
        ∃ events, Distributes n c id next scope mode ended (.rest target :: rest) s events r s' := by
      have hbind {events : List IteratorEvent} {items : Array Value} {s₁ : State}
          (hd : Drains n c id next ended #[] s events (.ok items) s₁)
          (hb : (do request (.bind scope target (.object (← newArray items)) mode)).Comes
            (machine n) c s₁ r s') :
          ∃ events, Distributes n c id next scope mode ended (.rest target :: rest) s events r s' :=
        ⟨_, .rest hd hb⟩
      cases ended with
      | true => exact hbind .nothing h
      | false =>
        obtain ⟨items, s₁, hitems, hb⟩ | ⟨e, he, rfl⟩ := comes_bind.mp h
        · obtain ⟨events, hd⟩ := Drains.of_comes hitems
          exact hbind hd hb
        · obtain ⟨events, hd⟩ := Drains.of_comes he
          exact ⟨events, .restBroken hd⟩
    unfold bindElements at h
    cases p with
    | rest target => exact hrest target h
    | hole =>
      obtain ⟨events, item, s₁, hd, h⟩ | ⟨events, e, hd, rfl⟩ := Draws.of_bind h
      · obtain ⟨events', h⟩ := ih h
        exact ⟨_, .hole hd h⟩
      · exact ⟨events, .broken hd⟩
    | _ =>
      obtain ⟨events, item, s₁, hd, h⟩ | ⟨events, e, hd, rfl⟩ := Draws.of_bind h
      · obtain ⟨e | _, s₂, hb, h⟩ := comes_attempt_bind.mp h
        · cases item with
          | some v =>
            obtain ⟨rfl, events, ha⟩ := Abandons.of_comes h
            cases hd with
            | item hv => exact ⟨_, .failed hv hb ha⟩
          | none =>
            obtain ⟨rfl, rfl⟩ := comes_raise.mp h
            exact ⟨_, .late hd hb⟩
        · obtain ⟨events', h⟩ := ih h
          exact ⟨_, .element hd hb h⟩
      · exact ⟨events, .broken hd⟩

end Users

/-! The events of each user are in the order of the protocol. -/

section Orders
variable {n : Nat} {c : Context} {id : ObjectId} {next : Value} {s s' : State}
  {events : List IteratorEvent}

open IteratorEvent

theorem Abandons.protocol {e : Abrupt} (h : Abandons c id e s events s') :
    Protocol events (some e) := by
  cases h with
  | halted he => exact .halted he
  | failed he => exact .failed he _

theorem Consumes.protocol {α β : Type} {use : β → Value → Exec (β ⊕ α)} {finish : β → α} {b : β}
    {r : Except Abrupt α} (h : Consumes n c id next use finish b s events r s') :
    Protocol events (error? r) := by
  induction h with
  | item _ _ _ ih => exact ih.item _
  | done => exact .done
  | broken => exact .broken _
  | @enough _ a _ _ _ _ _ _ r =>
    have herror : error? (r.map fun _ => a) = error? r := by cases r <;> rfl
    exact .item _ (herror ▸ .enough r)
  | failed _ _ ha => exact ha.protocol.item _

def Remains (ended : Bool) (events : List IteratorEvent) (error : Option Abrupt) : Prop :=
  if ended then events = (error.map .failed).toList else Protocol events error

theorem remains_ended {error : Option Abrupt} (h : Remains true events error) :
    Protocol (.done :: events) error := by
  cases error with
  | none =>
    obtain rfl : events = [] := h
    exact .done
  | some e =>
    obtain rfl : events = [.failed e] := h
    exact .late e

theorem Draws.remains {ended : Bool} {item : Option Value} {events' : List IteratorEvent}
    {error : Option Abrupt} (h : Draws n c id next s ended events (.ok item) s')
    (h' : Remains item.isNone events' error) : Remains ended (events ++ events') error := by
  cases h with
  | nothing => exact h'
  | item => exact Protocol.item _ h'
  | done => exact remains_ended h'

theorem Drains.remains {ended : Bool} {out items : Array Value} {events' : List IteratorEvent}
    {error : Option Abrupt} (h : Drains n c id next ended out s events (.ok items) s')
    (h' : Remains true events' error) : Remains ended (events ++ events') error := by
  generalize hr : Except.ok (ε := Abrupt) items = r at h
  induction h with
  | nothing => exact h'
  | item _ _ ih => exact Protocol.item _ (ih hr)
  | done => exact remains_ended h'
  | broken => cases hr

theorem Drains.remains_broken {ended : Bool} {out : Array Value} {e : Abrupt}
    (h : Drains n c id next ended out s events (.error e) s') : Remains ended events (some e) := by
  generalize hr : Except.error e = r at h
  induction h with
  | nothing => cases hr
  | item _ _ ih => exact Protocol.item _ (ih hr)
  | done => cases hr
  | broken =>
    cases hr
    exact Protocol.broken e

theorem Distributes.remains {scope : ScopeId} {mode : BindingMode} {ended : Bool}
    {elements : List Pattern} {r : Except Abrupt Unit}
    (h : Distributes n c id next scope mode ended elements s events r s') :
    Remains ended events (error? r) := by
  induction h with
  | exhausted => rfl
  | enough => exact Protocol.enough _
  | broken hd =>
    cases hd
    exact Protocol.broken _
  | hole hd _ ih => exact hd.remains ih
  | element hd _ _ ih => exact hd.remains ih
  | late hd => exact hd.remains rfl
  | failed _ _ ha => exact Protocol.item _ ha.protocol
  | restBroken hd => exact hd.remains_broken
  | rest hd => exact hd.remains rfl

end Orders

section Results
variable {n : Nat} {c : Context} {s s' : State}

/-- Either no iterator is obtained, or what is done with it is done in the order of the protocol. -/
def Orderly {α : Type} (iterator : Exec IteratorRecord) (n : Nat) (c : Context) (s : State)
    (r : Except Abrupt α) (s' : State)
    (Uses : ObjectId → Value → State → List IteratorEvent → Prop) : Prop :=
  (∃ e, iterator.Comes (machine n) c s (.error e) s' ∧ r = .error e) ∨
  ∃ id next s₁ events, iterator.Comes (machine n) c s (.ok ⟨.object id, next⟩) s₁ ∧
    Uses id next s₁ events ∧ IteratorEvent.Protocol events (error? r)

theorem Orderly.of_bind {α : Type} {iterator : Exec IteratorRecord} {use : IteratorRecord → Exec α}
    {r : Except Abrupt α} {Uses : ObjectId → Value → State → List IteratorEvent → Prop}
    (h : (iterator >>= use).Comes (machine n) c s r s')
    (hiterator : Only (machine n) iterator fun r => ∃ id next, r = ⟨.object id, next⟩)
    (huse : ∀ id next s₁, (use ⟨.object id, next⟩).Comes (machine n) c s₁ r s' →
      ∃ events, Uses id next s₁ events ∧ IteratorEvent.Protocol events (error? r)) :
    Orderly iterator n c s r s' Uses := by
  obtain ⟨record, s₁, hrecord, h⟩ | ⟨e, he, rfl⟩ := comes_bind.mp h
  · obtain ⟨id, next, rfl⟩ := hiterator _ _ _ _ hrecord
    obtain ⟨events, h⟩ := huse id next s₁ h
    exact .inr ⟨id, next, s₁, events, hrecord, h⟩
  · exact .inl ⟨e, he, rfl⟩

section ForOf
variable {scope : ScopeId} {kind : Option VarKind} {head : Pattern} {subject : Expr}
  {body : Statement} {labels : List String}

/-- The iterator of a loop over the items of a value. -/
def loopIterator (scope : ScopeId) (kind : Option VarKind) (head : Pattern) (subject : Expr) :
    Exec IteratorRecord := do
  getIterator (← evaluate (← subjectScope scope kind head) subject)

/-- What a loop over the items of a value does with one. -/
def useInBody (scope : ScopeId) (kind : Option VarKind) (head : Pattern) (body : Statement)
    (labels : List String) (last : Option Value) (item : Value) : Exec (Option Value ⊕ Completion) := do
  runBody (← bindHead scope kind head item) body labels last

theorem evaluateForOf_eq : evaluateForOf scope kind head subject body false labels =
    loopIterator scope kind head subject >>= fun r =>
      loop none (turn r (useInBody scope kind head body labels) loopDone) := by
  simp only [evaluateForOf, itemSource, loopIterator, bind_assoc, Bool.not_false, ↓reduceIte, pure_bind]
  refine bind_congr fun _ => bind_congr fun v => bind_congr fun r => congrArg _ (funext fun last => ?_)
  refine bind_congr fun item => ?_
  cases item with
  | none => rfl
  | some item => exact bind_congr fun r => by obtain _ | _ | _ := r <;> rfl

end ForOf

theorem forEachItem_eq {v : Value} {f : Value → Exec Unit} : forEachItem v f =
    getIterator v >>= fun r =>
      loop () (turn r (fun _ item => f item >>= fun _ => pure (.inl ())) fun _ => ()) := by
  refine bind_congr fun r => congrArg _ (funext fun _ => bind_congr fun item => ?_)
  cases item with
  | none => rfl
  | some item =>
    simp only [attempt_bind_pure, bind_assoc, pure_bind]
    exact bind_congr fun r => by cases r <;> rfl

/-- The three users of iterators keep to the protocol, whatever the iterator does and whatever else
happens while they wait. It says when an iterator is closed, once and as the last thing, and which error
comes first. -/
theorem iterator_protocol :
    (∀ scope kind head subject body labels r,
      (evaluateForOf scope kind head subject body false labels).Comes (machine n) c s r s' →
      Orderly (loopIterator scope kind head subject) n c s r s' fun id next s₁ events =>
        Consumes n c id next (useInBody scope kind head body labels) loopDone none s₁ events r s') ∧
    (∀ scope elements span v mode r,
      (bindPattern scope (.array elements span) v mode).Comes (machine n) c s r s' →
      Orderly (getIterator v) n c s r s' fun id next s₁ events =>
        Distributes n c id next scope mode false elements s₁ events r s') ∧
    (∀ v f r, (forEachItem v f).Comes (machine n) c s r s' →
      Orderly (getIterator v) n c s r s' fun id next s₁ events => Consumes n c id next
        (fun _ item => f item >>= fun _ => pure (.inl ())) (fun _ => ()) () s₁ events r s') ∧
    ∀ events error, IteratorEvent.Protocol events error →
      events.countP IteratorEvent.isClosed ≤ 1 ∧
      ((∃ result, .closed result ∈ events) ↔
        .done ∉ events ∧ (.enough ∈ events ∨ ∃ e, .failed e ∈ events ∧ e.isCatchable = true)) ∧
      (∀ e, .broken e ∈ events → error = some e ∧ ∀ result, .closed result ∉ events) ∧
      ∀ e, .failed e ∈ events → error = some e := by
  refine ⟨fun scope kind head subject body labels r h => ?_, fun scope elements span v mode r h => ?_,
    fun v f r h => ?_, fun events error h => ?_⟩
  · rw [evaluateForOf_eq] at h
    refine .of_bind h (.bind fun _ => .bind fun _ => getIterator_only) fun id next s₁ h => ?_
    obtain ⟨events, h⟩ := Consumes.of_loop h
    exact ⟨events, h, h.protocol⟩
  · refine .of_bind h getIterator_only fun id next s₁ h => ?_
    obtain ⟨events, h⟩ := Distributes.of_comes h
    exact ⟨events, h, h.remains⟩
  · rw [forEachItem_eq] at h
    refine .of_bind h getIterator_only fun id next s₁ h => ?_
    obtain ⟨events, h⟩ := Consumes.of_loop h
    exact ⟨events, h, h.protocol⟩
  · exact ⟨h.count_closed_le, h.closed_iff, fun _ => h.error_of_broken, fun _ => h.error_of_failed⟩

/-- An iterator that never ends: `next` and `return` make an object each. -/
def endless : State := { (default : State) with
  heap := #[
    { prototype := none
      properties := { named := #[(.symbol .iterator, .plain (.object ⟨1⟩)),
        (.name "next", .plain (.object ⟨2⟩)), (.name "return", .plain (.object ⟨2⟩))] } },
    { prototype := none, kind := .function (.native "" (.iterator .self)) },
    { prototype := none, kind := .function (.native "" (.object .construct)) }] }

/-- A pattern with one hole takes one item. -/
theorem iterator_protocol_endless : ∃ s',
    (bindPattern ⟨0⟩ (.array [.hole] nowhere) (.object ⟨0⟩) .first).Comes (machine 4) default endless
      (.ok ()) s' ∧
    Orderly (getIterator (.object ⟨0⟩)) 4 default endless (.ok ()) s' fun id next s₁ events =>
      Distributes 4 default id next ⟨0⟩ .first false [.hole] s₁ events (.ok ()) s' := by
  obtain ⟨s', h⟩ : ∃ s', (bindPattern ⟨0⟩ (.array [.hole] nowhere) (.object ⟨0⟩) .first).Comes
      (machine 4) default endless (.ok ()) s' := ⟨_, Step.Comes.value⟩
  exact ⟨s', h, iterator_protocol.2.1 _ _ _ _ _ _ h⟩

end Results
end EcmaScript
