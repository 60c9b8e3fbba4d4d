import EcmaScript.Proofs.Elements

/-! Methods that go through an array: how long what `map` makes is, and where `flat` does not end. -/
namespace EcmaScript.Exec
variable {α β : Type} {m : Machine} {c : Context} {s s' : State} {this : Value} {args : Array Value}

theorem Only.loop {body : β → Exec (β ⊕ α)} {P : β → Prop} {Q : α → Prop} {b : β} (hb : P b)
    (turn : ∀ b, P b → Only m (body b) (Sum.elim P Q)) : Only m (Exec.loop b body) Q := by
  intro c s a s' h
  change (Step.loop (fun b s => body b m c s) m.fuel b s).Comes (.ok a) s' at h
  generalize m.fuel = fuel at h
  induction fuel generalizing b s with
  | zero => cases h
  | succ fuel ih =>
    rw [Step.loop_succ, Step.comes_bind] at h
    rcases h with ⟨b' | a', s₁, hturn, h⟩ | ⟨e, -, heq⟩
    · exact ih (turn b hb c s _ s₁ hturn) s₁ h
    · obtain ⟨heq, -⟩ := Step.comes_value.mp h
      cases heq
      exact turn b hb c s _ s₁ hturn
    · cases heq

theorem visitElements_only {start : α} {visit : α → Value → Nat → Value → Exec (α × Bool)}
    {P : α → Prop} (hstart : P start)
    (hvisit : ∀ a v i r, P a → Only m (visit a v i r) fun x => P x.1) :
    Only m (visitElements this args start visit) P := by
  refine Only.bind fun r => Only.bind fun f => Only.loop (P := fun b => P b.2) hstart fun b hb => ?_
  obtain ⟨i, a⟩ := b
  refine Only.ite (fun _ => .pure hb) fun _ => Only.bind fun item => ?_
  cases item with
  | none => exact .pure hb
  | some v =>
    refine Only.bind fun result => Only.bind_of (hvisit a v i result hb) fun x hx => ?_
    obtain ⟨a', stop⟩ := x
    cases stop with
    | true => exact .pure hx
    | false => exact .pure hx

/-- What `map` makes is as long as the receiver was when it was asked first, whatever the receiver says of
its length when the elements are visited. -/
theorem comes_map {v : Value} (h : (arrayFunction .map this args).Comes m c s (.ok v) s') :
    ∃ id length s₁ made, (receiver this).Comes m c s (.ok (id, length)) s₁ ∧ v = .object made ∧
      (s'.object made).ownValue? Object.lengthKey = some (.ofNat length) := by
  obtain ⟨⟨id, length⟩, s₁, hreceiver, h⟩ := comes_bind_ok.mp h
  obtain ⟨out, s₂, hout, h⟩ := comes_bind_ok.mp h
  have hsize : out.size = length := by
    refine visitElements_only (P := fun out => out.size = length) Array.size_replicate
      (fun out _ i r hsize => ?_) c s₁ out s₂ hout
    have hkept : (out.setIfInBounds i (some r)).size = length := by rw [Array.size_setIfInBounds, hsize]
    exact Only.ite (fun _ => Only.bind fun _ => .pure hkept) fun _ => .pure hkept
  obtain ⟨made, s₃, hmade, h⟩ := comes_bind_ok.mp h
  obtain ⟨hv, rfl⟩ := comes_pure.mp h
  cases hv
  obtain ⟨hid, rfl⟩ := (comes_value (show newSparseArray out m c s₂ = .value ⟨s₂.heap.size⟩
    { s₂ with heap := s₂.heap.push (arrayObject s₂.intrinsics.arrayPrototype (sparseElements out).1
      out.size) } from rfl)).mp hmade
  cases hid
  refine ⟨id, length, s₁, _, hreceiver, rfl, ?_⟩
  rw [State.object_push, if_pos rfl, ← hsize, Object.ownValue?, Object.own?, arrayObject,
    PropertyTable.get?_put, if_pos rfl]
  rfl

theorem flattenInto_self {id : ObjectId} (h : s.Lists id [some (.object id)]) (fuel : Nat)
    (out : Array Value) : flattenInto fuel id Number.infinity out m c s = .exhausted := by
  induction fuel generalizing out with
  | zero => rfl
  | succ fuel ih =>
    rw [flattenInto, bind_value (lengthOf_value h)]
    change Step.loop _ m.fuel (0, out) s = _
    cases hfuel : m.fuel with
    | zero => rfl
    | succ k =>
      rw [Step.loop_succ]
      have hisArray : look (·.isArray (.object id)) m c s = .value true s :=
        congrArg (Step.value · s) (by simp [State.isArray, State.isArrayFrom, h.stores.kind])
      have hdeep : (decide ((0.0 : Float) < Number.infinity) && true) = true := by decide +kernel
      have hstays : Number.infinity - 1.0 = Number.infinity := by rfl
      have hfirst : ([some (Value.object id)][0]?).join = some (.object id) := rfl
      dsimp only
      rw [if_neg (by simp), bind_value (elementAt_value h (by decide)), hfirst]
      dsimp only
      rw [bind_value hisArray, hdeep, hstays]
      change (Step.bind (flattenInto fuel id Number.infinity out m c s) _).bind _ = _
      rw [ih]
      rfl

theorem flat_self {id : ObjectId} (h : s.Lists id [some (.object id)]) :
    arrayFunction .flat (.object id) #[.number Number.infinity] m c s = .exhausted := by
  have hdepth : toIntegerOrInfinity (.number Number.infinity) m c s = .value Number.infinity s := by rfl
  change (toObject (.object id) >>= _) m c s = _
  rw [bind_value (show toObject (.object id) m c s = .value id s from rfl)]
  rw [show argument #[Value.number Number.infinity] 0 = .number Number.infinity from rfl]
  dsimp only
  rw [bind_value hdepth, bind_value (show Exec.fuel m c s = .value m.fuel s from rfl)]
  change Step.bind (flattenInto m.fuel id Number.infinity #[] m c s) _ = _
  rw [flattenInto_self h]
  rfl

example : arrayFunction .flat (.object ⟨0⟩) #[.number Number.infinity] (machine ampleFuel) default
    (.withItems #[some (.object ⟨0⟩)] true ⟨1⟩) = .exhausted :=
  flat_self (State.lists_withItems _ (by decide))

end EcmaScript.Exec
