import EcmaScript.Parser.Basic
import EcmaScript.Proofs.Suspension

/-! What readers of syntax find: which suspensions are in what they have read. There is one rule for
each way to put readers together. -/
namespace EcmaScript

theorem Except.bind_eq_ok {ε α β : Type} {x : Except ε α} {k : α → Except ε β} {b : β} :
    (x >>= k) = .ok b ↔ ∃ a, x = .ok a ∧ k a = .ok b := by
  cases x <;> simp [Bind.bind, Except.bind]

def Mode.place (m : Mode) : Place := if m.inFunction then .inside m.inAsync m.inGenerator else .outside

def Mode.Sound (m : Mode) : Prop := m.inGenerator = true → m.inFunction = true

/-- All suspensions that were read are where they may be. Since some moment the tokens tell whether one
of them was outside all functions. -/
structure TokenStream.Records (s : TokenStream) (before : Bool) (sites : List Site) : Prop where
  lawful : ∀ x ∈ sites, x.isLawful = true
  awaits : s.awaits = true ↔ before = true ∨ ∃ x ∈ sites, x.place = .outside

namespace Parse
variable {α β : Type} {m : Mode} {base : List Site}

def Finds (m : Mode) (base : List Site) (x : Parse α) (f : α → List Site) : Prop :=
  ∀ before s a s', s.Records before base → x m s = .ok (a, s') → s'.Records before (f a)

def Still (x : Parse α) : Prop := ∀ m base, Finds m base x fun _ => base

theorem bind_eq_ok {x : Parse α} {k : α → Parse β} {s s' : TokenStream} {b : β} :
    (x >>= k) m s = .ok (b, s') ↔ ∃ a s₁, x m s = .ok (a, s₁) ∧ k a m s₁ = .ok (b, s') := by
  show ((x m s) >>= fun r => k r.1 m r.2) = _ ↔ _
  simp only [Except.bind_eq_ok, Prod.exists]

namespace Finds
variable {x : Parse α} {f : α → List Site} {g : β → List Site}

theorem frame (h : Finds m [] x f) : Finds m base x fun a => base ++ f a := by
  intro before s a s' hs hx
  obtain ⟨hlawful, hawaits⟩ := h s.awaits s a s' ⟨by simp, by simp⟩ hx
  refine ⟨fun y hy => (List.mem_append.mp hy).elim (hs.lawful y) (hlawful y), ?_⟩
  rw [hawaits, hs.awaits]
  simp only [List.mem_append]
  grind

theorem congr {sites : List Site} (hb : ∀ y, y ∈ sites ↔ y ∈ base) (h : Finds m sites x f) :
    Finds m base x f := by
  intro before s a s' hs hx
  refine h before s a s' ⟨fun y hy => hs.lawful y ((hb y).mp hy), hs.awaits.trans ?_⟩ hx
  simp only [hb]

theorem bind {k : α → Parse β} (hx : Finds m base x f) (hk : ∀ a, Finds m (f a) (k a) g) :
    Finds m base (x >>= k) g := by
  intro before s b s' hs h
  obtain ⟨a, s₁, hx', hk'⟩ := (bind_eq_ok).mp h
  exact hk a _ _ _ _ (hx _ _ _ _ hs hx') hk'

theorem next {k : α → Parse β} (hx : Finds m [] x f) (hk : ∀ a, Finds m (base ++ f a) (k a) g) :
    Finds m base (x >>= k) g := hx.frame.bind hk

theorem skip {k : α → Parse β} (hx : Still x) (hk : ∀ a, Finds m base (k a) g) :
    Finds m base (x >>= k) g := (hx m base).bind hk

theorem pure {a : α} (h : ∀ y, y ∈ f a ↔ y ∈ base) : Finds m base (Pure.pure a) f := by
  refine .congr h fun before s b s' hs hx => ?_
  cases hx
  exact hs

theorem throw {e : ReadError} : Finds m base (MonadExcept.throw e : Parse α) f := nofun

theorem fail {span : Span} {what : SyntaxFault} : Finds m base (Parse.fail span what : Parse α) f :=
  throw

theorem unsupported {construct : String} : Finds m base (Parse.unsupported construct : Parse α) f :=
  throw

theorem stuck : Finds m base (Parse.stuck : Parse α) f := throw

theorem unexpected : Finds m base (Parse.unexpected : Parse α) f := nofun

theorem fail_bind {γ : Type} {span : Span} {what : SyntaxFault} {k : γ → Parse α} :
    Finds m base (Parse.fail span what >>= k) f := nofun

theorem unexpected_bind {γ : Type} {k : γ → Parse α} : Finds m base (Parse.unexpected >>= k) f := nofun

theorem ite {b : Prop} [Decidable b] {y : Parse α} (hx : b → Finds m base x f)
    (hy : ¬ b → Finds m base y f) : Finds m base (if b then x else y) f := by
  split
  · exact hx ‹_›
  · exact hy ‹_›

theorem read_bind {k : Mode → Parse β} (h : Finds m base (k m) g) : Finds m base (read >>= k) g := h

theorem get_bind {k : TokenStream → Parse β} (h : ∀ s, Finds m base (k s) g) :
    Finds m base (get >>= k) g := fun before s => h s before s

theorem ofExcept_bind {r : Except ReadError α} {k : α → Parse β} (h : ∀ a, r = .ok a → Finds m base (k a) g) :
    Finds m base (ofExcept r >>= k) g := by
  cases r with
  | ok a => exact h a rfl
  | error e => exact nofun

theorem awaitAllowed_bind {k : Bool → Parse β} (h : Finds m base (k m.place.mayWait) g) :
    Finds m base (Parse.awaitAllowed >>= k) g := by
  have hplace : m.place.mayWait = (m.inAsync || !m.inFunction) := by
    cases hf : m.inFunction <;> simp [Mode.place, Place.mayWait, hf]
  rw [hplace] at h
  exact h

theorem withIn (hm : m.Sound) (hx : ∀ m' : Mode, m'.place = m.place → m'.Sound → Finds m' base x f) :
    Finds m base (Parse.withIn x) f := hx { m with noIn := false } rfl hm

theorem withoutIn (hm : m.Sound) (hx : ∀ m' : Mode, m'.place = m.place → m'.Sound → Finds m' base x f) :
    Finds m base (Parse.withoutIn x) f := hx { m with noIn := true } rfl hm

theorem inFunction {isAsync isGenerator : Bool}
    (hx : ∀ m' : Mode, m'.place = .inside isAsync isGenerator → m'.Sound → Finds m' base x f) :
    Finds m base (Parse.inFunction isAsync isGenerator x) f :=
  hx { m with inFunction := true, inAsync := isAsync, inGenerator := isGenerator } rfl fun _ => rfl

theorem loop {init : α} {step : α → Parse (α ⊕ β)} (hi : ∀ y, y ∈ f init ↔ y ∈ base)
    (hs : ∀ a, Finds m (f a) (step a) fun r => r.elim f g) : Finds m base (Parse.loop init step) g := by
  have hiterate (n : Nat) (a : α) : Finds m (f a) (Parse.iterate step n a) g := by
    induction n generalizing a with
    | zero => exact stuck
    | succ n ih =>
      refine get_bind fun s => (hs a).bind fun r => ?_
      cases r with
      | inl a => exact get_bind fun s' => ite (fun _ => stuck) fun _ => ih a
      | inr b => exact .pure fun _ => Iff.rfl
  exact get_bind fun s => ((pure hi).bind fun a => hiterate (s.tokens.size + 1) a : Finds m base
    (Pure.pure init >>= Parse.iterate step (s.tokens.size + 1)) g)

end Finds

/-! Readers that come to no suspensions. -/

namespace Still
variable {x : Parse α}

theorem pure {a : α} : Still (Pure.pure a : Parse α) := fun _ _ => .pure fun _ => Iff.rfl

theorem bind {k : α → Parse β} (hx : Still x) (hk : ∀ a, Still (k a)) : Still (x >>= k) :=
  fun m base => (hx m base).bind fun a => hk a m base

theorem ite {b : Prop} [Decidable b] {y : Parse α} (hx : Still x) (hy : Still y) :
    Still (if b then x else y) := fun m base => .ite (fun _ => hx m base) fun _ => hy m base

theorem read_bind {k : Mode → Parse β} (h : ∀ m, Still (k m)) : Still (read >>= k) :=
  fun m base => .read_bind (h m m base)

theorem get_bind {k : TokenStream → Parse β} (h : ∀ s, Still (k s)) : Still (get >>= k) :=
  fun m base => .get_bind fun s => h s m base

theorem fail {span : Span} {what : SyntaxFault} : Still (Parse.fail span what : Parse α) :=
  fun _ _ => .fail

theorem unexpected : Still (Parse.unexpected : Parse α) := fun _ _ => .unexpected

theorem loop {init : α} {step : α → Parse (α ⊕ β)} (h : ∀ a, Still (step a)) :
    Still (Parse.loop init step) := fun m base => .loop (f := fun _ => base) (fun _ => Iff.rfl) fun a => by
  have heq : (fun r : α ⊕ β => r.elim (fun _ => base) fun _ => base) = fun _ => base := by
    funext r
    cases r <;> rfl
  rw [heq]
  exact h a m base

end Still

theorem lexemeAt_still {n : Nat} : Still (lexemeAt n) := .get_bind fun _ => .pure

theorem lexeme_still : Still lexeme := .get_bind fun _ => .pure

theorem peek_still : Still peek := (lexeme_still).bind fun _ => .pure

theorem peekAt_still {n : Nat} : Still (peekAt n) := (lexemeAt_still).bind fun _ => .pure

theorem span_still : Still span := (lexeme_still).bind fun _ => .pure

theorem lastSpan_still : Still lastSpan := .get_bind fun _ => .pure

theorem modify_still {h : TokenStream → TokenStream} (hh : ∀ s, (h s).awaits = s.awaits) :
    Still (modify h) := by
  intro m base before s a s' hs hx
  cases hx
  exact ⟨hs.lawful, (hh s).symm ▸ hs.awaits⟩

theorem advance_still : Still advance :=
  (lexeme_still).bind fun _ => .bind (modify_still fun _ => rfl) fun _ => .pure

theorem finish_still {start : Span} : Still (finish start) := .get_bind fun _ => .pure

theorem at_still {mark : Punctuator} : Still (at? mark) := (peek_still).bind fun _ => .pure

theorem atWord_still {word : String} : Still (atWord word) := (peek_still).bind fun _ => .pure

theorem eat_still {mark : Punctuator} : Still (eat mark) :=
  (at_still).bind fun _ => .ite ((advance_still).bind fun _ => .pure) .pure

theorem eatWord_still {word : String} : Still (eatWord word) :=
  (atWord_still).bind fun _ => .ite ((advance_still).bind fun _ => .pure) .pure

theorem expect_still {mark : Punctuator} : Still (expect mark) :=
  (at_still).bind fun _ => .ite ((advance_still).bind fun _ => .pure) .unexpected

theorem expectWord_still {word : String} : Still (expectWord word) :=
  (atWord_still).bind fun _ => .ite ((advance_still).bind fun _ => .pure) .unexpected

theorem semicolon_still : Still semicolon := by
  refine (eat_still).bind fun _ => .ite .pure ((lexeme_still).bind fun l => .ite .pure ?_)
  split
  · exact .pure
  · exact .pure
  · exact .unexpected

theorem bindingName_still : Still bindingName := by
  refine (lexeme_still).bind fun l => ?_
  split
  · refine .read_bind fun _ => .ite (.bind .unexpected fun _ => ?_) ?_
    all_goals exact (advance_still).bind fun _ => .pure
  · exact .unexpected

theorem noteAwait_finds {what : Suspension} (hw : what ≠ .yield) (h : m.place.mayWait = true) :
    Finds m base noteAwait fun _ => ⟨what, m.place⟩ :: base := by
  intro before s a s' hs hx
  have hlawful : (⟨what, m.place⟩ : Site).isLawful = true := by
    cases what with
    | yield => exact absurd rfl hw
    | _ => exact h
  refine ⟨List.forall_mem_cons.mpr ⟨hlawful, hs.lawful⟩, ?_⟩
  cases hf : m.inFunction with
  | true =>
    have hs' : s' = s := by
      simp only [noteAwait, bind_eq_ok] at hx
      obtain ⟨_, s₁, hread, hx⟩ := hx
      cases hread
      simp only [hf] at hx
      cases hx
      rfl
    rw [hs', hs.awaits]
    simp [Mode.place, hf]
  | false =>
    have hs' : s'.awaits = true := by
      simp only [noteAwait, bind_eq_ok] at hx
      obtain ⟨_, s₁, hread, hx⟩ := hx
      cases hread
      simp only [hf] at hx
      cases hx
      rfl
    simp [hs', Mode.place, hf]

end Parse

/-- What a construct consists of. -/
def Goal.sites (p : Place) : (goal : Goal) → goal.Tree → List Site
  | .statement, st => Statement.sites p st
  | .binding, t => Pattern.sites p t
  | .assignment, e | .binary _, e | .unary, e | .leftHandSide, e => Expr.sites p e

def Grammar.Sound (g : Grammar) : Prop :=
  ∀ goal m, m.Sound → Parse.Finds m [] (g.run goal) (goal.sites m.place)

namespace Grammar.Sound
variable {g : Grammar} {m : Mode}

theorem statement (hg : g.Sound) (hm : m.Sound) : Parse.Finds m [] g.statement (Statement.sites m.place) :=
  hg .statement m hm

theorem assignment (hg : g.Sound) (hm : m.Sound) : Parse.Finds m [] g.assignment (Expr.sites m.place) :=
  hg .assignment m hm

theorem binary {floor : Nat} (hg : g.Sound) (hm : m.Sound) :
    Parse.Finds m [] (g.binary floor) (Expr.sites m.place) := hg (.binary floor) m hm

theorem unary (hg : g.Sound) (hm : m.Sound) : Parse.Finds m [] g.unary (Expr.sites m.place) :=
  hg .unary m hm

theorem leftHandSide (hg : g.Sound) (hm : m.Sound) :
    Parse.Finds m [] g.leftHandSide (Expr.sites m.place) := hg .leftHandSide m hm

theorem binding (hg : g.Sound) (hm : m.Sound) : Parse.Finds m [] g.binding (Pattern.sites m.place) :=
  hg .binding m hm

end Grammar.Sound
end EcmaScript
