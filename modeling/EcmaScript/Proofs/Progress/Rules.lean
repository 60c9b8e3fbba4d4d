import EcmaScript.Parser.Function
import EcmaScript.Proofs.Extent.Rules
import EcmaScript.Proofs.Progress.Token

/-! Readers of syntax get on: none of them repeats a step that passes no token, or opens construct after
construct in one place. There is one rule for each way to put readers together. -/
namespace EcmaScript
open Parse

mutual

def Token.weight : Token → Nat
  | .template _ substitutions => 1 + weightOfSubstitutions substitutions
  | _ => 1

def Lexeme.weight : Lexeme → Nat
  | .mk token _ _ => token.weight

def weightOfLexemes : List Lexeme → Nat
  | [] => 0
  | l :: rest => l.weight + weightOfLexemes rest

def weightOfSubstitutions : List (List Lexeme) → Nat
  | [] => 0
  | inner :: rest => 1 + weightOfLexemes inner + weightOfSubstitutions rest

end

theorem Lexeme.weight_eq (l : Lexeme) : l.weight = 1 + weightOfSubstitutions l.token.substitutions := by
  obtain ⟨token, span, afterNewline⟩ := l
  cases token <;> simp [Lexeme.weight, Token.weight, Lexeme.token, Token.substitutions, weightOfSubstitutions]

theorem weightOfLexemes_append (ls ls' : List Lexeme) :
    weightOfLexemes (ls ++ ls') = weightOfLexemes ls + weightOfLexemes ls' := by
  induction ls with
  | nil => simp [weightOfLexemes]
  | cons l ls ih => simp only [List.cons_append, weightOfLexemes, ih, Nat.add_assoc]

theorem weight_le_of_mem {l : Lexeme} {ls : List Lexeme} (h : l ∈ ls) : l.weight ≤ weightOfLexemes ls := by
  obtain ⟨before, after, rfl⟩ := List.append_of_mem h
  rw [weightOfLexemes_append, weightOfLexemes]
  omega

theorem lt_weightOfSubstitutions {inner : List Lexeme} {substitutions : List (List Lexeme)}
    (h : inner ∈ substitutions) : weightOfLexemes inner < weightOfSubstitutions substitutions := by
  induction substitutions with
  | nil => cases h
  | cons first rest ih =>
    rw [weightOfSubstitutions]
    obtain rfl | h := List.mem_cons.mp h
    · omega
    · have := ih h
      omega

theorem Tiles.weight_le {cs : List Char} {i j : Nat} {ls : List Lexeme} (h : Tiles cs i ls j) :
    i + weightOfLexemes ls ≤ j := by
  refine @Tiles.rec cs (fun i ls j _ => i + weightOfLexemes ls ≤ j)
    (fun i substitutions j _ => i + weightOfSubstitutions substitutions ≤ j)
    ?noTokens ?token ?noSubstitutions ?substitution i ls j h
  case noTokens => exact fun i => le_rfl
  case token =>
    intro i start stop j token rest hgap _ _ _ _ _ hinner hrest
    have hle := hgap.1
    rw [weightOfLexemes, Lexeme.weight_eq, Lexeme.token]
    omega
  case noSubstitutions => exact fun hij => hij
  case substitution =>
    intro i start last stop j inner rest hstart _ _ hgap _ _ hinner hrest
    have hle := hgap.1
    rw [weightOfSubstitutions]
    omega

theorem weightOfLexemes_drop_le (ls : List Lexeme) (n : Nat) :
    weightOfLexemes (ls.drop n) ≤ weightOfLexemes ls := by
  conv_rhs => rw [← List.take_append_drop n ls, weightOfLexemes_append]
  exact Nat.le_add_left _ _

namespace TokenStream

/-- There is a next token, and the end of input is behind all of them. -/
structure Closed (s : TokenStream) : Prop where
  pos : s.pos < s.tokens.size
  last : s.tokens.back?.map Lexeme.token = some .endOfInput

/-- A moment, and one at the same token or at a later one. -/
structure To (s s' : TokenStream) : Prop where
  tokens : s'.tokens = s.tokens
  pos : s.pos ≤ s'.pos

/-- Two moments with a token passed between them. -/
structure Past (s s' : TokenStream) : Prop where
  tokens : s'.tokens = s.tokens
  pos : s.pos < s'.pos

def More (s : TokenStream) : Prop := (s.ahead 0).token ≠ .endOfInput

def weight (s : TokenStream) : Nat := weightOfLexemes s.left

/-- From one moment to another a token was passed, or the tokens are those of a substitution now, of a
template that was still to come. -/
inductive Deeper (s s' : TokenStream) : Prop
  | pass (h : s.Past s')
  | enter {l last : Lexeme} {inner : List Lexeme} (hl : l ∈ s.left) (hinner : inner ∈ l.token.substitutions)
      (hleft : s'.left = inner ++ [last]) (hlast : last.token = .endOfInput)

variable {s s₁ s₂ : TokenStream}

theorem To.refl (s : TokenStream) : s.To s := ⟨rfl, le_rfl⟩

theorem To.trans (h : s.To s₁) (h' : s₁.To s₂) : s.To s₂ :=
  ⟨h'.tokens.trans h.tokens, h.pos.trans h'.pos⟩

theorem Past.to (h : s.Past s₁) : s.To s₁ := ⟨h.tokens, h.pos.le⟩

theorem To.past (h : s.To s₁) (h' : s₁.Past s₂) : s.Past s₂ :=
  ⟨h'.tokens.trans h.tokens, h.pos.trans_lt h'.pos⟩

theorem Past.trans_to (h : s.Past s₁) (h' : s₁.To s₂) : s.Past s₂ :=
  ⟨h'.tokens.trans h.tokens, h.pos.trans_le h'.pos⟩

theorem More.of_eq {token : Token} (h : (s.ahead 0).token = token) (htoken : token ≠ .endOfInput) :
    s.More := by
  rwa [More, h]

theorem More.of_isMark {mark : Punctuator} (h : (s.ahead 0).token.isMark mark = true) : s.More := by
  intro htoken
  rw [htoken] at h
  cases h

theorem More.of_isWord {word : String} (h : (s.ahead 0).token.isWord word = true) : s.More := by
  intro htoken
  rw [htoken] at h
  cases h

theorem Closed.ahead_last (hs : s.Closed) {n : Nat} (hn : s.tokens.size ≤ s.pos + n + 1) :
    (s.ahead n).token = .endOfInput := by
  obtain ⟨last, hlast, htoken⟩ := Option.map_eq_some_iff.mp hs.last
  rw [ahead, Nat.min_eq_right (by omega), ← Array.back?_eq_getElem?, hlast, Option.getD_some, htoken]

theorem Closed.advance (hs : s.Closed) : s.advance.Closed := by
  refine ⟨?_, hs.last⟩
  have hpos := hs.pos
  simp only [TokenStream.advance]
  split <;> omega

theorem To.advance (s : TokenStream) : s.To s.advance := by
  refine ⟨rfl, ?_⟩
  simp only [TokenStream.advance]
  split <;> omega

theorem More.past_advance (h : s.More) (hs : s.Closed) : s.Past s.advance := by
  refine ⟨rfl, ?_⟩
  have hpos : s.pos < s.tokens.size - 1 := by
    by_contra hge
    exact h (hs.ahead_last (by omega))
  simp only [TokenStream.advance, if_pos hpos]
  omega

theorem To.left_eq (h : s.To s₁) : s₁.left = s.left.drop (s₁.pos - s.pos) := by
  rw [left, left, h.tokens, List.drop_drop, Nat.add_sub_cancel' h.pos]

theorem To.weight_le (h : s.To s₁) : s₁.weight ≤ s.weight := by
  rw [weight, weight, h.left_eq]
  exact weightOfLexemes_drop_le _ _

theorem Past.weight_lt (h : s.Past s₁) (hs₁ : s₁.left ≠ []) : s₁.weight < s.weight := by
  have hpos := h.pos
  have hlater : s₁.left = s.left.tail.drop (s₁.pos - s.pos - 1) := by
    rw [h.to.left_eq, ← List.drop_one, List.drop_drop]
    congr 1
    omega
  rw [weight, weight, hlater]
  cases hleft : s.left with
  | nil => exact absurd (by rw [hlater, hleft, List.tail_nil, List.drop_nil]) hs₁
  | cons l rest =>
    have hle := weightOfLexemes_drop_le rest (s₁.pos - s.pos - 1)
    rw [weightOfLexemes, l.weight_eq, List.tail_cons]
    omega

theorem Deeper.weight_lt (h : s.Deeper s₁) (hs₁ : s₁.left ≠ []) : s₁.weight < s.weight := by
  cases h with
  | pass h => exact h.weight_lt hs₁
  | enter hl hinner hleft hlast =>
    have hle := weight_le_of_mem hl
    have hlt := lt_weightOfSubstitutions hinner
    rw [Lexeme.weight_eq] at hle
    rw [weight, weight, hleft, weightOfLexemes_append, weightOfLexemes, weightOfLexemes, Lexeme.weight_eq,
      hlast]
    simp only [Token.substitutions, weightOfSubstitutions]
    omega

theorem Deeper.left_ne_nil (h : s.Deeper s₁) (hs₁ : s₁.left ≠ []) : s.left ≠ [] := by
  cases h with
  | pass h =>
    intro hleft
    rw [h.to.left_eq, hleft, List.drop_nil] at hs₁
    exact hs₁ rfl
  | enter hl => exact List.ne_nil_of_mem hl

theorem To.deeper (h : s.To s₁) (h' : s₁.Deeper s₂) : s.Deeper s₂ := by
  cases h' with
  | pass h' => exact .pass (h.past h')
  | enter hl hinner hleft hlast =>
    rw [h.left_eq] at hl
    exact .enter (List.mem_of_mem_drop hl) hinner hleft hlast

theorem Deeper.trans_to (h : s.Deeper s₁) (h' : s₁.To s₂) : Relation.TransGen Deeper s s₂ := by
  obtain hpos | hpos := h'.pos.eq_or_lt
  · cases h with
    | pass h => exact .single (.pass (h.trans_to h'))
    | enter hl hinner hleft hlast =>
      have hleft' : s₂.left = s₁.left := by rw [h'.left_eq, hpos, Nat.sub_self, List.drop_zero]
      exact .single (.enter hl hinner (hleft'.trans hleft) hlast)
  · exact .tail (.single h) (.pass ⟨h'.tokens, hpos⟩)

theorem transGen_weight_lt (h : Relation.TransGen Deeper s s₁) (hs₁ : s₁.left ≠ []) :
    s₁.weight < s.weight := by
  induction h with
  | single h => exact h.weight_lt hs₁
  | tail _ h ih => exact (h.weight_lt hs₁).trans (ih (h.left_ne_nil hs₁))

theorem Closed.left_ne_nil (hs : s.Closed) : s.left ≠ [] := by
  rw [← List.length_pos_iff, length_left]
  have hpos := hs.pos
  omega

theorem Closed.ahead_mem_left (hs : s.Closed) : s.ahead 0 ∈ s.left := by
  obtain ⟨l, rest, hleft⟩ := List.exists_cons_of_ne_nil hs.left_ne_nil
  rw [ahead_zero hleft, hleft]
  exact List.mem_cons_self

end TokenStream

namespace Parse
variable {α β : Type} {s s₁ : TokenStream} {p : α → Prop} {q : β → Prop} {Q : α → TokenStream → Prop}
  {R : β → TokenStream → Prop}

/-- Started at a moment, a reader does not get stuck, and `Q` holds of what it comes to and of the moment it
ends. -/
def Runs (s : TokenStream) (x : Parse α) (Q : α → TokenStream → Prop) : Prop :=
  s.Closed → ∀ m, match x m s with
    | .ok (a, s') => s'.Closed ∧ Q a s'
    | .error e => e ≠ .stuck

def Goes (s : TokenStream) (x : Parse α) (p : α → Prop) : Prop :=
  Runs s x fun a s' => s.To s' ∧ (p a → s.Past s')

def Passes (s : TokenStream) (x : Parse α) : Prop := Goes s x fun _ => True

def Walks (s : TokenStream) (x : Parse α) : Prop := Goes s x fun _ => False

def Tries (s : TokenStream) (x : Parse Bool) : Prop :=
  Runs s x fun b s' => if b then s.Past s' else s' = s

theorem Runs.bind {x : Parse α} {k : α → Parse β} (hx : Runs s x Q)
    (hk : ∀ a s₁, Q a s₁ → Runs s₁ (k a) R) : Runs s (x >>= k) R := by
  intro hs m
  have hx := hx hs m
  show match x m s >>= fun r => k r.1 m r.2 with
    | .ok (b, s') => s'.Closed ∧ R b s'
    | .error e => e ≠ .stuck
  cases hrun : x m s with
  | ok r =>
    rw [hrun] at hx
    exact hk r.1 r.2 hx.2 hx.1 m
  | error e =>
    rw [hrun] at hx
    exact hx

theorem Runs.mono {x : Parse α} {Q' : α → TokenStream → Prop} (hx : Runs s x Q)
    (h : ∀ a s', Q a s' → Q' a s') : Runs s x Q' := by
  intro hs m
  have hx := hx hs m
  cases hrun : x m s with
  | ok r =>
    rw [hrun] at hx
    exact ⟨hx.1, h r.1 r.2 hx.2⟩
  | error e =>
    rw [hrun] at hx
    exact hx

theorem Runs.set_bind {k : PUnit → Parse α} (hs₁ : s₁.Closed) (h : Runs s₁ (k ⟨⟩) Q) :
    Runs s (set s₁ >>= k) Q := fun _ => h hs₁

theorem Runs.modify_bind {f : TokenStream → TokenStream} {k : PUnit → Parse α} (hs : (f s).Closed)
    (h : Runs (f s) (k ⟨⟩) Q) : Runs s (modify f >>= k) Q := fun _ => h hs

theorem Runs.peek_bind {k : Token → Parse α} (h : Runs s (k (s.ahead 0).token) Q) :
    Runs s (peek >>= k) Q := h

theorem Runs.peekAt_bind {n : Nat} {k : Token → Parse α} (h : Runs s (k (s.ahead n).token) Q) :
    Runs s (peekAt n >>= k) Q := h

theorem Runs.unexpected : Runs s (Parse.unexpected : Parse α) Q := fun _ _ => nofun

theorem Passes.bind {x : Parse α} {k : α → Parse β} (hx : Passes s x)
    (hk : ∀ a s₁, s.Past s₁ → Walks s₁ (k a)) : Goes s (x >>= k) q :=
  Runs.bind hx fun a s₁ h => (hk a s₁ (h.2 trivial)).mono fun _ _ h' =>
    ⟨h.1.trans h'.1, fun _ => (h.2 trivial).trans_to h'.1⟩

theorem Goes.bind {x : Parse α} {k : α → Parse β} (hx : Goes s x p)
    (hk : ∀ a s₁, s.To s₁ → (p a → s.Past s₁) → Goes s₁ (k a) q) : Goes s (x >>= k) q :=
  Runs.bind hx fun a s₁ h => (hk a s₁ h.1 h.2).mono fun _ _ h' =>
    ⟨h.1.trans h'.1, fun hb => h.1.past (h'.2 hb)⟩

theorem Walks.bind {x : Parse α} {k : α → Parse β} (hx : Walks s x)
    (hk : ∀ a s₁, s.To s₁ → Goes s₁ (k a) q) : Goes s (x >>= k) q :=
  Goes.bind hx fun a s₁ h _ => hk a s₁ h

namespace Goes
variable {x : Parse α}

theorem walks (hx : Goes s x p) : Walks s x := Runs.mono hx fun _ _ h => ⟨h.1, False.elim⟩

theorem ne_stuck (hx : Goes s x p) (hs : s.Closed) (m : Mode) : x m s ≠ .error .stuck := by
  intro h
  have hx := hx hs m
  rw [h] at hx
  exact hx rfl

theorem pure {a : α} (h : ¬ p a) : Goes s (Pure.pure a) p := fun hs _ => ⟨hs, .refl s, fun ha => absurd ha h⟩

theorem fail {span : Span} {what : SyntaxFault} : Goes s (Parse.fail span what : Parse α) p :=
  fun _ _ => nofun

theorem unsupported {construct : String} : Goes s (Parse.unsupported construct : Parse α) p :=
  fun _ _ => nofun

theorem unexpected : Goes s (Parse.unexpected : Parse α) p := Runs.unexpected

theorem fail_bind {γ : Type} {span : Span} {what : SyntaxFault} {k : γ → Parse α} :
    Goes s (Parse.fail span what >>= k) p := fun _ _ => nofun

theorem unexpected_bind {γ : Type} {k : γ → Parse α} : Goes s (Parse.unexpected >>= k) p := fun _ _ => nofun

theorem pure_bind {a : α} {k : α → Parse β} (h : Goes s (k a) q) : Goes s (Pure.pure a >>= k) q := h

theorem ite {b : Prop} [Decidable b] {y : Parse α} (hx : b → Goes s x p) (hy : ¬ b → Goes s y p) :
    Goes s (if b then x else y) p := by
  split
  · exact hx ‹_›
  · exact hy ‹_›

theorem withReader {h : Mode → Mode} (hx : Goes s x p) : Goes s (MonadWithReader.withReader h x) p :=
  fun hs _ => hx hs _

theorem closed (h : s.Closed → Goes s x p) : Goes s x p := fun hs => h hs hs

theorem ofExcept_bind {r : Except ReadError α} {k : α → Parse β} (hr : r ≠ .error .stuck)
    (h : ∀ a, Goes s (k a) q) : Goes s (ofExcept r >>= k) q := by
  cases r with
  | ok a => exact h a
  | error e =>
    rintro - - rfl
    exact hr rfl

theorem read_bind {k : Mode → Parse α} (h : ∀ m, Goes s (k m) p) : Goes s (read >>= k) p :=
  fun hs m => h m hs m

theorem get_bind {k : TokenStream → Parse α} (h : Goes s (k s) p) : Goes s (get >>= k) p := h

theorem lexeme_bind {k : Lexeme → Parse α} (h : Goes s (k (s.ahead 0)) p) : Goes s (lexeme >>= k) p := h

theorem lexemeAt_bind {n : Nat} {k : Lexeme → Parse α} (h : Goes s (k (s.ahead n)) p) :
    Goes s (lexemeAt n >>= k) p := h

theorem peek_bind {k : Token → Parse α} (h : Goes s (k (s.ahead 0).token) p) : Goes s (peek >>= k) p :=
  Runs.peek_bind h

theorem peekAt_bind {n : Nat} {k : Token → Parse α} (h : Goes s (k (s.ahead n).token) p) :
    Goes s (peekAt n >>= k) p := Runs.peekAt_bind h

theorem span_bind {k : Span → Parse α} (h : Goes s (k (s.ahead 0).span) p) : Goes s (span >>= k) p := h

theorem lastSpan_bind {k : Span → Parse α} (h : Goes s (k s.last) p) : Goes s (lastSpan >>= k) p := h

theorem finish_bind {start : Span} {k : Span → Parse α} (h : Goes s (k (start.through s.last)) p) :
    Goes s (finish start >>= k) p := h

theorem at_bind {mark : Punctuator} {k : Bool → Parse α} (h : ∀ b, (b = true → s.More) → Goes s (k b) p) :
    Goes s (at? mark >>= k) p := h _ .of_isMark

theorem atWord_bind {word : String} {k : Bool → Parse α} (h : ∀ b, (b = true → s.More) → Goes s (k b) p) :
    Goes s (atWord word >>= k) p := h _ .of_isWord

theorem awaitAllowed_bind {k : Bool → Parse α} (h : ∀ b, Goes s (k b) p) : Goes s (awaitAllowed >>= k) p :=
  fun hs m => h _ hs m

end Goes

theorem Passes.goes {x : Parse α} (hx : Passes s x) : Goes s x p :=
  Runs.mono hx fun _ _ h => ⟨h.1, fun _ => h.2 trivial⟩

theorem Walks.pure {a : α} : Walks s (Pure.pure a) := Goes.pure id

theorem advance_walks : Walks s advance := fun hs _ => ⟨hs.advance, .advance s, False.elim⟩

theorem advance_passes (h : s.More) : Passes s advance :=
  fun hs _ => ⟨hs.advance, .advance s, fun _ => h.past_advance hs⟩

namespace Tries
variable {x : Parse Bool} {y z : Parse α}

theorem walks (hx : Tries s x) : Walks s x := by
  refine Runs.mono hx fun b s' h => ?_
  cases b with
  | true => exact ⟨TokenStream.Past.to h, False.elim⟩
  | false => exact ⟨Eq.subst (Eq.symm h) (.refl s), False.elim⟩

theorem ite (hx : Tries s x) (hy : ∀ s₁, s.Past s₁ → Walks s₁ y) (hz : Goes s z p) :
    Goes s (x >>= fun b => if b then y else z) p := by
  refine Runs.bind hx fun b s₁ h => ?_
  cases b with
  | true =>
    have h : s.Past s₁ := h
    exact (hy s₁ h).mono fun _ _ h' => ⟨h.to.trans h'.1, fun _ => h.trans_to h'.1⟩
  | false =>
    obtain rfl : s₁ = s := h
    exact hz

theorem not_ite (hx : Tries s x) (hy : ∀ s₁, s.Past s₁ → Walks s₁ y) (hz : Goes s z p) :
    Goes s (x >>= fun b => if !b then z else y) p := by
  have hsame : (fun b => if !b then z else y) = fun b : Bool => if b then y else z := by
    funext b
    cases b <;> rfl
  rw [hsame]
  exact hx.ite hy hz

end Tries

theorem eat_tries {mark : Punctuator} : Tries s (eat mark) := by
  show Runs s (if (s.ahead 0).token.isMark mark then _ else _) _
  split
  · next h => exact fun hs _ => ⟨hs.advance, (TokenStream.More.of_isMark h).past_advance hs⟩
  · exact fun hs _ => ⟨hs, rfl⟩

theorem eatWord_tries {word : String} : Tries s (eatWord word) := by
  show Runs s (if (s.ahead 0).token.isWord word then _ else _) _
  split
  · next h => exact fun hs _ => ⟨hs.advance, (TokenStream.More.of_isWord h).past_advance hs⟩
  · exact fun hs _ => ⟨hs, rfl⟩

theorem expect_passes {mark : Punctuator} : Passes s (expect mark) :=
  .at_bind fun _ hb => .ite (fun h => (advance_passes (hb h)).bind fun _ _ _ => Walks.pure)
    fun _ => .unexpected

theorem expectWord_passes {word : String} : Passes s (expectWord word) :=
  .atWord_bind fun _ hb => .ite (fun h => (advance_passes (hb h)).bind fun _ _ _ => Walks.pure)
    fun _ => .unexpected

theorem semicolon_walks : Walks s semicolon := by
  refine (eat_tries).ite (fun _ _ => .pure) (.lexeme_bind (.ite (fun _ => Walks.pure) fun _ => ?_))
  split
  · exact Walks.pure
  · exact Walks.pure
  · exact .unexpected

theorem bindingName_passes : Passes s bindingName := by
  refine .lexeme_bind ?_
  split
  · next h =>
    refine .read_bind fun m => .ite (fun _ => .unexpected_bind) fun _ => ?_
    exact (advance_passes (.of_eq h nofun)).bind fun _ _ _ => Walks.pure
  · exact .unexpected

theorem noteAwait_walks : Walks s noteAwait := by
  refine .read_bind fun m => .ite (fun _ => ?_) fun _ => Walks.pure
  exact fun hs _ => ⟨⟨hs.pos, hs.last⟩, ⟨rfl, le_rfl⟩, False.elim⟩

theorem loop_walks {init : α} {step : α → Parse (α ⊕ β)}
    (h : ∀ a s₁, s.To s₁ → Goes s₁ (step a) (·.isLeft)) : Walks s (loop init step) := by
  have hiterate (n : Nat) (a : α) (s₁ : TokenStream) (h₁ : s.To s₁) (hn : s.tokens.size < s₁.pos + n) :
      Walks s₁ (iterate step n a) := by
    induction n generalizing a s₁ with
    | zero =>
      refine .closed fun hs₁ => ?_
      have hpos := hs₁.pos
      rw [h₁.tokens] at hpos
      omega
    | succ n ih =>
      refine .get_bind ((h a s₁ h₁).bind fun r s₂ h₂ hpast => ?_)
      cases r with
      | inl a =>
        have hlt := (hpast rfl).pos
        exact .get_bind (.ite (fun hle => absurd hle (by omega)) fun _ => ih a s₂ (h₁.trans h₂) (by omega))
      | inr b => exact Walks.pure
  exact .get_bind (hiterate _ init s (.refl s) (by omega))

end Parse

/-! Where the parts of a construct may be. -/

/-- A construct starts with constructs of a lower rank, or with a token. -/
def Goal.rank : Goal → Nat
  | .statement => 4
  | .assignment => 3
  | .binary _ => 2
  | .unary => 1
  | .leftHandSide | .binding => 0

def Goal.Opens (goal : Goal) (s : TokenStream) (goal' : Goal) (s' : TokenStream) : Prop :=
  s'.Closed ∧ (Relation.TransGen TokenStream.Deeper s s' ∨ s.To s' ∧ goal'.rank < goal.rank)

def Goal.load (goal : Goal) (s : TokenStream) : Nat := 5 * s.weight + goal.rank

theorem Goal.rank_lt (goal : Goal) : goal.rank < 5 := by
  cases goal <;> simp [rank]

theorem Goal.Opens.load_lt {goal goal' : Goal} {s s' : TokenStream} (h : goal.Opens s goal' s') :
    goal'.load s' < goal.load s := by
  have hrank' := goal'.rank_lt
  unfold Goal.load
  obtain ⟨hs', hdeeper | ⟨hto, hrank⟩⟩ := h
  · have hlt := TokenStream.transGen_weight_lt hdeeper hs'.left_ne_nil
    omega
  · have hle := hto.weight_le
    omega

theorem Goal.opens_wellFounded :
    WellFounded fun (a b : Goal × TokenStream) => b.1.Opens b.2 a.1 a.2 :=
  Subrelation.wf (fun h => h.load_lt) (measure fun a : Goal × TokenStream => a.1.load a.2).wf

namespace Grammar
variable {g : Grammar} {s s₁ : TokenStream} {n k : Nat}

def Open (g : Grammar) (s : TokenStream) (n : Nat) : Prop :=
  ∀ goal s', Relation.TransGen TokenStream.Deeper s s' ∨ s.To s' ∧ goal.rank < n → Passes s' (g.run goal)

namespace Open

theorem later (hg : g.Open s n) (h : s.To s₁) : g.Open s₁ n := by
  rintro goal s' (hdeeper | ⟨hto, hrank⟩)
  · obtain ⟨s₂, hfirst, hrest⟩ := Relation.TransGen.head'_iff.mp hdeeper
    exact hg goal s' (.inl (.head' (h.deeper hfirst) hrest))
  · exact hg goal s' (.inr ⟨h.trans hto, hrank⟩)

theorem deeper (hg : g.Open s n) (h : s.Deeper s₁) : g.Open s₁ k := by
  rintro goal s' (hdeeper | ⟨hto, -⟩)
  · exact hg goal s' (.inl (.head h hdeeper))
  · exact hg goal s' (.inl (h.trans_to hto))

theorem past (hg : g.Open s n) (h : s.Past s₁) : g.Open s₁ k := hg.deeper (.pass h)

theorem mono (hg : g.Open s n) (hk : k ≤ n) : g.Open s k :=
  fun goal s' h => hg goal s' (h.imp_right fun h => ⟨h.1, h.2.trans_le hk⟩)

theorem zero (hg : g.Open s n) : g.Open s 0 := hg.mono (Nat.zero_le n)

theorem statement (hg : g.Open s 5) : Passes s g.statement := hg .statement s (.inr ⟨.refl s, by decide⟩)

theorem assignment (hg : g.Open s 4) : Passes s g.assignment := hg .assignment s (.inr ⟨.refl s, by decide⟩)

theorem binary (hg : g.Open s 3) (floor : Nat) : Passes s (g.binary floor) :=
  hg (.binary floor) s (.inr ⟨.refl s, Nat.lt_succ_self 2⟩)

theorem unary (hg : g.Open s 2) : Passes s g.unary := hg .unary s (.inr ⟨.refl s, by decide⟩)

theorem leftHandSide (hg : g.Open s 1) : Passes s g.leftHandSide :=
  hg .leftHandSide s (.inr ⟨.refl s, by decide⟩)

theorem binding (hg : g.Open s 1) : Passes s g.binding := hg .binding s (.inr ⟨.refl s, by decide⟩)

end Open
end Grammar
end EcmaScript
