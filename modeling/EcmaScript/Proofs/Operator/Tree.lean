import EcmaScript.Proofs.Extent.Rules
import EcmaScript.Proofs.Operator.Text
import EcmaScript.Proofs.Progress.Statement

/-! The text of names joined by operators is read back as the tree it was made of. Every construct on the
way either gets stuck or reads its part of the tree, and no text is read until a reader gets stuck. -/
namespace EcmaScript
open Parse

namespace TokenStream
variable {s : TokenStream} {t u : Token} {before rest : List Token}

/-- The tokens that are left. None of them is an arrow, and no `await` was met outside all functions. -/
structure Has (s : TokenStream) (before : List Token) : Prop where
  left : s.left.map Lexeme.token = before
  plain : .punctuator .arrow ∉ before
  awaits : s.awaits = false

theorem getElem?_left (h : s.left ≠ []) (n : Nat) : s.left[min n (s.left.length - 1)]? = some (s.ahead n) := by
  have hpos := List.length_pos_of_ne_nil h
  rw [length_left] at hpos
  have hmin : s.pos + min n (s.tokens.size - s.pos - 1) = min (s.pos + n) (s.tokens.size - 1) := by omega
  have hlt : min (s.pos + n) (s.tokens.size - 1) < s.tokens.size := by omega
  rw [length_left, left, List.getElem?_drop, hmin, Array.getElem?_toList, ahead, Array.getElem?_eq_getElem hlt]
  rfl

theorem Has.getElem? (h : s.Has (t :: rest)) (n : Nat) :
    (t :: rest)[min n rest.length]? = some (s.ahead n).token := by
  have hlength := congrArg List.length h.left
  rw [List.length_map, List.length_cons] at hlength
  have hne : s.left ≠ [] := List.ne_nil_of_length_pos (by omega)
  have hget := getElem?_left hne n
  rw [hlength, Nat.add_sub_cancel] at hget
  rw [← h.left, List.getElem?_map, hget]
  rfl

theorem Has.ahead_zero (h : s.Has (t :: rest)) : (s.ahead 0).token = t := by
  simpa [eq_comm] using h.getElem? 0

theorem Has.ahead_one (h : s.Has (t :: u :: rest)) : (s.ahead 1).token = u := by
  have hget := h.getElem? 1
  rw [List.length_cons, Nat.min_eq_left (by omega)] at hget
  simpa [eq_comm] using hget

theorem Has.not_arrow (h : s.Has (t :: rest)) (n : Nat) : (s.ahead n).token.isMark .arrow = false := by
  have hmem := List.mem_of_getElem? (h.getElem? n)
  cases hl : (s.ahead n).token with
  | punctuator p =>
    rw [Token.isMark, beq_eq_false_iff_ne]
    rintro rfl
    exact h.plain (hl ▸ hmem)
  | _ => rfl

theorem Has.advance (h : s.Has (t :: rest)) (hrest : rest ≠ []) : s.advance.Has rest := by
  have hlength := congrArg List.length h.left
  have hpos := List.length_pos_of_ne_nil hrest
  rw [List.length_map, List.length_cons, length_left] at hlength
  have hnext : s.advance.pos = s.pos + 1 := if_pos (by omega)
  have hleft : s.advance.left = s.left.tail := by
    rw [TokenStream.left, hnext, ← List.tail_drop]
    rfl
  refine ⟨?_, fun hmem => h.plain (List.mem_cons_of_mem _ hmem), h.awaits⟩
  rw [hleft, List.map_tail, h.left, List.tail_cons]

end TokenStream

namespace Grammar
variable {s : TokenStream} {t : Token} {rest : List Token}

theorem closing_error {fuel i depth : Nat} {e : ReadError} (h : closing s fuel i depth = .error e) : e = .stuck := by
  induction fuel generalizing i depth with
  | zero =>
    cases h
    rfl
  | succ fuel ih =>
    rw [closing] at h
    split at h
    case h_4 | h_5 | h_6 =>
      split at h
      · cases h
      · exact ih h
    case h_7 => cases h
    all_goals exact ih h

theorem arrowAhead?_none (h : s.Has (t :: rest)) : arrowAhead? s = .ok none ∨ arrowAhead? s = .error .stuck := by
  have hbind {n : Nat} {k : Option Nat → Except ReadError (Option Bool)} (hk : ∀ r, k r = .ok none) :
      (closing s (s.tokens.size + 1) n 0 >>= k) = .ok none ∨
        (closing s (s.tokens.size + 1) n 0 >>= k) = .error .stuck := by
    cases hr : closing s (s.tokens.size + 1) n 0 with
    | ok r => exact .inl (hk r)
    | error e => exact .inr (congrArg _ (closing_error hr))
  unfold arrowAhead?
  simp only [h.not_arrow, Bool.and_false, Bool.false_and, Bool.false_eq_true, if_false]
  split
  on_goal 1 => split
  on_goal 2 => exact hbind fun r => by cases r <;> rfl
  all_goals
    split
    · exact .inl rfl
    · exact hbind fun r => by cases r <;> rfl
    · exact .inl rfl

end Grammar

namespace Parse
variable {α β : Type} {before m after rest : List Token} {t u : Token} {P Q : α → Prop} {R : β → Prop}

def Takes (x : Parse α) (before : List Token) (Q : α → Prop) (after : List Token) : Prop :=
  ∀ s, s.Has before → (∀ a s', x {} s = .ok (a, s') → Q a ∧ s'.Has after) ∧ ∀ e, x {} s = .error e → e = .stuck

namespace Takes
variable {x : Parse α}

theorem bind {k : α → Parse β} (hx : Takes x before P m) (hk : ∀ a, P a → Takes (k a) m R after) :
    Takes (x >>= k) before R after := by
  intro s hs
  obtain ⟨hok, herror⟩ := hx s hs
  refine ⟨fun b s' h => ?_, fun e h => ?_⟩
  · obtain ⟨a, s₁, hx', hk'⟩ := bind_eq_ok.mp h
    obtain ⟨ha, hs₁⟩ := hok a s₁ hx'
    exact (hk a ha s₁ hs₁).1 b s' hk'
  · change ((x {} s) >>= fun r => k r.1 {} r.2) = .error e at h
    cases hx' : x {} s with
    | error e' =>
      rw [hx'] at h
      cases h
      exact herror e hx'
    | ok r =>
      rw [hx'] at h
      obtain ⟨ha, hs₁⟩ := hok r.1 r.2 hx'
      exact (hk r.1 ha r.2 hs₁).2 e h

theorem pure {a : α} (h : Q a) : Takes (Pure.pure a) before Q before := by
  refine fun s hs => ⟨?_, nofun⟩
  rintro _ _ ⟨⟩
  exact ⟨h, hs⟩

theorem stuck : Takes (Parse.stuck : Parse α) before Q after := by
  refine fun s hs => ⟨nofun, ?_⟩
  rintro _ ⟨⟩
  rfl

theorem get_bind {k : TokenStream → Parse β} (h : ∀ s, s.Has before → Takes (k s) before R after) :
    Takes (get >>= k) before R after := fun s hs => h s hs s hs

theorem read_bind {k : Mode → Parse β} (h : Takes (k {}) before R after) : Takes (read >>= k) before R after := h

theorem withIn (h : Takes x before Q after) : Takes (Parse.withIn x) before Q after := h

theorem ofExcept_bind {r : Except ReadError α} {a : α} {k : α → Parse β} (hr : r = .ok a ∨ r = .error .stuck)
    (h : Takes (k a) before R after) : Takes (ofExcept r >>= k) before R after := by
  obtain rfl | rfl := hr
  · exact h
  · exact Takes.stuck

theorem lexeme_bind {k : Lexeme → Parse β} (h : ∀ l, l.token = t → Takes (k l) (t :: rest) R after) :
    Takes (lexeme >>= k) (t :: rest) R after := fun s hs => h _ hs.ahead_zero s hs

theorem lexemeAt_bind {k : Lexeme → Parse β} (h : ∀ l, l.token = u → Takes (k l) (t :: u :: rest) R after) :
    Takes (lexemeAt 1 >>= k) (t :: u :: rest) R after := fun s hs => h _ hs.ahead_one s hs

theorem peek_bind {k : Token → Parse β} (h : Takes (k t) (t :: rest) R after) :
    Takes (peek >>= k) (t :: rest) R after := fun s hs => by
  have hpeek := h s hs
  rw [← hs.ahead_zero] at hpeek
  exact hpeek

theorem peekAt_bind {k : Token → Parse β} (h : Takes (k u) (t :: u :: rest) R after) :
    Takes (peekAt 1 >>= k) (t :: u :: rest) R after := fun s hs => by
  have hpeek := h s hs
  rw [← hs.ahead_one] at hpeek
  exact hpeek

theorem at?_bind {mark : Punctuator} {k : Bool → Parse β} (h : Takes (k (t.isMark mark)) (t :: rest) R after) :
    Takes (at? mark >>= k) (t :: rest) R after := fun s hs => by
  have hmark := h s hs
  rw [← hs.ahead_zero] at hmark
  exact hmark

theorem atWord_bind {word : String} {k : Bool → Parse β} (h : Takes (k (t.isWord word)) (t :: rest) R after) :
    Takes (atWord word >>= k) (t :: rest) R after := fun s hs => by
  have hword := h s hs
  rw [← hs.ahead_zero] at hword
  exact hword

theorem awaitAllowed_bind {k : Bool → Parse β} (h : ∀ b, Takes (k b) before R after) :
    Takes (awaitAllowed >>= k) before R after := fun s hs => h _ s hs

theorem span_bind {k : Span → Parse β} (h : ∀ span, Takes (k span) before R after) :
    Takes (span >>= k) before R after := fun s hs => h _ s hs

theorem finish_bind {start : Span} {k : Span → Parse β} (h : ∀ span, Takes (k span) before R after) :
    Takes (finish start >>= k) before R after := fun s hs => h _ s hs

theorem advance_bind {k : Lexeme → Parse β} (hrest : rest ≠ []) (h : ∀ l, l.token = t → Takes (k l) rest R after) :
    Takes (advance >>= k) (t :: rest) R after :=
  fun s hs => h _ hs.ahead_zero s.advance (hs.advance hrest)

theorem eat_bind {mark : Punctuator} {k : Bool → Parse β} (ht : t.isMark mark = false)
    (h : Takes (k false) (t :: rest) R after) : Takes (eat mark >>= k) (t :: rest) R after := by
  have hnone : Takes (eat mark) (t :: rest) (· = false) (t :: rest) := by
    refine .at?_bind ?_
    rw [ht]
    exact .pure rfl
  refine hnone.bind ?_
  rintro _ rfl
  exact h

theorem expect_bind {mark : Punctuator} {k : Span → Parse β} (hrest : rest ≠ [])
    (h : ∀ span, Takes (k span) rest R after) :
    Takes (expect mark >>= k) (.punctuator mark :: rest) R after := by
  refine .bind (P := fun _ => True) (.at?_bind ?_) fun span _ => h span
  rw [Token.isMark, beq_self_eq_true, if_pos rfl]
  exact .advance_bind hrest fun l _ => .pure trivial

theorem iterate {step : α → Parse (α ⊕ β)} {P : α ⊕ β → Prop} {a : α} (h : Takes (step a) before P m)
    (hnext : ∀ n a', P (.inl a') → Takes (Parse.iterate step n a') m R after)
    (hdone : ∀ b, P (.inr b) → R b ∧ m = after) (n : Nat) : Takes (Parse.iterate step n a) before R after := by
  cases n with
  | zero => exact .stuck
  | succ n =>
    refine .get_bind fun s _ => h.bind fun r hr => ?_
    cases r with
    | inl a' =>
      refine .get_bind fun s' _ => ?_
      split
      · exact .stuck
      · exact hnext n a' hr
    | inr b =>
      obtain ⟨hb, rfl⟩ := hdone b hr
      exact .pure hb

theorem iterate_done {step : α → Parse (α ⊕ β)} {a : α} {b : β} (h : Takes (step a) before (· = .inr b) after)
    (hb : R b) (n : Nat) : Takes (Parse.iterate step n a) before R after := by
  refine h.iterate nofun ?_ n
  rintro _ ⟨⟩
  exact ⟨hb, rfl⟩

theorem loop {init : α} {step : α → Parse (α ⊕ β)}
    (h : ∀ n, Takes (Parse.iterate step n init) before R after) : Takes (Parse.loop init step) before R after :=
  .get_bind fun _ _ => h _

end Takes
end Parse

/-! Operators, and the sides of them. -/

namespace InfixOp

theorem one_le_precedence (op : InfixOp) : 1 ≤ op.precedence := by
  obtain op | op := op <;> cases op <;> decide

theorem precedence_le (op : InfixOp) : op.precedence ≤ 11 := by
  obtain op | op := op <;> cases op <;> decide

def floor (op : InfixOp) (onRight : Bool) : Nat :=
  if onRight = op.associatesRight then op.precedence - 1 else op.precedence

theorem floor_left (op : InfixOp) :
    op.floor false = if op.precedence = 11 then 11 else op.precedence - 1 := by
  obtain op | op := op <;> cases op <;> rfl

theorem floor_right (op : InfixOp) : op.floor true = if op.precedence = 11 then 10 else op.precedence := by
  obtain op | op := op <;> cases op <;> rfl

end InfixOp

/-- A token that ends an operand whose operators bind tighter than `floor`. -/
inductive Token.Ends (floor : Nat) : Token → Prop where
  | rParen : Ends floor (.punctuator .rParen)
  | endOfInput : Ends floor .endOfInput
  | operator {op : InfixOp} (h : op.precedence ≤ floor) : Ends floor op.token

theorem Token.Ends.mono {m n : Nat} {t : Token} (h : t.Ends m) (hle : m ≤ n) : t.Ends n := by
  cases h with
  | rParen => exact .rParen
  | endOfInput => exact .endOfInput
  | operator h => exact .operator (h.trans hle)

theorem Token.Ends.elim {floor : Nat} {t : Token} {P : Prop} (h : t.Ends floor) (hnone : infixOp? false t = none)
    (hparen : t ≠ .punctuator .rParen) (hend : t ≠ .endOfInput) : P := by
  cases h with
  | rParen => exact absurd rfl hparen
  | endOfInput => exact absurd rfl hend
  | operator =>
    rw [InfixOp.infixOp?_token] at hnone
    cases hnone

theorem Token.Ends.isMark_eq {floor : Nat} {t : Token} (h : t.Ends floor) (mark : Punctuator)
    (hnone : infixOp? false (.punctuator mark) = none) (hparen : mark ≠ .rParen) : t.isMark mark = false := by
  by_contra hmark
  cases t with
  | punctuator p =>
    obtain rfl : p = mark := eq_of_beq (Bool.not_eq_false _ ▸ hmark)
    exact h.elim hnone (fun h => hparen (Token.punctuator.inj h)) nofun
  | _ => exact hmark rfl

theorem Token.Ends.isWord_function {floor : Nat} {t : Token} (h : t.Ends floor) : t.isWord "function" = false := by
  by_contra hword
  cases t with
  | identifier word =>
    obtain rfl : word = "function" := eq_of_beq (Bool.not_eq_false _ ▸ hword)
    exact h.elim rfl nofun nofun
  | _ => exact hword rfl

def EndsTree (floor : Nat) (rest : List Token) : Prop := ∃ t more, rest = t :: more ∧ t.Ends floor

theorem EndsTree.mono {m n : Nat} {rest : List Token} (h : EndsTree m rest) (hle : m ≤ n) : EndsTree n rest := by
  obtain ⟨t, more, rfl, ht⟩ := h
  exact ⟨t, more, rfl, ht.mono hle⟩

theorem EndsTree.behind {n : Nat} {rest : List Token} (h : EndsTree n rest) : EndsTree 11 rest := by
  obtain ⟨t, more, rfl, ht⟩ := h
  refine ⟨t, more, rfl, ?_⟩
  cases ht with
  | rParen => exact .rParen
  | endOfInput => exact .endOfInput
  | @operator op h => exact .operator op.precedence_le

theorem EndsTree.ne_nil {n : Nat} {rest : List Token} (h : EndsTree n rest) : rest ≠ [] := by
  obtain ⟨t, more, rfl, -⟩ := h
  exact List.cons_ne_nil t more

theorem PlainName.ne (n : PlainName) {word : String} (h : (isReserved word || contextualWords.contains word) = true) :
    n.text ≠ word := by
  rintro rfl
  obtain h | h := Bool.or_eq_true _ _ ▸ h
  · exact absurd (n.free.symm.trans h) nofun
  · exact n.plain (List.contains_iff_mem.mp h)

namespace OperatorTree
variable {t : OperatorTree} {ts rest : List Token} {floor : Nat}

/-- An expression has the shape of a tree, wherever its parts stand. -/
def Shapes : OperatorTree → Expr → Prop
  | .name n, e => e.node = .identifier n.text
  | .node op l r, e => ∃ left right, e.node = op.node left right ∧ l.Shapes left ∧ r.Shapes right

theorem precedence_pos (t : OperatorTree) : 0 < t.precedence := by
  cases t with
  | name n => exact Nat.succ_pos 11
  | node op l r => exact op.one_le_precedence

theorem Shapes.of_node {e e' : Expr} (h : t.Shapes e) (hnode : e'.node = e.node) : t.Shapes e' := by
  cases t with
  | name n => exact hnode.trans h
  | node op l r =>
    obtain ⟨left, right, hjoined, hsides⟩ := h
    exact ⟨left, right, hnode.trans hjoined, hsides⟩

theorem Shapes.not_unary {e : Expr} (h : t.Shapes e) : Grammar.isUnary e = false := by
  rw [Grammar.isUnary]
  cases t with
  | name n => rw [show e.node = _ from h]
  | node op l r =>
    obtain ⟨left, right, hjoined, -⟩ := h
    rw [hjoined]
    cases op <;> rfl

/-- A name, or any tree in parentheses. -/
inductive IsAtom : OperatorTree → List Token → Prop where
  | name (n : PlainName) : IsAtom (.name n) [.identifier n.text]
  | parens (t : OperatorTree) : IsAtom t (.punctuator .lParen :: (t.tokens ++ [.punctuator .rParen]))

def IsOperand (floor : Nat) (t : OperatorTree) (ts : List Token) : Prop :=
  floor < t.precedence ∧ ts = t.tokens ∨ IsAtom t ts

theorem isOperand_enclosed (op : InfixOp) (onRight : Bool) (t : OperatorTree) :
    IsOperand (op.floor onRight) t (tokens.enclosed (needsParens op onRight t) t.tokens) := by
  cases h : needsParens op onRight t with
  | true => exact .inr (.parens t)
  | false =>
    refine .inl ⟨?_, rfl⟩
    have hone := op.one_le_precedence
    simp only [needsParens, Bool.or_eq_false_iff, decide_eq_false_iff_not, Bool.and_eq_false_iff,
      beq_eq_false_iff_ne, bne_eq_false_iff_eq] at h
    obtain ⟨hle, hside⟩ := h
    unfold InfixOp.floor
    split
    · omega
    · next hne =>
      have := hside.resolve_right hne
      omega

def innerFloor : OperatorTree → Nat
  | .name _ => 11
  | .node op _ _ => op.floor true

theorem le_innerFloor (h : floor < t.precedence) : floor ≤ t.innerFloor := by
  cases t with
  | name n => exact Nat.le_of_lt_succ h
  | node op l r =>
    have hone := op.one_le_precedence
    change floor < op.precedence at h
    change floor ≤ op.floor true
    rw [op.floor_right]
    split <;> omega

theorem precedence_le_innerFloor {op : InfixOp} (h : op.floor false < t.precedence) :
    op.precedence ≤ t.innerFloor := by
  have hle := op.precedence_le
  cases t with
  | name n => exact hle
  | node op' l r =>
    have hle' := op'.precedence_le
    change op.floor false < op'.precedence at h
    change op.precedence ≤ op'.floor true
    rw [op.floor_left] at h
    rw [op'.floor_right]
    split_ifs at h ⊢ <;> omega

theorem tokens_ne_nil (t : OperatorTree) : t.tokens ≠ [] := by
  cases t with
  | name n => exact List.cons_ne_nil _ _
  | node op l r => simp [tokens]

theorem arrow_notMem_tokens (t : OperatorTree) : .punctuator .arrow ∉ t.tokens := by
  have henclosed {parens : Bool} {found : List Token} (h : .punctuator .arrow ∉ found) :
      .punctuator .arrow ∉ tokens.enclosed parens found := by
    cases parens with
    | false => exact h
    | true => simpa [tokens.enclosed] using h
  induction t with
  | name n => simp [tokens]
  | node op l r hl hr =>
    have hop : .punctuator .arrow ≠ op.token := by
      obtain op | op := op <;> cases op <;> rintro ⟨⟩
    simp [tokens, henclosed hl, henclosed hr, hop]

theorem Shapes.asksStrict_eq {e : Expr} {span : Span} (h : t.Shapes e) :
    asksStrict [.mk span (.expression e)] = false := by
  obtain ⟨place, node⟩ := e
  cases t with
  | name n =>
    obtain rfl : node = _ := h
    rfl
  | node op l r =>
    obtain ⟨left, right, hjoined, -⟩ := h
    obtain rfl : node = _ := hjoined
    cases op <;> rfl

end OperatorTree

/-! The rules, given that the constructs inside read their parts. -/

namespace Grammar
open OperatorTree
variable {g : Grammar} {t : OperatorTree} {ts rest : List Token} {floor : Nat}

/-- Wherever constructs do not get stuck, they read trees. -/
structure ReadsTrees (g : Grammar) : Prop where
  leftHandSide : ∀ {t ts rest}, IsAtom t ts → EndsTree 11 rest → Takes g.leftHandSide (ts ++ rest) t.Shapes rest
  unary : ∀ {t ts rest}, IsAtom t ts → EndsTree 11 rest → Takes g.unary (ts ++ rest) t.Shapes rest
  binary : ∀ {floor t ts rest}, IsOperand floor t ts → EndsTree floor rest →
    Takes (g.binary floor) (ts ++ rest) t.Shapes rest
  assignment : ∀ {t : OperatorTree} {rest}, EndsTree 0 rest → Takes g.assignment (t.tokens ++ rest) t.Shapes rest
  statement : ∀ t : OperatorTree, Takes g.statement (t.tokens ++ [.endOfInput])
    (fun st => ∃ span e, st = .mk span (.expression e) ∧ t.Shapes e) [.endOfInput]

/-- What a step of a loop has to do to join operands. -/
structure Joins (step : Expr → Parse (Expr ⊕ Expr)) (floor : Nat) : Prop where
  stops : ∀ {e rest}, EndsTree floor rest → Takes (step e) rest (· = .inr e) rest
  joins : ∀ {op : InfixOp} {e r ts rest}, floor < op.precedence → isUnary e = false →
    IsOperand (op.floor true) r ts → EndsTree (op.floor true) rest →
    Takes (step e) (op.token :: (ts ++ rest))
      (fun found => ∃ span right, found = .inl (.mk span (op.node e right)) ∧ r.Shapes right) rest

/-- A tree starts with an atom. From there a loop that joins operands comes to the whole tree: an operand
on the left has been joined when its operator comes, and one on the right is read in one step. -/
theorem exists_atom (t : OperatorTree) (rest : List Token) (hrest : EndsTree t.innerFloor rest) :
    ∃ a ats more, IsAtom a ats ∧ t.tokens ++ rest = ats ++ more ∧ EndsTree 11 more ∧
      ∀ {step floor after} {Q : Expr → Prop}, Joins step floor → floor < t.precedence →
        (∀ n e, t.Shapes e → Takes (iterate step n e) rest Q after) →
        ∀ n e, a.Shapes e → Takes (iterate step n e) more Q after := by
  induction t generalizing rest with
  | name n => exact ⟨.name n, _, rest, .name n, rfl, hrest, fun _ _ hdone => hdone⟩
  | node op l r ihl _ =>
    let behind := op.token :: (tokens.enclosed (needsParens op true r) r.tokens ++ rest)
    have hjoin {step floor after} {Q : Expr → Prop} (hstep : Joins step floor) (hfloor : floor < op.precedence)
        (hdone : ∀ n e, (OperatorTree.node op l r).Shapes e → Takes (iterate step n e) rest Q after) (n : Nat)
        (e : Expr) (he : l.Shapes e) : Takes (iterate step n e) behind Q after := by
      refine .iterate (hstep.joins hfloor he.not_unary (isOperand_enclosed op true r) hrest) ?_ ?_ n
      · rintro n _ ⟨span, right, h, hright⟩
        obtain rfl := Sum.inl.inj h
        exact hdone n _ ⟨e, right, rfl, he, hright⟩
      · rintro _ ⟨span, right, ⟨⟩, -⟩
    have hsplit : (OperatorTree.node op l r).tokens ++ rest =
        tokens.enclosed (needsParens op false l) l.tokens ++ behind := by
      rw [tokens, List.append_assoc]
      rfl
    have hbehind {n : Nat} (h : op.precedence ≤ n) : EndsTree n behind := ⟨_, _, rfl, .operator h⟩
    rw [hsplit]
    obtain ⟨hl, hlt⟩ | hl := isOperand_enclosed op false l
    · rw [hlt]
      obtain ⟨a, ats, more, ha, heq, hmore, hloop⟩ := ihl behind (hbehind (precedence_le_innerFloor hl))
      refine ⟨a, ats, more, ha, heq, hmore, fun hstep hfloor hdone => hloop hstep ?_ (hjoin hstep hfloor hdone)⟩
      change _ < op.precedence at hfloor
      rw [op.floor_left] at hl
      split at hl <;> omega
    · exact ⟨l, _, behind, hl, rfl, hbehind op.precedence_le, fun hstep hfloor hdone => hjoin hstep hfloor hdone⟩

theorem bindingName_takes {n : PlainName} (hrest : rest ≠ []) :
    Takes Parse.bindingName (.identifier n.text :: rest) (·.1 = n.text) rest := by
  refine .lexeme_bind fun l hl => ?_
  rw [hl]
  refine .read_bind ?_
  rw [n.free]
  dsimp only
  rw [if_neg (by simp)]
  exact .advance_bind hrest fun _ _ => .pure rfl

theorem wordExpression_takes {n : PlainName} {start : Span} (hrest : EndsTree 11 rest) :
    Takes (g.wordExpression start n.text) (.identifier n.text :: rest) (OperatorTree.name n).Shapes rest := by
  obtain ⟨u, more, rfl, hu⟩ := hrest
  unfold wordExpression
  split
  case h_8 =>
    refine .lexemeAt_bind fun following hfollowing => ?_
    rw [hfollowing, hu.isWord_function, Bool.and_false, Bool.false_and, if_neg Bool.false_ne_true, n.free,
      if_neg Bool.false_ne_true]
    refine (bindingName_takes (List.cons_ne_nil _ _)).bind fun r hr => ?_
    obtain ⟨name, span⟩ := r
    exact .pure (congrArg _ hr)
  all_goals exact absurd ‹_› (n.ne (by decide))

theorem Joins.iterate {step : Expr → Parse (Expr ⊕ Expr)} {Q : Expr → Prop} {e : Expr} (h : Joins step floor)
    (hrest : EndsTree floor rest) (he : Q e) (n : Nat) : Takes (Parse.iterate step n e) rest Q rest :=
  (h.stops hrest).iterate_done he n

section Rules
variable (hg : g.ReadsTrees)
include hg

theorem expression_takes (hrest : EndsTree 0 rest) : Takes g.expression (t.tokens ++ rest) t.Shapes rest := by
  refine .span_bind fun start => (hg.assignment hrest).bind fun e he => ?_
  obtain ⟨u, more, rfl, hu⟩ := hrest
  refine .at?_bind ?_
  rw [hu.isMark_eq .comma rfl nofun]
  exact .pure he

theorem primary_takes (hatom : IsAtom t ts) (hrest : EndsTree 11 rest) :
    Takes g.primary (ts ++ rest) t.Shapes rest := by
  cases hatom with
  | name n =>
    refine .lexeme_bind fun l hl => ?_
    rw [hl]
    exact wordExpression_takes hrest
  | parens =>
    have hclose : EndsTree 0 (.punctuator .rParen :: rest) := ⟨_, _, rfl, .rParen⟩
    rw [List.cons_append, List.append_assoc, List.singleton_append]
    refine .lexeme_bind fun l hl => ?_
    rw [hl]
    refine .advance_bind (by simp) fun _ _ => (Takes.withIn (expression_takes hg hclose)).bind fun e he => ?_
    exact .expect_bind hrest.ne_nil fun _ => .finish_bind fun span => .pure (he.of_node rfl)

theorem leftHandSideRule_takes (hatom : IsAtom t ts) (hrest : EndsTree 11 rest) :
    Takes g.leftHandSideRule (ts ++ rest) t.Shapes rest := by
  have hhead : ∃ u more, ts ++ rest = u :: more ∧ u.isWord "new" = false ∧ u.isWord "super" = false := by
    cases hatom with
    | name n =>
      refine ⟨_, rest, rfl, ?_, ?_⟩
      · exact beq_eq_false_iff_ne.mpr (n.ne (by decide))
      · exact beq_eq_false_iff_ne.mpr (n.ne (by decide))
    | parens => exact ⟨_, _, rfl, rfl, rfl⟩
  have hchain {newRule : Parse Expr} : Takes (g.chainHead newRule) (ts ++ rest) t.Shapes rest := by
    obtain ⟨u, more, heq, hnew, hsuper⟩ := hhead
    have hprimary := primary_takes hg hatom hrest
    rw [heq] at hprimary ⊢
    refine .atWord_bind ?_
    rw [hnew, if_neg Bool.false_ne_true]
    refine .atWord_bind ?_
    rw [hsuper, if_neg Bool.false_ne_true]
    exact hprimary
  refine .span_bind fun start => hchain.bind fun e he => .loop (.iterate_done ?_ he)
  obtain ⟨u, more, rfl, hu⟩ := hrest
  refine .peek_bind ?_
  split
  case h_6 => exact .pure rfl
  all_goals exact hu.elim rfl nofun nofun

theorem unaryRule_takes (hatom : IsAtom t ts) (hrest : EndsTree 11 rest) :
    Takes g.unaryRule (ts ++ rest) t.Shapes rest := by
  have hhead : ∃ u more, ts ++ rest = u :: more ∧ unaryOp? u = none ∧ updateMark? u = none ∧
      u.isWord "await" = false := by
    cases hatom with
    | name n =>
      have hne (word : String) (hword : (isReserved word || contextualWords.contains word) = true) :
          (n.text == word) = false := beq_eq_false_iff_ne.mpr (n.ne hword)
      refine ⟨_, rest, rfl, ?_, rfl, hne _ (by decide)⟩
      rw [unaryOp?, hne "typeof" (by decide), hne "void" (by decide), hne "delete" (by decide)]
      rfl
    | parens => exact ⟨_, _, rfl, rfl, rfl, rfl⟩
  obtain ⟨u, more, heq, hunary, hupdate, hawait⟩ := hhead
  have hleft := hg.leftHandSide hatom hrest
  rw [heq] at hleft ⊢
  refine .span_bind fun start => .peek_bind ?_
  rw [hunary, hupdate]
  refine .awaitAllowed_bind fun b => ?_
  rw [hawait, Bool.false_and, if_neg Bool.false_ne_true]
  refine hleft.bind fun e he => ?_
  obtain ⟨v, more, rfl, hv⟩ := hrest
  refine .lexeme_bind fun l hl => ?_
  have hnone : updateMark? v = none := by
    cases hv with
    | @operator op => obtain op | op := op <;> cases op <;> rfl
    | _ => rfl
  rw [hl, hnone]
  exact .pure he

theorem firstOperand_takes (hatom : IsAtom t ts) (hrest : EndsTree 11 rest) :
    Takes g.firstOperand (ts ++ rest) t.Shapes rest := by
  have hunary := hg.unary hatom hrest
  cases hatom with
  | name n => exact .span_bind fun start => .peek_bind hunary
  | parens => exact .span_bind fun start => .peek_bind hunary

theorem binaryRule_takes {before between after : List Token} {P Q : Expr → Prop}
    (hfirst : Takes g.firstOperand before P between)
    (hloop : ∀ step, Joins step floor → ∀ n e, P e → Takes (iterate step n e) between Q after)
    (hbefore : before ≠ []) : Takes (g.binaryRule floor) before Q after := by
  obtain ⟨u, more, rfl⟩ := List.exists_cons_of_ne_nil hbefore
  refine .span_bind fun start => .at?_bind (hfirst.bind fun e he => .read_bind (.loop fun n => ?_))
  refine hloop _ ⟨?_, ?_⟩ n e he
  · rintro e rest ⟨v, more, rfl, hv⟩
    refine .peek_bind ?_
    cases hv with
    | rParen => exact .pure rfl
    | endOfInput => exact .pure rfl
    | @operator op h =>
      have htoken : infixOp? (Mode.noIn {}) op.token = some (op.precedence, op) := op.infixOp?_token
      rw [htoken]
      dsimp only
      rw [if_pos h]
      exact .pure rfl
  · intro op e r ts rest hfloor he hr hrest
    refine .peek_bind ?_
    have htoken : infixOp? (Mode.noIn {}) op.token = some (op.precedence, op) := op.infixOp?_token
    have hright : (if op.precedence == 11 then 10 else op.precedence) = op.floor true := by
      rw [op.floor_right]
      simp only [beq_iff_eq]
    rw [htoken]
    dsimp only
    rw [if_neg (Nat.not_le_of_lt hfloor), he, Bool.and_false, Bool.false_and, if_neg Bool.false_ne_true, hright]
    refine .advance_bind (by simp [hrest.ne_nil]) fun _ _ => (hg.binary hr hrest).bind fun right hright => ?_
    exact .finish_bind fun span => .pure ⟨span, right, rfl, hright⟩

theorem binaryRule_operand (hoperand : IsOperand floor t ts) (hrest : EndsTree floor rest) :
    Takes (g.binaryRule floor) (ts ++ rest) t.Shapes rest := by
  obtain ⟨hfloor, rfl⟩ | hatom := hoperand
  · obtain ⟨a, ats, more, ha, heq, hmore, hloop⟩ := exists_atom t rest (hrest.mono (le_innerFloor hfloor))
    rw [heq]
    refine binaryRule_takes hg (firstOperand_takes hg ha hmore) (fun step hstep => ?_) (by simp [hmore.ne_nil])
    exact hloop hstep hfloor fun n e he => hstep.iterate hrest he n
  · refine binaryRule_takes hg (firstOperand_takes hg hatom hrest.behind) (fun step hstep n e he => ?_)
      (by simp [hrest.ne_nil])
    exact hstep.iterate hrest he n

theorem firstOperand_private {x : String} (hoperand : IsOperand 8 t ts) (hrest : EndsTree 8 rest) :
    Takes g.firstOperand (.privateName x :: .identifier "in" :: (ts ++ rest))
      (fun e => ∃ object, e.node = .privateIn x object ∧ t.Shapes object) rest := by
  refine .span_bind fun start => .peek_bind (.peekAt_bind ?_)
  refine .advance_bind (by simp) fun _ _ => .advance_bind (by simp [hrest.ne_nil]) fun _ _ => ?_
  exact (hg.binary hoperand hrest).bind fun object hobject => .finish_bind fun span => .pure ⟨object, rfl, hobject⟩

theorem binaryRule_private {x : String} (hfloor : floor ≤ 8) (hoperand : IsOperand 8 t ts) (hrest : EndsTree floor rest) :
    Takes (g.binaryRule floor) (.privateName x :: .identifier "in" :: (ts ++ rest))
      (fun e => ∃ object, e.node = .privateIn x object ∧ t.Shapes object) rest := by
  refine binaryRule_takes hg (firstOperand_private hg hoperand (hrest.mono hfloor)) (fun step hstep n e he => ?_)
    (List.cons_ne_nil _ _)
  exact hstep.iterate hrest he n

/-- It does not take a shift, which is one of its answer. -/
theorem binaryRule_private_shift {x : String} {op : InfixOp} {l r : OperatorTree} {ls rs : List Token}
    (hop : op.precedence = 8) (hfloor : floor < 8) (hl : IsOperand 8 l ls) (hr : IsOperand 8 r rs)
    (hrest : EndsTree floor rest) :
    Takes (g.binaryRule floor) (.privateName x :: .identifier "in" :: (ls ++ op.token :: (rs ++ rest)))
      (fun e => ∃ left object right, e.node = op.node left right ∧ left.node = .privateIn x object ∧
        l.Shapes object ∧ r.Shapes right) rest := by
  have hright : op.floor true = 8 := by rw [op.floor_right, hop]; rfl
  have hbehind : EndsTree 8 (op.token :: (rs ++ rest)) := ⟨_, _, rfl, .operator hop.le⟩
  refine binaryRule_takes hg (firstOperand_private hg hl hbehind) (fun step hstep n e he => ?_)
    (List.cons_ne_nil _ _)
  obtain ⟨object, hnode, hobject⟩ := he
  have hunary : isUnary e = false := by rw [isUnary, hnode]
  have hjoin := hstep.joins (hop ▸ hfloor) hunary (hright ▸ hr) (hright ▸ hrest.mono hfloor.le)
  refine .iterate hjoin ?_ ?_ n
  · rintro n _ ⟨span, right, h, hshape⟩
    obtain rfl := Sum.inl.inj h
    exact hstep.iterate hrest ⟨e, object, right, rfl, hnode, hobject, hshape⟩ n
  · rintro _ ⟨span, right, ⟨⟩, -⟩

theorem conditional_takes (hrest : EndsTree 0 rest) : Takes g.conditional (t.tokens ++ rest) t.Shapes rest := by
  refine .span_bind fun start => (hg.binary (.inl ⟨t.precedence_pos, rfl⟩) hrest).bind fun e he => ?_
  obtain ⟨u, more, rfl, hu⟩ := hrest
  exact .eat_bind (hu.isMark_eq .question rfl nofun) (.pure he)

theorem assignmentRule_takes (hrest : EndsTree 0 rest) : Takes g.assignmentRule (t.tokens ++ rest) t.Shapes rest := by
  obtain ⟨u, more, heq⟩ := List.exists_cons_of_ne_nil t.tokens_ne_nil
  have hconditional := conditional_takes (t := t) hg hrest
  rw [heq, List.cons_append] at hconditional ⊢
  refine .get_bind fun s hs => .ofExcept_bind (arrowAhead?_none hs) (.read_bind (.atWord_bind ?_))
  rw [if_neg (by simp)]
  refine .span_bind fun start => hconditional.bind fun e he => ?_
  obtain ⟨v, more, rfl, hv⟩ := hrest
  refine .peek_bind ?_
  split
  case h_3 => exact .pure he
  all_goals exact hv.elim rfl nofun nofun

theorem expressionStatement_takes (t : OperatorTree) : Takes g.expressionStatement (t.tokens ++ [.endOfInput])
    (fun node => ∃ e, node = .expression e ∧ t.Shapes e) [.endOfInput] := by
  refine (expression_takes hg ⟨_, _, rfl, .endOfInput⟩).bind fun e he => ?_
  have hsemicolon : Takes semicolon [.endOfInput] (fun _ => True) [.endOfInput] := by
    refine .eat_bind rfl (.lexeme_bind fun l hl => ?_)
    rw [hl]
    split
    · exact .pure trivial
    · exact .pure trivial
  exact hsemicolon.bind fun _ _ => .pure ⟨e, rfl, he⟩

theorem wordStatement_takes {n : PlainName} {start : Span} {u : Token} {more : List Token}
    (heq : t.tokens ++ [.endOfInput] = .identifier n.text :: u :: more) (hu : u.Ends 11) :
    Takes (g.wordStatement start n.text) (t.tokens ++ [.endOfInput])
      (fun node => ∃ e, node = .expression e ∧ t.Shapes e) [.endOfInput] := by
  have hother (word : String) : Takes (g.otherStatement word) (t.tokens ++ [.endOfInput])
      (fun node => ∃ e, node = .expression e ∧ t.Shapes e) [.endOfInput] := by
    have hexpression := expressionStatement_takes hg t
    rw [heq] at hexpression ⊢
    refine .peekAt_bind ?_
    rw [hu.isMark_eq .colon rfl nofun, Bool.false_and, if_neg Bool.false_ne_true]
    exact hexpression
  unfold wordStatement
  split
  case h_5 =>
    have hasync := hother n.text
    rw [heq] at hasync ⊢
    refine .lexemeAt_bind fun following hfollowing => ?_
    rw [hfollowing, hu.isWord_function, Bool.false_and, if_neg Bool.false_ne_true]
    exact hasync
  case h_21 => exact hother _
  all_goals exact absurd ‹_› (n.ne (by decide))

theorem statementRule_takes (t : OperatorTree) : Takes g.statementRule (t.tokens ++ [.endOfInput])
    (fun st => ∃ span e, st = .mk span (.expression e) ∧ t.Shapes e) [.endOfInput] := by
  obtain ⟨a, ats, more, ha, heq, hmore, -⟩ := exists_atom t [.endOfInput] ⟨_, _, rfl, .endOfInput⟩
  have hfinish {start : Span} : ∀ node : StatementNode, (∃ e, node = .expression e ∧ t.Shapes e) →
      Takes (do return Statement.mk (← finish start) node) [.endOfInput]
        (fun st => ∃ span e, st = .mk span (.expression e) ∧ t.Shapes e) [.endOfInput] := by
    rintro _ ⟨e, rfl, he⟩
    exact .finish_bind fun span => .pure ⟨span, e, rfl, he⟩
  cases ha with
  | name n =>
    obtain ⟨u, more, rfl, hu⟩ := hmore
    have hword (start : Span) := @wordStatement_takes _ _ hg _ start _ _ heq hu
    rw [heq] at hword ⊢
    refine .lexeme_bind fun l hl => ?_
    rw [hl]
    exact (hword _).bind hfinish
  | parens =>
    have hexpression := expressionStatement_takes hg t
    rw [heq] at hexpression ⊢
    refine .lexeme_bind fun l hl => ?_
    rw [hl]
    exact hexpression.bind hfinish

/-- The rules read trees if they are given constructs that do. -/
theorem ReadsTrees.rules : g.rules.ReadsTrees where
  leftHandSide := leftHandSideRule_takes hg
  unary := unaryRule_takes hg
  binary := binaryRule_operand hg
  assignment := assignmentRule_takes hg
  statement := statementRule_takes hg

end Rules

theorem readsTrees_parseGoal (depth : Nat) : ReadsTrees ⟨fun goal => parseGoal depth goal⟩ := by
  induction depth with
  | zero => exact ⟨fun _ _ => .stuck, fun _ _ => .stuck, fun _ _ => .stuck, fun _ => .stuck, fun _ => .stuck⟩
  | succ depth ih => exact ih.rules

theorem script_takes (hg : g.ReadsTrees) (t : OperatorTree) : Takes g.script (t.tokens ++ [.endOfInput])
    (fun body => ∃ span e, body = [.mk span (.expression e)] ∧ t.Shapes e) [.endOfInput] := by
  obtain ⟨a, ats, more, ha, heq, -⟩ := exists_atom t [.endOfInput] ⟨_, _, rfl, .endOfInput⟩
  have hstatement := hg.statement t
  refine .loop fun n => .iterate (m := [.endOfInput])
    (P := fun r => ∃ span e, r = .inl [.mk span (.expression e)] ∧ t.Shapes e) ?_ ?_ ?_ n
  · have hpush : ∀ st : Statement, (∃ span e, st = .mk span (.expression e) ∧ t.Shapes e) →
        Takes (Pure.pure (.inl [st]) : Parse (List Statement ⊕ List Statement)) [.endOfInput]
          (fun r => ∃ span e, r = .inl [.mk span (.expression e)] ∧ t.Shapes e) [.endOfInput] := by
      rintro _ ⟨span, e, rfl, he⟩
      exact .pure ⟨span, e, rfl, he⟩
    rw [heq] at hstatement ⊢
    cases ha with
    | name n => exact .peek_bind (hstatement.bind hpush)
    | parens => exact .peek_bind (hstatement.bind hpush)
  · rintro n _ ⟨span, e, h, he⟩
    obtain rfl := Sum.inl.inj h
    refine .iterate_done (b := [.mk span (.expression e)]) (.peek_bind ?_) ⟨span, e, rfl, he⟩ n
    exact .pure rfl
  · rintro _ ⟨span, e, ⟨⟩, -⟩

end Grammar

/-- The text of a tree is a script of one statement, which is an expression with the shape of the tree. -/
theorem OperatorTree.parseScript_text (t : OperatorTree) : ∃ span e,
    parseScript t.text = .ok ⟨[.mk span (.expression e)], false, false⟩ ∧ t.Shapes e := by
  have htokens := t.tokenize_text
  cases hlexemes : tokenize t.text with
  | error e =>
    rw [hlexemes] at htokens
    cases htokens
  | ok ls =>
    rw [hlexemes] at htokens
    have hs : TokenStream.Has { tokens := ls.toArray } (t.tokens ++ [.endOfInput]) := by
      refine ⟨Except.ok.inj htokens, ?_, rfl⟩
      simp [t.arrow_notMem_tokens]
    have hread := Grammar.script_takes (Grammar.readsTrees_parseGoal (8 * t.text.length + 64)) t _ hs
    have hstuck := parseText_ne_stuck t.text fun g s hg => Grammar.script_walks hg
    have hrun : parseText t.text Grammar.script =
        Grammar.script (Grammar.ofLength t.text.length) {} { tokens := ls.toArray } := by
      rw [parseText, hlexemes]
      rfl
    rw [parseScript]
    cases hresult : parseText t.text Grammar.script with
    | error e => exact absurd (hresult.trans (congrArg _ (hread.2 e (hrun.symm.trans hresult)))) hstuck
    | ok r =>
      obtain ⟨⟨span, e, hbody, he⟩, hlast⟩ := hread.1 r.1 r.2 (hrun.symm.trans hresult)
      refine ⟨span, e, ?_, he⟩
      change Except.ok (Script.mk r.1 (asksStrict r.1) r.2.awaits) = _
      rw [hbody, he.asksStrict_eq, hlast.awaits]

example :
    let a : PlainName := ⟨"a", by decide, by decide, by decide, by decide⟩
    let power := OperatorTree.node (.binary .exp) (.name a) (.node (.binary .exp) (.name a) (.name a))
    (OperatorTree.node (.binary .sub) power (.node (.binary .isIn) (.name a) power)).text =
      "a ** a ** a - (a in a ** a ** a)" := by
  decide

end EcmaScript
