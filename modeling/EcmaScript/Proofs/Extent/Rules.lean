import EcmaScript.Parser.Basic
import EcmaScript.Proofs.Parser.Rules
import EcmaScript.Proofs.Token.Tiling
import EcmaScript.Syntax.Tree

/-! The nodes of a syntax tree that have a span, and the nodes right below them. -/
namespace EcmaScript

def Span.Encloses (outer inner : Span) : Prop := outer.start ≤ inner.start ∧ inner.stop ≤ outer.stop

/-- The span of a pattern. A fallback ends it; what collects the rest and what has a name are where
their targets are. -/
def Pattern.span : Pattern → Span
  | .identifier _ span => span
  | .place target => target.span
  | .array _ span => span
  | .object _ span => span
  | .fallback target value => target.span.through value.span
  | .hole => default
  | .rest target => target.span
  | .property _ target => target.span

/-- What has a span in a syntax tree. -/
inductive Node where
  | expression (e : Expr)
  | pattern (t : Pattern)
  | function (f : FunctionNode)
  | classNode (c : ClassNode)
  | statement (st : Statement)

/-- The nodes in the name of a property. -/
def Key.nodes : Key → List Node
  | .computed name => [.expression name]
  | _ => []

/-- The nodes in an element, a property or a parameter. -/
def Pattern.nodes : Pattern → List Node
  | .hole => []
  | .rest target => [.pattern target]
  | .property key target => key.nodes ++ [.pattern target]
  | t => [.pattern t]

/-- The nodes in a member. A name with a fallback is a pattern that is not yet read as one. -/
def Member.nodes : Member → List Node
  | .property key value _ => key.nodes ++ [.expression value]
  | .initialized name fallback span => [.pattern (.fallback (.identifier name span) fallback)]
  | .spread value => [.expression value]
  | .method key _ _ f => key.nodes ++ [.function f]
  | .field key _ initializer _ => key.nodes ++ initializer.toList.map .function
  | .staticBlock body => [.function body]

def Declarator.nodes : Declarator → List Node
  | .mk target init => .pattern target :: init.toList.map .expression

def SwitchCase.nodes : SwitchCase → List Node
  | .mk test body => test.toList.map .expression ++ body.map .statement

/-- The nodes right below an expression. An assignment holds its target and its value like a target
with a fallback, which it may be read as. -/
def ExprNode.nodes : ExprNode → List Node
  | .number _ | .string _ | .boolean _ | .null | .bigInt _ | .regExp .. | .identifier _ | .this
  | .newTarget | .hole => []
  | .template _ parts | .array parts | .superCall parts | .sequence parts => parts.map .expression
  | .taggedTemplate tag _ parts => .expression tag :: parts.map .expression
  | .object members => members.flatMap Member.nodes
  | .function f => [.function f]
  | .classExpr c => [.classNode c]
  | .unary _ e | .update _ _ e | .privateIn _ e | .optionalChain e | .await e | .spread e => [.expression e]
  | .binary _ left right | .logical _ left right => [.expression left, .expression right]
  | .assign target value => [.pattern (.fallback target value)]
  | .compoundAssign _ target value => [.expression target, .expression value]
  | .conditional test consequent alternate =>
    [.expression test, .expression consequent, .expression alternate]
  | .member target key _ => .expression target :: key.nodes
  | .superMember key => key.nodes
  | .call callee arguments _ | .new callee arguments => .expression callee :: arguments.map .expression
  | .yield operand _ => operand.toList.map .expression

def StatementNode.nodes : StatementNode → List Node
  | .expression e | .concise e | .throw e => [.expression e]
  | .declaration _ declarators => declarators.flatMap Declarator.nodes
  | .function f => [.function f]
  | .classDecl c => [.classNode c]
  | .return value => value.toList.map .expression
  | .if test consequent alternate =>
    .expression test :: .statement consequent :: alternate.toList.map .statement
  | .for init test update body => init.toList.map .statement ++ test.toList.map .expression ++
      update.toList.map .expression ++ [.statement body]
  | .forIn _ head object body | .forOf _ head object body _ =>
    [.pattern head, .expression object, .statement body]
  | .while test body => [.expression test, .statement body]
  | .doWhile body test => [.statement body, .expression test]
  | .switch discriminant cases => .expression discriminant :: cases.flatMap SwitchCase.nodes
  | .block body => body.map .statement
  | .labeled _ body => [.statement body]
  | .try body param handler finalizer => body.map .statement ++ param.toList.map .pattern ++
      (handler.getD []).map .statement ++ (finalizer.getD []).map .statement
  | .empty | .break _ | .continue _ | .debugger | .moduleDecl _ => []

namespace Node

def span : Node → Span
  | .expression e => e.span
  | .pattern t => t.span
  | .function f => f.span
  | .classNode c => c.span
  | .statement st => st.span

/-- The nodes right below a node. -/
def children : Node → List Node
  | .expression e => e.node.nodes
  | .pattern (.place target) => [.expression target]
  | .pattern (.array elements _) => elements.flatMap Pattern.nodes
  | .pattern (.object properties _) => properties.flatMap Pattern.nodes
  | .pattern (.fallback target value) => [.pattern target, .expression value]
  | .pattern (.identifier ..) => []
  | .pattern t => t.nodes
  | .function f => f.params.flatMap Pattern.nodes ++ f.body.map .statement
  | .classNode c => c.heritage?.toList.map .expression ++ c.constructor?.toList.map .function ++
      c.elements.flatMap Member.nodes
  | .statement st => st.node.nodes

/-- In a whole tree no span ends before it starts, and every span is inside the span of the node right
above it. -/
inductive Nests : Node → Prop
  | mk {n : Node} (hle : n.span.start ≤ n.span.stop) (hinside : ∀ c ∈ n.children, n.span.Encloses c.span)
      (hbelow : ∀ c ∈ n.children, c.Nests) : n.Nests

/-- A node between two places of a text, with all that is below it inside it. -/
structure Within (lo hi : Nat) (n : Node) : Prop where
  lo_le : lo ≤ n.span.start
  le_hi : n.span.stop ≤ hi
  nests : n.Nests

variable {lo lo' hi hi' : Nat} {n c : Node}

theorem Nests.le (h : n.Nests) : n.span.start ≤ n.span.stop := by
  obtain ⟨hle, -, -⟩ := h
  exact hle

theorem Nests.within (h : n.Nests) (hc : c ∈ n.children) : c.Within n.span.start n.span.stop := by
  obtain ⟨-, hinside, hbelow⟩ := h
  exact ⟨(hinside c hc).1, (hinside c hc).2, hbelow c hc⟩

theorem Nests.of_within (hle : n.span.start ≤ n.span.stop)
    (h : ∀ c ∈ n.children, c.Within n.span.start n.span.stop) : n.Nests :=
  .mk hle (fun c hc => ⟨(h c hc).lo_le, (h c hc).le_hi⟩) fun c hc => (h c hc).nests

theorem Within.mono (h : n.Within lo hi) (hlo : lo' ≤ lo) (hhi : hi ≤ hi') : n.Within lo' hi' :=
  ⟨Nat.le_trans hlo h.lo_le, Nat.le_trans h.le_hi hhi, h.nests⟩

theorem Within.child (h : n.Within lo hi) (hc : c ∈ n.children) : c.Within lo hi :=
  (h.nests.within hc).mono h.lo_le h.le_hi

theorem Within.of_span (h : n.Within lo hi) (hspan : c.span = n.span)
    (hsub : ∀ d ∈ c.children, d.Within n.span.start n.span.stop) : c.Within lo hi := by
  refine ⟨hspan ▸ h.lo_le, hspan ▸ h.le_hi, .of_within ?_ ?_⟩
  · rw [hspan]
    exact h.nests.le
  · rw [hspan]
    exact hsub

end Node
end EcmaScript

/-! Where readers of syntax leave the tokens, and where what they have read is. There is one rule for each
way to put readers together. -/
namespace EcmaScript
open Parse

namespace TokenStream

def left (s : TokenStream) : List Lexeme := s.tokens.toList.drop s.pos

def front (s : TokenStream) : Nat := (s.ahead 0).span.start

def back (s : TokenStream) : Nat := s.last.stop

def Sound (s : TokenStream) : Prop :=
  ∃ rest last lo, s.left = rest ++ [last] ∧ last.token = .endOfInput ∧ last.span.start = last.span.stop ∧
    Ordered lo rest last.span.start

/-- Two moments without a token passed between them. -/
structure Same (s s' : TokenStream) : Prop where
  tokens : s'.tokens = s.tokens
  pos : s'.pos = s.pos
  last : s'.last = s.last

/-- Two moments with tokens passed between them, and nodes that were read from these tokens. -/
structure Fit (s s' : TokenStream) (ns : List Node) : Prop where
  token_le : s.front ≤ (s.ahead 0).span.stop
  stop_le : (s.ahead 0).span.stop ≤ s'.back
  back_le : s'.back ≤ s'.front
  passed : ∃ ls, s.left = ls ++ s'.left ∧ ∀ l ∈ ls, s.front ≤ l.span.start ∧ l.span.stop ≤ s'.back
  nodes : ∀ n ∈ ns, n.Within s.front s'.back

def Inside (s s' : TokenStream) (ns : List Node) : Prop := s.Same s' ∧ ns = [] ∨ s.Fit s' ns

/-- The node that was read between two moments, from all tokens between them. -/
structure Covers (s s' : TokenStream) (n : Node) : Prop where
  fit : s.Fit s' [n]
  start : n.span.start = s.front
  stop : n.span.stop = s'.back

variable {s s₁ s₂ : TokenStream} {ns ms : List Node} {n : Node}

theorem ahead_zero {l : Lexeme} {rest : List Lexeme} (h : s.left = l :: rest) : s.ahead 0 = l := by
  have hget : s.tokens[s.pos]? = some l := by
    rw [← Array.getElem?_toList, ← List.head?_drop]
    exact congrArg List.head? h
  have hlt : s.pos < s.tokens.size := (Array.getElem?_eq_some_iff.mp hget).1
  rw [ahead, Nat.add_zero, Nat.min_eq_left (by omega), hget]
  rfl

theorem Same.refl (s : TokenStream) : s.Same s := ⟨rfl, rfl, rfl⟩

theorem Same.trans (h : s.Same s₁) (h' : s₁.Same s₂) : s.Same s₂ :=
  ⟨h'.tokens.trans h.tokens, h'.pos.trans h.pos, h'.last.trans h.last⟩

theorem Same.ahead (h : s.Same s₁) (n : Nat) : s₁.ahead n = s.ahead n := by
  rw [TokenStream.ahead, TokenStream.ahead, h.tokens, h.pos]

theorem Same.front (h : s.Same s₁) : s₁.front = s.front := by
  rw [TokenStream.front, TokenStream.front, h.ahead]

theorem Same.left (h : s.Same s₁) : s₁.left = s.left := by
  rw [TokenStream.left, TokenStream.left, h.tokens, h.pos]

theorem Same.back (h : s.Same s₁) : s₁.back = s.back := congrArg Span.stop h.last

theorem Fit.front_le (h : s.Fit s₁ ns) : s.front ≤ s₁.back := h.token_le.trans h.stop_le

theorem Fit.back_le_front (h : s.Fit s₁ ns) (h' : s₁.Fit s₂ ms) : s₁.back ≤ s₂.front :=
  h.back_le.trans (h'.front_le.trans h'.back_le)

theorem Fit.reread (h : s.Fit s₁ ns) (hms : ∀ n ∈ ms, n.Within s.front s₁.back) : s.Fit s₁ ms :=
  ⟨h.token_le, h.stop_le, h.back_le, h.passed, hms⟩

theorem Fit.mono (h : s.Fit s₁ ns) (hsub : ∀ n ∈ ms, n ∈ ns) : s.Fit s₁ ms :=
  h.reread fun n hn => h.nodes n (hsub n hn)

theorem Fit.same (h : s.Fit s₁ ns) (hsame : s₁.Same s₂) : s.Fit s₂ ns := by
  obtain ⟨htoken, hstop, hback, ⟨ls, hls, hpassed⟩, hnodes⟩ := h
  refine ⟨htoken, ?_, ?_, ⟨ls, ?_, ?_⟩, ?_⟩
  · rwa [hsame.back]
  · rwa [hsame.back, hsame.front]
  · rwa [hsame.left]
  · rwa [hsame.back]
  · rwa [hsame.back]

theorem Fit.of_same (hsame : s.Same s₁) (h : s₁.Fit s₂ ns) : s.Fit s₂ ns := by
  obtain ⟨htoken, hstop, hback, ⟨ls, hls, hpassed⟩, hnodes⟩ := h
  rw [hsame.front] at htoken hpassed hnodes
  rw [hsame.ahead] at htoken hstop
  rw [hsame.left] at hls
  exact ⟨htoken, hstop, hback, ⟨ls, hls, hpassed⟩, hnodes⟩

theorem Fit.append_fit (h : s.Fit s₁ ns) (h' : s₁.Fit s₂ ms) : s.Fit s₂ (ns ++ ms) := by
  have hfront := h.front_le
  have hfront' := h'.front_le
  obtain ⟨htoken, hstop, hback, ⟨ls, hls, hpassed⟩, hnodes⟩ := h
  obtain ⟨-, -, hback', ⟨ls', hls', hpassed'⟩, hnodes'⟩ := h'
  refine ⟨htoken, by omega, hback', ⟨ls ++ ls', by rw [hls, hls', List.append_assoc], fun l hl => ?_⟩,
    fun n hn => ?_⟩
  · obtain hl | hl := List.mem_append.mp hl
    · have hl := hpassed l hl
      omega
    · have hl := hpassed' l hl
      omega
  · obtain hn | hn := List.mem_append.mp hn
    · exact (hnodes n hn).mono le_rfl (by omega)
    · exact (hnodes' n hn).mono (by omega) le_rfl

theorem Fit.inside (h : s.Fit s₁ ns) : s.Inside s₁ ns := .inr h

theorem Inside.refl (s : TokenStream) : s.Inside s [] := .inl ⟨.refl s, rfl⟩

theorem Inside.mono (h : s.Inside s₁ ns) (hsub : ∀ n ∈ ms, n ∈ ns) : s.Inside s₁ ms := by
  obtain ⟨hsame, rfl⟩ | h := h
  · exact .inl ⟨hsame, List.eq_nil_iff_forall_not_mem.mpr fun n hn => List.not_mem_nil (hsub n hn)⟩
  · exact .inr (h.mono hsub)

theorem Fit.append (h : s.Fit s₁ ns) (h' : s₁.Inside s₂ ms) : s.Fit s₂ (ns ++ ms) := by
  obtain ⟨hsame, rfl⟩ | h' := h'
  · rw [List.append_nil]
    exact h.same hsame
  · exact h.append_fit h'

theorem Inside.append_fit (h : s.Inside s₁ ns) (h' : s₁.Fit s₂ ms) : s.Fit s₂ (ns ++ ms) := by
  obtain ⟨hsame, rfl⟩ | h := h
  · exact h'.of_same hsame
  · exact h.append_fit h'

theorem Inside.append (h : s.Inside s₁ ns) (h' : s₁.Inside s₂ ms) : s.Inside s₂ (ns ++ ms) := by
  obtain ⟨hsame', rfl⟩ | h' := h'
  · obtain ⟨hsame, rfl⟩ | h := h
    · exact .inl ⟨hsame.trans hsame', rfl⟩
    · exact .inr (h.append (.inl ⟨hsame', rfl⟩))
  · exact (h.append_fit h').inside

theorem Inside.front_le (h : s.Inside s₁ ns) : s.front ≤ s₁.front := by
  obtain ⟨hsame, -⟩ | h := h
  · exact hsame.front.ge
  · exact h.front_le.trans h.back_le

theorem Inside.pass (h : s.Inside s₁ ns) (h' : s₁.Fit s₂ []) : s.Inside s₂ ns := by
  simpa using (h.append_fit h').inside

theorem Fit.pass (h : s.Fit s₁ ns) (h' : s₁.Fit s₂ []) : s.Fit s₂ ns := by
  simpa using h.append_fit h'

theorem Fit.pass_inside (h : s.Fit s₁ ns) (h' : s₁.Inside s₂ []) : s.Fit s₂ ns := by
  simpa using h.append h'

theorem Fit.covers (h : s.Fit s₁ ns) (hstart : n.span.start = s.front) (hstop : n.span.stop = s₁.back)
    (hsub : ∀ c ∈ n.children, c ∈ ns) : s.Covers s₁ n := by
  have hnests : n.Nests := by
    refine .of_within ?_ fun c hc => ?_
    · rw [hstart, hstop]
      exact h.front_le
    · rw [hstart, hstop]
      exact h.nodes c (hsub c hc)
  have hwithin : n.Within s.front s₁.back := ⟨hstart.ge, hstop.le, hnests⟩
  exact ⟨h.reread (List.forall_mem_singleton.mpr hwithin), hstart, hstop⟩

theorem Fit.covers_through (h : s.Fit s₁ ns) (hspan : n.span = (s.ahead 0).span.through s₁.last)
    (hsub : ∀ c ∈ n.children, c ∈ ns) : s.Covers s₁ n :=
  h.covers (by rw [hspan]; rfl) (by rw [hspan]; exact Nat.max_eq_left h.front_le) hsub

theorem Covers.wrap {c : Node} (h : s.Covers s₁ n) (hspan : c.span = n.span)
    (hchildren : c.children = [n]) : s.Covers s₁ c :=
  h.fit.covers (hspan ▸ h.start) (hspan ▸ h.stop) fun _ hd => hchildren ▸ hd

theorem Fit.token_within (h : s.Fit s₁ ns) (hspan : n.span = (s.ahead 0).span) (hleaf : n.children = []) :
    n.Within s.front s₁.back := by
  refine ⟨?_, ?_, .of_within ?_ ?_⟩
  · rw [hspan]
    exact le_rfl
  · rw [hspan]
    exact h.stop_le
  · rw [hspan]
    exact h.token_le
  · rw [hleaf]
    exact nofun

theorem Covers.within (h : s.Covers s₁ n) : n.Within s.front s₁.back :=
  h.fit.nodes n (List.mem_singleton_self n)

theorem front_eq {l : Lexeme} {rest : List Lexeme} (h : s.left = l :: rest) : s.front = l.span.start := by
  rw [front, ahead_zero h]

theorem length_left : s.left.length = s.tokens.size - s.pos := by
  rw [left, List.length_drop, Array.length_toList]

theorem advance_fit (hs : s.Sound) : s.advance.Sound ∧ s.Fit s.advance [] := by
  obtain ⟨rest, last, lo, hleft, htoken, hlast, hordered⟩ := hs
  have hlength := length_left (s := s)
  rw [hleft, List.length_append, List.length_singleton] at hlength
  obtain - | ⟨hlo, hl, hinner, hrest⟩ := hordered
  · have hpos : s.advance.pos = s.pos := if_neg (by rw [List.length_nil] at hlength; omega)
    have hleft' : s.advance.left = [last] := by rw [left, hpos]; exact hleft
    have hback : s.advance.back = last.span.stop := by
      rw [back, advance, ahead_zero hleft]
    refine ⟨⟨[], last, last.span.start, hleft', htoken, hlast, .nil le_rfl⟩, ?_, ?_, ?_, ⟨[], ?_, nofun⟩,
      nofun⟩
    · rw [front_eq hleft, ahead_zero hleft, hlast]
    · rw [ahead_zero hleft, hback]
    · rw [front_eq hleft', hback, hlast]
    · rw [hleft, hleft', List.nil_append]
  · rename_i l rest
    have hpos : s.advance.pos = s.pos + 1 := if_pos (by rw [List.length_cons] at hlength; omega)
    have hleft' : s.advance.left = rest ++ [last] := by
      rw [left, hpos, ← List.tail_drop]
      exact congrArg List.tail hleft
    have hback : s.advance.back = l.span.stop := by
      rw [back, advance, ahead_zero hleft]
    have hfront : l.span.stop ≤ s.advance.front := by
      obtain hstop | ⟨hstart, -, -, -⟩ := hrest
      · rwa [front_eq hleft']
      · rwa [front_eq hleft']
    refine ⟨⟨rest, last, _, hleft', htoken, hlast, hrest⟩, ?_, ?_, ?_, ⟨[l], ?_, fun l' hl' => ?_⟩, nofun⟩
    · rw [front_eq hleft, ahead_zero hleft]
      exact hl.le
    · rw [ahead_zero hleft, hback]
    · rw [hback]
      exact hfront
    · rw [hleft, hleft']
      rfl
    · rw [List.mem_singleton.mp hl', front_eq hleft, hback]
      exact ⟨le_rfl, le_rfl⟩

end TokenStream

namespace Parse
variable {α β : Type} {s s₀ s₁ : TokenStream} {Q : α → TokenStream → Prop} {R : β → TokenStream → Prop}

def Ends (s : TokenStream) (x : Parse α) (Q : α → TokenStream → Prop) : Prop :=
  s.Sound → ∀ m a s', x m s = .ok (a, s') → s'.Sound ∧ Q a s'

def Reads (x : Parse α) (f : α → Node) : Prop := ∀ s, Ends s x fun a s' => s.Covers s' (f a)

def ReadsAll (x : Parse α) (f : α → List Node) : Prop := ∀ s, Ends s x fun a s' => s.Fit s' (f a)

def MayRead (x : Parse α) (f : α → List Node) : Prop := ∀ s, Ends s x fun a s' => s.Inside s' (f a)

namespace Ends
variable {x : Parse α}

theorem bind {k : α → Parse β} (hx : Ends s x Q) (hk : ∀ a s₁, Q a s₁ → Ends s₁ (k a) R) :
    Ends s (x >>= k) R := by
  intro hs m b s' h
  obtain ⟨a, s₁, hx', hk'⟩ := bind_eq_ok.mp h
  obtain ⟨hs₁, ha⟩ := hx hs m a s₁ hx'
  exact hk a s₁ ha hs₁ m b s' hk'

theorem mono {Q' : α → TokenStream → Prop} (hx : Ends s x Q) (h : ∀ a s', Q a s' → Q' a s') :
    Ends s x Q' := by
  intro hs m a s' hx'
  obtain ⟨hs', ha⟩ := hx hs m a s' hx'
  exact ⟨hs', h a s' ha⟩

theorem pure {a : α} (h : Q a s) : Ends s (Pure.pure a) Q := by
  rintro hs m a s' ⟨⟩
  exact ⟨hs, h⟩

theorem fail {span : Span} {what : SyntaxFault} : Ends s (Parse.fail span what : Parse α) Q := nofun

theorem unsupported {construct : String} : Ends s (Parse.unsupported construct : Parse α) Q := nofun

theorem stuck : Ends s (Parse.stuck : Parse α) Q := nofun

theorem unexpected : Ends s (Parse.unexpected : Parse α) Q := nofun

theorem fail_bind {γ : Type} {span : Span} {what : SyntaxFault} {k : γ → Parse α} :
    Ends s (Parse.fail span what >>= k) Q := nofun

theorem unexpected_bind {γ : Type} {k : γ → Parse α} : Ends s (Parse.unexpected >>= k) Q := nofun

theorem ite {b : Prop} [Decidable b] {y : Parse α} (hx : b → Ends s x Q) (hy : ¬ b → Ends s y Q) :
    Ends s (if b then x else y) Q := by
  split
  · exact hx ‹_›
  · exact hy ‹_›

theorem withReader {h : Mode → Mode} (hx : Ends s x Q) : Ends s (MonadWithReader.withReader h x) Q :=
  fun hs _ => hx hs _

theorem read_bind {k : Mode → Parse α} (h : ∀ m, Ends s (k m) Q) : Ends s (read >>= k) Q :=
  fun hs m => h m hs m

theorem sound (h : s.Sound → Ends s x Q) : Ends s x Q := fun hs => h hs hs

theorem set_bind {k : PUnit → Parse α} (hs : s₁.Sound) (h : Ends s₁ (k ⟨⟩) Q) : Ends s (set s₁ >>= k) Q :=
  fun _ => h hs

theorem modify_bind {f : TokenStream → TokenStream} {k : PUnit → Parse α} (hs : (f s).Sound)
    (h : Ends (f s) (k ⟨⟩) Q) : Ends s (modify f >>= k) Q := fun _ => h hs

theorem pure_bind {a : α} {k : α → Parse β} (h : Ends s (k a) R) : Ends s (Pure.pure a >>= k) R := h

theorem get_bind {k : TokenStream → Parse α} (h : Ends s (k s) Q) : Ends s (get >>= k) Q := h

theorem ofExcept_bind {r : Except ReadError α} {k : α → Parse β} (h : ∀ a, r = .ok a → Ends s (k a) R) :
    Ends s (ofExcept r >>= k) R := by
  cases r with
  | ok a => exact h a rfl
  | error e => exact nofun

theorem lexeme_bind {k : Lexeme → Parse α} (h : Ends s (k (s.ahead 0)) Q) : Ends s (lexeme >>= k) Q := h

theorem lexemeAt_bind {n : Nat} {k : Lexeme → Parse α} (h : Ends s (k (s.ahead n)) Q) :
    Ends s (lexemeAt n >>= k) Q := h

theorem peek_bind {k : Token → Parse α} (h : Ends s (k (s.ahead 0).token) Q) : Ends s (peek >>= k) Q := h

theorem peekAt_bind {n : Nat} {k : Token → Parse α} (h : Ends s (k (s.ahead n).token) Q) :
    Ends s (peekAt n >>= k) Q := h

theorem span_bind {k : Span → Parse α} (h : Ends s (k (s.ahead 0).span) Q) : Ends s (span >>= k) Q := h

theorem lastSpan_bind {k : Span → Parse α} (h : Ends s (k s.last) Q) : Ends s (lastSpan >>= k) Q := h

theorem at_bind {mark : Punctuator} {k : Bool → Parse α} (h : ∀ b, Ends s (k b) Q) :
    Ends s (at? mark >>= k) Q := h _

theorem atWord_bind {word : String} {k : Bool → Parse α} (h : ∀ b, Ends s (k b) Q) :
    Ends s (atWord word >>= k) Q := h _

theorem awaitAllowed_bind {k : Bool → Parse α} (h : ∀ b, Ends s (k b) Q) :
    Ends s (awaitAllowed >>= k) Q := fun hs m => h _ hs m

theorem advance_bind {k : Lexeme → Parse α}
    (h : ∀ s₁, s.Fit s₁ [] → s₁.last = (s.ahead 0).span → Ends s₁ (k (s.ahead 0)) Q) :
    Ends s (advance >>= k) Q := by
  intro hs
  obtain ⟨hs₁, hfit⟩ := s.advance_fit hs
  exact h s.advance hfit rfl hs₁

theorem eat {mark : Punctuator} {Q : Bool → TokenStream → Prop} (htrue : ∀ s₁, s.Fit s₁ [] → Q true s₁)
    (hfalse : Q false s) : Ends s (Parse.eat mark) Q :=
  at_bind fun _ => .ite (fun _ => .advance_bind fun s₁ h _ => .pure (htrue s₁ h)) fun _ => .pure hfalse

theorem eat_ite {mark : Punctuator} {x y : Parse α} (hx : ∀ s₁, s.Fit s₁ [] → Ends s₁ x Q)
    (hy : Ends s y Q) : Ends s (Parse.eat mark >>= fun b => if b then x else y) Q :=
  (eat (Q := fun b s₁ => Ends s₁ (if b then x else y) Q) hx hy).bind fun _ _ h => h

theorem eat_not_ite {mark : Punctuator} {x y : Parse α} (hx : ∀ s₁, s.Fit s₁ [] → Ends s₁ x Q)
    (hy : Ends s y Q) : Ends s (Parse.eat mark >>= fun b => if !b then y else x) Q :=
  (eat (Q := fun b s₁ => Ends s₁ (if !b then y else x) Q) hx hy).bind fun _ _ h => h

theorem eatWord_ite {word : String} {x y : Parse α} (hx : ∀ s₁, s.Fit s₁ [] → Ends s₁ x Q)
    (hy : Ends s y Q) : Ends s (eatWord word >>= fun b => if b then x else y) Q := by
  have heat : Ends s (eatWord word) fun b s₁ => Ends s₁ (if b then x else y) Q :=
    atWord_bind fun _ => .ite (fun _ => .advance_bind fun s₁ h _ => .pure (hx s₁ h)) fun _ => .pure hy
  exact heat.bind fun _ _ h => h

theorem expect_bind {mark : Punctuator} {k : Span → Parse α}
    (h : ∀ s₁, s.Fit s₁ [] → Ends s₁ (k (s.ahead 0).span) Q) : Ends s (expect mark >>= k) Q := by
  have hexpect : Ends s (expect mark) fun sp s₁ => Ends s₁ (k sp) Q :=
    at_bind fun _ => .ite (fun _ => .advance_bind fun s₁ hfit _ => .pure (h s₁ hfit)) fun _ => .unexpected
  exact hexpect.bind fun _ _ h => h

theorem expectWord_bind {word : String} {k : Span → Parse α}
    (h : ∀ s₁, s.Fit s₁ [] → Ends s₁ (k (s.ahead 0).span) Q) : Ends s (expectWord word >>= k) Q := by
  have hexpect : Ends s (expectWord word) fun sp s₁ => Ends s₁ (k sp) Q :=
    atWord_bind fun _ => .ite (fun _ => .advance_bind fun s₁ hfit _ => .pure (h s₁ hfit))
      fun _ => .unexpected
  exact hexpect.bind fun _ _ h => h

theorem semicolon_bind {k : Unit → Parse α} (h : ∀ s₁, s.Inside s₁ [] → Ends s₁ (k ()) Q) :
    Ends s (semicolon >>= k) Q := by
  have hsemicolon : Ends s semicolon fun _ s₁ => s.Inside s₁ [] := by
    refine eat_ite (fun s₁ h => .pure h.inside) (lexeme_bind (.ite (fun _ => .pure (.refl s)) fun _ => ?_))
    split
    · exact .pure (.refl s)
    · exact .pure (.refl s)
    · exact .unexpected
  exact hsemicolon.bind fun _ s₁ h₁ => h s₁ h₁

theorem bindingName_bind {k : String × Span → Parse α}
    (h : ∀ name s₁, s.Fit s₁ [] → s₁.last = (s.ahead 0).span → Ends s₁ (k (name, (s.ahead 0).span)) Q) :
    Ends s (bindingName >>= k) Q := by
  have hname : Ends s bindingName fun r s₁ => Ends s₁ (k r) Q := by
    refine lexeme_bind ?_
    split
    · refine .read_bind fun m => .ite (fun _ => .unexpected_bind) fun _ => ?_
      exact .advance_bind fun s₁ hfit hlast => .pure (h _ s₁ hfit hlast)
    · exact .unexpected
  exact hname.bind fun _ _ h => h

theorem finish_bind {start : Span} {k : Span → Parse α} (h : Ends s (k (start.through s.last)) Q) :
    Ends s (finish start >>= k) Q := h

theorem noteAwait_bind {k : Unit → Parse α} (h : ∀ s₁, s.Same s₁ → Ends s₁ (k ()) Q) :
    Ends s (noteAwait >>= k) Q := by
  have hnote : Ends s noteAwait fun _ s₁ => s.Same s₁ := by
    refine .read_bind fun m => .sound fun hs => .ite (fun _ => ?_) fun _ => .pure (.refl s)
    exact modify_bind (k := Pure.pure) hs (.pure ⟨rfl, rfl, rfl⟩)
  exact hnote.bind fun _ s₁ h₁ => h s₁ h₁

theorem loop {init : α} {step : α → Parse (α ⊕ β)} {I : α → TokenStream → Prop} (hi : I init s)
    (hs : ∀ a s₁, I a s₁ → Ends s₁ (step a) fun r s₂ => r.elim (I · s₂) (R · s₂)) :
    Ends s (Parse.loop init step) R := by
  have hiterate (n : Nat) (a : α) (s₁ : TokenStream) (ha : I a s₁) :
      Ends s₁ (Parse.iterate step n a) R := by
    induction n generalizing a s₁ with
    | zero => exact .stuck
    | succ n ih =>
      refine get_bind ((hs a s₁ ha).bind fun r s₂ hr => ?_)
      cases r with
      | inl a => exact get_bind (ite (fun _ => .stuck) fun _ => ih a s₂ hr)
      | inr b => exact .pure hr
  exact hiterate _ init s hi

end Ends

variable {x : Parse α} {k : α → Parse β} {base : List Node}

theorem Reads.withReader {f : α → Node} {h : Mode → Mode} (hx : Reads x f) :
    Reads (MonadWithReader.withReader h x) f := fun s => (hx s).withReader

theorem Reads.all {f : α → Node} (hx : Reads x f) : ReadsAll x fun a => [f a] :=
  fun s => (hx s).mono fun _ _ h => h.fit

theorem ReadsAll.may {f : α → List Node} (hx : ReadsAll x f) : MayRead x f :=
  fun s => (hx s).mono fun _ _ h => h.inside

theorem MayRead.next {f : α → List Node} (hx : MayRead x f) (h : s₀.Inside s base)
    (hk : ∀ a s₁, s₀.Inside s₁ (base ++ f a) → Ends s₁ (k a) R) : Ends s (x >>= k) R :=
  (hx s).bind fun a s₁ ha => hk a s₁ (h.append ha)

theorem ReadsAll.next {f : α → List Node} (hx : ReadsAll x f) (h : s₀.Inside s base)
    (hk : ∀ a s₁, s₀.Inside s₁ (base ++ f a) → Ends s₁ (k a) R) : Ends s (x >>= k) R := hx.may.next h hk

theorem Reads.next {f : α → Node} (hx : Reads x f) (h : s₀.Inside s base)
    (hk : ∀ a s₁, s₀.Inside s₁ (base ++ [f a]) → Ends s₁ (k a) R) : Ends s (x >>= k) R := hx.all.next h hk

end Parse

/-- The node of what a construct is read as. -/
def Goal.node : (goal : Goal) → goal.Tree → Node
  | .statement, st => .statement st
  | .binding, t => .pattern t
  | .assignment, e | .binary _, e | .unary, e | .leftHandSide, e => .expression e

def Grammar.Covers (g : Grammar) : Prop := ∀ goal, Parse.Reads (g.run goal) goal.node

namespace Grammar.Covers
variable {g : Grammar}

theorem statement (hg : g.Covers) : Parse.Reads g.statement .statement := hg .statement

theorem assignment (hg : g.Covers) : Parse.Reads g.assignment .expression := hg .assignment

theorem binary (hg : g.Covers) (floor : Nat) : Parse.Reads (g.binary floor) .expression :=
  hg (.binary floor)

theorem unary (hg : g.Covers) : Parse.Reads g.unary .expression := hg .unary

theorem leftHandSide (hg : g.Covers) : Parse.Reads g.leftHandSide .expression := hg .leftHandSide

theorem binding (hg : g.Covers) : Parse.Reads g.binding .pattern := hg .binding

end Grammar.Covers
end EcmaScript
