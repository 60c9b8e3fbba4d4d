import EcmaScript.Parser.Expression
import EcmaScript.Proofs.Token.Quoted

/-! Trees of names and operators as texts, with parentheses only where an operand would come apart, and
the tokens of such texts. -/
namespace EcmaScript
open EcmaScript.Text

def contextualWords : List String := ["await", "let", "of", "yield"]

/-- A name that means nothing else, wherever an operand may stand. -/
structure PlainName where
  text : String
  start : text.toList.head?.any isNameStart = true
  part : text.toList.tail.all isNamePart = true
  free : isReserved text = false
  plain : text ∉ contextualWords

theorem PlainName.spelled (n : PlainName) : ∃ c rest, n.text.toList = c :: rest ∧ isNameStart c = true ∧
    ∀ d ∈ rest, isNamePart d = true := by
  have hstart := n.start
  have hpart := n.part
  cases htext : n.text.toList with
  | nil =>
    rw [htext] at hstart
    cases hstart
  | cons c rest =>
    rw [htext] at hstart hpart
    exact ⟨c, rest, rfl, hstart, List.all_eq_true.mp hpart⟩

namespace InfixOp

/-- How an operator is written: with a mark, or as a word. -/
def spelling : InfixOp → Punctuator ⊕ String
  | .logical .nullish => .inl .nullish
  | .logical .or => .inl .logicalOr
  | .logical .and => .inl .logicalAnd
  | .binary .bitOr => .inl .bitOr
  | .binary .bitXor => .inl .bitXor
  | .binary .bitAnd => .inl .bitAnd
  | .binary .equal => .inl .equal
  | .binary .notEqual => .inl .notEqual
  | .binary .strictEqual => .inl .strictEqual
  | .binary .strictNotEqual => .inl .strictNotEqual
  | .binary .less => .inl .less
  | .binary .greater => .inl .greater
  | .binary .lessEqual => .inl .lessEqual
  | .binary .greaterEqual => .inl .greaterEqual
  | .binary .instanceOf => .inr "instanceof"
  | .binary .isIn => .inr "in"
  | .binary .shl => .inl .shiftLeft
  | .binary .shr => .inl .shiftRight
  | .binary .ushr => .inl .unsignedShiftRight
  | .binary .add => .inl .plus
  | .binary .sub => .inl .minus
  | .binary .mul => .inl .star
  | .binary .div => .inl .slash
  | .binary .mod => .inl .percent
  | .binary .exp => .inl .exponent

def text (op : InfixOp) : String := op.spelling.elim Punctuator.text id

def token (op : InfixOp) : Token := op.spelling.elim .punctuator .identifier

/-- How tight an operator binds. -/
def precedence : InfixOp → Nat
  | .logical .nullish | .logical .or => 1
  | .logical .and => 2
  | .binary .bitOr => 3
  | .binary .bitXor => 4
  | .binary .bitAnd => 5
  | .binary .equal | .binary .notEqual | .binary .strictEqual | .binary .strictNotEqual => 6
  | .binary .less | .binary .greater | .binary .lessEqual | .binary .greaterEqual
  | .binary .instanceOf | .binary .isIn => 7
  | .binary .shl | .binary .shr | .binary .ushr => 8
  | .binary .add | .binary .sub => 9
  | .binary .mul | .binary .div | .binary .mod => 10
  | .binary .exp => 11

def associatesRight (op : InfixOp) : Bool := op = .binary .exp

theorem infixOp?_token (op : InfixOp) : infixOp? false op.token = some (op.precedence, op) := by
  obtain op | op := op <;> cases op <;> rfl

end InfixOp

/-- Names joined by operators. -/
inductive OperatorTree where
  | name (n : PlainName)
  | node (op : InfixOp) (left right : OperatorTree)

namespace OperatorTree

/-- How tight a tree holds together: as tight as its outermost operator, and a name tighter than all. -/
def precedence : OperatorTree → Nat
  | .name _ => 12
  | .node op _ _ => op.precedence

def needsParens (op : InfixOp) (onRight : Bool) (t : OperatorTree) : Bool :=
  t.precedence < op.precedence || t.precedence == op.precedence && onRight != op.associatesRight

/-- A tree with blanks around its operators, and with parentheses where they are needed. -/
def text : OperatorTree → String
  | .name n => n.text
  | .node op l r => enclosed (needsParens op false l) l.text ++ " " ++ op.text ++ " " ++
      enclosed (needsParens op true r) r.text
where
  enclosed (parens : Bool) (text : String) : String := if parens then "(" ++ text ++ ")" else text

/-- The tokens of the text of a tree. -/
def tokens : OperatorTree → List Token
  | .name n => [.identifier n.text]
  | .node op l r => enclosed (needsParens op false l) l.tokens ++ op.token ::
      enclosed (needsParens op true r) r.tokens
where
  enclosed (parens : Bool) (found : List Token) : List Token :=
    if parens then .punctuator .lParen :: (found ++ [.punctuator .rParen]) else found

end OperatorTree

/-! Characters that names start with. -/

namespace Text

theorem IntervalTable.exists_of_holds {table : IntervalTable} {n : Nat} (h : table.holds n = true) :
    ∃ p ∈ table, p.1 ≤ n ∧ n ≤ p.2 := by
  unfold holds at h
  split at h
  · next lo hi hget =>
    simp only [Bool.and_eq_true, decide_eq_true_eq] at h
    exact ⟨(lo, hi), Array.mem_of_getElem? hget, h⟩
  · cases h

end Text

theorem isBlank_of_lineTerminator {c : Char} (h : isLineTerminator c = true) : isBlank c = true := by
  simp only [isLineTerminator, Bool.or_eq_true, beq_iff_eq] at h
  obtain ((rfl | rfl) | rfl) | rfl := h
  all_goals cbv

theorem not_blank_of_start {c : Char} (h : isNameStart c = true) : isBlank c = false := by
  have hnone : ∀ p ∈ whiteSpaceTable.push (0xFEFF, 0xFEFF), ∀ n ∈ List.range' p.1 (p.2 + 1 - p.1),
      isNameStart (Char.ofNat n) = false := by decide +kernel
  by_contra hblank
  have hheld : ∃ p ∈ whiteSpaceTable.push (0xFEFF, 0xFEFF), p.1 ≤ c.toNat ∧ c.toNat ≤ p.2 := by
    rw [Bool.not_eq_false, isBlank, Bool.or_eq_true] at hblank
    obtain hblank | hblank := hblank
    · obtain ⟨p, hp, hheld⟩ := IntervalTable.exists_of_holds hblank
      exact ⟨p, Array.mem_push_of_mem _ hp, hheld⟩
    · obtain rfl := eq_of_beq hblank
      exact ⟨_, Array.mem_push_self, by decide⟩
  obtain ⟨p, hp, hlo, hhi⟩ := hheld
  have hfalse := hnone p hp c.toNat (by rw [List.mem_range'_1]; omega)
  rw [Char.ofNat_toNat, h] at hfalse
  cases hfalse

namespace Scan
variable {text rest word : List Char} {last : Option Token} {found more : List Token} {fuel : Nat}
  {newline : Bool} {c : Char}

theorem trivia_blank {s : Cursor} (hs : s.rest = ' ' :: rest) :
    (trivia (fuel + 1) newline).run s = (trivia fuel newline).run s.next := by
  rw [trivia, run_get_bind, hs]
  split
  · next h => cases (List.cons.inj h).1
  · next h => cases (List.cons.inj h).1
  · next h =>
    obtain ⟨rfl, rfl⟩ := List.cons.inj h
    rw [if_neg (by decide), if_pos (by cbv)]
    rfl
  · next h => cases h

def Lexes (last : Option Token) (text : List Char) (found : List Token) : Prop :=
  ∀ fuel newline before, text.length < fuel → before.head?.map Lexeme.token = last →
    Takes (tokens false fuel 0 newline before) text
      (·.1.map Lexeme.token = before.reverse.map Lexeme.token ++ found) []

theorem lexes_nil : Lexes last [] [] := by
  intro fuel newline before hfuel _
  obtain ⟨fuel, rfl⟩ := Nat.exists_eq_add_of_lt hfuel
  refine tokens_end.mono ?_
  rintro _ rfl
  exact (List.append_nil _).symm

theorem lexes_blank (h : Lexes last text found) : Lexes last (' ' :: text) found := by
  intro fuel newline before hfuel hlast s hs
  obtain - | fuel := fuel
  · cases hfuel
  have hnext : s.next.rest = text := by rw [Cursor.rest_next, hs, List.tail_cons]
  have hsame : (tokens false (fuel + 1) 0 newline before).run s =
      (tokens false (fuel + 1) 0 newline before).run s.next := by
    have hbound {α : Type} (k : Nat → Scan α) (s : Cursor) : (bound >>= k).run s = (k (s.rest.length + 1)).run s :=
      rfl
    rw [tokens, hbound, hbound, run_bind, run_bind, hs, List.length_cons, trivia_blank hs, hnext]
  rw [hsame]
  exact h _ _ _ (Nat.lt_of_succ_lt hfuel) hlast _ hnext

/-! Words and marks. -/

def EndsWord (rest : List Char) : Prop := ∀ d ∈ rest.head?, isNamePart d = false ∧ d ≠ '\\'

theorem endsWord_blank : EndsWord (' ' :: rest) := by
  rintro d ⟨⟩
  exact ⟨by decide, by decide⟩

theorem nameRest_takes {value : String} (hword : ∀ d ∈ word, isNamePart d = true) (hend : EndsWord rest)
    (hfuel : word.length < fuel) :
    Takes (nameRest fuel value) (word ++ rest) (· = value ++ String.ofList word) rest := by
  induction word generalizing fuel value with
  | nil =>
    obtain ⟨fuel, rfl⟩ := Nat.exists_eq_add_of_lt hfuel
    have hvalue : value = value ++ String.ofList [] := (String.append_empty).symm
    rw [List.length_nil, Nat.zero_add, nameRest]
    refine .peek_bind ?_
    cases rest with
    | nil => exact .pure hvalue
    | cons d rest =>
      obtain ⟨hpart, hback⟩ := hend d rfl
      rw [List.nil_append, List.head?_cons]
      split
      · next h => exact absurd (Option.some.inj h) hback
      · next h =>
        obtain rfl := Option.some.inj h
        rw [hpart]
        exact .pure hvalue
      · next h => cases h
  | cons d word ih =>
    obtain ⟨fuel, rfl⟩ := Nat.exists_eq_add_of_lt (Nat.zero_lt_of_lt hfuel)
    have hpart := hword d List.mem_cons_self
    have hback : d ≠ '\\' := by
      rintro rfl
      exact absurd hpart (by decide)
    have hvalue : value ++ String.ofList (d :: word) = value.push d ++ String.ofList word := by
      rw [← String.toList_inj]
      simp
    rw [Nat.zero_add, nameRest, hvalue]
    refine .peek_bind ?_
    rw [List.cons_append, List.head?_cons]
    split
    · next h => exact absurd (Option.some.inj h) hback
    · next h =>
      obtain rfl := Option.some.inj h
      rw [hpart]
      exact .skip_bind (ih (fun d hd => hword d (List.mem_cons_of_mem _ hd)) (by simpa using hfuel))
    · next h => cases h

theorem lexes_word (hstart : isNameStart c = true) (hword : ∀ d ∈ word, isNamePart d = true)
    (hend : EndsWord rest) (h : Lexes (some (.identifier (String.ofList (c :: word)))) rest found) :
    Lexes last (c :: word ++ rest) (.identifier (String.ofList (c :: word)) :: found) := by
  intro fuel newline before hfuel hlast
  obtain ⟨fuel, rfl⟩ := Nat.exists_eq_add_of_lt (Nat.zero_lt_of_lt hfuel)
  have hblank := not_blank_of_start hstart
  have hterminator : isLineTerminator c = false :=
    Bool.eq_false_iff.mpr fun h => absurd (isBlank_of_lineTerminator h) (Bool.eq_false_iff.mp hblank)
  have hslash : c = '/' → ∀ d ∈ (word ++ rest).head?, d ≠ '/' ∧ d ≠ '*' := by
    rintro rfl
    exact absurd hstart (by decide)
  have hname : Takes name (c :: word ++ rest) (· = String.ofList (c :: word)) rest := by
    refine .bound_bind ((nameRest_takes ?_ hend ?_).mono fun value hvalue => by rw [hvalue, String.empty_append])
    · exact List.forall_mem_cons.mpr ⟨isNamePart_of_start hstart, hword⟩
    · rw [List.length_append]
      omega
  rw [Nat.zero_add, tokens]
  refine .bound_bind ((trivia_stays hslash hterminator hblank).bind ?_)
  rintro _ rfl
  refine .get_bind fun s hs => ?_
  rw [Cursor.peek, hs]
  dsimp only [List.cons_append, List.head?_cons]
  rw [if_neg (by simp)]
  refine .peekAt_bind fun d => ?_
  rw [if_pos (by simp [hstart])]
  refine hname.bind fun value hvalue => .pure_bind (.get_bind fun stop _ => ?_)
  subst hvalue
  refine (h _ _ _ ?_ rfl).mono fun r hr => ?_
  · simp only [List.cons_append, List.length_cons, List.length_append] at hfuel
    omega
  · rw [hr, List.reverse_cons, List.map_append, List.append_assoc]
    rfl

def markChars : List Char := ['(', ')', '?', '|', '&', '^', '=', '!', '<', '>', '+', '-', '*', '/', '%']

def isElsewhere (c : Char) : Bool :=
  isLineTerminator c || isBlank c || (isNameStart c || c == '\\') || (c.isDigit || c == '.') ||
    (c == '"' || c == '\'') || c == '`' || c == '#'

theorem not_elsewhere_of_mark (hc : c ∈ markChars) : isElsewhere c = false := by
  have hall : markChars.all (!isElsewhere ·) = true := by cbv
  simpa using List.all_eq_true.mp hall c hc

theorem lexes_mark {p : Punctuator} {n : Nat} (hc : c ∈ markChars)
    (hmark : Punctuator.longest? (c :: rest) = some (p, n + 1)) (hopen : p ≠ .lBrace) (hclose : p ≠ .rBrace)
    (hslash : c = '/' → regExpMayFollow last = false ∧ ∀ d ∈ rest.head?, d ≠ '/' ∧ d ≠ '*')
    (h : Lexes (some (.punctuator p)) (rest.drop n) found) :
    Lexes last (c :: rest) (.punctuator p :: found) := by
  intro fuel newline before hfuel hlast
  obtain ⟨fuel, rfl⟩ := Nat.exists_eq_add_of_lt (Nat.zero_lt_of_lt hfuel)
  have hc := not_elsewhere_of_mark hc
  simp only [isElsewhere, Bool.or_eq_false_iff] at hc
  obtain ⟨⟨⟨⟨⟨⟨hterminator, hblank⟩, hstart, hback⟩, hdigit, hdot⟩, hquote, hquote'⟩, htemplate⟩, hhash⟩ := hc
  have hdivides : (c == '/' && regExpMayFollow (before.head?.map Lexeme.token)) = false := by
    by_cases hc : c = '/'
    · rw [hlast, (hslash hc).1, Bool.and_false]
    · rw [beq_eq_false_iff_ne.mpr hc, Bool.false_and]
  have hpunctuator : Takes punctuator (c :: rest) (· = p) (rest.drop n) := by
    refine .get_bind fun s hs => ?_
    rw [hs, hmark]
    exact .skip_bind (.pure rfl)
  rw [Nat.zero_add, tokens]
  refine .bound_bind ((trivia_stays (fun hc => (hslash hc).2) hterminator hblank).bind ?_)
  rintro _ rfl
  refine .get_bind fun s hs => ?_
  rw [Cursor.peek, hs]
  dsimp only [List.head?_cons]
  rw [if_neg (by simp)]
  refine .peekAt_bind fun d => ?_
  rw [if_neg (by simp [hstart, hback]), if_neg (by simp [hdigit, hdot]), if_neg (by simp [hquote, hquote']),
    if_neg (by simp [htemplate]), if_neg (by simp [hhash]), if_neg (by simp [hdivides])]
  refine hpunctuator.bind fun mark hp => .pure_bind (.get_bind fun stop _ => ?_)
  subst hp
  dsimp only
  rw [if_neg hopen, if_neg hclose]
  refine (h _ _ _ ?_ rfl).mono fun r hr => ?_
  · rw [List.length_cons] at hfuel
    rw [List.length_drop]
    omega
  · rw [hr, List.reverse_cons, List.map_append, List.append_assoc]
    rfl

/-! Trees. -/

/-- Wherever a text stands that is an operand, its tokens are `found`. Behind an operand a slash divides. -/
def LexesOperand (text : List Char) (found : List Token) : Prop :=
  ∀ last rest more, (∀ last', regExpMayFollow last' = false → Lexes last' rest more) → EndsWord rest →
    Lexes last (text ++ rest) (found ++ more)

theorem lexesOperand_name (n : PlainName) : LexesOperand n.text.toList [.identifier n.text] := by
  intro last rest more hrest hend
  obtain ⟨c, word, htext, hstart, hword⟩ := n.spelled
  have hname : String.ofList (c :: word) = n.text := by rw [← htext, String.ofList_toList]
  have hbefore : ∀ w ∈ wordsBeforeExpression, isReserved w = true ∨ w ∈ contextualWords := by decide
  have hdivides : regExpMayFollow (some (.identifier n.text)) = false := by
    by_contra hword
    rw [Bool.not_eq_false, regExpMayFollow, List.contains_iff_mem] at hword
    obtain h | h := hbefore _ hword
    · exact absurd (n.free.symm.trans h) nofun
    · exact n.plain h
  rw [htext, ← hname]
  exact lexes_word hstart hword hend (hname ▸ hrest _ hdivides)

theorem lexesOperand_enclosed {t : String} {parens : Bool} (h : LexesOperand t.toList found) :
    LexesOperand (OperatorTree.text.enclosed parens t).toList (OperatorTree.tokens.enclosed parens found) := by
  cases parens with
  | false => exact h
  | true =>
    intro last rest more hrest hend
    rw [OperatorTree.text.enclosed, OperatorTree.tokens.enclosed, if_pos rfl, if_pos rfl, String.toList_append,
      String.toList_append, List.append_assoc, List.append_assoc, List.cons_append, List.append_assoc]
    refine lexes_mark (n := 0) (by decide) rfl nofun nofun nofun ?_
    refine h _ _ _ (fun last' _ => ?_) ?_
    · exact lexes_mark (n := 0) (by decide) rfl nofun nofun nofun (hrest _ rfl)
    · rintro d ⟨⟩
      exact ⟨by decide, by decide⟩

theorem spelled_mark {op : InfixOp} {p : Punctuator} (h : op.spelling = .inl p) : ∃ c tail,
    p.text = String.ofList (c :: tail) ∧ c ∈ markChars ∧ (c = '/' → tail = []) ∧ p ≠ .lBrace ∧ p ≠ .rBrace ∧
      ∀ rest, Punctuator.longest? (c :: (tail ++ ' ' :: rest)) = some (p, tail.length + 1) := by
  obtain op | op := op <;> cases op <;> cases h
  all_goals exact ⟨_, _, rfl, by decide, by decide, nofun, nofun, fun _ => rfl⟩

theorem spelled_word {op : InfixOp} {w : String} (h : op.spelling = .inr w) : ∃ c tail,
    w = String.ofList (c :: tail) ∧ isNameStart c = true ∧ tail.all isNamePart = true := by
  obtain op | op := op <;> cases op <;> cases h
  all_goals exact ⟨_, _, rfl, by decide, by decide⟩

theorem lexes_operator {op : InfixOp} (hlast : regExpMayFollow last = false)
    (h : ∀ last', Lexes last' rest found) :
    Lexes last (op.text.toList ++ ' ' :: rest) (op.token :: found) := by
  rw [InfixOp.text, InfixOp.token]
  cases hop : op.spelling with
  | inl p =>
    obtain ⟨c, tail, hp, hc, hslash, hopen, hclose, hlongest⟩ := spelled_mark hop
    rw [Sum.elim_inl, Sum.elim_inl, hp, String.toList_ofList]
    refine lexes_mark hc (hlongest rest) hopen hclose (fun hc => ⟨hlast, ?_⟩) ?_
    · rw [hslash hc]
      rintro d ⟨⟩
      decide
    · change Lexes _ ((tail ++ ' ' :: rest).drop tail.length) _
      rw [List.drop_left]
      exact lexes_blank (h _)
  | inr w =>
    obtain ⟨c, tail, rfl, hstart, hpart⟩ := spelled_word hop
    rw [Sum.elim_inr, Sum.elim_inr, id, String.toList_ofList]
    exact lexes_word hstart (List.all_eq_true.mp hpart) endsWord_blank (lexes_blank (h _))

theorem lexesOperand_tree (t : OperatorTree) : LexesOperand t.text.toList t.tokens := by
  induction t with
  | name n => exact lexesOperand_name n
  | node op l r hl hr =>
    intro last rest more hrest hend
    simp only [OperatorTree.text, OperatorTree.tokens, String.toList_append, List.append_assoc, List.cons_append]
    refine lexesOperand_enclosed hl _ _ _ (fun last' hlast => lexes_blank ?_) endsWord_blank
    exact lexes_operator hlast fun last' => lexesOperand_enclosed hr _ _ _ hrest hend

theorem head?_text (t : OperatorTree) : ∃ c text, t.text.toList = c :: text ∧ c ≠ '#' := by
  have henclosed (parens : Bool) {s : String} (h : ∃ c text, s.toList = c :: text ∧ c ≠ '#') :
      ∃ c text, (OperatorTree.text.enclosed parens s).toList = c :: text ∧ c ≠ '#' := by
    cases parens with
    | false => exact h
    | true => exact ⟨'(', (s ++ ")").toList, by simp [OperatorTree.text.enclosed], by decide⟩
  induction t with
  | name n =>
    obtain ⟨c, word, htext, hstart, -⟩ := n.spelled
    refine ⟨c, word, htext, ?_⟩
    rintro rfl
    exact absurd hstart (by decide)
  | node op l r hl hr =>
    obtain ⟨c, text, htext, hc⟩ := henclosed (OperatorTree.needsParens op false l) hl
    exact ⟨c, _, by simp only [OperatorTree.text, String.toList_append, htext, List.cons_append]; rfl, hc⟩

end Scan

theorem OperatorTree.tokenize_text (t : OperatorTree) :
    (tokenize t.text).map (·.map Lexeme.token) = .ok (t.tokens ++ [.endOfInput]) := by
  have hlexes : Scan.Lexes none t.text.toList t.tokens := by
    simpa using Scan.lexesOperand_tree t none [] [] (fun _ _ => Scan.lexes_nil) nofun
  have hread : Scan.Takes Scan.script t.text.toList (·.map Lexeme.token = t.tokens ++ [.endOfInput]) [] := by
    obtain ⟨c, text, htext, hc⟩ := Scan.head?_text t
    rw [Scan.script]
    refine .get_bind fun s hs => ?_
    rw [hs]
    split
    · next h =>
      rw [htext] at h
      exact absurd (List.cons.inj h).1 hc
    · refine .bound_bind ((hlexes _ _ [] (Nat.lt_succ_self _) rfl).bind fun r hr => .here_bind fun span => .pure ?_)
      rw [List.map_append, hr]
      rfl
  obtain ⟨found, hrun, hfound, -⟩ := hread (Cursor.start t.text) rfl
  rw [tokenize, hrun]
  exact congrArg _ hfound

end EcmaScript
