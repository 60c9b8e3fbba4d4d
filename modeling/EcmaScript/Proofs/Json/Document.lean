import EcmaScript.Json.Reader
import EcmaScript.Library.Json
import EcmaScript.Proofs.Spelling
import EcmaScript.Proofs.Text.Units

/-! How documents are spelled, and what the reader takes from the characters ahead: blanks, strings and
integers. -/
namespace EcmaScript.Json
open EcmaScript.Text

namespace Read
variable {α β : Type}

def Takes (x : Read α) (before : List Char) (a : α) (after : List Char) : Prop :=
  ∀ i, ∃ j, x.run ⟨before, i⟩ = .ok (a, ⟨after, j⟩)

theorem split_run {p : Char → Bool} {run rest : List Char} (hrun : ∀ c ∈ run, p c = true)
    (hrest : ∀ c, rest.head? = some c → p c = false) :
    (run ++ rest).takeWhile p = run ∧ (run ++ rest).dropWhile p = rest := by
  rw [List.takeWhile_append_of_pos hrun, List.dropWhile_append_of_pos hrun]
  cases rest with
  | nil => simp
  | cons c rest => simp [hrest c rfl]

namespace Takes
variable {x : Read α} {a : α} {b : β} {before between after : List Char}

theorem bind {k : α → Read β} (hx : Takes x before a between) (hk : Takes (k a) between b after) :
    Takes (x >>= k) before b after := by
  intro i
  obtain ⟨j, hrun⟩ := hx i
  obtain ⟨l, hrun'⟩ := hk j
  refine ⟨l, ?_⟩
  rw [StateT.run_bind, hrun]
  exact hrun'

theorem pure : Takes (Pure.pure a) before a before := fun i => ⟨i, rfl⟩

theorem get_bind {k : Input → Read β} (h : ∀ i, Takes (k ⟨before, i⟩) before b after) :
    Takes (get >>= k) before b after := fun i => h i i

theorem peek_bind {k : Option Char → Read β} (h : Takes (k before.head?) before b after) :
    Takes (peek >>= k) before b after := fun i => h i

theorem skip_bind {c : Char} {k : Unit → Read β} (h : Takes (k ()) before b after) :
    Takes (skip >>= k) (c :: before) b after := fun _ => h _

theorem next_bind {c : Char} {k : Option Char → Read β} (h : Takes (k (some c)) before b after) :
    Takes (next >>= k) (c :: before) b after := fun _ => h _

theorem skipWhile_bind {p : Char → Bool} {k : List Char → Read β}
    (h : Takes (k (before.takeWhile p)) (before.dropWhile p) b after) : Takes (skipWhile p >>= k) before b after :=
  fun _ => h _

theorem peekToken_bind {blanks rest : List Char} {k : Option Char → Read β} (hblanks : ∀ c ∈ blanks, isSpace c = true)
    (hrest : ∀ c, rest.head? = some c → isSpace c = false) (h : Takes (k rest.head?) rest b after) :
    Takes (peekToken >>= k) (blanks ++ rest) b after := by
  refine bind (x := peekToken) (.skipWhile_bind fun i => ⟨i, ?_⟩) h
  rw [(split_run hblanks hrest).2]
  rfl

theorem peekToken_here_bind {k : Option Char → Read β} (hhead : ∀ c, before.head? = some c → isSpace c = false)
    (h : Takes (k before.head?) before b after) : Takes (peekToken >>= k) before b after := by
  rw [← List.nil_append before]
  exact .peekToken_bind nofun hhead h

end Takes

section String
variable {c : Char} {rest after : List Char} {value : String} {fuel : Nat}

theorem digitValue?_hexDigit {n : Nat} (hn : n < 16) : Number.digitValue? 16 (hexDigit n) = some n := by
  have hall : ∀ k : Fin 16, Number.digitValue? 16 (hexDigit k.val) = some k.val := by decide
  exact hall ⟨n, hn⟩

theorem escape_letter {e : Char} (h : (e, c) ∈ [('\x22', '\x22'), ('\\', '\\'), ('n', '\n'), ('r', '\r'), ('t', '\t'),
    ('b', '\x08'), ('f', '\x0c')]) : Takes escape (e :: rest) c rest := by
  simp only [List.mem_cons, Prod.mk.injEq, List.not_mem_nil, or_false] at h
  obtain ⟨rfl, rfl⟩ | ⟨rfl, rfl⟩ | ⟨rfl, rfl⟩ | ⟨rfl, rfl⟩ | ⟨rfl, rfl⟩ | ⟨rfl, rfl⟩ | ⟨rfl, rfl⟩ := h <;>
    exact .peek_bind (.get_bind fun _ => .skip_bind .pure)

theorem escape_control (h : c.toNat < 0x20) :
    Takes escape ('u' :: '0' :: '0' :: hexDigit (c.toNat / 16) :: hexDigit (c.toNat % 16) :: rest) c rest := by
  have hcode : ((0 * 16 + 0) * 16 + c.toNat / 16) * 16 + c.toNat % 16 = c.toNat := by omega
  have hex : Takes hexEscape ('0' :: '0' :: hexDigit (c.toNat / 16) :: hexDigit (c.toNat % 16) :: rest) c.toNat
      rest := by
    refine .get_bind fun i => ?_
    have hzero : Number.digitValue? 16 '0' = some 0 := by decide
    simp only [hzero, digitValue?_hexDigit (n := c.toNat / 16) (by omega),
      digitValue?_hexDigit (n := c.toNat % 16) (by omega), hcode]
    exact fun _ => ⟨_, rfl⟩
  refine .peek_bind (.get_bind fun _ => .skip_bind (hex.bind ?_))
  rw [if_neg (by omega), if_neg (by omega), charOfCode_toNat]
  exact .pure

theorem quoteChar_cases (c : Char) :
    ((quoteChar c).toList = [c] ∧ c ≠ '\x22' ∧ c ≠ '\\' ∧ ¬ c.toNat < 0x20) ∨
      ∃ cs, (quoteChar c).toList = '\\' :: cs ∧ ∀ rest, Takes escape (cs ++ rest) c rest := by
  fun_cases quoteChar c with
  | case1 h => exact .inr ⟨['\x22'], rfl, fun _ => escape_letter (by simp [h])⟩
  | case2 _ h => exact .inr ⟨['\\'], rfl, fun _ => escape_letter (by simp [h])⟩
  | case3 _ _ h => exact .inr ⟨['n'], rfl, fun _ => escape_letter (by simp [h])⟩
  | case4 _ _ _ h => exact .inr ⟨['r'], rfl, fun _ => escape_letter (by simp [h])⟩
  | case5 _ _ _ _ h => exact .inr ⟨['t'], rfl, fun _ => escape_letter (by simp [h])⟩
  | case6 _ _ _ _ _ h => exact .inr ⟨['b'], rfl, fun _ => escape_letter (by simp [h])⟩
  | case7 _ _ _ _ _ _ h => exact .inr ⟨['f'], rfl, fun _ => escape_letter (by simp [h])⟩
  | case8 _ _ _ _ _ _ _ hcontrol =>
    exact .inr ⟨['u', '0', '0', hexDigit (c.toNat / 16), hexDigit (c.toNat % 16)], by simp,
      fun _ => escape_control hcontrol⟩
  | case9 hquote hback _ _ _ _ _ hcontrol => exact .inl ⟨by simp, hquote, hback, hcontrol⟩

theorem stringRest_quoteChar {a : String} (h : Takes (stringRest fuel (value.push c)) rest a after) :
    Takes (stringRest (fuel + 1) value) ((quoteChar c).toList ++ rest) a after := by
  rw [stringRest]
  obtain ⟨hplain, hquote, hback, hcontrol⟩ | ⟨cs, hescaped, hescape⟩ := quoteChar_cases c
  · rw [hplain]
    refine .next_bind ?_
    dsimp only
    rw [if_neg hquote, if_neg hback, if_neg hcontrol]
    exact h
  · rw [hescaped]
    refine .next_bind ?_
    dsimp only
    rw [if_neg (by decide), if_pos rfl]
    exact (hescape rest).bind h

theorem stringRest_quoted {cs : List Char} (hfuel : cs.length < fuel) :
    Takes (stringRest fuel value) (cs.flatMap (fun c => (quoteChar c).toList) ++ '\x22' :: after)
      (value ++ String.ofList cs) after := by
  induction cs generalizing fuel value with
  | nil =>
    obtain - | fuel := fuel
    · cases hfuel
    rw [stringRest]
    refine .next_bind ?_
    dsimp only
    rw [if_pos rfl, String.ofList_nil, String.append_empty]
    exact .pure
  | cons c cs ih =>
    obtain - | fuel := fuel
    · cases hfuel
    have hvalue : value ++ String.ofList (c :: cs) = value.push c ++ String.ofList cs := by
      rw [← String.toList_inj]
      simp
    rw [List.flatMap_cons, List.append_assoc, hvalue]
    exact stringRest_quoteChar (ih (Nat.lt_of_succ_lt_succ hfuel))

theorem toList_quote {s : String} :
    (quote s).toList = '\x22' :: (s.toList.flatMap (fun c => (quoteChar c).toList) ++ ['\x22']) := by
  have hfold (cs : List Char) (out : String) : (cs.foldl (fun out c => out ++ quoteChar c) out).toList =
      out.toList ++ cs.flatMap fun c => (quoteChar c).toList := by
    induction cs generalizing out with
    | nil => simp
    | cons c cs ih => simp [ih]
  rw [quote, String.foldl_eq_foldl_toList, String.toList_push, hfold]
  rfl

theorem string_quoted {s : String} :
    Takes string (s.toList.flatMap (fun c => (quoteChar c).toList) ++ '\x22' :: after) s after := by
  refine .get_bind fun i => ?_
  have hlength : s.toList.length ≤ (s.toList.flatMap fun c => (quoteChar c).toList).length := by
    rw [List.length_flatMap]
    refine (Nat.le_of_eq (by simp)).trans (List.sum_le_sum (f := fun _ => 1) fun c _ => ?_)
    obtain ⟨h, -⟩ | ⟨cs, h, -⟩ := quoteChar_cases c <;> simp [h]
  let quoted := s.toList.flatMap (fun c => (quoteChar c).toList) ++ '\x22' :: after
  have hread : Takes (stringRest (quoted.length + 1) "") quoted ("" ++ String.ofList s.toList) after :=
    stringRest_quoted (by rw [List.length_append]; omega)
  rwa [String.ofList_toList, String.empty_append] at hread

end String

section Number
variable {n : Nat} {after : List Char}

def Ends (after : List Char) : Prop :=
  ∀ c, after.head? = some c → c.isDigit = false ∧ c ≠ '.' ∧ c ≠ 'e' ∧ c ≠ 'E'

theorem fitDigits_eq {cs : List Char} {value : Nat}
    (h : cs.foldl (fun n c => n * 10 + (c.toNat - 48)) value ≤ maxNatural) :
    fitDigits value cs = (cs.foldl (fun n c => n * 10 + (c.toNat - 48)) value, cs.length, []) := by
  induction cs generalizing value with
  | nil => rfl
  | cons c cs ih =>
    have hmono : ∀ (cs : List Char) (v : Nat), v ≤ cs.foldl (fun n c => n * 10 + (c.toNat - 48)) v := by
      intro cs
      induction cs with
      | nil => exact fun v => Nat.le_refl v
      | cons c cs ih => exact fun v => Nat.le_trans (show v ≤ v * 10 + (c.toNat - 48) by omega) (ih _)
    rw [fitDigits]
    dsimp only
    rw [if_neg (Nat.not_lt.mpr ((hmono cs _).trans h)), ih h]
    rfl

theorem number_digits {negative : Bool} (hn : n < 2 ^ 53) (hnegative : negative = true → 0 < n) (hafter : Ends after) :
    Takes (number negative) (Nat.toDigits 10 n ++ after)
      (if negative then .negative (-(n : Int)) else .natural n) after := by
  have hvalue : fitDigits 0 (Nat.toDigits 10 n) = (n, (Nat.toDigits 10 n).length, []) := by
    have hfold : (Nat.toDigits 10 n).foldl (fun n c => n * 10 + (c.toNat - 48)) 0 = n := Number.natOfDigits_toDigits
    rw [fitDigits_eq (by rw [hfold, maxNatural]; omega), hfold]
  have hdigit : ∀ c ∈ Nat.toDigits 10 n, c.isDigit = true := fun c hc =>
    Nat.isDigit_of_mem_toDigits (by decide) (by decide) hc
  have hrun := split_run hdigit fun c hc => (hafter c hc).1
  obtain ⟨c, cs, hdigits⟩ := List.exists_cons_of_ne_nil (Nat.toDigits_ne_nil (n := n) (b := 10))
  rw [number]
  rw [hdigits] at hdigit hrun hvalue ⊢
  refine .peek_bind ?_
  dsimp only [List.cons_append, List.head?_cons]
  rw [if_neg (by simp [hdigit c List.mem_cons_self])]
  split
  case' isTrue hzero =>
    subst hzero
    obtain rfl : n = 0 := by
      by_contra hne
      exact Number.head_toDigits (Nat.pos_of_ne_zero hne) (by rw [hdigits]; rfl)
    obtain rfl : cs = [] := (List.cons.inj hdigits).2.symm
    have hnone : after.head?.any Char.isDigit = false := by
      cases hhead : after.head? with
      | none => rfl
      | some d => exact (hafter d hhead).1
    refine .skip_bind (.bind .pure (.peek_bind ?_))
    rw [List.nil_append, hnone, if_neg (by simp), hvalue]
  case' isFalse hne =>
    refine .skipWhile_bind ?_
    rw [← List.cons_append, hrun.1, hrun.2]
    refine .peek_bind ?_
    rw [if_neg fun h => hne h.1, hvalue]
  -- Behind the digits nothing of a number comes, and none of them was left over.
  all_goals
    refine .peek_bind ?_
    split
    · next h => exact absurd rfl (hafter _ h).2.1
    · next h => exact absurd rfl (hafter _ h).2.2.1
    · next h => exact absurd rfl (hafter _ h).2.2.2
    · rw [if_neg fun h => h rfl]
      cases negative with
      | false => exact .pure
      | true =>
        have hpos := hnegative rfl
        rw [if_neg (by decide), if_neg (by omega)]
        exact .pure

end Number

end Read

/-! Layout: the text of a document is read as the document, whatever blanks are between its tokens. -/
open Read

/-- An integer of a document. -/
def ofInt : Int → Json
  | .ofNat n => .number (.natural n)
  | .negSucc n => .number (.negative (.negSucc n))

def Blank (cs : List Char) : Prop := ∀ c ∈ cs, isSpace c = true

theorem blank_append {cs ds : List Char} (hcs : Blank cs) (hds : Blank ds) : Blank (cs ++ ds) := fun c hc =>
  (List.mem_append.mp hc).elim (hcs c) (hds c)

theorem blank_inner {indent gap : String} (hindent : Blank indent.toList) (hgap : Blank gap.toList) :
    Blank (indent ++ gap).toList := by
  rw [String.toList_append]
  exact blank_append hindent hgap

theorem blank_cons {c : Char} {cs : List Char} (hc : isSpace c = true) (hcs : Blank cs) : Blank (c :: cs) :=
  List.forall_mem_cons.mpr ⟨hc, hcs⟩

theorem blank_nil : Blank [] := nofun

theorem ends_cons {c : Char} {cs : List Char} (h : c = ',' ∨ c = ']' ∨ c = '\x7d' ∨ isSpace c = true) :
    Ends (c :: cs) := by
  intro d hd
  obtain rfl := Option.some.inj hd
  obtain rfl | rfl | rfl | h := h
  · decide
  · decide
  · decide
  · simp only [isSpace, Bool.or_eq_true, beq_iff_eq] at h
    obtain ((rfl | rfl) | rfl) | rfl := h <;> decide

theorem ends_blank {blanks after : List Char} (hblanks : Blank blanks) (hafter : Ends after) :
    Ends (blanks ++ after) := by
  cases blanks with
  | nil => exact hafter
  | cons c blanks => exact ends_cons (.inr (.inr (.inr (hblanks c List.mem_cons_self))))

/-! The part of the grammar of documents that writers keep to, over whatever makes a text of a string. -/

/-- Parts behind a first one, each behind a comma and white space. -/
def behind (blanks : List Char) (parts : List (List Char)) : List Char :=
  parts.flatMap fun part => ',' :: (blanks ++ part)

def laid (blanks : List Char) : List (List Char) → List Char
  | [] => []
  | part :: parts => blanks ++ (part ++ behind blanks parts)

/-- Characters spell a document that is nested less than `depth` levels deep. Its integers are safe ones, and its
objects have no name twice. -/
inductive Spells (quote : String → String) : (depth : Nat) → List Char → Json → Prop where
  | null {depth : Nat} : Spells quote (depth + 1) "null".toList .null
  | boolean {depth : Nat} {b : Bool} :
    Spells quote (depth + 1) (if b then "true" else "false").toList (.boolean b)
  | integer {depth : Nat} {t : Int} (ht : t.natAbs < 2 ^ 53) :
    Spells quote (depth + 1) (Number.intText t).toList (ofInt t)
  | string {depth : Nat} {s : String} : Spells quote (depth + 1) (quote s).toList (.string s)
  | array {depth : Nat} {items : List (List Char × Json)} {blanks closing : List Char}
    (hblanks : Blank blanks) (hclosing : Blank closing) (h : ∀ e ∈ items, Spells quote (depth + 1) e.1 e.2) :
    Spells quote (depth + 2) ('[' :: (laid blanks (items.map (·.1)) ++ (closing ++ [']'])))
      (.array (items.map (·.2)))
  | object {depth : Nat} {members : List (List Char × String × Json)} {blanks colon closing : List Char}
    (hblanks : Blank blanks) (hcolon : Blank colon) (hclosing : Blank closing)
    (hnames : (members.map (·.2.1)).Nodup) (h : ∀ e ∈ members, Spells quote (depth + 1) e.1 e.2.2) :
    Spells quote (depth + 2)
      ('\x7b' :: (laid blanks (members.map fun e => (quote e.2.1).toList ++ ':' :: (colon ++ e.1)) ++
        (closing ++ ['\x7d']))) (.object (members.map (·.2)))

/-- What is expected of a reader and a quoter: the reader takes from a text the document that it spells, up to its
limit of 128 levels, with the members of objects in their order and the strings as they were quoted. -/
def Reads {ε : Type} (quote : String → String) (read : String → Except ε Json) : Prop :=
  ∀ text json, Spells quote 128 text.toList json → read text = .ok json

/-- Characters are read as a document, whatever white space is before them. -/
structure ReadAs (depth : Nat) (cs : List Char) (json : Json) : Prop where
  begins : ∃ c rest, cs = c :: rest ∧ isSpace c = false ∧ c ≠ ']'
  reads : ∀ {blanks after : List Char}, Blank blanks → Ends after →
    Takes (value depth) (blanks ++ (cs ++ after)) json after

section Simple
variable {depth : Nat} {c : Char} {cs rest after : List Char} {json : Json}

/-- A document is read by its first character. -/
theorem ReadAs.of_token {k : Option Char → Read Json} (hvalue : value depth = peekToken >>= k)
    (hspace : isSpace c = false) (hbracket : c ≠ ']')
    (h : ∀ {after : List Char}, Ends after → Takes (k (some c)) (c :: (rest ++ after)) json after) :
    ReadAs depth (c :: rest) json where
  begins := ⟨c, rest, rfl, hspace, hbracket⟩
  reads hblanks hafter := by
    rw [hvalue]
    exact .peekToken_bind hblanks (fun d hd => Option.some.inj hd ▸ hspace) (h hafter)

theorem takes_word : Takes (word cs) (cs ++ rest) () rest := by
  induction cs with
  | nil => exact .pure
  | cons c cs ih =>
    rw [word]
    refine .next_bind ?_
    dsimp only
    rw [if_pos rfl]
    exact ih

theorem readAs_null : ReadAs (depth + 1) "null".toList .null :=
  .of_token (value.eq_2 depth) (by decide) (by decide) fun _ => .skip_bind (.bind takes_word .pure)

theorem readAs_boolean {b : Bool} : ReadAs (depth + 1) (if b then "true" else "false").toList (.boolean b) := by
  cases b with
  | true => exact .of_token (value.eq_2 depth) (by decide) (by decide) fun _ => .skip_bind (.bind takes_word .pure)
  | false => exact .of_token (value.eq_2 depth) (by decide) (by decide) fun _ => .skip_bind (.bind takes_word .pure)

theorem readAs_string {s : String} : ReadAs (depth + 1) (quote s).toList (.string s) := by
  rw [toList_quote]
  refine .of_token (value.eq_2 depth) (by decide) (by decide) fun _ => .skip_bind ?_
  rw [List.append_assoc]
  exact .bind string_quoted .pure

theorem readAs_intText {t : Int} (ht : t.natAbs < 2 ^ 53) :
    ReadAs (depth + 1) (Number.intText t).toList (ofInt t) := by
  cases t with
  | negSucc n =>
    have htext : (Number.intText (.negSucc n)).toList = '-' :: Nat.toDigits 10 (n + 1) := by
      rw [Number.intText, if_pos (Int.negSucc_lt_zero n)]
      simp [Number.natText]
    rw [htext]
    refine .of_token (value.eq_2 depth) (by decide) (by decide) fun {after} hafter => .skip_bind ?_
    have hread : Takes (Read.number true) (Nat.toDigits 10 (n + 1) ++ after) (.negative (.negSucc n)) after :=
      number_digits ht (fun _ => n.succ_pos) hafter
    exact .bind hread .pure
  | ofNat n =>
    have htext : (Number.intText (.ofNat n)).toList = Nat.toDigits 10 n := by
      rw [Number.intText, if_neg (by simp)]
      simp [Number.natText]
    obtain ⟨c, digits, hdigits⟩ := List.exists_cons_of_ne_nil (Nat.toDigits_ne_nil (n := n) (b := 10))
    have hdigit : c.isDigit = true :=
      Nat.isDigit_of_mem_toDigits (by decide) (by decide) (hdigits ▸ List.mem_cons_self)
    rw [htext, hdigits]
    have hother {d : Char} (hd : d.isDigit = false) : c ≠ d := by
      rintro rfl
      cases hdigit.symm.trans hd
    refine .of_token (value.eq_2 depth) ?_ (hother rfl) fun {after} hafter => ?_
    · simp [isSpace, hother (d := ' ') rfl, hother (d := '\n') rfl, hother (d := '\t') rfl, hother (d := '\r') rfl]
    · have hread : Takes (Read.number false) (Nat.toDigits 10 n ++ after) (.natural n) after :=
        number_digits ht (fun h => absurd h Bool.false_ne_true) hafter
      rw [hdigits] at hread
      split
      case h_1 h => cases h
      case h_9 h =>
        obtain rfl := Option.some.inj h
        rw [if_pos hdigit]
        exact .bind hread .pure
      all_goals
        next h => exact absurd (Option.some.inj h) (hother rfl)

end Simple
section Nested
variable {depth fuel : Nat} {blanks closing after : List Char} {parts : List (List Char)}

theorem behind_nil : behind blanks [] = [] := rfl

theorem behind_cons {part : List Char} :
    behind blanks (part :: parts) = ',' :: (blanks ++ (part ++ behind blanks parts)) := by
  simp [behind]

theorem ends_behind {c : Char} (hc : c = ']' ∨ c = '\x7d') (hclosing : Blank closing) :
    Ends (behind blanks parts ++ (closing ++ c :: after)) := by
  cases parts with
  | nil =>
    rw [behind_nil, List.nil_append]
    exact ends_blank hclosing (ends_cons (.inr (hc.imp_right .inl)))
  | cons part parts =>
    rw [behind_cons]
    exact ends_cons (.inl rfl)

section Array
variable {before jsons : List Json}

theorem takes_items_behind (hparts : List.Forall₂ (ReadAs depth) parts jsons) (hblanks : Blank blanks)
    (hclosing : Blank closing) (hfuel : parts.length < fuel) :
    Takes (items (value depth) fuel false before) (behind blanks parts ++ (closing ++ ']' :: after))
      (before.reverse ++ jsons) after := by
  induction hparts generalizing before fuel with
  | nil =>
    obtain - | fuel := fuel
    · cases hfuel
    rw [items, behind_nil, List.nil_append]
    refine .peekToken_bind hclosing (fun c hc => Option.some.inj hc ▸ rfl) (.skip_bind ?_)
    rw [List.append_nil]
    exact .pure
  | @cons part json parts jsons hpart hparts ih =>
    obtain - | fuel := fuel
    · cases hfuel
    obtain ⟨c, rest, rfl, hspace, hbracket⟩ := hpart.begins
    have hends : Ends (behind blanks parts ++ (closing ++ ']' :: after)) := ends_behind (.inl rfl) hclosing
    have hitem := hpart.reads blank_nil hends
    have hrest := @ih _ (json :: before) (Nat.lt_of_succ_lt_succ hfuel)
    rw [List.reverse_cons, List.append_assoc] at hrest
    rw [items, behind_cons, List.cons_append, List.append_assoc, List.append_assoc]
    refine .peekToken_here_bind (fun c hc => Option.some.inj hc ▸ rfl) (.skip_bind ?_)
    refine .peekToken_bind hblanks (fun c hc => Option.some.inj hc ▸ hspace) ?_
    dsimp only [List.cons_append, List.head?_cons]
    split
    · next h => cases h
    · next h => exact absurd (Option.some.inj h) hbracket
    · exact .bind hitem hrest

theorem takes_items {part : List Char} {json : Json} (hpart : ReadAs depth part json)
    (hparts : List.Forall₂ (ReadAs depth) parts jsons) (hblanks : Blank blanks)
    (hclosing : Blank closing) (hfuel : parts.length + 1 < fuel) :
    Takes (items (value depth) fuel true [])
      (blanks ++ (part ++ (behind blanks parts ++ (closing ++ ']' :: after)))) (json :: jsons) after := by
  obtain - | fuel := fuel
  · cases hfuel
  obtain ⟨c, rest, rfl, hspace, hbracket⟩ := hpart.begins
  have hends : Ends (behind blanks parts ++ (closing ++ ']' :: after)) := ends_behind (.inl rfl) hclosing
  have hitem := hpart.reads blank_nil hends
  have hrest : Takes (items (value depth) fuel false [json]) (behind blanks parts ++ (closing ++ ']' :: after))
      (json :: jsons) after := takes_items_behind hparts hblanks hclosing (Nat.lt_of_succ_lt_succ hfuel)
  rw [items]
  refine .peekToken_bind hblanks (fun c hc => Option.some.inj hc ▸ hspace) ?_
  dsimp only [List.cons_append, List.head?_cons]
  split
  · next h => cases h
  · next h => exact absurd (Option.some.inj h) hbracket
  · rw [if_pos rfl]
    exact .bind hitem hrest

end Array

section Object
variable {before entries : List (String × Json)} {name : String} {json : Json} {part : List Char}

theorem putMember_new (h : name ∉ before.map (·.1)) : putMember name json before = before ++ [(name, json)] := by
  induction before with
  | nil => rfl
  | cons e before ih =>
    rw [List.map_cons, List.mem_cons, not_or] at h
    rw [putMember, if_neg (Ne.symm h.1), ih h.2, List.cons_append]

def ReadsMember (depth : Nat) (part : List Char) (e : String × Json) : Prop :=
  ∃ blanks cs, part = (quote e.1).toList ++ ':' :: (blanks ++ cs) ∧ Blank blanks ∧ ReadAs depth cs e.2

theorem ReadsMember.begins {e : String × Json} (h : ReadsMember depth part e) : ∃ rest, part = '\x22' :: rest := by
  obtain ⟨blanks, cs, rfl, -⟩ := h
  rw [toList_quote]
  exact ⟨_, rfl⟩

theorem ReadsMember.takes {e : String × Json} (h : ReadsMember depth part e) (hafter : Ends after) :
    Takes (nameAndValue (value depth)) (part ++ after) e after := by
  obtain ⟨blanks, cs, rfl, hblanks, hvalue⟩ := h
  have hread := hvalue.reads hblanks hafter
  rw [← List.append_assoc] at hread
  rw [toList_quote, List.cons_append, List.cons_append, List.append_assoc, List.append_assoc]
  refine .skip_bind (.bind string_quoted ?_)
  exact .peekToken_here_bind (fun c hc => Option.some.inj hc ▸ rfl) (.skip_bind (.bind hread .pure))

theorem takes_members_behind (hparts : List.Forall₂ (ReadsMember depth) parts entries)
    (hnames : ((before ++ entries).map (·.1)).Nodup) (hblanks : Blank blanks) (hclosing : Blank closing)
    (hfuel : parts.length < fuel) :
    Takes (members (value depth) fuel false before) (behind blanks parts ++ (closing ++ '\x7d' :: after))
      (before ++ entries) after := by
  induction hparts generalizing before fuel with
  | nil =>
    obtain - | fuel := fuel
    · cases hfuel
    rw [members, behind_nil, List.nil_append, List.append_nil]
    exact .peekToken_bind hclosing (fun c hc => Option.some.inj hc ▸ rfl) (.skip_bind .pure)
  | @cons part e parts entries hpart hparts ih =>
    obtain - | fuel := fuel
    · cases hfuel
    obtain ⟨rest, rfl⟩ := hpart.begins
    have hends : Ends (behind blanks parts ++ (closing ++ '\x7d' :: after)) := ends_behind (.inr rfl) hclosing
    have hmember := hpart.takes hends
    have hnew : e.1 ∉ before.map (·.1) := by
      rw [List.map_append, List.map_cons] at hnames
      exact fun hmem => (List.nodup_append.mp hnames).2.2 _ hmem _ List.mem_cons_self rfl
    have hrest := @ih _ (before ++ [e]) (by simpa using hnames) (Nat.lt_of_succ_lt_succ hfuel)
    rw [List.append_assoc] at hrest
    rw [members, behind_cons, List.cons_append, List.append_assoc, List.append_assoc]
    refine .peekToken_here_bind (fun c hc => Option.some.inj hc ▸ rfl) (.skip_bind ?_)
    refine .peekToken_bind hblanks (fun c hc => Option.some.inj hc ▸ rfl) ?_
    refine .bind hmember ?_
    dsimp only
    rw [putMember_new hnew]
    exact hrest

theorem takes_members {e : String × Json} (hpart : ReadsMember depth part e)
    (hparts : List.Forall₂ (ReadsMember depth) parts entries) (hnames : ((e :: entries).map (·.1)).Nodup)
    (hblanks : Blank blanks) (hclosing : Blank closing) (hfuel : parts.length + 1 < fuel) :
    Takes (members (value depth) fuel true [])
      (blanks ++ (part ++ (behind blanks parts ++ (closing ++ '\x7d' :: after)))) (e :: entries) after := by
  obtain - | fuel := fuel
  · cases hfuel
  obtain ⟨rest, rfl⟩ := hpart.begins
  have hends : Ends (behind blanks parts ++ (closing ++ '\x7d' :: after)) := ends_behind (.inr rfl) hclosing
  have hmember := hpart.takes hends
  have hrest : Takes (members (value depth) fuel false [e]) (behind blanks parts ++ (closing ++ '\x7d' :: after))
      (e :: entries) after := takes_members_behind hparts hnames hblanks hclosing (Nat.lt_of_succ_lt_succ hfuel)
  rw [members]
  exact .peekToken_bind hblanks (fun c hc => Option.some.inj hc ▸ rfl) (.bind hmember hrest)

end Object
section Laid

theorem length_le_behind : parts.length ≤ (behind blanks parts).length := by
  induction parts with
  | nil => exact Nat.zero_le _
  | cons part parts ih =>
    simp only [behind_cons, List.length_append, List.length_cons]
    omega

theorem length_lt_laid {part : List Char} {c : Char} : parts.length + 1 <
    (blanks ++ (part ++ (behind blanks parts ++ (closing ++ c :: after)))).length + 1 := by
  have hbehind : parts.length ≤ (behind blanks parts).length := length_le_behind
  simp only [List.length_append, List.length_cons]
  omega

theorem readAs_array {jsons : List Json} (hblanks : Blank blanks) (hclosing : Blank closing)
    (h : List.Forall₂ (ReadAs (depth + 1)) parts jsons) :
    ReadAs (depth + 2) ('[' :: (laid blanks parts ++ (closing ++ [']']))) (.array jsons) := by
  cases h with
  | nil =>
    refine .of_token (value.eq_2 (depth + 1)) (by decide) (by decide) fun {after} _ => ?_
    rw [laid, List.nil_append, List.append_assoc]
    refine .skip_bind (.get_bind fun _ => .bind ?_ .pure)
    rw [items]
    exact .peekToken_bind hclosing (fun c hc => Option.some.inj hc ▸ rfl) (.skip_bind .pure)
  | @cons part json parts jsons hpart hparts =>
    refine .of_token (value.eq_2 (depth + 1)) (by decide) (by decide) fun {after} _ => ?_
    refine .skip_bind (.get_bind fun _ => .bind ?_ .pure)
    let rest := blanks ++ (part ++ (behind blanks parts ++ (closing ++ ']' :: after)))
    have hread : Takes (items (value (depth + 1)) (rest.length + 1) true []) rest (json :: jsons) after :=
      takes_items hpart hparts hblanks hclosing length_lt_laid
    simpa [rest, laid] using hread

theorem readAs_object {entries : List (String × Json)} (hblanks : Blank blanks) (hclosing : Blank closing)
    (hnames : (entries.map (·.1)).Nodup) (h : List.Forall₂ (ReadsMember (depth + 1)) parts entries) :
    ReadAs (depth + 2) ('\x7b' :: (laid blanks parts ++ (closing ++ ['\x7d']))) (.object entries) := by
  cases h with
  | nil =>
    refine .of_token (value.eq_2 (depth + 1)) (by decide) (by decide) fun {after} _ => ?_
    rw [laid, List.nil_append, List.append_assoc]
    refine .skip_bind (.get_bind fun _ => .bind ?_ .pure)
    rw [members]
    exact .peekToken_bind hclosing (fun c hc => Option.some.inj hc ▸ rfl) (.skip_bind .pure)
  | @cons part e parts entries hpart hparts =>
    refine .of_token (value.eq_2 (depth + 1)) (by decide) (by decide) fun {after} _ => ?_
    refine .skip_bind (.get_bind fun _ => .bind ?_ .pure)
    let rest := blanks ++ (part ++ (behind blanks parts ++ (closing ++ '\x7d' :: after)))
    have hread : Takes (members (value (depth + 1)) (rest.length + 1) true []) rest (e :: entries) after :=
      takes_members hpart hparts hnames hblanks hclosing length_lt_laid
    simpa [rest, laid] using hread

end Laid
end Nested

theorem Spells.readAs {depth : Nat} {cs : List Char} {json : Json} (h : Spells quote depth cs json) :
    ReadAs depth cs json := by
  induction h with
  | null => exact readAs_null
  | boolean => exact readAs_boolean
  | integer ht => exact readAs_intText ht
  | string => exact readAs_string
  | array hblanks hclosing _ ih =>
    exact readAs_array hblanks hclosing
      (List.forall₂_map_left_iff.mpr (List.forall₂_map_right_iff.mpr (List.forall₂_same.mpr ih)))
  | object hblanks hcolon hclosing hnames _ ih =>
    refine readAs_object hblanks hclosing (by rwa [List.map_map]) ?_
    refine List.forall₂_map_left_iff.mpr (List.forall₂_map_right_iff.mpr (List.forall₂_same.mpr fun e he => ?_))
    exact ⟨_, _, rfl, hcolon, ih e he⟩

/-- What the grammar spells is read, when strings are quoted with escapes. -/
theorem reads_parse : Reads quote parse := by
  intro text json h
  have hread : Takes (value 128) ([] ++ (text.toList ++ [])) json [] := h.readAs.reads blank_nil nofun
  rw [List.nil_append, List.append_nil] at hread
  have hdocument : Takes document text.toList json [] := .bind hread (.peekToken_here_bind nofun .pure)
  obtain ⟨j, hrun⟩ := hdocument 0
  rw [parse, hrun]
  rfl

/-! Layout: the text of a document, with its parts on lines of their own if there is a gap. -/

def JsonNumber.text : JsonNumber → String
  | .natural n => Number.natText n
  | .negative n => Number.intText n
  | .real x => Number.text x

mutual

/-- The text of a document within an indent. -/
def layout (quote : String → String) (gap indent : String) : Json → String
  | .null => "null"
  | .boolean b => if b then "true" else "false"
  | .number n => JsonNumber.text n
  | .string s => quote s
  | .array items => JsonStyle.wrap { gap := gap } "[" "]" indent (layoutItems quote gap (indent ++ gap) items)
  | .object members =>
    JsonStyle.wrap { gap := gap } "\x7b" "\x7d" indent (layoutMembers quote gap (indent ++ gap) members)

def layoutItems (quote : String → String) (gap indent : String) : List Json → List String
  | [] => []
  | item :: rest => layout quote gap indent item :: layoutItems quote gap indent rest

def layoutMembers (quote : String → String) (gap indent : String) : List (String × Json) → List String
  | [] => []
  | (name, item) :: rest =>
    (quote name ++ (if gap = "" then ":" else ": ") ++ layout quote gap indent item) ::
      layoutMembers quote gap indent rest

end

section Layout
variable {depth : Nat} {quote : String → String} {gap indent : String}

theorem layoutItems_eq {items : List Json} :
    layoutItems quote gap indent items = items.map (layout quote gap indent) := by
  induction items with
  | nil => rw [layoutItems, List.map_nil]
  | cons item rest ih => rw [layoutItems, ih, List.map_cons]

theorem layoutMembers_eq {members : List (String × Json)} : layoutMembers quote gap indent members =
    members.map fun e => quote e.1 ++ (if gap = "" then ":" else ": ") ++ layout quote gap indent e.2 := by
  induction members with
  | nil => rw [layoutMembers, List.map_nil]
  | cons e rest ih =>
    obtain ⟨name, item⟩ := e
    rw [layoutMembers, ih, List.map_cons]

theorem layout_ofInt {t : Int} : layout quote gap indent (ofInt t) = Number.intText t := by
  cases t with
  | ofNat n => simp [ofInt, layout, JsonNumber.text, Number.intText]
  | negSucc n => simp [ofInt, layout, JsonNumber.text]

theorem toList_separated {separator text : String} {texts : List String} :
    (separator.intercalate (text :: texts)).toList =
    text.toList ++ texts.flatMap fun t => separator.toList ++ t.toList := by
  induction texts generalizing text with
  | nil => simp
  | cons t texts ih =>
    rw [String.intercalate_cons_of_ne_nil (by simp), String.toList_append, String.toList_append, ih, List.flatMap_cons,
      List.append_assoc, List.append_assoc]

/-- The parts stand behind white space, with commas between them. -/
theorem toList_wrap (opening ending : String) (texts : List String) (hgap : Blank gap.toList)
    (hindent : Blank indent.toList) :
    ∃ blanks closing, Blank blanks ∧ Blank closing ∧
      (JsonStyle.wrap { gap := gap } opening ending indent texts).toList =
        opening.toList ++ (laid blanks (texts.map String.toList) ++ (closing ++ ending.toList)) := by
  cases texts with
  | nil =>
    refine ⟨[], [], blank_nil, blank_nil, ?_⟩
    rw [JsonStyle.wrap, if_pos List.isEmpty_nil, String.toList_append]
    rfl
  | cons text texts =>
    rw [JsonStyle.wrap, if_neg (by simp)]
    split
    · refine ⟨[], [], blank_nil, blank_nil, ?_⟩
      rw [String.toList_append, String.toList_append, toList_separated]
      simp [laid, behind, List.flatMap_map]
    · refine ⟨'\n' :: (indent ++ gap).toList, '\n' :: indent.toList, blank_cons rfl (blank_inner hindent hgap),
        blank_cons rfl hindent, ?_⟩
      rw [String.toList_append, String.toList_append, String.toList_append, String.toList_append,
        String.toList_append, toList_separated]
      simp [laid, behind, List.flatMap_map]

theorem spells_array {items : List Json} (hgap : Blank gap.toList) (hindent : Blank indent.toList)
    (h : ∀ item ∈ items, Spells quote (depth + 1) (layout quote gap (indent ++ gap) item).toList item) :
    Spells quote (depth + 2) (layout quote gap indent (.array items)).toList (.array items) := by
  obtain ⟨blanks, closing, hblanks, hclosing, htext⟩ :=
    toList_wrap "[" "]" (items.map (layout quote gap (indent ++ gap))) hgap hindent
  let parts := items.map fun item => ((layout quote gap (indent ++ gap) item).toList, item)
  have hspells : Spells quote (depth + 2) ('[' :: (laid blanks (parts.map (·.1)) ++ (closing ++ [']'])))
      (.array (parts.map (·.2))) := .array hblanks hclosing (List.forall_mem_map.mpr h)
  rw [layout, layoutItems_eq, htext]
  simpa [parts, Function.comp_def] using hspells

theorem spells_object {members : List (String × Json)} (hgap : Blank gap.toList) (hindent : Blank indent.toList)
    (hnames : (members.map (·.1)).Nodup)
    (h : ∀ e ∈ members, Spells quote (depth + 1) (layout quote gap (indent ++ gap) e.2).toList e.2) :
    Spells quote (depth + 2) (layout quote gap indent (.object members)).toList (.object members) := by
  obtain ⟨blanks, closing, hblanks, hclosing, htext⟩ := toList_wrap "\x7b" "\x7d"
    (members.map fun e => quote e.1 ++ (if gap = "" then ":" else ": ") ++ layout quote gap (indent ++ gap) e.2)
    hgap hindent
  obtain ⟨colon, hcolon, hseparator⟩ : ∃ colon, Blank colon ∧
      (if gap = "" then ":" else ": ").toList = ':' :: colon := by
    split
    · exact ⟨[], blank_nil, rfl⟩
    · exact ⟨[' '], blank_cons rfl blank_nil, rfl⟩
  let parts := members.map fun e => ((layout quote gap (indent ++ gap) e.2).toList, e)
  have hspells : Spells quote (depth + 2) ('\x7b' :: (laid blanks (parts.map fun e =>
      (quote e.2.1).toList ++ ':' :: (colon ++ e.1)) ++ (closing ++ ['\x7d']))) (.object (parts.map (·.2))) :=
    .object hblanks hcolon hclosing (by simpa [parts, Function.comp_def] using hnames) (List.forall_mem_map.mpr h)
  rw [layout, layoutMembers_eq, htext]
  simpa [parts, Function.comp_def, hseparator] using hspells

end Layout

end EcmaScript.Json
