import EcmaScript.Inspect.Value
import EcmaScript.Proofs.Text.Units
import EcmaScript.Proofs.Token.Scan
import EcmaScript.Token.Lexer

/-! Strings in quotes are read as what they stand for. -/
namespace EcmaScript
open EcmaScript.Text

namespace Scan
variable {α β : Type}

def Takes (x : Scan α) (before : List Char) (Q : α → Prop) (after : List Char) : Prop :=
  ∀ c, c.rest = before → ∃ a, (x.run c).1 = .ok a ∧ Q a ∧ (x.run c).2.rest = after

namespace Takes
variable {before between after : List Char} {x : Scan α} {P : α → Prop} {Q : β → Prop}

theorem bind {k : α → Scan β} (hx : Takes x before P between)
    (hk : ∀ a, P a → Takes (k a) between Q after) : Takes (x >>= k) before Q after := by
  intro c hc
  obtain ⟨a, hrun, ha, hrest⟩ := hx c hc
  rw [run_bind, hrun]
  exact hk a ha _ hrest

theorem pure {a : α} (h : P a) : Takes (Pure.pure a) before P before := fun _ hc => ⟨a, rfl, h, hc⟩

theorem mono {P' : α → Prop} (hx : Takes x before P after) (h : ∀ a, P a → P' a) : Takes x before P' after := by
  intro c hc
  obtain ⟨a, hrun, ha, hrest⟩ := hx c hc
  exact ⟨a, hrun, h a ha, hrest⟩

theorem pure_bind {a : α} {k : α → Scan β} (h : Takes (k a) before Q after) :
    Takes (Pure.pure a >>= k) before Q after := h

theorem get_bind {k : Cursor → Scan β} (h : ∀ c, c.rest = before → Takes (k c) before Q after) :
    Takes (get >>= k) before Q after := fun c hc => h c hc c hc

theorem here_bind {k : Span → Scan β} (h : ∀ span, Takes (k span) before Q after) :
    Takes (here >>= k) before Q after := fun c hc => h c.here c hc

theorem peek_bind {k : Option Char → Scan β} (h : Takes (k before.head?) before Q after) :
    Takes (peek >>= k) before Q after := by
  rintro c rfl
  exact h c rfl

theorem peekAt_bind {n : Nat} {k : Option Char → Scan β} (h : ∀ d, Takes (k d) before Q after) :
    Takes (peekAt n >>= k) before Q after := fun c hc => h (c.peekAt n) c hc

theorem bound_bind {k : Nat → Scan β} (h : Takes (k (before.length + 1)) before Q after) :
    Takes (bound >>= k) before Q after := by
  rintro c rfl
  exact h c rfl

theorem next_bind {k : Option Char → Scan β} (h : Takes (k before.head?) before.tail Q after) :
    Takes (next >>= k) before Q after := by
  rintro c rfl
  exact h c.next c.rest_next

theorem skip_bind {n : Nat} {k : Unit → Scan β} (h : Takes (k ()) (before.drop n) Q after) :
    Takes (skip n >>= k) before Q after := by
  rintro c rfl
  exact h (c.skip n) (c.rest_skip n)

theorem set_bind {c : Cursor} {k : Unit → Scan β} (h : Takes (k ()) c.rest Q after) :
    Takes (set c >>= k) before Q after := fun _ _ => h c rfl

theorem ite {b : Prop} [Decidable b] {y : Scan α} {R : α → Prop} (hx : b → Takes x before R after)
    (hy : ¬ b → Takes y before R after) : Takes (if b then x else y) before R after := by
  split
  · exact hx ‹_›
  · exact hy ‹_›

end Takes

section Quoted
variable {quote c : Char} {rest after : List Char} {start span : Span} {fuel : Nat} {value : String}

def IsQuote (quote : Char) : Prop := quote = '\x27' ∨ quote = '\x22'

theorem isQuote_quoteFor (cs : List Char) : IsQuote (quoteFor cs) := by
  unfold quoteFor
  split
  · exact .inr rfl
  · exact .inl rfl

theorem quotedChar_cases (hquote : IsQuote quote) :
    (quotedChar quote c = [c] ∧ c ≠ quote ∧ c ≠ '\\' ∧ c ≠ '\n' ∧ c ≠ '\r') ∨
      ∃ d, quotedChar quote c = ['\\', d] ∧ ∀ span rest, Takes (escape span) (d :: rest) (· = some c) rest := by
  unfold quotedChar
  split
  case isTrue h => exact .inr ⟨'n', rfl, fun _ _ => .next_bind (.pure (h ▸ rfl))⟩
  split
  case isTrue h => exact .inr ⟨'t', rfl, fun _ _ => .next_bind (.pure (h ▸ rfl))⟩
  split
  case isTrue h => exact .inr ⟨'r', rfl, fun _ _ => .next_bind (.pure (h ▸ rfl))⟩
  split
  case isTrue h => exact .inr ⟨'\\', rfl, fun _ _ => .next_bind (.peek_bind (.pure (h ▸ rfl)))⟩
  split
  case isTrue h =>
    refine .inr ⟨c, rfl, fun _ _ => ?_⟩
    obtain rfl | rfl : IsQuote c := h ▸ hquote
    all_goals exact .next_bind (.peek_bind (.pure rfl))
  case isFalse hn _ hr hback hne => exact .inl ⟨rfl, hne, hback, hn, hr⟩

theorem IsQuote.ne_backslash (hquote : IsQuote quote) : '\\' ≠ quote := by
  obtain rfl | rfl := hquote <;> decide

theorem stringRest_close : Takes (stringRest start quote (fuel + 1) value) (quote :: after) (· = value) after := by
  rw [stringRest]
  refine .peek_bind ?_
  dsimp only [List.head?_cons]
  rw [if_pos rfl]
  exact .skip_bind (.pure rfl)

theorem stringRest_plain {Q : String → Prop} (hne : c ≠ quote) (hback : c ≠ '\\') (hn : c ≠ '\n')
    (hr : c ≠ '\r') (h : Takes (stringRest start quote fuel (value.push c)) rest Q after) :
    Takes (stringRest start quote (fuel + 1) value) (c :: rest) Q after := by
  rw [stringRest]
  refine .peek_bind ?_
  dsimp only [List.head?_cons]
  rw [if_neg hne, if_neg hback, if_neg (not_or.mpr ⟨hn, hr⟩)]
  exact .skip_bind h

theorem stringRest_escape {Q : String → Prop} (hquote : IsQuote quote)
    (h : ∀ span, ∃ P between, Takes (escape span) rest P between ∧
      ∀ d, P d → Takes (stringRest start quote fuel (d.elim value value.push)) between Q after) :
    Takes (stringRest start quote (fuel + 1) value) ('\\' :: rest) Q after := by
  rw [stringRest]
  refine .peek_bind ?_
  dsimp only [List.head?_cons]
  rw [if_neg hquote.ne_backslash, if_pos rfl]
  refine .here_bind fun span => .skip_bind ?_
  obtain ⟨P, between, hescape, h⟩ := h span
  refine hescape.bind fun d hd => ?_
  have hrest := h d hd
  cases d with
  | none => exact hrest
  | some d => exact hrest

theorem stringRest_quotedChar {Q : String → Prop} (hquote : IsQuote quote)
    (h : Takes (stringRest start quote fuel (value.push c)) rest Q after) :
    Takes (stringRest start quote (fuel + 1) value) (quotedChar quote c ++ rest) Q after := by
  obtain ⟨hplain, hne, hback, hn, hr⟩ | ⟨d, hescaped, hd⟩ := quotedChar_cases (c := c) hquote
  · rw [hplain]
    exact stringRest_plain hne hback hn hr h
  · rw [hescaped]
    refine stringRest_escape hquote fun span => ⟨_, _, hd span rest, ?_⟩
    rintro _ rfl
    exact h

theorem stringRest_quoted (hquote : IsQuote quote) {cs : List Char} (hfuel : cs.length < fuel) :
    Takes (stringRest start quote fuel value) (cs.flatMap (quotedChar quote) ++ quote :: after)
      (· = value ++ String.ofList cs) after := by
  induction cs generalizing fuel value with
  | nil =>
    obtain - | fuel := fuel
    · cases hfuel
    rw [List.flatMap_nil, List.nil_append]
    exact (stringRest_close).mono fun _ h => h.trans (by simp)
  | cons c cs ih =>
    obtain - | fuel := fuel
    · cases hfuel
    rw [List.flatMap_cons, List.append_assoc]
    have hvalue : value ++ String.ofList (c :: cs) = value.push c ++ String.ofList cs := by
      rw [← String.toList_inj]
      simp
    rw [hvalue]
    exact stringRest_quotedChar hquote (ih (Nat.lt_of_succ_lt_succ hfuel))

theorem length_le_quoted (quote : Char) (cs : List Char) : cs.length ≤ (cs.flatMap (quotedChar quote)).length := by
  induction cs with
  | nil => exact Nat.le_refl _
  | cons c cs ih =>
    have hpos : 1 ≤ (quotedChar quote c).length := by
      unfold quotedChar
      repeat' split
      all_goals simp
    rw [List.flatMap_cons, List.length_append, List.length_cons]
    omega

theorem string_quoted (hquote : IsQuote quote) {cs : List Char} :
    Takes (string quote) (quote :: cs.flatMap (quotedChar quote) ++ quote :: after)
      (· = .string (String.ofList cs)) after := by
  refine .here_bind fun start => .skip_bind (.bound_bind ?_)
  refine (stringRest_quoted hquote ?_).bind ?_
  · have hlength := length_le_quoted quote cs
    simp only [List.cons_append, List.drop_succ_cons, List.drop_zero, List.length_append, List.length_cons]
    omega
  · rintro _ rfl
    exact .pure (by simp)

end Quoted

section Tokens
variable {fuel depth : Nat} {newline : Bool} {before : List Lexeme}

theorem trivia_end : Takes (trivia (fuel + 1) newline) [] (· = newline) [] := by
  rw [trivia]
  refine .get_bind fun c hc => ?_
  rw [hc]
  exact .pure rfl

theorem trivia_stays {c : Char} {rest : List Char} (hslash : c = '/' → ∀ d ∈ rest.head?, d ≠ '/' ∧ d ≠ '*')
    (hterminator : isLineTerminator c = false) (hblank : isBlank c = false) :
    Takes (trivia (fuel + 1) newline) (c :: rest) (· = newline) (c :: rest) := by
  rw [trivia]
  refine .get_bind fun s hs => ?_
  rw [hs]
  split
  · next h =>
    obtain ⟨rfl, rfl⟩ := List.cons.inj h
    exact absurd rfl (hslash rfl _ rfl).1
  · next h =>
    obtain ⟨rfl, rfl⟩ := List.cons.inj h
    exact absurd rfl (hslash rfl _ rfl).2
  · next h =>
    obtain ⟨rfl, rfl⟩ := List.cons.inj h
    rw [hterminator, hblank]
    exact .pure rfl
  · next h => cases h

theorem trivia_quote {quote : Char} (hquote : IsQuote quote) {rest : List Char} :
    Takes (trivia (fuel + 1) newline) (quote :: rest) (· = newline) (quote :: rest) := by
  obtain rfl | rfl := hquote <;> exact trivia_stays (fun h => absurd h (by decide)) (by decide) (by cbv)

theorem tokens_end : Takes (tokens false (fuel + 1) depth newline before) [] (· = (before.reverse, newline)) [] := by
  rw [tokens]
  refine .bound_bind ((trivia_end).bind ?_)
  rintro _ rfl
  refine .get_bind fun c hc => ?_
  rw [Cursor.peek, hc]
  exact .pure rfl

theorem tokens_string {quote : Char} (hquote : IsQuote quote) {body : List Char} {P : Token → Prop}
    (hstring : Takes (string quote) (quote :: body) P []) :
    Takes (tokens false (fuel + 2) depth newline []) (quote :: body)
      (fun found => ∃ token, P token ∧ found.1.map Lexeme.token = [token]) [] := by
  rw [tokens]
  refine .bound_bind ((trivia_quote hquote).bind ?_)
  rintro _ rfl
  refine .get_bind fun c hc => ?_
  have hstart : (isNameStart quote || quote == '\\') = false := by
    obtain rfl | rfl := hquote <;> decide
  have hdigit (b : Bool) : (quote.isDigit || quote == '.' && b) = false := by
    obtain rfl | rfl := hquote <;> rfl
  have hmark : (quote == '"' || quote == '\'') = true := by
    obtain rfl | rfl := hquote <;> rfl
  rw [Cursor.peek, hc]
  dsimp only [List.head?_cons]
  rw [if_neg (by simp)]
  refine .peekAt_bind fun d => ?_
  rw [if_neg (by simp [hstart]), if_neg (by simp [hdigit]), if_pos hmark]
  refine hstring.bind fun token htoken => .pure_bind (.get_bind fun stop _ => tokens_end.mono ?_)
  rintro _ rfl
  exact ⟨token, htoken, rfl⟩

theorem script_string {quote : Char} (hquote : IsQuote quote) {body : List Char} {P : Token → Prop}
    (hstring : Takes (string quote) (quote :: body) P []) :
    Takes script (quote :: body)
      (fun found => ∃ token, P token ∧ found.map Lexeme.token = [token, .endOfInput]) [] := by
  rw [script]
  refine .get_bind fun c hc => ?_
  rw [hc]
  split
  · next h =>
    have hmark := (List.cons.inj h).1
    obtain rfl | rfl := hquote <;> cases hmark
  · refine .bound_bind ((tokens_string hquote hstring).bind fun found hfound => .here_bind fun span => .pure ?_)
    obtain ⟨token, htoken, hfound⟩ := hfound
    refine ⟨token, htoken, ?_⟩
    rw [List.map_append, hfound]
    rfl

theorem script_quoted {quote : Char} (hquote : IsQuote quote) {cs : List Char} :
    Takes script (quote :: cs.flatMap (quotedChar quote) ++ [quote])
      (·.map Lexeme.token = [.string (String.ofList cs), .endOfInput]) [] := by
  refine (script_string hquote (string_quoted hquote)).mono ?_
  rintro found ⟨_, rfl, hfound⟩
  exact hfound

end Tokens
end Scan

theorem tokenize_string {quote : Char} (hquote : Scan.IsQuote quote) {body : List Char} {P : Token → Prop}
    (hstring : Scan.Takes (Scan.string quote) (quote :: body) P []) : ∃ token, P token ∧
      (tokenize (String.ofList (quote :: body))).map (·.map Lexeme.token) = .ok [token, .endOfInput] := by
  have hread := Scan.script_string hquote hstring
  obtain ⟨found, hrun, ⟨token, htoken, hfound⟩, -⟩ := hread (Cursor.start _) String.toList_ofList
  refine ⟨token, htoken, ?_⟩
  rw [tokenize, hrun]
  exact congrArg _ hfound

/-- A string that a console shows is read back, as the only token of what is shown. -/
theorem tokenize_shown (st : State) (s : String) : ∃ text, st.inspect? (.string s) = some text ∧
    (tokenize text).map (·.map Lexeme.token) = .ok [.string s, .endOfInput] := by
  refine ⟨quoted s, rfl, ?_⟩
  have hread := @Scan.script_quoted _ (Scan.isQuote_quoteFor s.toList) s.toList
  obtain ⟨found, hrun, hfound, -⟩ := hread (Cursor.start (quoted s)) (by simp [Cursor.start, quoted])
  rw [tokenize, hrun, String.ofList_toList] at *
  exact congrArg _ hfound

/-! Strings whose code units are written as escapes. A surrogate pair is one character again. -/

def hexValue (digits : List Char) (value : Nat) : Nat :=
  digits.foldl (fun value c => value * 16 + (Number.digitValue? 16 c).getD 0) value

def AllHex (digits : List Char) : Prop := ∀ c ∈ digits, (Number.digitValue? 16 c).isSome

def IsHexDigit (c : Char) (n : Nat) : Prop :=
  n < 16 ∧ (c = Nat.digitChar n ∨ c = (Nat.digitChar n).toUpper)

instance (c : Char) (n : Nat) : Decidable (IsHexDigit c n) := inferInstanceAs (Decidable (_ ∧ _))

/-- The four hexadecimal digits of a code unit. -/
def IsHexOf (digits : List Char) (u : UInt16) : Prop :=
  List.Forall₂ IsHexDigit digits
    [u.toNat / 0x1000, u.toNat / 0x100 % 0x10, u.toNat / 0x10 % 0x10, u.toNat % 0x10]

/-- Every unit is written as a Unicode escape of four digits. -/
inductive Escaped : List UInt16 → List Char → Prop
  | nil : Escaped [] []
  | cons {u : UInt16} {us : List UInt16} {digits text : List Char} (hdigits : IsHexOf digits u)
      (h : Escaped us text) : Escaped (u :: us) ('\\' :: 'u' :: (digits ++ text))

theorem exists_isHexOf (u : UInt16) : ∃ digits, IsHexOf digits u := by
  have hu := u.toNat_lt
  have hdigit {n : Nat} (hn : n < 16) : IsHexDigit (Nat.digitChar n) n := ⟨hn, .inl rfl⟩
  exact ⟨_, .cons (hdigit (by omega)) (.cons (hdigit (by omega)) (.cons (hdigit (by omega))
    (.cons (hdigit (by omega)) .nil)))⟩

theorem exists_escaped (us : List UInt16) : ∃ text, Escaped us text := by
  induction us with
  | nil => exact ⟨[], .nil⟩
  | cons u us ih =>
    obtain ⟨digits, hdigits⟩ := exists_isHexOf u
    obtain ⟨text, htext⟩ := ih
    exact ⟨_, .cons hdigits htext⟩

theorem IsHexDigit.digitValue? {c : Char} {n : Nat} (h : IsHexDigit c n) :
    Number.digitValue? 16 c = some n := by
  have hsmall : ∀ n < 16, Number.digitValue? 16 (Nat.digitChar n) = some n := by decide
  have hcapital : ∀ n < 16, Number.digitValue? 16 (Nat.digitChar n).toUpper = some n := by decide
  obtain ⟨hn, rfl | rfl⟩ := h
  · exact hsmall n hn
  · exact hcapital n hn

theorem IsHexOf.allHex {digits : List Char} {u : UInt16} (h : IsHexOf digits u) : AllHex digits := by
  obtain - | ⟨ha, - | ⟨hb, - | ⟨hc, - | ⟨hd, ⟨⟩⟩⟩⟩⟩ := h
  simp [AllHex, ha.digitValue?, hb.digitValue?, hc.digitValue?, hd.digitValue?]

theorem IsHexOf.value {digits : List Char} {u : UInt16} (h : IsHexOf digits u) : hexValue digits 0 = u.toNat := by
  have hu := u.toNat_lt
  obtain - | ⟨ha, - | ⟨hb, - | ⟨hc, - | ⟨hd, ⟨⟩⟩⟩⟩⟩ := h
  simp only [hexValue, List.foldl_cons, List.foldl_nil, ha.digitValue?, hb.digitValue?, hc.digitValue?,
    hd.digitValue?, Option.getD_some]
  omega

namespace Scan
variable {span start : Span} {rest after digits : List Char} {u v : UInt16} {value : Nat}

theorem hexDigits_takes (hhex : AllHex digits) : Takes (hexDigits span digits.length value) (digits ++ rest)
    (· = hexValue digits value) rest := by
  induction digits generalizing value with
  | nil => exact .pure rfl
  | cons c digits ih =>
    obtain ⟨hc, hdigits⟩ := List.forall_mem_cons.mp hhex
    obtain ⟨d, hd⟩ := Option.isSome_iff_exists.mp hc
    refine .peek_bind ?_
    rw [List.cons_append, List.head?_cons, Option.bind_some, hd]
    refine .skip_bind ((ih hdigits).mono fun n hn => ?_)
    rw [hn, hexValue, hexValue, List.foldl_cons, hd, Option.getD_some]

theorem hexDigits_unit (hdigits : IsHexOf digits u) :
    Takes (hexDigits span 4 0) (digits ++ rest) (· = u.toNat) rest := by
  have hlength : digits.length = 4 := hdigits.length_eq
  rw [← hlength, ← hdigits.value]
  exact hexDigits_takes hdigits.allHex

theorem head?_ne_brace (hhex : AllHex digits) (hsome : digits ≠ []) : (digits ++ rest).head? ≠ some '{' := by
  obtain ⟨c, digits, rfl⟩ := List.exists_cons_of_ne_nil hsome
  intro h
  obtain rfl := Option.some.inj h
  exact absurd (hhex '{' (List.mem_cons_self ..)) (by decide)

/-- Without braces, an escape starts with four digits. -/
theorem unicodeEscape_digits {between : List Char} {Q : Char → Prop} (hhex : AllHex digits)
    (hlength : digits.length = 4)
    (h : Takes (if 0xD800 ≤ hexValue digits 0 ∧ hexValue digits 0 < 0xDC00 then
      lowSurrogate span (hexValue digits 0) else return charOfCode (hexValue digits 0)) between Q after) :
    Takes (unicodeEscape span) (digits ++ between) Q after := by
  have hsome : digits ≠ [] := by
    rintro rfl
    cases hlength
  rw [unicodeEscape]
  refine .peek_bind ?_
  rw [if_neg (head?_ne_brace hhex hsome), ← hlength]
  refine (hexDigits_takes hhex).bind ?_
  rintro _ rfl
  exact h

theorem unicodeEscape_unit (hdigits : IsHexOf digits u) (hhigh : isHighSurrogate u = false) :
    Takes (unicodeEscape span) (digits ++ rest) (· = charOfCode u.toNat) rest := by
  refine unicodeEscape_digits hdigits.allHex hdigits.length_eq ?_
  rw [hdigits.value, if_neg ?_]
  · exact .pure rfl
  · simpa [isHighSurrogate, UInt16.le_iff_toNat_le, UInt16.lt_iff_toNat_lt] using hhigh

theorem unicodeEscape_pair {digits' : List Char} (hdigits : IsHexOf digits u)
    (hdigits' : IsHexOf digits' v) (hhigh : isHighSurrogate u = true) (hlow : isLowSurrogate v = true) :
    Takes (unicodeEscape span) (digits ++ '\\' :: 'u' :: (digits' ++ rest))
      (· = charOfCode (pairCode u v)) rest := by
  refine unicodeEscape_digits hdigits.allHex hdigits.length_eq ?_
  rw [hdigits.value, if_pos ?_, lowSurrogate]
  · refine .get_bind fun before hbefore => ?_
    rw [hbefore]
    refine .skip_bind ((hexDigits_unit hdigits').bind ?_)
    rintro _ rfl
    rw [if_pos ?_]
    · exact .pure rfl
    · simpa [isLowSurrogate, UInt16.le_iff_toNat_le, UInt16.lt_iff_toNat_lt] using hlow
  · simpa [isHighSurrogate, UInt16.le_iff_toNat_le, UInt16.lt_iff_toNat_lt] using hhigh

theorem escape_units {c : Char} {us : List UInt16} {text : List Char}
    (h : Escaped (unitsOfChar c ++ us) text) : ∃ written between, text = '\\' :: (written ++ between) ∧
      Escaped us between ∧ ∀ span rest,
        Takes (escape span) (written ++ (between ++ rest)) (· = some c) (between ++ rest) := by
  obtain ⟨u, hu, hhigh, -, hc⟩ | ⟨u, v, huv, hhigh, hlow, hc⟩ := unitsOfChar_cases c
  · rw [hu] at h
    obtain - | @⟨_, _, digits, between, hdigits, hbetween⟩ := h
    refine ⟨'u' :: digits, between, rfl, hbetween, fun span rest => .next_bind ?_⟩
    exact (unicodeEscape_unit hdigits hhigh).bind fun _ hd => .pure (congrArg some (hd.trans hc))
  · rw [huv] at h
    obtain - | @⟨_, _, digits, _, hdigits, - | @⟨_, _, digits', between, hdigits', hbetween⟩⟩ := h
    refine ⟨'u' :: (digits ++ '\\' :: 'u' :: digits'), between, by simp, hbetween, fun span rest => ?_⟩
    rw [List.cons_append, List.append_assoc, List.cons_append, List.cons_append]
    refine .next_bind ((unicodeEscape_pair hdigits hdigits' hhigh hlow).bind fun _ hd => ?_)
    exact .pure (congrArg some (hd.trans hc))

theorem stringRest_escaped {quote : Char} (hquote : IsQuote quote) {cs text : List Char} {value : String}
    {fuel : Nat} (h : Escaped (unitsOf cs) text) (hfuel : text.length < fuel) :
    Takes (stringRest start quote fuel value) (text ++ quote :: after)
      (· = value ++ String.ofList cs) after := by
  induction cs generalizing text value fuel with
  | nil =>
    cases h
    obtain - | fuel := fuel
    · cases hfuel
    exact stringRest_close.mono fun _ h => h.trans (by simp)
  | cons c cs ih =>
    obtain ⟨written, between, rfl, hbetween, hescape⟩ := escape_units h
    obtain - | fuel := fuel
    · cases hfuel
    have hvalue : value ++ String.ofList (c :: cs) = value.push c ++ String.ofList cs := by
      rw [← String.toList_inj]
      simp
    rw [hvalue, List.cons_append, List.append_assoc]
    refine stringRest_escape hquote fun span => ⟨_, _, hescape span _, ?_⟩
    rintro _ rfl
    refine ih hbetween ?_
    simp only [List.length_cons, List.length_append] at hfuel
    omega

theorem string_escaped {quote : Char} (hquote : IsQuote quote) {cs text : List Char}
    (h : Escaped (unitsOf cs) text) :
    Takes (string quote) (quote :: (text ++ quote :: after)) (· = .string (String.ofList cs)) after := by
  refine .here_bind fun start => .skip_bind (.bound_bind ((stringRest_escaped hquote h ?_).bind ?_))
  · rw [List.drop_succ_cons, List.drop_zero, List.length_append]
    omega
  · rintro _ rfl
    exact .pure (by simp)

end Scan

/-- A string that is written with one escape for each of its code units, in quotes, is the only token of
its text. -/
theorem tokenize_escaped {quote : Char} (hquote : Scan.IsQuote quote) (s : String) :
    (∃ text, Escaped (units s).toList text) ∧ ∀ text, Escaped (units s).toList text →
      (tokenize (String.ofList (quote :: (text ++ [quote])))).map (·.map Lexeme.token) =
        .ok [.string s, .endOfInput] := by
  refine ⟨exists_escaped _, fun text h => ?_⟩
  have hstring := @Scan.string_escaped [] quote hquote s.toList text h
  rw [String.ofList_toList] at hstring
  obtain ⟨_, rfl, htokens⟩ := tokenize_string hquote hstring
  exact htokens

/-- A character outside the basic plane, beside one that could be taken for the second half of a pair. -/
theorem tokenize_escaped_pair : Scan.IsQuote '\x27' ∧
    Escaped (units "😀\ue000").toList "\\uD83d\\uDe00\\uE000".toList ∧
      (tokenize "'\\uD83d\\uDe00\\uE000'").map (·.map Lexeme.token) =
        .ok [.string "😀\ue000", .endOfInput] := by
  have hunits : (units "😀\ue000").toList = [0xD83D, 0xDE00, 0xE000] := by decide
  have htext : Escaped (units "😀\ue000").toList "\\uD83d\\uDe00\\uE000".toList := by
    have hdigits {a b c d : Char} {k l m n : Nat} (ha : IsHexDigit a k) (hb : IsHexDigit b l)
        (hc : IsHexDigit c m) (hd : IsHexDigit d n) : List.Forall₂ IsHexDigit [a, b, c, d] [k, l, m, n] :=
      .cons ha (.cons hb (.cons hc (.cons hd .nil)))
    have hhigh : IsHexOf ['D', '8', '3', 'd'] 0xD83D := hdigits (by decide) (by decide) (by decide) (by decide)
    have hlow : IsHexOf ['D', 'e', '0', '0'] 0xDE00 := hdigits (by decide) (by decide) (by decide) (by decide)
    have halone : IsHexOf ['E', '0', '0', '0'] 0xE000 := hdigits (by decide) (by decide) (by decide) (by decide)
    rw [hunits]
    exact .cons hhigh (.cons hlow (.cons halone .nil))
  have hsource : String.ofList ('\x27' :: ("\\uD83d\\uDe00\\uE000".toList ++ ['\x27'])) =
      "'\\uD83d\\uDe00\\uE000'" := by decide
  refine ⟨.inl rfl, htext, ?_⟩
  rw [← hsource]
  exact (tokenize_escaped (.inl rfl) "😀\ue000").2 _ htext

end EcmaScript
