import FlowEngine.Expr.Scan
import FlowEngine.Proofs.Decimal.Numeral

/-! What the scanner takes off a text for a token, and the texts of tokens. Written with blanks between them they are
scanned back to the tokens. -/
namespace FlowEngine.Token

theorem map_eq_ok {ε α β : Type} {x : Except ε α} {f : α → β} {b : β} :
    x.map f = .ok b ↔ ∃ a, x = .ok a ∧ f a = b := by
  cases x <;> simp [Except.map]

theorem isQuote_iff {c : Char} : isQuote c = true ↔ c = '\x22' ∨ c = '\'' ∨ c = '\x60' := by
  simp [isQuote, or_assoc]

theorem punct?_eq_some {cs : List Char} {p : Punct} (h : punct? cs = some p) :
    p.text.toList <+: cs := by
  unfold punct? at h
  split at h
  case h_11 =>
    cases h
    split
    · exact ⟨_, rfl⟩
    · exact ⟨_, rfl⟩
  case h_30 => cases h
  all_goals
    cases h
    exact ⟨_, rfl⟩

section
variable {position : Nat} {c : Char} {cs : List Char} {ts : List Token}

theorem scanFrom_nil : scanFrom position [] = .ok [] := by
  rw [scanFrom.eq_def]

theorem scanFrom_blank (hc : Text.isBlank c = true) (h : scanFrom (position + 1) cs = .ok ts) :
    scanFrom position (c :: cs) = .ok ts := by
  rw [scanFrom.eq_def]
  dsimp only
  rw [if_pos hc, h]

theorem scanFrom_token {t : Token} {n : Nat} (hc : Text.isBlank c = false)
    (ht : first position c cs = .ok (t, n)) (h : scanFrom (position + 1 + n) (cs.drop n) = .ok ts) :
    scanFrom position (c :: cs) = .ok (t :: ts) := by
  rw [scanFrom.eq_def]
  dsimp only
  rw [if_neg (by simp [hc]), ht]
  dsimp only
  rw [h]
  rfl

end

def isNumberChar (c : Char) : Bool :=
  c.isDigit || c == '.' || c == 'e' || c == 'E' || c == '+' || c == '-'

def NumberPrefix (text cs : List Char) : Prop := text <+: cs ∧ ∀ c ∈ text, isNumberChar c = true

section
variable {text text' cs : List Char}

private theorem NumberPrefix.nil : NumberPrefix [] cs := ⟨List.nil_prefix, by simp⟩

private theorem NumberPrefix.cons {c : Char} (hc : isNumberChar c = true) (h : NumberPrefix text cs) :
    NumberPrefix (c :: text) (c :: cs) :=
  ⟨(List.prefix_cons_inj c).mpr h.1, List.forall_mem_cons.mpr ⟨hc, h.2⟩⟩

private theorem NumberPrefix.append (h : NumberPrefix text cs) (h' : NumberPrefix text' (cs.drop text.length)) :
    NumberPrefix (text ++ text') cs := by
  obtain ⟨⟨rest, rfl⟩, hall⟩ := h
  rw [List.drop_left] at h'
  exact ⟨(List.prefix_append_right_inj text).mpr h'.1, List.forall_mem_append.mpr ⟨hall, h'.2⟩⟩

private theorem numberPrefix_takeWhile : NumberPrefix (cs.takeWhile Char.isDigit) cs := by
  refine ⟨List.takeWhile_prefix _, fun c hc => ?_⟩
  simp [isNumberChar, List.all_eq_true.mp (List.all_takeWhile (p := Char.isDigit)) c hc]

end

private theorem numberPrefix_exponentText (cs : List Char) : NumberPrefix (exponentText cs) cs := by
  cases cs with
  | nil => exact .nil
  | cons mark rest =>
    have hsign : ∃ sign, NumberPrefix sign rest ∧ exponentText (mark :: rest) =
        if mark == 'e' || mark == 'E' then
          if ((rest.drop sign.length).takeWhile Char.isDigit).isEmpty then []
          else mark :: (sign ++ (rest.drop sign.length).takeWhile Char.isDigit)
        else [] := by
      unfold exponentText
      refine ⟨_, ?_, rfl⟩
      split
      · exact .cons rfl .nil
      · exact .cons rfl .nil
      · exact .nil
    obtain ⟨sign, hsign, htext⟩ := hsign
    rw [htext]
    split
    · rename_i hmark
      rw [Bool.or_eq_true] at hmark
      split
      · exact .nil
      · refine .cons ?_ (hsign.append numberPrefix_takeWhile)
        rcases hmark with hmark | hmark
        · simp [isNumberChar, hmark]
        · simp [isNumberChar, hmark]
    · exact .nil

theorem numberPrefix_numberText (cs : List Char) : NumberPrefix (numberText cs) cs := by
  have hplaces : ∃ places, NumberPrefix places (cs.drop (cs.takeWhile Char.isDigit).length) ∧
      numberText cs = cs.takeWhile Char.isDigit ++ places ++
        exponentText ((cs.drop (cs.takeWhile Char.isDigit).length).drop places.length) := by
    unfold numberText
    refine ⟨_, ?_, rfl⟩
    split
    · rename_i rest hrest
      rw [hrest]
      split
      · exact .cons rfl numberPrefix_takeWhile
      · exact .nil
    · exact .nil
  obtain ⟨places, hplaces, htext⟩ := hplaces
  rw [htext, List.append_assoc]
  exact numberPrefix_takeWhile.append (hplaces.append (numberPrefix_exponentText _))

/-! Numbers among the tokens. -/

private theorem first_eq_number {position n : Nat} {c : Char} {cs : List Char} {x : Float}
    (h : first position c cs = .ok (.number x, n)) :
    ∃ numeral, numeral <+: c :: cs ∧ Decimal.float? (String.ofList numeral) = some x := by
  unfold first at h
  split at h
  · dsimp only at h
    split at h
    · rename_i y hfloat
      cases h
      exact ⟨_, (numberPrefix_numberText (c :: cs)).1, hfloat⟩
    · cases h
  · split at h
    · obtain ⟨_, -, h⟩ := map_eq_ok.mp h
      cases h
    · split at h
      · cases h
      · split at h <;> cases h

theorem numeral_of_scanFrom {position : Nat} {cs : List Char} {ts : List Token} {x : Float}
    (h : scanFrom position cs = .ok ts) (hx : .number x ∈ ts) :
    ∃ numeral, numeral <:+: cs ∧ Decimal.float? (String.ofList numeral) = some x := by
  fun_induction scanFrom position cs generalizing ts with
  | case1 =>
    cases h
    cases hx
  | case2 position c cs hblank ih =>
    obtain ⟨numeral, hinfix, hfloat⟩ := ih h hx
    exact ⟨numeral, hinfix.trans (List.suffix_cons c cs).isInfix, hfloat⟩
  | case3 => cases h
  | case4 position c cs hblank token n hfirst ih =>
    obtain ⟨ts', hrest, rfl⟩ := map_eq_ok.mp h
    cases hx with
    | head =>
      obtain ⟨numeral, hprefix, hfloat⟩ := first_eq_number hfirst
      exact ⟨numeral, hprefix.isInfix, hfloat⟩
    | tail _ hx =>
      obtain ⟨numeral, hinfix, hfloat⟩ := ih hrest hx
      exact ⟨numeral, hinfix.trans ((List.drop_suffix n cs).trans (List.suffix_cons c cs)).isInfix, hfloat⟩

end FlowEngine.Token

namespace FlowEngine

/-- A token as it is written: numbers are whole, and texts stand in quotes. -/
inductive Lexeme where
  | whole (n : Nat)
  | quoted (s : String)
  | name (s : String)
  | punct (p : Punct)

/-- Whether a text is a name in an expression. -/
def isName (s : String) : Bool :=
  match s.toList with
  | c :: cs => Token.isNameStart c && cs.all Token.isNameChar
  | [] => false

namespace Lexeme

/-- A character between quotes; what cannot stand there as it is has a backslash before it. -/
def escape (quote : Char) : Char → List Char
  | '\n' => ['\\', 'n']
  | '\t' => ['\\', 't']
  | '\r' => ['\\', 'r']
  | '\x00' => ['\\', '0']
  | c => if c == quote || c == '\\' then ['\\', c] else [c]

def chars (quote : Char) : Lexeme → List Char
  | whole n => Nat.toDigits 10 n
  | quoted s => quote :: (s.toList.flatMap (escape quote) ++ [quote])
  | name s => s.toList
  | punct p => p.text.toList

def text (quote : Char) (l : Lexeme) : String := String.ofList (l.chars quote)

def token : Lexeme → Token
  | whole n => .number (Decimal.toFloat n 0)
  | quoted s => .text s
  | name s => .name s
  | punct p => .punct p

def Lexical : Lexeme → Prop
  | name s => isName s = true
  | _ => True

def Parted (rest : List Char) : Prop := rest = [] ∨ ∃ rest', rest = ' ' :: rest'

section
variable {position : Nat} {quote : Char} {rest : List Char}

private theorem takeWhile_parted {p : Char → Bool} {cs : List Char} (hp : p ' ' = false) (hcs : ∀ c ∈ cs, p c = true)
    (hrest : Parted rest) : (cs ++ rest).takeWhile p = cs := by
  rw [List.takeWhile_append_of_pos hcs]
  obtain rfl | ⟨rest', rfl⟩ := hrest
  · simp
  · rw [List.takeWhile_cons_of_neg (by simp [hp]), List.append_nil]

private theorem isNameStart_iff {c : Char} : Token.isNameStart c = true ↔
    (65 ≤ c.toNat ∧ c.toNat ≤ 90) ∨ (97 ≤ c.toNat ∧ c.toNat ≤ 122) ∨ c.toNat = 95 ∨ c.toNat = 36 := by
  unfold Token.isNameStart Char.isAlpha Char.isUpper Char.isLower
  simp only [Bool.or_eq_true, Bool.and_eq_true, decide_eq_true_eq, ge_iff_le, UInt32.le_iff_toNat_le, beq_iff_eq,
    or_assoc, Char.ext_iff, ← UInt32.toNat_inj]
  rfl

private theorem numberText_digits {ds : List Char} (hds : ∀ d ∈ ds, d.isDigit = true) (hrest : Parted rest) :
    Token.numberText (ds ++ rest) = ds := by
  rw [Token.numberText, takeWhile_parted (by decide) hds hrest, List.drop_left]
  obtain rfl | ⟨rest', rfl⟩ := hrest
  · simp [Token.exponentText]
  · simp [Token.exponentText]

private theorem float?_digits {n : Nat} :
    Decimal.float? (String.ofList (Nat.toDigits 10 n)) = some (Decimal.toFloat n 0) := by
  have hdigits : ∀ d ∈ Nat.toDigits 10 n, d.isDigit = true := fun d hd =>
    Nat.isDigit_of_mem_toDigits (by decide) (Nat.le_refl 10) hd
  have hvalue : Decimal.digitValue (Nat.toDigits 10 n) = n := by
    rw [Decimal.digitValue, ← Nat.ofDigitChars_eq_foldl, Nat.ofDigitChars_ten_toDigits]
  rw [Decimal.float?, String.toList_ofList]
  split
  · rename_i hminus
    have hdigit := hdigits '-' (by rw [hminus]; exact List.mem_cons_self)
    cases hdigit
  · rename_i hplus
    have hdigit := hdigits '+' (by rw [hplus]; exact List.mem_cons_self)
    cases hdigit
  · rw [Decimal.magnitude?_digits hdigits Nat.toDigits_ne_nil, hvalue]

private theorem first_whole (position n : Nat) (hrest : Parted rest) :
    ∃ c cs, Nat.toDigits 10 n = c :: cs ∧ c.isDigit = true ∧
    Token.first position c (cs ++ rest) = .ok (.number (Decimal.toFloat n 0), cs.length) := by
  have hdigits : ∀ d ∈ Nat.toDigits 10 n, d.isDigit = true := fun d hd =>
    Nat.isDigit_of_mem_toDigits (by decide) (Nat.le_refl 10) hd
  cases htext : Nat.toDigits 10 n with
  | nil => exact absurd htext Nat.toDigits_ne_nil
  | cons c cs =>
    have hc : c.isDigit = true := hdigits c (by rw [htext]; exact List.mem_cons_self)
    refine ⟨c, cs, rfl, hc, ?_⟩
    rw [Token.first, hc, Bool.true_or, if_pos rfl, ← List.cons_append, ← htext, numberText_digits hdigits hrest]
    dsimp only
    rw [float?_digits, htext]
    rfl

private theorem quoted_escape {c : Char} {cs : List Char} (hquote : Token.isQuote quote = true) :
    Token.quoted quote (escape quote c ++ cs) =
      (Token.quoted quote cs).map (fun (s, n) => (c :: s, n + (escape quote c).length)) := by
  have hslash : ('\\' == quote) = false := by
    obtain rfl | rfl | rfl := Token.isQuote_iff.mp hquote <;> rfl
  unfold escape
  split
  case h_5 =>
    split
    · rename_i hspecial
      have hc : c = '\x22' ∨ c = '\'' ∨ c = '\x60' ∨ c = '\\' := by
        simp only [Bool.or_eq_true, beq_iff_eq] at hspecial
        obtain rfl | rfl := hspecial
        · simpa [or_assoc] using Or.inl (Token.isQuote_iff.mp hquote)
        · simp
      rw [List.cons_append, List.singleton_append, Token.quoted.eq_def]
      simp only [hslash]
      obtain rfl | rfl | rfl | rfl := hc <;> rfl
    · rename_i hplain
      simp only [Bool.or_eq_true, not_or, Bool.not_eq_true] at hplain
      rw [List.singleton_append, Token.quoted.eq_def]
      simp only [hplain.1, hplain.2]
      rfl
  all_goals
    rw [List.cons_append, List.singleton_append, Token.quoted.eq_def]
    simp only [hslash]
    rfl

private theorem quoted_chars {cs : List Char} (hquote : Token.isQuote quote = true) :
    Token.quoted quote (cs.flatMap (escape quote) ++ quote :: rest) =
      .ok (cs, (cs.flatMap (escape quote)).length + 1) := by
  induction cs with
  | nil =>
    rw [List.flatMap_nil, List.nil_append, Token.quoted.eq_def]
    simp
  | cons c cs ih =>
    rw [List.flatMap_cons, List.append_assoc, quoted_escape hquote, ih]
    simp only [Except.map, List.length_append]
    congr 2
    omega

private theorem first_quoted {cs : List Char} (hquote : Token.isQuote quote = true) :
    Token.first position quote (cs.flatMap (escape quote) ++ quote :: rest) =
      .ok (.text (String.ofList cs), (cs.flatMap (escape quote)).length + 1) := by
  have hnumber : (quote.isDigit || (quote == '.' && Token.startsWithDigit (cs.flatMap (escape quote) ++
      quote :: rest))) = false := by
    obtain rfl | rfl | rfl := Token.isQuote_iff.mp hquote <;> rfl
  rw [Token.first, hnumber, hquote, quoted_chars hquote]
  rfl

private theorem first_name {c : Char} {cs : List Char} (hc : Token.isNameStart c = true)
    (hcs : ∀ d ∈ cs, Token.isNameChar d = true) (hrest : Parted rest) :
    Token.first position c (cs ++ rest) = .ok (.name (String.ofList (c :: cs)), cs.length) := by
  have hrange := isNameStart_iff.mp hc
  have hdigit : c.isDigit = false := by
    rw [Bool.eq_false_iff, Ne, Decimal.isDigit_iff]
    omega
  have hdot : (c == '.') = false := by
    rw [beq_eq_false_iff_ne]
    rintro rfl
    cases hc
  have hquote : Token.isQuote c = false := by
    rw [Bool.eq_false_iff, Ne, Token.isQuote_iff]
    rintro (rfl | rfl | rfl) <;> cases hc
  rw [Token.first, hdigit, hdot, hquote, hc, takeWhile_parted (by decide) hcs hrest]
  rfl

private theorem first_punct {p : Punct} (hrest : Parted rest) :
    ∃ c cs, p.text.toList = c :: cs ∧ Text.isBlank c = false ∧
    Token.first position c (cs ++ rest) = .ok (.punct p, cs.length) := by
  obtain rfl | ⟨rest', rfl⟩ := hrest
  · cases p <;> exact ⟨_, _, rfl, rfl, rfl⟩
  · cases p with
    | optional =>
      have hpunct : Token.punct? ('?' :: '.' :: ' ' :: rest') = some .optional := rfl
      refine ⟨'?', ['.'], rfl, rfl, ?_⟩
      rw [List.singleton_append, Token.first, hpunct]
      rfl
    | _ => exact ⟨_, _, rfl, rfl, rfl⟩

private theorem isBlank_eq_false {c : Char} (h : 33 ≤ c.toNat) (h' : c.toNat ≤ 126) : Text.isBlank c = false := by
  simp only [Text.isBlank, Bool.or_eq_false_iff, Bool.and_eq_false_iff, decide_eq_false_iff_not, beq_eq_false_iff_ne]
  omega

/-- A lexeme is scanned to its token, whatever stands behind it. -/
private theorem exists_first {l : Lexeme} (position : Nat) (hl : l.Lexical) (hquote : Token.isQuote quote = true)
    (hrest : Parted rest) :
    ∃ c cs, l.chars quote = c :: cs ∧ Text.isBlank c = false ∧
      Token.first position c (cs ++ rest) = .ok (l.token, cs.length) := by
  cases l with
  | whole n =>
    obtain ⟨c, cs, hchars, hc, hfirst⟩ := first_whole position n hrest
    have hrange := Decimal.isDigit_iff.mp hc
    exact ⟨c, cs, hchars, isBlank_eq_false (by omega) (by omega), hfirst⟩
  | quoted s =>
    have hblank : Text.isBlank quote = false := by
      obtain rfl | rfl | rfl := Token.isQuote_iff.mp hquote <;> rfl
    refine ⟨quote, _, rfl, hblank, ?_⟩
    rw [List.append_assoc, List.singleton_append, first_quoted hquote, String.ofList_toList, List.length_append]
    rfl
  | name s =>
    have hname : isName s = true := hl
    rw [isName] at hname
    split at hname
    · rename_i c cs hchars
      obtain ⟨hc, hcs⟩ := Bool.and_eq_true_iff.mp hname
      have hrange := isNameStart_iff.mp hc
      refine ⟨c, cs, hchars, isBlank_eq_false (by omega) (by omega), ?_⟩
      rw [first_name hc (List.all_eq_true.mp hcs) hrest, ← hchars, String.ofList_toList]
      rfl
    · cases hname
  | punct p => exact first_punct hrest

private theorem scanFrom_lexeme {l : Lexeme} {ts : List Token} (hl : l.Lexical) (hquote : Token.isQuote quote = true)
    (hrest : Parted rest) (h : ∀ position, Token.scanFrom position rest = .ok ts) :
    Token.scanFrom position (l.chars quote ++ rest) = .ok (l.token :: ts) := by
  obtain ⟨c, cs, hchars, hblank, hfirst⟩ := exists_first position hl hquote hrest
  rw [hchars, List.cons_append]
  refine Token.scanFrom_token hblank hfirst ?_
  rw [List.drop_left]
  exact h _

private theorem scanFrom_chars {ls : List Lexeme} (hls : ∀ l ∈ ls, l.Lexical) (hquote : Token.isQuote quote = true) :
    Token.scanFrom position ([' '].intercalate (ls.map (chars quote))) = .ok (ls.map token) := by
  induction ls generalizing position with
  | nil => exact Token.scanFrom_nil
  | cons l ls ih =>
    obtain ⟨hl, hls⟩ := List.forall_mem_cons.mp hls
    cases ls with
    | nil =>
      rw [List.map_cons, List.map_nil, List.intercalate_singleton, ← List.append_nil (l.chars quote)]
      exact scanFrom_lexeme hl hquote (.inl rfl) fun position => Token.scanFrom_nil
    | cons l' ls =>
      rw [List.map_cons, List.map_cons, List.intercalate_cons_cons, List.append_assoc]
      exact scanFrom_lexeme hl hquote (.inr ⟨_, rfl⟩) fun position => Token.scanFrom_blank rfl (ih hls)

/-- Lexemes with blanks between them are scanned to their tokens. -/
theorem scan_intercalate {ls : List Lexeme} (hls : ∀ l ∈ ls, l.Lexical) (hquote : Token.isQuote quote = true) :
    Token.scan (" ".intercalate (ls.map (text quote))) = .ok (ls.map token) := by
  have htext : (ls.map (text quote)).map String.toList = ls.map (chars quote) := by
    simp [text, Function.comp_def]
  rw [Token.scan, String.toList_intercalate, htext]
  exact scanFrom_chars hls hquote

end
end Lexeme
end FlowEngine
