import FlowEngine.Proofs.Expr.Parsing
import FlowEngine.Proofs.Expr.Scanning
import FlowEngine.Template

/-! Where the blocks of a template end. The search for the end passes over the text of a token just as the
scanner of expressions does, so that it stops behind a whole expression and not within one. -/
namespace FlowEngine.Template

attribute [simp] blockEnd?

def isOrdinary (c : Char) : Bool := !Token.isQuote c && c != '\x7b' && c != '\x7d'

/-- The search for the end of a block goes on behind a text with other open braces and another quote. -/
def Passes (depth : Nat) (quote : Option Char) (cs : List Char) (depth' : Nat) (quote' : Option Char) : Prop :=
  ∀ rest, blockEnd? depth quote (cs ++ rest) = (blockEnd? depth' quote' rest).map (· + cs.length)

section
variable {depth depth' depth₁ depth₂ : Nat} {quote quote₁ quote₂ : Option Char} {c q : Char} {cs cs₁ cs₂ : List Char}

private theorem Passes.nil : Passes depth quote [] depth quote := by
  intro rest
  simp

private theorem Passes.append (h₁ : Passes depth quote cs₁ depth₁ quote₁)
    (h₂ : Passes depth₁ quote₁ cs₂ depth₂ quote₂) : Passes depth quote (cs₁ ++ cs₂) depth₂ quote₂ := by
  intro rest
  rw [List.append_assoc, h₁, h₂, Option.map_map, List.length_append]
  congr 1
  funext n
  simp only [Function.comp_apply]
  omega

private theorem Passes.cons (h₁ : Passes depth quote [c] depth₁ quote₁) (h₂ : Passes depth₁ quote₁ cs depth₂ quote₂) :
    Passes depth quote (c :: cs) depth₂ quote₂ :=
  h₁.append h₂

private theorem passes_ordinary (h : isOrdinary c = true) : Passes depth none [c] depth none := by
  intro rest
  simp only [isOrdinary, Bool.and_eq_true, Bool.not_eq_true', bne_iff_ne, ne_eq] at h
  simp [h]

private theorem passes_allOrdinary (h : ∀ c ∈ cs, isOrdinary c = true) : Passes depth none cs depth none := by
  induction cs with
  | nil => exact .nil
  | cons c cs ih =>
    exact .cons (passes_ordinary (h c List.mem_cons_self)) (ih fun d hd => h d (List.mem_cons_of_mem c hd))

private theorem passes_openBrace : Passes depth none ['\x7b'] (depth + 1) none := by
  intro rest
  simp [Token.isQuote]

private theorem passes_closeBrace : Passes (depth + 1) none ['\x7d'] depth none := by
  intro rest
  simp [Token.isQuote]

private theorem passes_quote (h : Token.isQuote q = true) : Passes depth none [q] depth (some q) := by
  intro rest
  simp [h]

private theorem passes_closingQuote (h : q ≠ '\\') : Passes depth (some q) [q] depth none := by
  intro rest
  rw [List.singleton_append, blockEnd?.eq_def]
  simp [h]

private theorem passes_character (hc : c ≠ '\\') (hq : c ≠ q) : Passes depth (some q) [c] depth (some q) := by
  intro rest
  rw [List.singleton_append, blockEnd?.eq_def]
  simp [hc, hq]

private theorem passes_escape : Passes depth (some q) ['\\', c] depth (some q) := by
  intro rest
  simp

/-! Quoted texts. -/

private theorem hexDigit?_isSome_of_foldlM {digits : List Char} {n m : Nat}
    (h : digits.foldlM (fun n c => (Token.hexDigit? c).map (16 * n + ·)) n = some m) (hc : c ∈ digits) :
    (Token.hexDigit? c).isSome = true := by
  induction digits generalizing n with
  | nil => cases hc
  | cons d digits ih =>
    obtain ⟨n', hn', h⟩ := Option.bind_eq_some_iff.mp h
    cases hc with
    | head =>
      obtain ⟨value, hvalue, -⟩ := Option.map_eq_some_iff.mp hn'
      simp [hvalue]
    | tail _ hc => exact ih h hc

private theorem not_isQuote_of_codeChar? {digits : List Char} {e : Char} (h : Token.codeChar? digits = some e)
    (hc : c ∈ digits) : c ≠ '\\' ∧ Token.isQuote c = false := by
  obtain ⟨n, hn, -⟩ := Option.bind_eq_some_iff.mp h
  have hplus : c = '+' ∨ (Token.hexDigit? c).isSome = true := by
    split at hn
    · exact (List.mem_cons.mp hc).imp_right (hexDigit?_isSome_of_foldlM hn)
    · exact .inr (hexDigit?_isSome_of_foldlM hn hc)
  refine ⟨?_, ?_⟩
  · rintro rfl
    revert hplus
    decide
  · rw [Bool.eq_false_iff, Ne, Token.isQuote_iff]
    rintro (rfl | rfl | rfl)
    all_goals
      revert hplus
      decide

/-- The quoted text that the scanner reads is passed over up to behind its closing quote. -/
private theorem passes_quoted {s : List Char} {n : Nat} (depth : Nat) (hq : Token.isQuote q = true)
    (h : Token.quoted q cs = .ok (s, n)) :
    ∃ text rest, cs = text ++ rest ∧ text.length = n ∧ Passes depth (some q) text depth none := by
  have hslash : q ≠ '\\' := by
    rintro rfl
    cases hq
  fun_induction Token.quoted q cs generalizing s n with
  | case1 => cases h
  | case2 c rest hc =>
    cases h
    obtain rfl := beq_iff_eq.mp hc
    exact ⟨[c], rest, rfl, rfl, passes_closingQuote hslash⟩
  | case3 => cases h
  | case4 c hc hbackslash d₁ d₂ d₃ d₄ rest e he ih =>
    obtain ⟨⟨s', n'⟩, hrest, hn⟩ := Token.map_eq_ok.mp h
    cases hn
    obtain rfl := beq_iff_eq.mp hbackslash
    obtain ⟨text, rest', rfl, rfl, hpasses⟩ := ih hrest
    have hdigit {d : Char} (hd : d ∈ [d₁, d₂, d₃, d₄]) : Passes depth (some q) [d] depth (some q) := by
      obtain ⟨hd₁, hd₂⟩ := not_isQuote_of_codeChar? he hd
      refine passes_character hd₁ fun hd₃ => ?_
      rw [hd₃, hq] at hd₂
      cases hd₂
    refine ⟨['\\', 'u'] ++ d₁ :: d₂ :: d₃ :: d₄ :: text, rest', rfl, by simp, passes_escape.append ?_⟩
    exact .cons (hdigit (by simp)) (.cons (hdigit (by simp)) (.cons (hdigit (by simp))
      (.cons (hdigit (by simp)) hpasses)))
  | case5 => cases h
  | case6 => cases h
  | case7 c hc hbackslash e rest _ _ ih =>
    obtain ⟨⟨s', n'⟩, hrest, hn⟩ := Token.map_eq_ok.mp h
    cases hn
    obtain rfl := beq_iff_eq.mp hbackslash
    obtain ⟨text, rest', rfl, rfl, hpasses⟩ := ih hrest
    exact ⟨['\\', e] ++ text, rest', rfl, by simp, passes_escape.append hpasses⟩
  | case8 c rest hc hbackslash ih =>
    obtain ⟨⟨s', n'⟩, hrest, hn⟩ := Token.map_eq_ok.mp h
    cases hn
    obtain ⟨text, rest', rfl, rfl, hpasses⟩ := ih hrest
    exact ⟨c :: text, rest', rfl, rfl, .cons (passes_character (by simpa using hbackslash) (by simpa using hc))
      hpasses⟩

/-! Tokens. -/

private theorem isOrdinary_of {p : Char → Bool} (hp : ['\x22', '\'', '\x60', '\x7b', '\x7d'].all (! p ·) = true)
    (h : p c = true) : isOrdinary c = true := by
  cases hc : isOrdinary c with
  | true => rfl
  | false =>
    have hmem : c ∈ ['\x22', '\'', '\x60', '\x7b', '\x7d'] := by
      simp only [isOrdinary, Token.isQuote] at hc
      simp only [List.mem_cons]
      grind
    have hnot := List.all_eq_true.mp hp c hmem
    rw [h] at hnot
    cases hnot

private theorem isOrdinary_of_isBlank (h : Text.isBlank c = true) : isOrdinary c = true := isOrdinary_of (by decide) h

private theorem isOrdinary_of_isNumberChar (h : Token.isNumberChar c = true) : isOrdinary c = true :=
  isOrdinary_of (by decide) h

private theorem isOrdinary_of_isNameChar (h : Token.isNameChar c = true) : isOrdinary c = true :=
  isOrdinary_of (by decide) h

private theorem isOrdinary_of_mem_text {p : Punct} (hp : Expr.isBrace (.punct p) = false) (hc : c ∈ p.text.toList) :
    isOrdinary c = true := by
  have hall : p.text.toList.all isOrdinary = true := by
    cases p <;> first | rfl | cases hp
  exact List.all_eq_true.mp hall c hc

private theorem passes_punct {p : Punct} (h : Expr.braceDepth depth [.punct p] = some depth') :
    Passes depth none p.text.toList depth' none := by
  cases hp : Expr.isBrace (.punct p) with
  | false =>
    rw [Expr.braceDepth_cons hp] at h
    cases h
    exact passes_allOrdinary fun c hc => isOrdinary_of_mem_text hp hc
  | true =>
    cases p with
    | openBrace =>
      cases h
      exact passes_openBrace
    | closeBrace =>
      cases depth with
      | zero => cases h
      | succ depth =>
        cases h
        exact passes_closeBrace
    | _ => cases hp

/-- The text of a token is passed over with its braces counted. -/
private theorem passes_first {position n : Nat} {t : Token} (h : Token.first position c cs = .ok (t, n))
    (hdepth : Expr.braceDepth depth [t] = some depth') :
    ∃ text rest, cs = text ++ rest ∧ text.length = n ∧ Passes depth none (c :: text) depth' none := by
  rw [Token.first] at h
  split at h
  · rename_i hc
    have hfirst : isOrdinary c = true := by
      refine isOrdinary_of (p := fun c => c.isDigit || c == '.') (by decide) ?_
      simp only [Bool.or_eq_true, Bool.and_eq_true] at hc ⊢
      exact hc.imp_right And.left
    obtain ⟨⟨rest, hrest⟩, hall⟩ := Token.numberPrefix_numberText (c :: cs)
    dsimp only at h
    split at h
    · cases h
      cases hdepth
      cases htext : Token.numberText (c :: cs) with
      | nil => exact ⟨[], cs, rfl, rfl, passes_ordinary hfirst⟩
      | cons d text =>
        rw [htext] at hrest hall
        cases hrest
        exact ⟨text, rest, rfl, rfl, passes_allOrdinary fun d hd => isOrdinary_of_isNumberChar (hall d hd)⟩
    · cases h
  · split at h
    · rename_i hquote
      obtain ⟨⟨s, n'⟩, hquoted, hn⟩ := Token.map_eq_ok.mp h
      cases hn
      cases hdepth
      obtain ⟨text, rest, rfl, rfl, hpasses⟩ := passes_quoted depth hquote hquoted
      exact ⟨text, rest, rfl, rfl, .cons (passes_quote hquote) hpasses⟩
    · split at h
      · rename_i hname
        cases h
        cases hdepth
        refine ⟨cs.takeWhile Token.isNameChar, cs.dropWhile Token.isNameChar,
          List.takeWhile_append_dropWhile.symm, rfl, passes_allOrdinary fun d hd => ?_⟩
        rcases List.mem_cons.mp hd with rfl | hd
        · exact isOrdinary_of (by decide) hname
        · exact isOrdinary_of_isNameChar (List.all_eq_true.mp List.all_takeWhile d hd)
      · split at h
        · rename_i p hp
          cases h
          obtain ⟨rest, hrest⟩ := Token.punct?_eq_some hp
          have hpasses := passes_punct hdepth
          rw [← String.length_toList]
          cases htext : p.text.toList with
          | nil => cases p <;> cases htext
          | cons d text =>
            rw [htext] at hrest hpasses
            cases hrest
            exact ⟨text, rest, rfl, rfl, hpasses⟩
        · cases h

/-- A text that is scanned to tokens is passed over with the braces of the tokens counted. -/
private theorem passes_scanFrom {position : Nat} {ts : List Token} (h : Token.scanFrom position cs = .ok ts)
    (hdepth : Expr.braceDepth depth ts = some depth') : Passes depth none cs depth' none := by
  fun_induction Token.scanFrom position cs generalizing ts depth with
  | case1 =>
    cases h
    cases hdepth
    exact .nil
  | case2 position c cs hblank ih => exact .cons (passes_ordinary (isOrdinary_of_isBlank hblank)) (ih h hdepth)
  | case3 => cases h
  | case4 position c cs hblank t n hfirst ih =>
    obtain ⟨ts', hts', rfl⟩ := Token.map_eq_ok.mp h
    rw [← List.singleton_append, Expr.braceDepth_append] at hdepth
    obtain ⟨depth₁, hdepth₁, hdepth'⟩ := Option.bind_eq_some_iff.mp hdepth
    obtain ⟨text, rest, rfl, rfl, hpasses⟩ := passes_first hfirst hdepth₁
    rw [List.drop_left] at ih
    rw [List.drop_left] at hts'
    exact hpasses.append (ih hts' hdepth')

/-- A block ends behind the expression that it holds. -/
theorem blockEnd?_of_parse {source : String} {e : Expr} {rest : List Char} (h : Expr.parse source = .ok e) :
    blockEnd? 0 none (source.toList ++ '\x7d' :: '\x7d' :: rest) = some source.toList.length := by
  obtain ⟨-, ts, hscan, n, -, hreads⟩ := Expr.parse_eq_ok_iff.mp h
  obtain ⟨body, hbody, hbalanced⟩ := hreads.exists_body trivial
  have hdepth : Expr.braceDepth 0 ts = some 0 := by
    rw [hbody]
    simpa [Expr.Phrase.closing] using hbalanced 0
  rw [passes_scanFrom hscan hdepth]
  simp [Token.isQuote]

end
end FlowEngine.Template
