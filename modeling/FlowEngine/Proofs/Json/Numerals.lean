import Mathlib.Tactic.Common
import FlowEngine.Json.Printer
import FlowEngine.Json.Reader
import FlowEngine.Proofs.Json.Plain

/-! Numbers in documents: what they may be read as, that what stands behind a number does not matter, and that integers
are read as they are written. -/
namespace FlowEngine.Json.Reader
variable {negative : Bool} {m more taken : Nat} {e : Int} {cs rest tail : List Char} {v : Json}

/-! The parts of a number. -/

/-- The whole part: its significand, how many digits were taken, and what is behind them. -/
def wholePart (cs : List Char) : Nat × Nat × List Char :=
  if cs.head? == some '0' then (0, 1, cs.drop 1) else gather 0 0 cs

/-- A number without fraction and exponent, of which some digits count as powers of ten. -/
def whole (negative : Bool) (m more : Nat) (rest : List Char) : Read Json :=
  if more > 0 then assemble negative m more rest
  else if !negative then .ok (num (.int m), rest)
  else if m == 0 || m > 2 ^ 63 then .ok (num (.float (-(Binary64.ofInt m))), rest)
  else .ok (num (.int (-(m : Int))), rest)

def afterWhole (negative : Bool) (m more : Nat) : List Char → Read Json
  | '.' :: tail => fraction negative m more tail
  | 'e' :: tail => exponent negative m more tail
  | 'E' :: tail => exponent negative m more tail
  | rest => whole negative m more rest

private theorem number_eq : number negative cs =
    if (wholePart cs).2.1 == 0 then .error (digitMissing cs)
    else if cs.head? == some '0' && ((wholePart cs).2.2.takeWhile Char.isDigit).length > 0 then
      .error (next .badNumber (wholePart cs).2.2)
    else afterWhole negative (wholePart cs).1 ((wholePart cs).2.2.takeWhile Char.isDigit).length
      ((wholePart cs).2.2.dropWhile Char.isDigit) := by
  unfold number wholePart afterWhole whole
  rfl

def afterFraction (negative : Bool) (m : Nat) (e : Int) : List Char → Read Json
  | c :: tail => if isExponentMark c then exponent negative m e tail else assemble negative m e (c :: tail)
  | [] => assemble negative m e []

private theorem fraction_eq : fraction negative m e cs =
    if !(cs.head?.any Char.isDigit) then .error (digitMissing cs)
    else afterFraction negative (gather m 0 cs).1 (e - (gather m 0 cs).2.1)
      ((gather m 0 cs).2.2.dropWhile Char.isDigit) := by
  unfold fraction afterFraction
  dsimp only
  split
  · rfl
  · cases (gather m 0 cs).2.2.dropWhile Char.isDigit <;> rfl

/-- Whether an exponent is below zero, and what is behind its sign. -/
def exponentSign : List Char → Bool × List Char
  | '-' :: cs => (true, cs)
  | '+' :: cs => (false, cs)
  | cs => (false, cs)

private theorem exponent_eq : exponent negative m e cs =
    if !((exponentSign cs).2.head?.any Char.isDigit) then .error (digitMissing (exponentSign cs).2)
    else if (power 0 (exponentSign cs).2).1 ≥ exponentLimit then
      if m != 0 && !(exponentSign cs).1 then .error (before .numberTooLarge (power 0 (exponentSign cs).2).2)
      else .ok (num (.float (if negative then -0.0 else 0.0)),
        (power 0 (exponentSign cs).2).2.dropWhile Char.isDigit)
    else assemble negative m
      (if (exponentSign cs).1 then e - (power 0 (exponentSign cs).2).1 else e + (power 0 (exponentSign cs).2).1)
      (power 0 (exponentSign cs).2).2 := by
  unfold exponent exponentSign
  rfl

/-! What numbers may be read. -/

private theorem gather_lt (hm : m < significandLimit) : (gather m taken cs).1 < significandLimit := by
  induction cs generalizing m taken with
  | nil => exact hm
  | cons c cs ih =>
    rw [gather]
    split
    · rename_i h
      exact ih (of_decide_eq_true (Bool.and_eq_true_iff.mp h).2)
    · exact hm

private theorem wholePart_lt : (wholePart cs).1 < 2 ^ 64 := by
  rw [wholePart]
  split
  · exact Nat.two_pow_pos 64
  · exact gather_lt (Nat.two_pow_pos 64)

private theorem float_of_assemble (h : assemble negative m e cs = .ok (v, rest)) : ∃ x, v = .num (.float x) := by
  rw [assemble] at h
  split at h
  · cases h
    exact ⟨_, rfl⟩
  · cases h

private theorem float_of_exponent (h : exponent negative m e cs = .ok (v, rest)) : ∃ x, v = .num (.float x) := by
  rw [exponent_eq] at h
  split at h
  · cases h
  split at h
  · split at h
    · cases h
    · cases h
      exact ⟨_, rfl⟩
  · exact float_of_assemble h

private theorem float_of_fraction (h : fraction negative m e cs = .ok (v, rest)) : ∃ x, v = .num (.float x) := by
  rw [fraction_eq] at h
  split at h
  · cases h
  rw [afterFraction.eq_def] at h
  split at h
  · split at h
    · exact float_of_exponent h
    · exact float_of_assemble h
  · exact float_of_assemble h

private theorem inRange_of_whole (hm : m < 2 ^ 64) (h : whole negative m more cs = .ok (v, rest)) :
    ∃ n : Num, v = .num n ∧ n.InRange := by
  rw [whole] at h
  split at h
  · obtain ⟨x, rfl⟩ := float_of_assemble h
    exact ⟨_, rfl, trivial⟩
  split at h
  · cases h
    refine ⟨_, rfl, ?_, ?_⟩ <;> omega
  split at h
  · cases h
    exact ⟨_, rfl, trivial⟩
  · rename_i hsmall
    cases h
    simp only [Bool.or_eq_true, beq_iff_eq, decide_eq_true_eq] at hsmall
    refine ⟨_, rfl, ?_, ?_⟩ <;> omega

private theorem inRange_of_afterWhole (hm : m < 2 ^ 64) (h : afterWhole negative m more cs = .ok (v, rest)) :
    ∃ n : Num, v = .num n ∧ n.InRange := by
  have hfloat (h : ∃ x, v = .num (.float x)) : ∃ n : Num, v = .num n ∧ n.InRange := by
    obtain ⟨x, rfl⟩ := h
    exact ⟨_, rfl, trivial⟩
  rw [afterWhole.eq_def] at h
  split at h
  · exact hfloat (float_of_fraction h)
  · exact hfloat (float_of_exponent h)
  · exact hfloat (float_of_exponent h)
  · exact inRange_of_whole hm h

theorem inRange_of_number (h : number negative cs = .ok (v, rest)) : ∃ n : Num, v = .num n ∧ n.InRange := by
  rw [number_eq] at h
  split at h
  · cases h
  split at h
  · cases h
  · exact inRange_of_afterWhole wholePart_lt h

/-! What stands behind a number. -/

def Closed (rest : List Char) : Prop := rest = [] ∨ ∃ c tail, rest = c :: tail ∧ c ∈ [',', ']', '\x7d']

private theorem Closed.head (hrest : Closed (c :: tail)) :
    c.isDigit = false ∧ isExponentMark c = false ∧ c ≠ '.' ∧ c ≠ '-' ∧ c ≠ '+' := by
  obtain h | ⟨c, tail, h, hc⟩ := hrest
  · cases h
  · cases h
    simp only [List.mem_cons, List.not_mem_nil, or_false] at hc
    rcases hc with rfl | rfl | rfl <;> decide

private theorem Closed.dropWhile (hrest : Closed rest) :
    (cs ++ rest).dropWhile Char.isDigit = cs.dropWhile Char.isDigit ++ rest := by
  rw [List.dropWhile_append]
  split
  · rename_i hempty
    rw [List.isEmpty_iff.mp hempty, List.nil_append]
    cases rest with
    | nil => rfl
    | cons c tail => exact List.dropWhile_cons_of_neg (by simp [hrest.head.1])
  · rfl

private theorem Closed.takeWhile (hrest : Closed rest) :
    (cs ++ rest).takeWhile Char.isDigit = cs.takeWhile Char.isDigit := by
  rw [List.takeWhile_append]
  split
  · rename_i hlength
    have hall : cs.takeWhile Char.isDigit = cs := (List.takeWhile_prefix _).eq_of_length hlength
    rw [hall]
    cases rest with
    | nil => exact List.append_nil _
    | cons c tail => rw [List.takeWhile_cons_of_neg (by simp [hrest.head.1]), List.append_nil]
  · rfl

private theorem gather_append (hrest : Closed rest) : gather m taken (cs ++ rest) =
    ((gather m taken cs).1, (gather m taken cs).2.1, (gather m taken cs).2.2 ++ rest) := by
  induction cs generalizing m taken with
  | nil =>
    cases rest with
    | nil => rfl
    | cons c tail =>
      simp [gather, hrest.head.1]
  | cons c cs ih =>
    rw [List.cons_append, gather, gather]
    split
    · exact ih
    · rfl

private theorem power_append {n : Nat} (hrest : Closed rest) : power n (cs ++ rest) =
    ((power n cs).1, (power n cs).2 ++ rest) := by
  induction cs generalizing n with
  | nil =>
    cases rest with
    | nil => rfl
    | cons c tail =>
      simp [power, hrest.head.1]
  | cons c cs ih =>
    rw [List.cons_append, power, power]
    split
    · exact ih
    · rfl

private theorem head?_append (hcs : cs.head?.any Char.isDigit = true) : (cs ++ rest).head?.any Char.isDigit = true := by
  cases cs with
  | nil => cases hcs
  | cons c cs => exact hcs

private theorem assemble_append (rest : List Char) (h : assemble negative m e cs = .ok (v, tail)) :
    assemble negative m e (cs ++ rest) = .ok (v, tail ++ rest) := by
  rw [assemble] at h ⊢
  split at h
  · cases h
    rfl
  · cases h

private theorem exponentSign_of_ne {c : Char} (hminus : c ≠ '-') (hplus : c ≠ '+') :
    exponentSign (c :: cs) = (false, c :: cs) := by
  rw [exponentSign.eq_def]
  split
  · rename_i heq
    exact absurd (List.cons.inj heq).1 hminus
  · rename_i heq
    exact absurd (List.cons.inj heq).1 hplus
  · rfl

private theorem exponentSign_append (hrest : Closed rest) :
    exponentSign (cs ++ rest) = ((exponentSign cs).1, (exponentSign cs).2 ++ rest) := by
  cases cs with
  | nil =>
    cases rest with
    | nil => rfl
    | cons c tail =>
      obtain ⟨-, -, -, hminus, hplus⟩ := hrest.head
      exact exponentSign_of_ne hminus hplus
  | cons c cs =>
    by_cases hminus : c = '-'
    · subst hminus
      rfl
    by_cases hplus : c = '+'
    · subst hplus
      rfl
    · rw [List.cons_append, exponentSign_of_ne hminus hplus, exponentSign_of_ne hminus hplus, List.cons_append]

private theorem exponent_append (hrest : Closed rest) (h : exponent negative m e cs = .ok (v, tail)) :
    exponent negative m e (cs ++ rest) = .ok (v, tail ++ rest) := by
  rw [exponent_eq] at h ⊢
  rw [exponentSign_append hrest]
  dsimp only
  generalize exponentSign cs = signed at h ⊢
  obtain ⟨down, cs⟩ := signed
  dsimp only at h ⊢
  rw [power_append hrest]
  dsimp only
  cases hdigit : cs.head?.any Char.isDigit with
  | false =>
    rw [hdigit] at h
    cases h
  | true =>
    rw [hdigit] at h
    rw [head?_append hdigit]
    simp only [Bool.not_true, Bool.false_eq_true, ite_false] at h ⊢
    split at h
    · split at h
      · cases h
      · rename_i hlimit hzero
        cases h
        rw [if_pos hlimit, if_neg hzero, hrest.dropWhile]
    · rename_i hlimit
      rw [if_neg hlimit]
      exact assemble_append rest h

private theorem afterFraction_append (hrest : Closed rest) (h : afterFraction negative m e cs = .ok (v, tail)) :
    afterFraction negative m e (cs ++ rest) = .ok (v, tail ++ rest) := by
  cases cs with
  | nil =>
    have happend := assemble_append rest h
    cases rest with
    | nil => exact happend
    | cons c _ =>
      rw [List.nil_append, afterFraction, hrest.head.2.1]
      exact happend
  | cons c cs =>
    rw [List.cons_append]
    rw [afterFraction] at h ⊢
    split at h
    · rename_i hmark
      rw [if_pos hmark]
      exact exponent_append hrest h
    · rename_i hmark
      rw [if_neg hmark]
      exact assemble_append rest h

private theorem fraction_append (hrest : Closed rest) (h : fraction negative m e cs = .ok (v, tail)) :
    fraction negative m e (cs ++ rest) = .ok (v, tail ++ rest) := by
  rw [fraction_eq] at h ⊢
  cases hdigit : cs.head?.any Char.isDigit with
  | false =>
    rw [hdigit] at h
    cases h
  | true =>
    rw [hdigit] at h
    rw [head?_append hdigit, gather_append hrest]
    simp only [Bool.not_true, Bool.false_eq_true, ite_false, hrest.dropWhile] at h ⊢
    exact afterFraction_append hrest h

private theorem whole_append (h : whole negative m more cs = .ok (v, tail)) :
    whole negative m more (cs ++ rest) = .ok (v, tail ++ rest) := by
  rw [whole] at h ⊢
  split at h <;> rename_i hmore
  · rw [if_pos hmore]
    exact assemble_append rest h
  rw [if_neg hmore]
  split at h <;> rename_i hsign
  · cases h
    exact if_pos hsign
  rw [if_neg hsign]
  split at h <;> rename_i hzero <;> cases h
  · exact if_pos hzero
  · exact if_neg hzero

private theorem afterWhole_of_ne (h : ∀ c tail, cs = c :: tail → c ≠ '.' ∧ isExponentMark c = false) :
    afterWhole negative m more cs = whole negative m more cs := by
  rw [afterWhole.eq_def]
  split
  · exact absurd rfl (h _ _ rfl).1
  · exact absurd (h _ _ rfl).2 (by decide)
  · exact absurd (h _ _ rfl).2 (by decide)
  · rfl

private theorem Closed.afterWhole (hrest : Closed rest) :
    Reader.afterWhole negative m more rest = whole negative m more rest := by
  refine afterWhole_of_ne fun c tail heq => ?_
  obtain ⟨-, hmark, hpoint, -⟩ := (show Closed (c :: tail) from heq ▸ hrest).head
  exact ⟨hpoint, hmark⟩

private theorem afterWhole_append (hrest : Closed rest) (h : afterWhole negative m more cs = .ok (v, tail)) :
    afterWhole negative m more (cs ++ rest) = .ok (v, tail ++ rest) := by
  rw [afterWhole.eq_def] at h
  split at h
  · exact fraction_append hrest h
  · exact exponent_append hrest h
  · exact exponent_append hrest h
  · rename_i hpoint hsmall hlarge
    rw [afterWhole_of_ne]
    · exact whole_append h
    intro c tail heq
    cases cs with
    | nil =>
      obtain ⟨-, hmark, hpoint, -⟩ := (show Closed (c :: tail) from heq ▸ hrest).head
      exact ⟨hpoint, hmark⟩
    | cons d cs =>
      cases heq
      refine ⟨fun heq => hpoint cs (by rw [heq]), ?_⟩
      rw [isExponentMark, Bool.or_eq_false_iff, beq_eq_false_iff_ne, beq_eq_false_iff_ne]
      exact ⟨fun heq => hsmall cs (by rw [heq]), fun heq => hlarge cs (by rw [heq])⟩

/-- The number at the end of a text is read in the same way where the text goes on. -/
theorem number_append (hrest : Closed rest) (h : number negative cs = .ok (v, tail)) :
    number negative (cs ++ rest) = .ok (v, tail ++ rest) := by
  cases cs with
  | nil => cases h
  | cons c cs =>
    have hwhole : wholePart (c :: cs ++ rest) =
        ((wholePart (c :: cs)).1, (wholePart (c :: cs)).2.1, (wholePart (c :: cs)).2.2 ++ rest) := by
      rw [List.cons_append, wholePart, wholePart, List.head?_cons, List.head?_cons]
      split
      · rfl
      · rw [← List.cons_append]
        exact gather_append hrest
    rw [number_eq] at h ⊢
    rw [hwhole]
    dsimp only
    rw [hrest.takeWhile, hrest.dropWhile]
    split at h
    · cases h
    rename_i htaken
    rw [if_neg htaken]
    split at h
    · cases h
    rename_i hzero
    rw [List.head?_cons] at hzero
    rw [List.cons_append, List.head?_cons, if_neg hzero]
    exact afterWhole_append hrest h

/-! What is left behind a number is the end of the text. -/

private theorem gather_suffix : (gather m taken cs).2.2 <:+ cs := by
  induction cs generalizing m taken with
  | nil => exact List.suffix_rfl
  | cons c cs ih =>
    rw [gather]
    split
    · exact ih.trans (List.suffix_cons c cs)
    · exact List.suffix_rfl

private theorem power_suffix {n : Nat} : (power n cs).2 <:+ cs := by
  induction cs generalizing n with
  | nil => exact List.suffix_rfl
  | cons c cs ih =>
    rw [power]
    split
    · exact ih.trans (List.suffix_cons c cs)
    · exact List.suffix_rfl

private theorem exponentSign_suffix : (exponentSign cs).2 <:+ cs := by
  rw [exponentSign.eq_def]
  split
  · exact List.suffix_cons _ _
  · exact List.suffix_cons _ _
  · exact List.suffix_rfl

private theorem wholePart_suffix : (wholePart cs).2.2 <:+ cs := by
  rw [wholePart]
  split
  · exact List.drop_suffix 1 cs
  · exact gather_suffix

private theorem rest_of_assemble (h : assemble negative m e cs = .ok (v, rest)) : rest = cs := by
  rw [assemble] at h
  split at h <;> cases h
  rfl

private theorem suffix_of_exponent (h : exponent negative m e cs = .ok (v, rest)) : rest <:+ cs := by
  have hpower : (power 0 (exponentSign cs).2).2 <:+ cs := power_suffix.trans exponentSign_suffix
  rw [exponent_eq] at h
  split at h
  · cases h
  split at h
  · split at h <;> cases h
    exact (List.dropWhile_suffix _).trans hpower
  · rw [rest_of_assemble h]
    exact hpower

private theorem suffix_of_fraction (h : fraction negative m e cs = .ok (v, rest)) : rest <:+ cs := by
  have hdigits : (gather m 0 cs).2.2.dropWhile Char.isDigit <:+ cs := (List.dropWhile_suffix _).trans gather_suffix
  rw [fraction_eq] at h
  split at h
  · cases h
  rw [afterFraction.eq_def] at h
  split at h
  · rename_i heq
    rw [heq] at hdigits
    split at h
    · exact ((suffix_of_exponent h).trans (List.suffix_cons _ _)).trans hdigits
    · exact rest_of_assemble h ▸ hdigits
  · exact rest_of_assemble h ▸ List.nil_suffix

private theorem suffix_of_afterWhole (h : afterWhole negative m more cs = .ok (v, rest)) : rest <:+ cs := by
  rw [afterWhole.eq_def] at h
  split at h
  · exact (suffix_of_fraction h).trans (List.suffix_cons _ _)
  · exact (suffix_of_exponent h).trans (List.suffix_cons _ _)
  · exact (suffix_of_exponent h).trans (List.suffix_cons _ _)
  rw [whole] at h
  split at h
  · exact rest_of_assemble h ▸ List.suffix_rfl
  split at h
  · cases h
    exact List.suffix_rfl
  split at h <;> cases h <;> exact List.suffix_rfl

private theorem suffix_of_number (h : number negative cs = .ok (v, rest)) : rest <:+ cs := by
  rw [number_eq] at h
  split at h
  · cases h
  split at h
  · cases h
  · exact ((suffix_of_afterWhole h).trans (List.dropWhile_suffix _)).trans wholePart_suffix

/-! Integers as they are written. -/

private theorem le_ofDigitChars {ds : List Char} {n : Nat} : n ≤ Nat.ofDigitChars 10 ds n := by
  induction ds generalizing n with
  | nil => exact Nat.le_refl n
  | cons d ds ih =>
    rw [Nat.ofDigitChars_cons]
    exact Nat.le_trans (by omega) ih

private theorem gather_digits {ds : List Char} (hds : ∀ d ∈ ds, d.isDigit = true)
    (hm : Nat.ofDigitChars 10 ds m < significandLimit) (hrest : Closed rest) :
    gather m taken (ds ++ rest) = (Nat.ofDigitChars 10 ds m, taken + ds.length, rest) := by
  induction ds generalizing m taken with
  | nil =>
    rw [gather_append hrest]
    rfl
  | cons d ds ih =>
    obtain ⟨hd, hds⟩ := List.forall_mem_cons.mp hds
    rw [Nat.ofDigitChars_cons] at hm ⊢
    have hlt : 10 * m + digit d < significandLimit := Nat.lt_of_le_of_lt le_ofDigitChars hm
    rw [List.cons_append, gather, hd, Bool.true_and, if_pos (decide_eq_true hlt), digit, ih hds hm, List.length_cons]
    congr 2
    omega

private theorem digitChar_ne_zero : ∀ n < 10, n ≠ 0 → n.digitChar ≠ '0' := by decide

private theorem head?_toDigits {n : Nat} (hn : n ≠ 0) : (Nat.toDigits 10 n).head? ≠ some '0' := by
  induction n using Nat.strongRecOn with
  | ind n ih =>
    rw [Nat.toDigits_eq_if (by decide)]
    split
    · rename_i hsmall
      simpa using digitChar_ne_zero n hsmall hn
    · rw [List.head?_append_of_ne_nil _ Nat.toDigits_ne_nil]
      exact ih (n / 10) (by omega) (by omega)

private theorem number_digits {n : Nat} (hn : n < 2 ^ 64) (hrest : Closed rest) :
    number negative (Nat.toDigits 10 n ++ rest) = whole negative n 0 rest := by
  have hwhole : ∃ taken, wholePart (Nat.toDigits 10 n ++ rest) = (n, taken + 1, rest) := by
    rw [wholePart, List.head?_append_of_ne_nil _ Nat.toDigits_ne_nil]
    by_cases hzero : n = 0
    · subst hzero
      exact ⟨0, rfl⟩
    · rw [if_neg (by simpa using head?_toDigits hzero), gather_digits _ _ hrest, Nat.ofDigitChars_ten_toDigits]
      · refine ⟨(Nat.toDigits 10 n).length - 1, ?_⟩
        have hpos : 0 < (Nat.toDigits 10 n).length := List.length_pos_of_ne_nil Nat.toDigits_ne_nil
        congr 2
        omega
      · exact fun d hd => Nat.isDigit_of_mem_toDigits (by decide) (Nat.le_refl 10) hd
      · rw [Nat.ofDigitChars_ten_toDigits]
        exact hn
  have htake : ([] ++ rest).takeWhile Char.isDigit = [] := hrest.takeWhile
  have hdrop : ([] ++ rest).dropWhile Char.isDigit = rest := hrest.dropWhile
  obtain ⟨taken, hwhole⟩ := hwhole
  rw [List.nil_append] at htake hdrop
  rw [number_eq, hwhole]
  dsimp only
  rw [htake, hdrop, List.length_nil, if_neg (by simp), if_neg (by simp), hrest.afterWhole]

/-- How a number is read: with its sign first, and nothing of what is behind it. -/
def ReadsBack (n : Num) : Prop :=
  ∃ negative cs, n.render.toList = (if negative then '-' :: cs else cs) ∧
    (∃ c tail, cs = c :: tail ∧ c.isDigit = true) ∧
    ∀ rest, Closed rest → number negative (cs ++ rest) = .ok (num n, rest)

private theorem toDigits_first (n : Nat) : ∃ c tail, Nat.toDigits 10 n = c :: tail ∧ c.isDigit = true := by
  cases htext : Nat.toDigits 10 n with
  | nil => exact absurd htext Nat.toDigits_ne_nil
  | cons c tail =>
    have hmem : c ∈ Nat.toDigits 10 n := htext ▸ List.mem_cons_self
    exact ⟨c, tail, rfl, Nat.isDigit_of_mem_toDigits (by decide) (Nat.le_refl 10) hmem⟩

theorem readsBack_int {n : Int} (hn : (Num.int n).InRange) : ReadsBack (.int n) := by
  obtain ⟨hlow, hhigh⟩ := hn
  cases n with
  | ofNat n =>
    have htext : (Num.int (Int.ofNat n)).render.toList = Nat.toDigits 10 n :=
      (congrArg String.toList (Nat.toString_eq_ofList_toDigits (n := n))).trans String.toList_ofList
    refine ⟨false, Nat.toDigits 10 n, htext, toDigits_first n, fun rest hrest => ?_⟩
    rw [number_digits (Int.ofNat_lt.mp hhigh) hrest]
    rfl
  | negSucc n =>
    have htext : (Num.int (Int.negSucc n)).render.toList = '-' :: Nat.toDigits 10 (n + 1) := by
      change ("-" ++ toString (n + 1)).toList = _
      rw [String.toList_append, Nat.toString_eq_ofList_toDigits]
      exact congrArg ('-' :: ·) String.toList_ofList
    refine ⟨true, Nat.toDigits 10 (n + 1), htext, toDigits_first (n + 1), fun rest hrest => ?_⟩
    rw [number_digits (by omega) hrest, whole, if_neg (by omega), if_neg (by decide), if_neg (by simp; omega)]
    rfl

/-! Floats, as far as they are read as they are written. -/

theorem not_blank_of_isDigit {c : Char} (h : c.isDigit = true) : isBlank c = false := by
  rw [isBlank]
  simp only [Bool.or_eq_false_iff, beq_eq_false_iff_ne]
  refine ⟨⟨⟨?_, ?_⟩, ?_⟩, ?_⟩ <;> rintro rfl <;> cases h

private theorem digitText_digits (n : Nat) : ∀ c ∈ Decimal.digitText n, c.isDigit = true := by
  rw [Decimal.digitText, Nat.toString_eq_ofList_toDigits, String.toList_ofList]
  exact fun c hc => Nat.isDigit_of_mem_toDigits (by decide) (Nat.le_refl 10) hc

private theorem digitText_first (n : Nat) : ∃ c tail, Decimal.digitText n = c :: tail ∧ c.isDigit = true := by
  rw [Decimal.digitText, Nat.toString_eq_ofList_toDigits, String.toList_ofList]
  exact toDigits_first n

/-- A written number begins with a digit. -/
theorem write_first (layout : Decimal.Layout) (d : Decimal) :
    ∃ c tail, layout.write d = c :: tail ∧ c.isDigit = true := by
  obtain ⟨first, others, htext, hfirst⟩ := digitText_first d.digits
  unfold Decimal.Layout.write
  dsimp only
  rw [htext]
  split
  · split <;> exact ⟨_, _, rfl, rfl⟩
  split
  · split
    · exact ⟨_, _, rfl, hfirst⟩
    split
    · rename_i hpoint
      rw [← Nat.succ_pred_eq_of_pos (Int.lt_toNat.mpr hpoint), List.take_succ_cons]
      exact ⟨_, _, rfl, hfirst⟩
    · exact ⟨_, _, rfl, rfl⟩
  · cases others <;> exact ⟨_, _, rfl, hfirst⟩

/-- A written number has no blanks. -/
theorem write_unbroken (layout : Decimal.Layout) (d : Decimal) : ∀ c ∈ layout.write d, isBlank c = false := by
  have hdigits (n : Nat) : ∀ c ∈ Decimal.digitText n, isBlank c = false := fun c hc =>
    not_blank_of_isDigit (digitText_digits n c hc)
  have hzeros (n : Nat) : ∀ c ∈ List.replicate n '0', isBlank c = false := fun c hc =>
    List.eq_of_mem_replicate hc ▸ rfl
  have hmarks {cs : List Char} (h : cs.all (fun c => isBlank c == false) = true) : ∀ c ∈ cs, isBlank c = false := by
    simpa using h
  have hds := hdigits d.digits
  unfold Decimal.Layout.write
  dsimp only
  generalize Decimal.digitText d.digits = ds at hds
  split
  · split <;> exact hmarks rfl
  split
  · split
    · refine List.forall_mem_append.mpr ⟨List.forall_mem_append.mpr ⟨hds, hzeros _⟩, ?_⟩
      split <;> exact hmarks rfl
    split
    · refine List.forall_mem_append.mpr ⟨fun c hc => hds c (List.mem_of_mem_take hc), ?_⟩
      exact List.forall_mem_cons.mpr ⟨rfl, fun c hc => hds c (List.mem_of_mem_drop hc)⟩
    · exact List.forall_mem_append.mpr ⟨List.forall_mem_append.mpr ⟨hmarks rfl, hzeros _⟩, hds⟩
  · refine List.forall_mem_append.mpr ⟨?_, List.forall_mem_cons.mpr ⟨rfl, List.forall_mem_append.mpr ⟨?_, hdigits _⟩⟩⟩
    · split
      · exact List.forall_mem_nil _
      · exact hds
      · obtain ⟨hfirst, hothers⟩ := List.forall_mem_cons.mp hds
        exact List.forall_mem_cons.mpr ⟨hfirst, List.forall_mem_cons.mpr ⟨rfl, hothers⟩⟩
    · split
      · exact hmarks rfl
      · split <;> exact hmarks rfl

theorem skipBlanks_of_not {c : Char} (h : isBlank c = false) : skipBlanks (c :: cs) = c :: cs :=
  List.dropWhile_cons_of_neg (by simp [h])

/-- What is left behind a number in a text without blanks, if only blanks may be left. -/
theorem eq_nil_of_number (hcs : ∀ c ∈ cs, isBlank c = false) (h : number negative cs = .ok (v, rest))
    (hrest : skipBlanks rest = []) : rest = [] := by
  cases rest with
  | nil => rfl
  | cons c tail =>
    have hblank := hcs c ((suffix_of_number h).subset List.mem_cons_self)
    rw [skipBlanks_of_not hblank] at hrest
    cases hrest

end FlowEngine.Json.Reader
