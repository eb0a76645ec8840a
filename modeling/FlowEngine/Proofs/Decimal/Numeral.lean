import FlowEngine.Decimal.Reader
import Mathlib.Data.Rat.Defs

/-! Decimals as they are written, and how they are read: by their digits, the place of the point and the exponent. Three
names are read as well. -/
namespace FlowEngine.Decimal

/-- A decimal without a sign, and its value: digits, with a point among them or at either end, and an exponent. -/
inductive Numeral : List Char → ℚ → Prop where
  | whole {ds rest : List Char} {e : Int} (digits : ∀ d ∈ ds, d.isDigit = true) (nonempty : ds ≠ [])
      (exponent : exponent? rest = some e) : Numeral (ds ++ rest) (digitValue ds * 10 ^ e)
  | pointed {ds places rest : List Char} {e : Int} (digits : ∀ d ∈ ds ++ places, d.isDigit = true)
      (nonempty : ds ++ places ≠ []) (exponent : exponent? rest = some e) :
      Numeral (ds ++ '.' :: (places ++ rest)) (digitValue (ds ++ places) * 10 ^ (e - places.length))

def specialNames : List (List Char) := [['n', 'a', 'n'], ['i', 'n', 'f'], ['i', 'n', 'f', 'i', 'n', 'i', 't', 'y']]

/-! Digits and what stands behind them. -/

theorem isDigit_iff {c : Char} : c.isDigit = true ↔ 48 ≤ c.toNat ∧ c.toNat ≤ 57 := by
  simp only [Char.isDigit, Bool.and_eq_true, decide_eq_true_eq, ge_iff_le, UInt32.le_iff_toNat_le]
  rfl

private theorem toLower_digit {c : Char} (h : c.isDigit = true) : c.toLower = c := by
  rw [isDigit_iff] at h
  refine dif_neg ?_
  rintro ⟨hlow, -⟩
  have hlow' : 65 ≤ c.toNat := hlow
  omega

section
variable {cs ds whole rest : List Char} {e : Int} {q : ℚ} {c : Char}

private theorem takeWhile_digits (hds : ∀ d ∈ ds, d.isDigit = true)
    (hrest : ∀ c, rest.head? = some c → ¬c.isDigit = true) :
    (ds ++ rest).takeWhile Char.isDigit = ds ∧ (ds ++ rest).dropWhile Char.isDigit = rest := by
  rw [List.takeWhile_append_of_pos hds, List.dropWhile_append_of_pos hds]
  cases rest with
  | nil => simp
  | cons c rest =>
    have hc : ¬c.isDigit = true := hrest c rfl
    rw [List.takeWhile_cons_of_neg hc, List.dropWhile_cons_of_neg hc, List.append_nil]
    exact ⟨rfl, rfl⟩

private theorem exponent?_head (h : exponent? cs = some e) (hc : cs.head? = some c) : c = 'e' ∨ c = 'E' := by
  cases cs with
  | nil => cases hc
  | cons c' cs =>
    cases hc
    unfold exponent? at h
    dsimp only at h
    split at h
    case isTrue hmark => simpa using hmark
    case isFalse => cases h

private theorem exponent?_not_digit (h : exponent? cs = some e) (c : Char) (hc : cs.head? = some c) :
    ¬c.isDigit = true := by
  obtain rfl | rfl := exponent?_head h hc <;> decide

/-- What starts with a digit or a point is none of the names. -/
private theorem not_special (hc : c.isDigit = true ∨ c = '.') : (c :: cs).map Char.toLower ∉ specialNames := by
  have hlower : c.toLower = c := by
    obtain hdigit | rfl := hc
    · exact toLower_digit hdigit
    · rfl
  intro hname
  have hfirst : c = 'n' ∨ c = 'i' := by
    simp [specialNames, hlower] at hname
    tauto
  obtain rfl | rfl := hfirst <;> simp at hc

private theorem Numeral.not_special (h : Numeral cs q) : cs.map Char.toLower ∉ specialNames := by
  cases h with
  | @whole ds rest e hdigits hne =>
    cases ds with
    | nil => exact absurd rfl hne
    | cons d ds => exact Decimal.not_special (.inl (hdigits d List.mem_cons_self))
  | @pointed ds places rest e hdigits =>
    cases ds with
    | nil => exact Decimal.not_special (.inr rfl)
    | cons d ds => exact Decimal.not_special (.inl (hdigits d List.mem_cons_self))

/-! Reading. -/

private theorem not_named (h : cs.map Char.toLower ∉ specialNames) :
    (cs.map Char.toLower == ['n', 'a', 'n']) = false ∧
      (cs.map Char.toLower == ['i', 'n', 'f'] || cs.map Char.toLower == ['i', 'n', 'f', 'i', 'n', 'i', 't', 'y']) = false := by
  simpa [specialNames] using h

private theorem magnitude?_of_whole (hname : cs.map Char.toLower ∉ specialNames)
    (hwhole : cs.takeWhile Char.isDigit = whole)
    (hrest : cs.dropWhile Char.isDigit = rest) (hpoint : rest.head? ≠ some '.') :
    magnitude? cs = if whole = [] then none else (exponent? rest).map (toFloat (digitValue whole)) := by
  obtain ⟨hnan, hinf⟩ := not_named hname
  rw [magnitude?, hnan, hinf, hwhole, hrest, if_neg Bool.false_ne_true, if_neg Bool.false_ne_true]
  cases rest with
  | nil => cases hexponent : exponent? [] <;> simp [hexponent]
  | cons c rest =>
    have hc : c ≠ '.' := by simpa using hpoint
    cases hexponent : exponent? (c :: rest) <;> simp [hc, hexponent]

private theorem magnitude?_of_pointed {tail places : List Char} (hname : cs.map Char.toLower ∉ specialNames)
    (hwhole : cs.takeWhile Char.isDigit = whole) (htail : cs.dropWhile Char.isDigit = '.' :: tail)
    (hplaces : tail.takeWhile Char.isDigit = places) (hrest : tail.dropWhile Char.isDigit = rest) :
    magnitude? cs = if whole ++ places = [] then none
      else (exponent? rest).map fun e => toFloat (digitValue (whole ++ places)) (e - places.length) := by
  obtain ⟨hnan, hinf⟩ := not_named hname
  rw [magnitude?, hnan, hinf, hwhole, htail, if_neg Bool.false_ne_true, if_neg Bool.false_ne_true]
  cases hexponent : exponent? rest <;> simp [hplaces, hrest, hexponent]

theorem magnitude?_digits (hds : ∀ d ∈ ds, d.isDigit = true) (hne : ds ≠ []) :
    magnitude? ds = some (toFloat (digitValue ds) 0) := by
  have hend : ∀ c, ([] : List Char).head? = some c → ¬c.isDigit = true := by simp
  obtain ⟨htake, hdrop⟩ := takeWhile_digits hds hend
  have hname : (ds ++ []).map Char.toLower ∉ specialNames := (Numeral.whole hds hne (e := 0) rfl).not_special
  rw [List.append_nil] at htake hdrop hname
  rw [magnitude?_of_whole hname htake hdrop (by simp), if_neg hne]
  rfl

/-- Every numeral is read. -/
theorem Numeral.magnitude? (h : Numeral cs q) : ∃ m e, magnitude? cs = some (toFloat m e) ∧ q = m * 10 ^ e := by
  have hname := h.not_special
  cases h with
  | @whole ds rest e hdigits hne hexponent =>
    obtain ⟨htake, hdrop⟩ := takeWhile_digits hdigits (exponent?_not_digit hexponent)
    have hmagnitude := magnitude?_of_whole hname htake hdrop fun hpoint => by
      cases exponent?_head hexponent hpoint with
      | inl hmark => cases hmark
      | inr hmark => cases hmark
    rw [if_neg hne, hexponent] at hmagnitude
    exact ⟨_, _, hmagnitude, rfl⟩
  | @pointed ds places rest e hdigits hne hexponent =>
    obtain ⟨hds, hplaces⟩ := List.forall_mem_append.mp hdigits
    have hpoint : ∀ c, ('.' :: (places ++ rest)).head? = some c → ¬c.isDigit = true := by simp
    obtain ⟨htake, hdrop⟩ := takeWhile_digits hds hpoint
    obtain ⟨htake', hdrop'⟩ := takeWhile_digits hplaces (exponent?_not_digit hexponent)
    have hmagnitude := magnitude?_of_pointed hname htake hdrop htake' hdrop'
    rw [if_neg hne, hexponent] at hmagnitude
    exact ⟨_, _, hmagnitude, rfl⟩

/-- Nothing else is read, but for the names. -/
theorem numeral_of_magnitude? {x : Float} (hname : cs.map Char.toLower ∉ specialNames)
    (h : Decimal.magnitude? cs = some x) : ∃ m e, x = toFloat m e ∧ Numeral cs (m * 10 ^ e) := by
  have hdigits (cs : List Char) : ∀ c ∈ cs.takeWhile Char.isDigit, c.isDigit = true :=
    List.all_eq_true.mp List.all_takeWhile
  by_cases hpoint : (cs.dropWhile Char.isDigit).head? = some '.'
  · obtain ⟨tail, htail⟩ := List.head?_eq_some_iff.mp hpoint
    rw [magnitude?_of_pointed hname rfl htail rfl rfl] at h
    split at h
    case isTrue => cases h
    case isFalse hne =>
      obtain ⟨e, hexponent, rfl⟩ := Option.map_eq_some_iff.mp h
      have hnumeral := Numeral.pointed (List.forall_mem_append.mpr ⟨hdigits cs, hdigits tail⟩) hne hexponent
      rw [List.takeWhile_append_dropWhile, ← htail, List.takeWhile_append_dropWhile] at hnumeral
      exact ⟨_, _, rfl, hnumeral⟩
  · rw [magnitude?_of_whole hname rfl rfl hpoint] at h
    split at h
    case isTrue => cases h
    case isFalse hne =>
      obtain ⟨e, hexponent, rfl⟩ := Option.map_eq_some_iff.mp h
      have hnumeral := Numeral.whole (hdigits cs) hne hexponent
      rw [List.takeWhile_append_dropWhile] at hnumeral
      exact ⟨_, _, rfl, hnumeral⟩

end

end FlowEngine.Decimal
