import FlowEngine.Http.Reading
import FlowEngine.Proofs.Except
import Mathlib.Data.Nat.Digits.Defs

/-! The hosts of locations. A reader is held to give hosts in their plain form: names are in small letters of ASCII and
are no numbers, numeric addresses fit into their bytes or pieces. The reader of the program does, whatever the spelling. -/
namespace FlowEngine

namespace Text
variable {c d : Char} {s : String}

private theorem toLower_of_lt (h : 'Z'.toNat < c.toNat) : c.toLower = c :=
  dif_neg (fun hc => absurd (UInt32.le_iff_toNat_le.mp hc.2) (Nat.not_le_of_lt h))

private theorem toLower_ofNat {n : Nat} (h : 'Z'.toNat < n) : (Char.ofNat n).toLower = Char.ofNat n := by
  by_cases hn : n.isValidChar
  · refine toLower_of_lt ?_
    change _ < (dite n.isValidChar _ _ : Char).toNat
    rwa [dif_pos hn]
  · rw [Char.ofNat, dif_neg hn]
    decide

private theorem toLower_toLower (h : c.toNat < 128) : c.toLower.toLower = c.toLower := by
  have hall : ∀ n < 128, (Char.ofNat n).toLower.toLower = (Char.ofNat n).toLower := by decide
  have hc := hall c.toNat h
  rwa [Char.ofNat_toNat] at hc

/-- No letter outside of ASCII has a capital of ASCII as its small form. -/
private theorem lt_of_counterpart? {n m : Nat} (h : counterpart? lowerRuns n = some m) : 'Z'.toNat < m := by
  obtain ⟨run, hrun, rfl⟩ := Option.map_eq_some_iff.mp h
  have hall : (lowerRuns.all fun run => 'Z'.toNat < (run.first : Int) + run.shift) = true := by decide
  have hshift := of_decide_eq_true (List.all_eq_true.mp hall run (List.mem_of_find?_eq_some hrun))
  have hfirst := List.find?_some hrun
  simp only [Bool.and_eq_true, decide_eq_true_eq] at hfirst
  omega

private theorem toLower_of_mem_lowerChar (h : d ∈ lowerChar c) : d.toLower = d := by
  unfold lowerChar at h
  split at h
  · rw [List.mem_singleton.mp h]
    exact toLower_toLower ‹_›
  · split at h
    · simp only [List.mem_cons, List.not_mem_nil, or_false] at h
      obtain rfl | rfl := h <;> decide
    · rw [List.mem_singleton.mp h]
      cases hcounterpart : counterpart? lowerRuns c.toNat with
      | none => exact toLower_of_lt (show 90 < c.toNat by omega)
      | some n => exact toLower_ofNat (lt_of_counterpart? hcounterpart)

private theorem toLower_of_mem_lowerFrom {before cs : List Char} (h : d ∈ lowerFrom before cs) : d.toLower = d := by
  induction cs generalizing before with
  | nil => cases h
  | cons c cs ih =>
    rw [lowerFrom] at h
    obtain h | h := List.mem_append.mp h
    · -- A capital sigma has two small forms.
      split at h
      · split at h <;> rw [List.mem_singleton.mp h] <;> decide
      · exact toLower_of_mem_lowerChar h
    · exact ih h

/-- Small letters have nothing left to make small. -/
private theorem toLower_of_mem_lower (h : d ∈ (lower s).toList) : d.toLower = d := by
  rw [lower, String.toList_ofList] at h
  exact toLower_of_mem_lowerFrom h

def IsSmall (s : String) : Prop := ∀ c ∈ s.toList, c.toNat < 128 ∧ c.toLower = c

private theorem lowerFrom_of_small {before cs : List Char} (h : ∀ c ∈ cs, c.toNat < 128 ∧ c.toLower = c) :
    lowerFrom before cs = cs := by
  induction cs generalizing before with
  | nil => rfl
  | cons c cs ih =>
    obtain ⟨⟨hascii, hsmall⟩, hrest⟩ := List.forall_mem_cons.mp h
    have hsigma : (c.toNat == 0x3A3) = false := by
      rw [beq_eq_false_iff_ne]
      omega
    rw [lowerFrom, hsigma, ih hrest, lowerChar, if_pos hascii, hsmall]
    rfl

theorem IsSmall.lower_eq (h : IsSmall s) : lower s = s := by
  rw [lower, lowerFrom_of_small h, String.ofList_toList]

theorem IsSmall.lowerAscii_eq (h : IsSmall s) : lowerAscii s = s := by
  rw [lowerAscii, List.map_congr_left fun c hc => (h c hc).2, List.map_id', String.ofList_toList]

end Text

namespace Http
namespace Address
variable {base n : Nat} {cs : List Char} {pieces : List Nat}

/-- Four bytes as one number, or eight pieces of 16 bits. -/
def IsWellFormed : Address → Prop
  | v4 value => value < 2 ^ 32
  | v6 pieces => pieces.length = 8 ∧ ∀ piece ∈ pieces, piece < 2 ^ 16

private theorem numberOf?_lt (hbase : 1 < base) (h : numberOf? base cs = some n) : n < base ^ cs.length := by
  obtain ⟨ds, hds, rfl⟩ := Option.map_eq_some_iff.mp h
  have hdigits : ∀ d ∈ ds.reverse, d < base := by
    intro d hd
    obtain ⟨c, -, hc⟩ := exists_of_forall₂ (mapM_eq_some_iff.mp hds) (List.mem_reverse.mp hd)
    obtain ⟨hlt, hc⟩ := Option.ite_none_right_eq_some.mp hc
    exact Option.some.inj hc ▸ hlt
  have hlt := Nat.ofDigits_lt_base_pow_length hbase hdigits
  rw [List.length_reverse, ← (mapM_eq_some_iff.mp hds).length_eq, Nat.ofDigits_eq_foldr, List.foldr_reverse] at hlt
  simpa only [Nat.cast_id, Nat.add_comm] using hlt

/-- Leading bytes stay below what they leave to the last part. -/
private theorem foldl_leading_le {leading : List Nat} (i last : Nat) (hlength : i + leading.length ≤ 4)
    (hleading : ∀ part ∈ leading, part ≤ 255) :
    (leading.zipIdx i).foldl (fun n part => n + part.1 * 256 ^ (3 - part.2)) last +
      256 ^ (4 - i - leading.length) ≤ last + 256 ^ (4 - i) := by
  induction leading generalizing i last with
  | nil => exact Nat.le_refl _
  | cons part leading ih =>
    rw [List.length_cons] at hlength ⊢
    rw [List.forall_mem_cons] at hleading
    have hrest := ih (i + 1) (last + part * 256 ^ (3 - i)) (by omega) hleading.2
    have hpart := Nat.mul_le_mul_right (256 ^ (3 - i)) hleading.1
    have hpow : 256 ^ (4 - i) = 255 * 256 ^ (3 - i) + 256 ^ (3 - i) := by
      rw [show 4 - i = 3 - i + 1 by omega, Nat.pow_succ]
      omega
    rw [show 4 - (i + 1) = 3 - i by omega, show 3 - i - leading.length = 4 - i - (leading.length + 1) by omega] at hrest
    rw [List.zipIdx_cons, List.foldl_cons]
    dsimp only
    omega

private theorem v4?_lt (h : v4? cs = some n) : n < 2 ^ 32 := by
  simp only [v4?, bind, Option.bind_eq_some_iff] at h
  obtain ⟨parts, -, last, hlast, h⟩ := h
  obtain ⟨hsmall, h⟩ := Option.ite_none_left_eq_some.mp h
  cases h
  simp only [Bool.or_eq_true, decide_eq_true_eq, List.any_eq_true, not_or, not_exists, not_and, Nat.not_lt,
    Nat.not_le] at hsmall
  obtain ⟨⟨hlength, hleading⟩, hbound⟩ := hsmall
  have hfold := foldl_leading_le 0 last (by rw [List.length_dropLast]; omega) hleading
  have hfirst : 1 ≤ parts.length := List.length_pos_of_ne_nil (by rintro rfl; cases hlast)
  rw [List.length_dropLast, show 4 - 0 - (parts.length - 1) = 5 - parts.length by omega] at hfold
  omega

private theorem dotted?_lt (h : dotted? cs = some pieces) : ∀ piece ∈ pieces, piece < 2 ^ 16 := by
  simp only [dotted?, bind, Option.bind_eq_some_iff] at h
  obtain ⟨parts, hparts, h⟩ := h
  have hbytes : ∀ part ∈ parts, part < 256 := by
    intro part hpart
    obtain ⟨ds, -, hds⟩ := exists_of_forall₂ (mapM_eq_some_iff.mp hparts) hpart
    exact of_decide_eq_true (Option.filter_eq_some_iff.mp (Option.ite_none_left_eq_some.mp hds).2).2
  split at h
  · rename_i a b c d
    cases h
    have := hbytes a (by simp)
    have := hbytes b (by simp)
    have := hbytes c (by simp)
    have := hbytes d (by simp)
    simp only [List.mem_cons, List.not_mem_nil, or_false]
    rintro piece (rfl | rfl) <;> omega
  · cases h

private theorem pieces?_lt (h : pieces? cs = some pieces) : ∀ piece ∈ pieces, piece < 2 ^ 16 := by
  have hplain {parts : List (List Char)} {pieces : List Nat} (h : parts.mapM (fun ds =>
      if ds.isEmpty || ds.length > 4 then none else numberOf? 16 ds) = some pieces) :
      ∀ piece ∈ pieces, piece < 2 ^ 16 := by
    intro piece hpiece
    obtain ⟨ds, -, hds⟩ := exists_of_forall₂ (mapM_eq_some_iff.mp h) hpiece
    obtain ⟨hlength, hds⟩ := Option.ite_none_left_eq_some.mp hds
    simp only [Bool.or_eq_true, decide_eq_true_eq, not_or] at hlength
    calc piece < 16 ^ ds.length := numberOf?_lt (by decide) hds
      _ ≤ 16 ^ 4 := Nat.pow_le_pow_right (by decide) (by omega)
  unfold pieces? at h
  split at h
  · cases h
    simp
  · dsimp only at h
    split at h
    · split at h
      · simp only [bind, Option.bind_eq_some_iff] at h
        obtain ⟨front, hfront, back, hback, h⟩ := h
        cases h
        intro piece hpiece
        obtain hpiece | hpiece := List.mem_append.mp hpiece
        · exact hplain hfront piece hpiece
        · exact dotted?_lt hback piece hpiece
      · exact hplain h
    · cases h

private theorem v6?_isWellFormed (h : v6? cs = some pieces) : (v6 pieces).IsWellFormed := by
  unfold v6? at h
  split at h
  · obtain ⟨h, hlength⟩ := Option.filter_eq_some_iff.mp h
    exact ⟨eq_of_beq hlength, pieces?_lt h⟩
  · rename_i before behind _
    simp only [bind, Option.bind_eq_some_iff] at h
    obtain ⟨left, hleft, right, hright, h⟩ := h
    obtain ⟨hlength, h⟩ := Option.ite_none_left_eq_some.mp h
    cases h
    simp only [Bool.or_eq_true, decide_eq_true_eq, not_or] at hlength
    refine ⟨by simp; omega, fun piece hpiece => ?_⟩
    simp only [List.mem_append, List.mem_replicate] at hpiece
    obtain (hpiece | ⟨-, rfl⟩) | hpiece := hpiece
    · exact pieces?_lt hleft piece hpiece
    · decide
    · exact pieces?_lt hright piece hpiece

end Address

/-- Hosts in their plain form. -/
def Host.IsCanonical : Host → Prop
  | .name text => Text.IsSmall text ∧ Address.endsInNumber text.toList = false
  | .address value => value.IsWellFormed

/-- Locations of the usual schemes have a host in its plain form. -/
def Url.Reader.IsCanonical (read : Reader) : Prop :=
  ∀ text url, read text = .ok url → isSpecial url.scheme = true → ∃ host, url.host = some host ∧ host.IsCanonical

private theorem Host.isCanonical_of_ofText? {cs : List Char} {host : Host} (h : ofText? cs = some host) :
    host.IsCanonical := by
  unfold ofText? at h
  split at h
  · obtain ⟨-, h⟩ := Option.ite_none_right_eq_some.mp h
    obtain ⟨pieces, hpieces, rfl⟩ := Option.map_eq_some_iff.mp h
    exact Address.v6?_isWellFormed hpieces
  · simp only [bind, Option.bind_eq_some_iff] at h
    obtain ⟨decoded, -, h⟩ := h
    obtain ⟨hplain, h⟩ := Option.ite_none_left_eq_some.mp h
    split at h
    · obtain ⟨n, hn, rfl⟩ := Option.map_eq_some_iff.mp h
      exact Address.v4?_lt hn
    · rename_i hnumber
      cases h
      rw [IsCanonical, String.ofList_toList]
      refine ⟨fun c hc => ⟨?_, Text.toLower_of_mem_lower hc⟩, Bool.eq_false_iff.mpr hnumber⟩
      simp only [Bool.or_eq_true, List.any_eq_true, not_or, not_exists, not_and, decide_eq_true_eq, Nat.not_le] at hplain
      exact (hplain.2 c hc).2

namespace Url
variable {scheme text : String} {cs : List Char} {url : Url}

private theorem isCanonical_of_hostAndPort? {host : Host} {port : Option Nat}
    (h : hostAndPort? scheme cs = some (host, port)) : host.IsCanonical := by
  unfold hostAndPort? at h
  dsimp only at h
  obtain ⟨-, h⟩ := Option.ite_none_left_eq_some.mp h
  obtain ⟨host', hhost, h⟩ := Option.bind_eq_some_iff.mp h
  -- The port says nothing about the host.
  have hsame : host' = host := by
    obtain ⟨-, h⟩ | ⟨-, h⟩ := ite_eq_iff.mp h
    · exact (Prod.mk.inj (Option.some.inj h)).1
    · exact (Prod.mk.inj (Option.some.inj (Option.ite_none_left_eq_some.mp h).2)).1
  exact hsame ▸ Host.isCanonical_of_ofText? hhost

private theorem exists_host_of_withHost? (h : withHost? scheme cs = some url) :
    ∃ host, url.host = some host ∧ host.IsCanonical := by
  obtain ⟨⟨host, port⟩, hplace, h⟩ := Option.bind_eq_some_iff.mp h
  cases h
  exact ⟨host, rfl, isCanonical_of_hostAndPort? hplace⟩

/-- A location of a usual scheme has a host. -/
private theorem exists_host_of_parse? (h : parse? text = some url) (hscheme : isSpecial url.scheme = true) :
    ∃ host, url.host = some host ∧ host.IsCanonical := by
  unfold parse? at h
  split at h
  · cases h
  · split at h
    · exact exists_host_of_withHost? h
    · cases h
      contradiction

theorem read_isCanonical : Reader.IsCanonical read := by
  intro text url h hscheme
  rw [read] at h
  split at h
  · rename_i found hfound
    cases h
    exact exists_host_of_parse? hfound hscheme
  · cases h

end Url

end Http
end FlowEngine
