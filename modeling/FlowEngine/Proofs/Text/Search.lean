import FlowEngine.Text.Search
import Mathlib.Data.List.Infix

/-! Texts that start with a pattern, and putting something in the place of a pattern, piece by piece. -/
namespace FlowEngine.Text
variable {pattern replacement cs rest piece : List Char} {p : Char}

/-! Beginnings and ends. -/

private theorem afterStart?_eq_some_iff : afterStart? pattern cs = some rest ↔ cs = pattern ++ rest := by
  induction pattern generalizing cs with
  | nil => simp [afterStart?]
  | cons p pattern ih =>
    cases cs with
    | nil => simp [afterStart?]
    | cons c cs =>
      rw [afterStart?]
      split
      · rename_i hpc
        rw [ih, eq_of_beq hpc]
        simp
      · rename_i hpc
        simp only [reduceCtorEq, List.cons_append, List.cons.injEq, false_iff, not_and]
        rintro rfl
        simp at hpc

private theorem startsWith_iff : startsWith pattern cs = true ↔ pattern <+: cs := by
  rw [startsWith, Option.isSome_iff_exists]
  exact exists_congr fun rest => afterStart?_eq_some_iff.trans eq_comm

theorem endsWith_iff : endsWith pattern cs = true ↔ pattern <:+ cs := by
  rw [endsWith, startsWith_iff, List.reverse_prefix]

/-! Substitution. -/

private theorem substitute_skip :
    substitute pattern replacement piece.length (piece ++ rest) = substitute pattern replacement 0 rest := by
  induction piece with
  | nil => rfl
  | cons c piece ih => rw [List.length_cons, List.cons_append, substitute, ih]

/-- A match at the very start is replaced, whatever follows it. -/
theorem substitute_match : substitute (p :: pattern) replacement 0 (p :: pattern ++ rest) =
    replacement ++ substitute (p :: pattern) replacement 0 rest := by
  have hstart : startsWith (p :: pattern) (p :: (pattern ++ rest)) = true := startsWith_iff.mpr (List.prefix_append _ _)
  rw [List.cons_append, substitute, if_pos hstart, List.length_cons, Nat.add_sub_cancel, substitute_skip]

/-- Where no match starts, the first character stays. -/
theorem substitute_cons {c : Char} (h : ¬pattern <+: c :: rest) :
    substitute pattern replacement 0 (c :: rest) = c :: substitute pattern replacement 0 rest := by
  rw [substitute, if_neg (startsWith_iff.not.mpr h)]

/-- Characters with which no match starts stay. -/
theorem substitute_of_notMem (h : p ∉ piece) : substitute (p :: pattern) replacement 0 (piece ++ rest) =
    piece ++ substitute (p :: pattern) replacement 0 rest := by
  induction piece with
  | nil => rfl
  | cons c piece ih =>
    rw [List.mem_cons, not_or] at h
    obtain ⟨hc, hpiece⟩ := h
    have hstart : ¬p :: pattern <+: c :: (piece ++ rest) := fun hmatch => hc (List.cons_prefix_cons.mp hmatch).1
    rw [List.cons_append, substitute_cons hstart, ih hpiece, List.cons_append]

/-- Where every character's piece is replaced by another piece whatever follows it, so are all of them. -/
theorem substitute_flatMap {f g : Char → List Char} (h : ∀ c ∈ cs, ∀ rest,
    substitute pattern replacement 0 (f c ++ rest) = g c ++ substitute pattern replacement 0 rest) :
    substitute pattern replacement 0 (cs.flatMap f) = cs.flatMap g := by
  induction cs with
  | nil => rfl
  | cons c cs ih =>
    obtain ⟨hc, hcs⟩ := List.forall_mem_cons.mp h
    rw [List.flatMap_cons, List.flatMap_cons, hc, ih hcs]

end FlowEngine.Text
