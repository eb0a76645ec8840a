import FlowEngine.Expr.Error
import FlowEngine.Proofs.Query.Levels

/-! How deep queries nest: no level is refused, so the length of the text is all that bounds them. -/
namespace FlowEngine.Query
open FlowEngine.Query.Parser

/-- A way to put a condition one level deeper. -/
inductive Nesting where
  | negation
  | parentheses
  /-- The condition of a filter in the path of an operand. -/
  | filter
deriving DecidableEq, Repr

namespace Nesting

def around : Nesting → List Char → List Char
  | negation, cs => '!' :: cs
  | parentheses, cs => '(' :: (cs ++ [')'])
  | filter, cs => 'a' :: '[' :: '?' :: (cs ++ [']'])

def condition : Nesting → Condition → Condition
  | negation, c => .not c
  | parentheses, c => c
  | filter, c => .holds (.path [.field "a", .filter c])

def text (ways : List Nesting) : List Char := ways.foldr around ['b']

def nested (ways : List Nesting) : Condition := ways.foldr condition (.holds (.path [.field "b"]))

/-- A query that filters by such a condition. -/
def query (ways : List Nesting) : String := String.ofList (filter.around (text ways))

def Closes (rest : List Char) : Prop := ∃ cs, rest = ')' :: cs ∨ rest = ']' :: cs

section
variable {cs rest : List Char} {c : Condition} {n : Nat}

private theorem Closes.skipBlanks (h : Closes rest) : skipBlanks rest = rest := by
  obtain ⟨cs, rfl | rfl⟩ := h <;> rfl

private theorem reads_condition (h : Reads (.comparison c) n cs rest) (hrest : Closes rest) :
    Reads (.condition c) n cs rest := by
  have hskip := hrest.skipBlanks
  have hor : startsOr (Parser.skipBlanks rest) = false := by
    rw [hskip]
    obtain ⟨cs, rfl | rfl⟩ := hrest <;> rfl
  have hand : startsAnd (Parser.skipBlanks rest) = false := by
    rw [hskip]
    obtain ⟨cs, rfl | rfl⟩ := hrest <;> rfl
  have hconjunction : Reads (.conjunction c) (max n 0) cs (Parser.skipBlanks rest) := .conjunction h (.noAnd hand)
  rw [hskip, Nat.max_zero] at hconjunction
  have hcondition : Reads (.condition c) (max n 0) cs (Parser.skipBlanks rest) := .condition hconjunction (.noOr hor)
  rwa [hskip, Nat.max_zero] at hcondition

/-- A path of letters and brackets that ends where a condition does. -/
private theorem reads_holds {steps : List Step} {d : Char} (hd : skipBlanks (d :: cs) = d :: cs)
    (hnested : startsNested (some d) = false) (hliteral : startsLiteral (some d) = false)
    (h : Reads (.segments true ⟨[], true⟩ steps) n (d :: cs) rest) (hrest : Closes rest) :
    Reads (.comparison (.holds (.path steps))) n (d :: cs) rest := by
  have hsign : comparison? (Parser.skipBlanks rest) = none := by
    rw [hrest.skipBlanks]
    obtain ⟨cs, rfl | rfl⟩ := hrest <;> rfl
  have hoperand : Reads (.operand (.path steps)) n (d :: cs) rest := .path (by rwa [hd]) (by rwa [hd])
  have hholds := Reads.holds (by rwa [hd]) (by rwa [hd]) hsign
  rwa [hrest.skipBlanks] at hholds

private theorem reads_finished {inFilter : Bool} {steps : List Step} (hsteps : steps ≠ []) (hrest : Closes rest) :
    Reads (.segments inFilter ⟨steps, false⟩ steps.reverse) 0 rest rest := by
  obtain ⟨cs, rfl | rfl⟩ := hrest
  · exact .finished hsteps rfl (by simp) (by simp)
  · exact .finished hsteps rfl (by simp) (by simp)

/-- A path that is one name with a filter behind it. -/
private theorem reads_filter {inFilter : Bool} {steps : List Step} {tail : List Char}
    (h : Reads (.condition c) n cs (']' :: tail))
    (hbehind : Reads (.segments inFilter ⟨[.filter c, .field "a"], false⟩ steps) 0 tail rest) :
    Reads (.segments inFilter ⟨[], true⟩ steps) (n + 1) ('a' :: '[' :: '?' :: cs) rest := by
  have hplain : plainSegment? inFilter ('a' :: '[' :: '?' :: cs) = some (.field "a", '[' :: '?' :: cs) := by
    cases inFilter <;> rfl
  have hbracketed : Reads (.segments inFilter ⟨[.field "a"], false⟩ steps) (max (n + 1) 0) ('[' :: '?' :: cs) rest :=
    .bracketed (.filter rfl h rfl) hbehind
  rw [Nat.max_zero] at hbracketed
  exact .plain rfl hplain hbracketed

end

private theorem reads_nested (ways : List Nesting) {rest : List Char} (hrest : Closes rest) :
    Reads (.comparison (nested ways)) ways.length (text ways ++ rest) rest := by
  induction ways generalizing rest with
  | nil =>
    have hplain : plainSegment? true ('b' :: rest) = some (.field "b", rest) := by
      obtain ⟨cs, rfl | rfl⟩ := hrest <;> rfl
    exact reads_holds rfl rfl rfl (.plain rfl hplain (reads_finished (List.cons_ne_nil _ _) hrest)) hrest
  | cons way ways ih =>
    cases way with
    | negation => exact .not rfl (ih hrest)
    | parentheses =>
      have hclose : Closes (')' :: rest) := ⟨rest, .inl rfl⟩
      have hinner := reads_condition (ih hclose) hclose
      have htext : text (.parentheses :: ways) ++ rest = '(' :: (text ways ++ ')' :: rest) := by
        change '(' :: (text ways ++ [')'] ++ rest) = _
        rw [List.append_assoc, List.singleton_append]
      rw [htext]
      exact .group rfl hinner rfl
    | filter =>
      have hclose : Closes (']' :: rest) := ⟨rest, .inr rfl⟩
      have hinner := reads_condition (ih hclose) hclose
      have htext : text (.filter :: ways) ++ rest = 'a' :: '[' :: '?' :: (text ways ++ ']' :: rest) := by
        change 'a' :: '[' :: '?' :: (text ways ++ [']'] ++ rest) = _
        rw [List.append_assoc, List.singleton_append]
      rw [htext]
      refine reads_holds rfl rfl rfl (reads_filter hinner ?_) hrest
      exact reads_finished (List.cons_ne_nil _ _) hrest

private theorem readsPaths_query (ways : List Nesting) :
    ReadsPaths [[.field "a", .filter (nested ways)]] (ways.length + 1) (query ways).toList := by
  have hclose : Closes [']'] := ⟨[], .inr rfl⟩
  have hcondition := reads_condition (reads_nested ways hclose) hclose
  have hend : Reads (.segments false ⟨[.filter (nested ways), .field "a"], false⟩ [.field "a", .filter (nested ways)])
      0 [] [] := .finished (List.cons_ne_nil _ _) rfl nofun nofun
  rw [query, String.toList_ofList]
  exact .last (reads_filter hcondition hend) rfl

end Nesting

/-- A text is a query that nests so many levels deep. -/
def NestsTo (levels : Nat) (source : String) : Prop :=
  ∃ paths, parse source = .ok paths ∧ ReadsPaths paths levels source.toList

/-- Every query nests to a level of its own that its length bounds, and nothing else does: conditions nested in any
number of ways are read. -/
theorem nesting_is_bounded_by_length_alone (ways : List Nesting) :
    NestsTo (ways.length + 1) (Nesting.query ways) ∧
      (∀ source, (∃ paths, parse source = .ok paths) ↔ ∃! levels, NestsTo levels source) ∧
      ∀ source levels, NestsTo levels source → levels ≤ source.length := by
  refine ⟨?_, fun source => ⟨?_, ?_⟩, ?_⟩
  · have hreads := Nesting.readsPaths_query ways
    exact ⟨_, parse_eq_ok_iff.mpr ⟨_, hreads⟩, hreads⟩
  · rintro ⟨paths, hparse⟩
    obtain ⟨n, hreads⟩ := parse_eq_ok_iff.mp hparse
    refine ⟨n, ⟨paths, hparse, hreads⟩, ?_⟩
    rintro m ⟨paths', hparse', hreads'⟩
    obtain rfl : paths = paths' := Except.ok.inj (hparse.symm.trans hparse')
    exact hreads'.level_unique hreads
  · rintro ⟨n, ⟨paths, hparse, -⟩, -⟩
    exact ⟨paths, hparse⟩
  · rintro source levels ⟨paths, -, hreads⟩
    exact Nat.le_trans hreads.level_le (Nat.le_of_eq String.length_toList)

/-- Queries nest deeper than expressions may. -/
theorem nesting_of_sixty_five_negations :
    maxNestingDepth < 66 ∧ NestsTo 66 (Nesting.query (List.replicate 65 .negation)) :=
  ⟨by decide, (nesting_is_bounded_by_length_alone (List.replicate 65 .negation)).1⟩

end FlowEngine.Query
