/-!
# Sorting with effects

A stable merge sort whose comparison may fail or have other effects: `after a b` says that `a` goes
behind `b`. Whatever it says, nothing is lost and nothing is added.
-/
namespace FlowEngine

variable {m : Type → Type} [Monad m] {α : Type}

/-- Merges two lists; an item of the second goes first only if the comparison wants it so. -/
def mergeM (after : α → α → m Bool) : List α → List α → m (List α)
  | [], ys => pure ys
  | x :: xs, [] => pure (x :: xs)
  | x :: xs, y :: ys => do
    if ← after x y then
      return y :: (← mergeM after (x :: xs) ys)
    else
      return x :: (← mergeM after xs (y :: ys))
termination_by xs ys => xs.length + ys.length

/-- Sorts the two halves, the shorter one first, and merges them. -/
def mergeSortM (after : α → α → m Bool) (items : List α) : m (List α) := do
  if items.length ≤ 1 then return items
  let left ← mergeSortM after (items.take (items.length / 2))
  let right ← mergeSortM after (items.drop (items.length / 2))
  mergeM after left right
termination_by items.length
decreasing_by all_goals (simp; omega)

end FlowEngine
