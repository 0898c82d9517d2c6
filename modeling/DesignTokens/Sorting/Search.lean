import DesignTokens.Text.Basic

/-!
Searches for the end of the front of a list: of the items before the first that fails a test, if all
after it fail too. In any other list the answer depends on the items that are tested, so which these
are is part of the definitions.
-/
namespace DesignTokens.Sorting

variable {α : Type}

def passesAt (test : α → Bool) (items : List α) (i : Nat) : Bool := items[i]?.any test

/-- The end of the front between two bounds, by halving. The middle of an even number of items is
the right one of the two, or the left one for items in reverse. -/
def bisect (test : α → Bool) (reversed : Bool) (items : List α) (low high : Nat) : Nat :=
  if low < high then
    let middle := low + (if reversed then (high - low - 1) / 2 else (high - low) / 2)
    if passesAt test items middle then bisect test reversed items (middle + 1) high
    else bisect test reversed items low middle
  else low
termination_by high - low
decreasing_by
  all_goals split <;> omega

/-- The bounds of the end of the front, by steps that double. The item at `last` is known to pass.
-/
def bounds (test : α → Bool) (items : List α) (last next : Nat) : Nat × Nat :=
  if next < items.length then
    if passesAt test items next then bounds test items next (2 * next + 1)
    else (last + 1, next)
  else (last + 1, items.length)
termination_by items.length - next

/-- The end of the front, searched from the start. -/
def gallop (test : α → Bool) (reversed : Bool) (items : List α) : Nat :=
  if passesAt test items 0 then
    let (low, high) := bounds test items 0 1
    bisect test reversed items low high
  else 0

end DesignTokens.Sorting
