import Mathlib

/-!
# The least element of a list

`minBy cmp` is what `Iterator::min_by` returns: the first of the elements that no later one is below. No
law of `cmp` is assumed.
-/

namespace Hyperion.Lib

section
variable {α : Type} (cmp : α → α → Ordering)

/-- The lesser of two elements, the first one if they compare equal. -/
def lesser (a b : α) : α := if cmp a b = .gt then b else a

def minBy : List α → Option α
  | [] => none
  | a :: rest => some (rest.foldl (lesser cmp) a)

end

end Hyperion.Lib
