/-!
Sets of code points, kept as the sorted list of points where membership changes. Membership is
decided by how many of those points lie at or below the code point: an odd number means inside.
-/

namespace BindScript.Text

/-- A set of code points given by its turning points in increasing order: the first one enters the
set, the next one leaves it, and so on. -/
structure CodeSet where
  turns : Array Nat

namespace CodeSet

/-- Binary search between `lo` and `hi` for the number of turning points that are at most `c`. The
first argument bounds the number of halvings. -/
def countUpTo (turns : Array Nat) (c : Nat) : Nat → Nat → Nat → Nat
  | 0, lo, _ => lo
  | steps + 1, lo, hi =>
    if lo < hi then
      let mid := (lo + hi) / 2
      if turns.getD mid 0 ≤ c then countUpTo turns c steps (mid + 1) hi
      else countUpTo turns c steps lo mid
    else lo

/-- Whether the code point `c` belongs to the set. -/
def contains (s : CodeSet) (c : Nat) : Bool :=
  countUpTo s.turns c s.turns.size 0 s.turns.size % 2 == 1

end CodeSet

end BindScript.Text
