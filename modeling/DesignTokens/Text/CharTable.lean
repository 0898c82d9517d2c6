/-!
Membership of a code point in a table of closed ranges. The tables are sorted, so a search ends at
the first range that starts above the code point.
-/
namespace DesignTokens.Text

def inRanges : List (Nat × Nat) → Nat → Bool
  | [], _ => false
  | (low, high) :: rest, n => low ≤ n && (n ≤ high || inRanges rest n)

end DesignTokens.Text
