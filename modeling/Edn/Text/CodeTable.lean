/-!
# Tables of code points

A table is a list of closed ranges of code points, in ascending order and
with a gap between any two.
-/

namespace Edn.Text

/-- Closed ranges of code points in ascending order. -/
abbrev CodeTable : Type :=
  List (Nat × Nat)

/-- Tells whether a table holds a code point.  The search ends at the first range that lies above
it. -/
def CodeTable.holds : CodeTable → (code : Nat) → Bool
  | [], _ => false
  | (first, last) :: rest, code =>
    if code < first then false else decide (code ≤ last) || holds rest code

end Edn.Text
