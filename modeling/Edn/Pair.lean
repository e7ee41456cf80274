import Edn.Collection

/-!
# Pairs

Keys with their values, in order, from which maps are built.  Unlike the
entries of a map, pairs may repeat a key.
-/

namespace Edn

/-- A key and its value. -/
structure Pair where
  key : Element
  value : Element

namespace Pair

/-- Two pairs are the same: key and value. -/
def same (a b : Pair) : Bool :=
  a.key.same b.key && a.value.same b.value

/-- Two lists have the same pairs in the same places. -/
def sameAll : List Pair → List Pair → Bool
  | [], [] => true
  | a :: rest, b :: others => a.same b && sameAll rest others
  | _, _ => false

/-- The flat list `k1 v1 k2 v2 ...` of pairs. -/
def flatten (pairs : List Pair) : List Element :=
  pairs.flatMap fun pair => [pair.key, pair.value]

/-- The pairs of a flat list `k1 v1 k2 v2 ...`. -/
def ofFlat (elements : List Element) : Except Error (List Pair) :=
  match pairUp? elements with
  | some pairs => .ok (pairs.map fun (key, value) => ⟨key, value⟩)
  | none =>
    let count := elements.length
    .error (.invalidPair s!"{count} elements cannot be paired up")

end Pair

/-- A map with the given pairs. -/
def Collection.ofPairs (pairs : List Pair) : Except Error Collection :=
  Collection.ofElements (.keyed .map) (Pair.flatten pairs)

/-- A map with the given pairs. -/
def Element.map (pairs : List Pair) : Except Error Element :=
  (Collection.ofPairs pairs).map .ofCollection

end Edn
