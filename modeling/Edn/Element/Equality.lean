import Edn.Element

/-!
# Equality of elements

Two elements are the same when their tags and their payloads are.  Ordered
collections are compared item by item.  Keyed collections are the same when
they have as many entries and each storage key of the one has the same value
in the other.
-/

namespace Edn

/-- The entry that is filed under a storage key. -/
def findEntry? (storageKey : String) (entries : List Entry) : Option Entry :=
  entries.find? fun entry => entry.storageKey == storageKey

mutual

/-- Two elements are the same: type, tag and payload. -/
def Element.same : Element → Element → Bool
  | .scalar tag value, .scalar otherTag other => tag == otherTag && value.same other
  | .symbol tag value, .symbol otherTag other => tag == otherTag && decide (value = other)
  | .collection tag value, .collection otherTag other => tag == otherTag && value.same other
  | _, _ => false
termination_by structural value => value

/-- Two collections are the same: kind and contents. -/
def Collection.same : Collection → Collection → Bool
  | .ordered kind items, .ordered otherKind others =>
    decide (kind = otherKind) && sameItems items others
  | .keyed kind entries, .keyed otherKind others =>
    decide (kind = otherKind) && entries.length == others.length && filedIn others entries
  | _, _ => false
termination_by structural value => value

/-- Two lists of items have the same items in the same places. -/
def sameItems : List Element → List Element → Bool
  | [], [] => true
  | item :: rest, other :: others => item.same other && sameItems rest others
  | _, _ => false
termination_by structural items => items

/-- The value of each entry is also filed among `others`, under the same storage key. -/
def filedIn (others : List Entry) : List Entry → Bool
  | [] => true
  | entry :: rest => sameValueIn others entry && filedIn others rest
termination_by structural entries => entries

/-- The value of one entry is also filed among `others`, under the same storage key. -/
def sameValueIn (others : List Entry) : Entry → Bool
  | ⟨storageKey, _, value⟩ =>
    match findEntry? storageKey others with
    | some other => value.same other.value
    | none => false
termination_by structural entry => entry

end

end Edn
