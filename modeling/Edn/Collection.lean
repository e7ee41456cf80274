import Edn.Element.Text
import Edn.Element.Equality

/-!
# Collections

Children are added to a collection and looked up in it.

* The entries of a keyed collection stand in ascending order of their
  storage keys, and no two have the same one.  `insertEntry` keeps the order,
  and `addEntry` refuses a key that is taken.
* `Collection.append` adds children all together or not at all.  Calls that
  change a collection give back what they leave behind, and their result.
* `Collection.merge` adds the children of another collection one at a time,
  and keeps those before the first that is refused.
* `Collection.get` finds an item by its position, and the value of an entry
  by its storage key.
-/

namespace Edn

/-! ## Entries -/

/-- The entry of a key and a value. -/
def Entry.of (key value : Element) : Entry :=
  ⟨key.storageKey, key, value⟩

/-- Puts an entry in front of the first one with a greater storage key. -/
def insertEntry (new : Entry) : List Entry → List Entry
  | [] => [new]
  | entry :: rest =>
    if new.storageKey < entry.storageKey then new :: entry :: rest
    else entry :: insertEntry new rest

/-- Adds an entry, unless its storage key is taken. -/
def addEntry (entries : List Entry) (new : Entry) : Except Error (List Entry) :=
  match findEntry? new.storageKey entries with
  | some _ => .error (.duplicateKey new.storageKey)
  | none => .ok (insertEntry new entries)

/-- Adds entries in order, up to the first whose storage key is taken. -/
def addEntries (entries : List Entry) (news : List Entry) : Except Error (List Entry) :=
  news.foldlM addEntry entries

/-- The pairs of a flat list `k1 v1 k2 v2 ...`; none if its length is odd. -/
def pairUp? : List Element → Option (List (Element × Element))
  | [] => some []
  | [_] => none
  | key :: value :: rest => (pairUp? rest).map ((key, value) :: ·)

/-- The entries that a flat list of children stands for. -/
def entriesOf (kind : KeyedKind) (children : List Element) : Except Error (List Entry) :=
  match kind with
  | .set => .ok (children.map fun member => .of member member)
  | .map =>
    match pairUp? children with
    | some pairs => .ok (pairs.map fun (key, value) => .of key value)
    | none =>
      let count := children.length
      .error (.invalidInput s!"map append needs key/value pairs, got {count} elements")

namespace Collection

/-! ## Adding children -/

/-- The collection with children added at the end.  A keyed collection takes all of them or none; a
map takes them as `k1 v1 k2 v2 ...`. -/
def appended (c : Collection) (children : List Element) : Except Error Collection :=
  match c with
  | ordered kind items => .ok (ordered kind (items ++ children))
  | keyed kind entries => do
    let news ← entriesOf kind children
    return keyed kind (← addEntries entries news)

/-- The collection with children added at the front, in their order.  A keyed collection has no
front. -/
def prepended (c : Collection) (children : List Element) : Except Error Collection :=
  match c with
  | ordered kind items => .ok (ordered kind (children ++ items))
  | keyed _ _ => c.appended children

/-- Adds children at the end.  A collection that refuses them is left as it is. -/
def append (c : Collection) (children : List Element) : Collection × Except Error Unit :=
  assign c (c.appended children)

/-- Adds children at the front.  A collection that refuses them is left as it is. -/
def prepend (c : Collection) (children : List Element) : Collection × Except Error Unit :=
  assign c (c.prepended children)

/-- The collection of a kind with the given children. -/
def ofElements (kind : CollectionKind) (children : List Element) : Except Error Collection :=
  (empty kind).appended children

/-! ## Walking and merging -/

/-- A position as an integer.  Positions beyond 64 bits count as the greatest integer. -/
def position (index : Nat) : Int64 :=
  Int64.ofNat (min index (Text.int64Bound - 1))

/-- The children with their keys, in order: items have their positions as keys, entries their own
keys. -/
def children : Collection → List (Element × Element)
  | ordered _ items => items.mapIdx fun index item => (Element.integer (position index), item)
  | keyed _ entries => entries.map fun entry => (entry.key, entry.value)

/-- Visits each child with its key, in order. -/
def walk {m : Type → Type} [Monad m] (visit : Element → Element → m Unit) (c : Collection) :
    m Unit :=
  c.children.forM fun (key, value) => visit key value

/-- The children that a collection takes over from a key and its value: a map takes both, every
other kind the value. -/
def taken (kind : CollectionKind) (key value : Element) : List Element :=
  match kind with
  | .keyed .map => [key, value]
  | _ => [value]

/-- Adds children one at a time, up to the first that is refused. -/
def mergeChildren (c : Collection) : List (Element × Element) → Collection × Except Error Unit
  | [] => (c, .ok ())
  | (key, value) :: rest =>
    match c.append (taken c.kind key value) with
    | (added, .ok ()) => mergeChildren added rest
    | (left, .error error) => (left, .error error)

/-- Adds the children of another collection one at a time, up to the first that is refused. -/
def merge (c other : Collection) : Collection × Except Error Unit :=
  c.mergeChildren other.children

/-! ## Looking up -/

/-- A key of a lookup. -/
inductive Key where
  | index (value : Int64)
  | text (value : String)
  | element (value : Element)

/-- The key of a position. -/
def Key.ofPosition (index : Nat) : Key :=
  .index (position index)

/-- The text that is looked up. -/
def Key.storageKey : Key → String
  | .index value => String.ofList (Text.signedDecimal value.toInt)
  | .text value => value
  | .element value => value.storageKey

/-- Finds a child.  An ordered collection reads the key as a position counted from zero. -/
def get (c : Collection) (key : Key) : Except Error Element :=
  let text := key.storageKey
  match c with
  | ordered _ items =>
    match Text.readInt64 text.toList with
    | .error _ => .error (.invalidInput (text ++ " is not an index"))
    | .ok index =>
      if index.toInt < 0 then .error (.noValue text)
      else
        match items[index.toInt.toNat]? with
        | some item => .ok item
        | none => .error (.noValue text)
  | keyed _ entries =>
    match findEntry? text entries with
    | some entry => .ok entry.value
    | none => .error (.noValue text)

end Collection

/-! ## Elements of collections -/

/-- The collection of an element, without its tag. -/
def Collection.ofElement (e : Element) : Except Error Collection :=
  match e.collection? with
  | some c => .ok c
  | none => .error (.invalidElement (e.type.name ++ " is not a collection"))

/-- A list with the given items. -/
def Element.list (items : List Element) : Element :=
  .ofCollection (.list items)

/-- A vector with the given items. -/
def Element.vector (items : List Element) : Element :=
  .ofCollection (.vector items)

/-- A set with the given members. -/
def Element.set (members : List Element) : Except Error Element :=
  (Collection.ofElements (.keyed .set) members).map .ofCollection

end Edn
