import Edn.Scalar
import Edn.Symbol

/-!
# Elements

An element is a value of the notation with a tag, which is empty if there is
none.  Its payload is a scalar, a symbol, or a collection of elements.

Lists and vectors are ordered: they hold items.  Maps and sets are keyed:
they hold entries, and each entry is filed under a text, its storage key.
The entry of a set has the member both as its key and as its value.
-/

namespace Edn

/-- The ordered kinds of collections. -/
inductive OrderedKind where
  | list
  | vector
deriving DecidableEq, Repr

/-- The keyed kinds of collections. -/
inductive KeyedKind where
  | map
  | set
deriving DecidableEq, Repr

/-- The kinds of collections. -/
inductive CollectionKind where
  | ordered (kind : OrderedKind)
  | keyed (kind : KeyedKind)
deriving DecidableEq, Repr

namespace CollectionKind

/-- The type of the elements of a kind. -/
def type : CollectionKind → ValueType
  | .ordered .list => .list
  | .ordered .vector => .vector
  | .keyed .map => .map
  | .keyed .set => .set

/-- The opening delimiter. -/
def opener : CollectionKind → List Char
  | .ordered .list => ['(']
  | .ordered .vector => ['[']
  | .keyed .map => ['\x7b']
  | .keyed .set => ['#', '\x7b']

/-- The closing delimiter. -/
def closer : CollectionKind → List Char
  | .ordered .list => [')']
  | .ordered .vector => [']']
  | .keyed _ => ['\x7d']

/-- What is written between items, and between entries. -/
def separator : CollectionKind → List Char
  | .keyed .map => [',', ' ']
  | _ => [' ']

/-- What is written between the key and the value of an entry, where both are written. -/
def keySeparator? : CollectionKind → Option (List Char)
  | .keyed .map => some [' ']
  | _ => none

/-- Tells whether a kind is keyed. -/
def isKeyed : CollectionKind → Bool
  | .keyed _ => true
  | .ordered _ => false

end CollectionKind

mutual

/-- A value of the notation with its tag. -/
inductive Element where
  | scalar (tag : String) (value : Scalar)
  | symbol (tag : String) (value : Symbol)
  | collection (tag : String) (value : Collection)

/-- A list, vector, map or set.  The kind of a collection and the form of its store are one choice, so
that a list or vector holds items, and a map or set holds entries, by construction. -/
inductive Collection where
  | ordered (kind : OrderedKind) (items : List Element)
  | keyed (kind : KeyedKind) (entries : List Entry)

/-- A key and its value, filed under a storage key. -/
inductive Entry where
  | mk (storageKey : String) (key value : Element)

end

namespace Entry

/-- The text that an entry is filed under. -/
def storageKey : Entry → String
  | ⟨storageKey, _, _⟩ => storageKey

/-- The key of an entry. -/
def key : Entry → Element
  | ⟨_, key, _⟩ => key

/-- The value of an entry. -/
def value : Entry → Element
  | ⟨_, _, value⟩ => value

end Entry

namespace Collection

/-- The kind of a collection. -/
def kind : Collection → CollectionKind
  | ordered kind _ => .ordered kind
  | keyed kind _ => .keyed kind

/-- The number of items or entries. -/
def size : Collection → Nat
  | ordered _ items => items.length
  | keyed _ entries => entries.length

/-- Tells whether a collection holds nothing. -/
def isEmpty (c : Collection) : Bool :=
  c.size == 0

/-- The items of an ordered collection, the values of a map, or the members of a set. -/
def values : Collection → List Element
  | ordered _ items => items
  | keyed _ entries => entries.map Entry.value

/-- The entries of a keyed collection.  An ordered collection has none. -/
def entries : Collection → List Entry
  | ordered _ _ => []
  | keyed _ entries => entries

/-- The collection of a kind that holds nothing. -/
def empty : CollectionKind → Collection
  | .ordered kind => ordered kind []
  | .keyed kind => keyed kind []

/-- A list of items. -/
def list (items : List Element) : Collection :=
  ordered .list items

/-- A vector of items. -/
def vector (items : List Element) : Collection :=
  ordered .vector items

end Collection

namespace Element

/-! ## Parts -/

/-- The tag of an element, empty if there is none. -/
def tag : Element → String
  | scalar tag _ => tag
  | symbol tag _ => tag
  | collection tag _ => tag

/-- Tells whether an element has a tag. -/
def hasTag (e : Element) : Bool :=
  !e.tag.isEmpty

/-- The element with its tag replaced, without a check. -/
def retag (tag : String) : Element → Element
  | scalar _ value => scalar tag value
  | symbol _ value => symbol tag value
  | collection _ value => collection tag value

/-- The type of an element. -/
def type : Element → ValueType
  | scalar _ value => value.type
  | symbol _ value => if value.isKeyword then .keyword else .symbol
  | collection _ value => value.kind.type

/-- The scalar of an element, if it is one. -/
def scalar? : Element → Option Scalar
  | scalar _ value => some value
  | _ => none

/-- The symbol of an element, if it is one. -/
def symbol? : Element → Option Symbol
  | symbol _ value => some value
  | _ => none

/-- The collection of an element, if it is one. -/
def collection? : Element → Option Collection
  | collection _ value => some value
  | _ => none

/-- Tells whether an element is a collection. -/
def isCollection (e : Element) : Bool :=
  e.collection?.isSome

/-- Tells whether an element is nil. -/
def isNil (e : Element) : Bool :=
  match e.scalar? with
  | some .nil => true
  | _ => false

/-- The value of a boolean. -/
def boolean? (e : Element) : Option Bool :=
  match e.scalar? with
  | some (.boolean value) => some value
  | _ => none

/-- The value of a string. -/
def string? (e : Element) : Option String :=
  match e.scalar? with
  | some (.string value) => some value
  | _ => none

/-- The value of a character. -/
def character? (e : Element) : Option Char :=
  match e.scalar? with
  | some (.character value) => some value
  | _ => none

/-- The value of an integer. -/
def integer? (e : Element) : Option Int64 :=
  match e.scalar? with
  | some (.integer value) => some value
  | _ => none

/-- The value of a float. -/
def float? (e : Element) : Option Decimal.Double :=
  match e.scalar? with
  | some (.float value) => some value
  | _ => none

/-- The value of an instant. -/
def instant? (e : Element) : Option Instant :=
  match e.scalar? with
  | some (.instant value) => some value
  | _ => none

/-- The value of a UUID. -/
def uuid? (e : Element) : Option Uuid :=
  match e.scalar? with
  | some (.uuid value) => some value
  | _ => none

/-! ## Making elements -/

/-- The tag of instants. -/
def instantTag : String :=
  "inst"

/-- The tag of UUIDs. -/
def uuidTag : String :=
  "uuid"

/-- The nil element. -/
def nil : Element :=
  scalar "" .nil

/-- A boolean. -/
def boolean (value : Bool) : Element :=
  scalar "" (.boolean value)

/-- A string. -/
def string (value : String) : Element :=
  scalar "" (.string value)

/-- A character. -/
def character (value : Char) : Element :=
  scalar "" (.character value)

/-- An integer. -/
def integer (value : Int64) : Element :=
  scalar "" (.integer value)

/-- A float. -/
def float (value : Decimal.Double) : Element :=
  scalar "" (.float value)

/-- An instant with its tag. -/
def instant (value : Instant) : Element :=
  scalar instantTag (.instant value)

/-- A UUID with its tag. -/
def uuid (value : Uuid) : Element :=
  scalar uuidTag (.uuid value)

/-- A scalar with the tag that its type asks for. -/
def ofScalar : Scalar → Element
  | .instant value => instant value
  | .uuid value => uuid value
  | value => scalar "" value

/-- A symbol or keyword without a tag. -/
def ofSymbol (value : Symbol) : Element :=
  symbol "" value

/-- A collection without a tag. -/
def ofCollection (value : Collection) : Element :=
  collection "" value

/-- Reads a symbol. -/
def readSymbol (text : String) : Except Error Element :=
  (Symbol.read text).map ofSymbol

/-- Reads a keyword. -/
def readKeyword (text : String) : Except Error Element :=
  (Symbol.readKeyword text).map ofSymbol

/-! ## Tags -/

/-- A text without the number sign that it starts with, if it starts with one. -/
def dropTagMark (text : String) : String :=
  match text.toList with
  | '#' :: rest => String.ofList rest
  | _ => text

/-- The element with a tag.  The empty text takes the tag away; any other must be a symbol, and may
start with a number sign. -/
def withTag (tag : String) (e : Element) : Except Error Element :=
  if tag.isEmpty then .ok (e.retag "")
  else (Symbol.read (dropTagMark tag)).map fun s => e.retag s.text

/-- Sets the tag of an element in place.  A tag that is refused leaves the element as it is. -/
def setTag (tag : String) (e : Element) : Element × Except Error Unit :=
  assign e (e.withTag tag)

end Element

end Edn
