/-!
# Types of values

The closed family of types.  The last six are names for values that the
notation may hold one day; no element has them.
-/

namespace Edn

/-- A type of values. -/
inductive ValueType where
  | nil
  | boolean
  | string
  | character
  | symbol
  | keyword
  | integer
  | float
  | instant
  | uuid
  | list
  | vector
  | map
  | set
  | bigInteger
  | bigDecimal
  | double
  | reference
  | uri
  | bytes
deriving DecidableEq, Repr

namespace ValueType

/-- Every type. -/
def all : List ValueType :=
  [.nil, .boolean, .string, .character, .symbol, .keyword, .integer, .float, .instant, .uuid, .list,
   .vector, .map, .set, .bigInteger, .bigDecimal, .double, .reference, .uri, .bytes]

/-- The name of a type within its namespace. -/
def localName : ValueType → String
  | nil => "nil"
  | boolean => "boolean"
  | string => "string"
  | character => "char"
  | symbol => "symbol"
  | keyword => "keyword"
  | integer => "long"
  | float => "float"
  | instant => "instant"
  | uuid => "uuid"
  | list => "group"
  | vector => "vector"
  | map => "map"
  | set => "set"
  | bigInteger => "bigint"
  | bigDecimal => "bigdec"
  | double => "double"
  | reference => "ref"
  | uri => "uri"
  | bytes => "bytes"

/-- The name of a type. -/
def name (t : ValueType) : String :=
  ":db.type/" ++ t.localName

/-- Tells whether the values of a type are collections. -/
def isCollection : ValueType → Bool
  | list | vector | map | set => true
  | _ => false

/-- Tells whether the values of a type are symbols or keywords. -/
def isSymbolic : ValueType → Bool
  | symbol | keyword => true
  | _ => false

/-- Tells whether there are elements of a type. -/
def isImplemented : ValueType → Bool
  | bigInteger | bigDecimal | double | reference | uri | bytes => false
  | _ => true

end ValueType

end Edn
