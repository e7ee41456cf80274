import Edn.Native
import Edn.Text.Visible

/-!
# Quotation of native values

The form in which an error message quotes a native value that it refuses:
the names of its parts with their contents.  Texts are quoted exactly, so
that every character that cannot be seen shows its code point.
-/

namespace Edn

namespace Quotation

/-- The hexadecimal digits of a number, without leading zeros. -/
def hexDigits (n : Nat) : List Char :=
  if n < 16 then [Text.hexDigit n] else hexDigits (n / 16) ++ [Text.hexDigit (n % 16)]

/-- One character of a text that is enclosed by the character `mark`. -/
def exactChar (mark c : Char) : List Char :=
  if c = mark then ['\\', c]
  else
    match c with
    | '\x00' => ['\\', '0']
    | '\t' => ['\\', 't']
    | '\r' => ['\\', 'r']
    | '\n' => ['\\', 'n']
    | '\\' => ['\\', '\\']
    | c => if Text.isVisible c then [c] else '\\' :: 'u' :: '\x7b' :: hexDigits c.toNat ++ ['\x7d']

/-- A text between double quotes. -/
def exactText (text : String) : String :=
  "\"" ++ String.ofList (text.toList.flatMap (exactChar '"')) ++ "\""

/-- A character between single quotes. -/
def exactCharacter (c : Char) : String :=
  "'" ++ String.ofList (exactChar '\'' c) ++ "'"

/-- A name with its contents in parentheses. -/
def named (name contents : String) : String :=
  name ++ "(" ++ contents ++ ")"

/-- A name with its fields in braces. -/
def record (name fields : String) : String :=
  name ++ " \x7b " ++ fields ++ " \x7d"

/-- The quotation of a scalar. -/
def ofScalar : Scalar → String
  | .nil => "Nil"
  | .boolean value => named "Boolean" (Scalar.booleanText value)
  | .string value => named "String" (exactText value)
  | .character value => named "Character" (exactCharacter value)
  | .integer value => named "Integer" (String.ofList (Text.signedDecimal value.toInt))
  | .float value => named "Float" (String.ofList value.positional)
  | .instant value => named "Instant" (String.ofList value.exactText)
  | .uuid value => named "Uuid" (String.ofList value.text)

/-- The quotation of a symbol. -/
def ofSymbol (s : Symbol) : String :=
  record "Symbol" ("prefix: " ++ exactText s.qualifier ++ ", name: " ++ exactText s.name ++
    ", modifier: " ++ exactText s.marker)

/-- The name of a kind of collections. -/
def kindName : CollectionKind → String
  | .ordered .list => "List"
  | .ordered .vector => "Vector"
  | .keyed .map => "Map"
  | .keyed .set => "Set"

/-- The fields of an element. -/
def elementRecord (tag payload : String) : String :=
  record "Element" ("tag: " ++ exactText tag ++ ", kind: " ++ payload)

/-- The fields of a collection. -/
def collectionRecord (kind : CollectionKind) (store : String) : String :=
  record "Collection" ("kind: " ++ kindName kind ++ ", store: " ++ store)

mutual

/-- The quotation of an element. -/
def ofElement : Element → String
  | .scalar tag value => elementRecord tag (named "Scalar" (ofScalar value))
  | .symbol tag value => elementRecord tag (named "Symbol" (ofSymbol value))
  | .collection tag value => elementRecord tag (named "Collection" (ofCollection value))

/-- The quotation of a collection. -/
def ofCollection : Collection → String
  | .ordered kind items =>
    collectionRecord (.ordered kind)
      (named "Ordered" ("[" ++ ", ".intercalate (ofItems items) ++ "]"))
  | .keyed kind entries =>
    collectionRecord (.keyed kind)
      (named "Keyed" ("\x7b" ++ ", ".intercalate (ofEntries entries) ++ "\x7d"))

/-- The quotations of items. -/
def ofItems : List Element → List String
  | [] => []
  | item :: rest => ofElement item :: ofItems rest

/-- The quotations of entries. -/
def ofEntries : List Entry → List String
  | [] => []
  | entry :: rest => ofEntry entry :: ofEntries rest

/-- The quotation of an entry after its storage key. -/
def ofEntry : Entry → String
  | ⟨storageKey, key, value⟩ =>
    exactText storageKey ++ ": " ++
      record "Entry" ("key: " ++ ofElement key ++ ", value: " ++ ofElement value)

end

end Quotation

/-- The quotation of a native value. -/
def Native.quotation : Native → String
  | .element value => Quotation.named "Element" (Quotation.ofElement value)
  | .nil => "Nil"
  | .boolean value => Quotation.named "Bool" (Scalar.booleanText value)
  | .integer value => Quotation.named "Int" (String.ofList (Text.signedDecimal value.toInt))
  | .float value => Quotation.named "Float" (String.ofList value.positional)
  | .character value => Quotation.named "Char" (Quotation.exactCharacter value)
  | .string value => Quotation.named "Str" (Quotation.exactText value)
  | .instant value => Quotation.named "Instant" (String.ofList value.exactText)
  | .uuid value => Quotation.named "Uuid" (String.ofList value.text)

end Edn
