import Edn.Error
import Edn.Symbol.Name

/-!
# Symbols and keywords

A symbol is a name with an optional qualifier, written `qualifier/name`.  A
keyword is a symbol that is written after a colon.  The lone `/` is a symbol
too, but no keyword.

A text that breaks the grammar is refused with the reason as its details, as
an invalid symbol or an invalid keyword.
-/

namespace Edn

/-- The character between a qualifier and a name. -/
def separator : Char :=
  '/'

/-- A symbol, or a keyword.  The qualifier is empty if there is none. -/
structure Symbol where
  qualifier : String
  name : String
  isKeyword : Bool
deriving DecidableEq, Repr

namespace Symbol

/-! ## Parts -/

/-- Checks the two parts of a qualified symbol.  A fault is given as the details of an error. -/
def checkParts (qualifier name : String) : Except String (String × String) :=
  if qualifier.isEmpty then .error ("/" ++ name ++ ": empty prefix")
  else if !Name.isName qualifier.toList then .error (qualifier ++ ": invalid prefix")
  else if !Name.isName name.toList then .error (qualifier ++ "/" ++ name ++ ": invalid name")
  else .ok (qualifier, name)

/-- Splits a text at its first separator and checks both parts.  Without a separator the text is a
name and the qualifier is empty. -/
def splitParts (text : String) : Except String (String × String) :=
  let chars := text.toList
  if chars = [separator] then .ok ("", text)
  else
    match chars.dropWhile (· != separator) with
    | [] => if Name.isName chars then .ok ("", text) else .error text
    | _ :: name =>
      if name.contains separator then .error (text ++ ": more than one namespace separator")
      else checkParts (String.ofList (chars.takeWhile (· != separator))) (String.ofList name)

/-- Puts a qualifier in front of a name, if there is one. -/
def joinParts (qualifier name : String) : String :=
  if qualifier.isEmpty then name else qualifier ++ String.singleton separator ++ name

/-! ## Making symbols -/

/-- The symbol of two parts, or the error of a kind that carries the details. -/
def ofParts (kind : String → Cause) (isKeyword : Bool) :
    Except String (String × String) → Except Error Symbol
  | .ok (qualifier, name) => .ok ⟨qualifier, name, isKeyword⟩
  | .error details => .error (.ofCause (kind details))

/-- Reads a symbol. -/
def read (text : String) : Except Error Symbol :=
  ofParts .invalidSymbol false (splitParts text)

/-- The symbol with a given qualifier and name. -/
def qualified (qualifier name : String) : Except Error Symbol :=
  ofParts .invalidSymbol false (checkParts qualifier name)

/-- A text without the colon that it starts with, if it starts with one. -/
def dropColon (text : String) : String :=
  match text.toList with
  | ':' :: rest => String.ofList rest
  | _ => text

/-- Tells whether a text starts with the separator. -/
def startsWithSeparator (text : String) : Bool :=
  text.toList.head? == some separator

/-- Reads a keyword.  The colon may be left out. -/
def readKeyword (text : String) : Except Error Symbol :=
  let body := dropColon text
  if startsWithSeparator body then .error (.ofCause (.invalidKeyword text))
  else ofParts .invalidKeyword true (splitParts body)

/-- The keyword with a given qualifier and name.  The qualifier may start with a colon. -/
def qualifiedKeyword (qualifier name : String) : Except Error Symbol :=
  let qualifier := dropColon qualifier
  if startsWithSeparator qualifier then
    .error (.ofCause (.invalidKeyword (qualifier ++ "/" ++ name)))
  else ofParts .invalidKeyword true (checkParts qualifier name)

/-! ## Text and order -/

/-- What is written in front of a symbol: a colon if it is a keyword. -/
def marker (s : Symbol) : String :=
  if s.isKeyword then ":" else ""

/-- The text of a symbol. -/
def text (s : Symbol) : String :=
  s.marker ++ joinParts s.qualifier s.name

/-- A name written in the namespace of a symbol, as a keyword if the symbol is one. -/
def sibling (s : Symbol) (name : String) : String :=
  s.marker ++ joinParts s.qualifier name

/-- Symbols are ordered by qualifier, then by name; a symbol is below the keyword of the same
parts. -/
def order (a b : Symbol) : Ordering :=
  (compare a.qualifier b.qualifier).then
    ((compare a.name b.name).then (compare a.isKeyword b.isKeyword))

end Symbol

end Edn
