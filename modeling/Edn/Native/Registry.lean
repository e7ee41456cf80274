import Edn.Native.Quotation

/-!
# Factories

A factory builds an element from a native value.  A registry holds at most
one factory for each type; `TypeRegistry.standard` has one for every type of
scalars and for keywords.  `TypeRegistry.newElement` classifies a native value
and runs the factory of its type.  Elements pass through unchanged.

The program has one registry for all its threads, which changes as factories
are added.  Here a registry is a value: `TypeRegistry.register` gives the next
one, and what looks for a factory is given the registry.
-/

namespace Edn

/-- Builds an element from a native value. -/
abbrev Factory : Type :=
  Native → Except Error Element

namespace Factory

/-- The error of a factory that gets a value of another type. -/
def mismatch (type : ValueType) (value : Native) : Error :=
  .invalidInput (type.name ++ " factory cannot build from " ++ value.quotation)

/-- Builds nil from nil. -/
def nil : Factory
  | .nil => .ok .nil
  | value => .error (mismatch .nil value)

/-- Builds a boolean from a boolean. -/
def boolean : Factory
  | .boolean value => .ok (.boolean value)
  | value => .error (mismatch .boolean value)

/-- Builds a string from a string. -/
def string : Factory
  | .string value => .ok (.string value)
  | value => .error (mismatch .string value)

/-- Builds a character from a character. -/
def character : Factory
  | .character value => .ok (.character value)
  | value => .error (mismatch .character value)

/-- Builds a keyword from its text. -/
def keyword : Factory
  | .string value => Element.readKeyword value
  | value => .error (mismatch .keyword value)

/-- Builds an integer from an integer. -/
def integer : Factory
  | .integer value => .ok (.integer value)
  | value => .error (mismatch .integer value)

/-- Builds a float from a float. -/
def float : Factory
  | .float value => .ok (.float value)
  | value => .error (mismatch .float value)

/-- Builds an instant from an instant. -/
def instant : Factory
  | .instant value => .ok (.instant value)
  | value => .error (mismatch .instant value)

/-- Builds a UUID from a UUID. -/
def uuid : Factory
  | .uuid value => .ok (.uuid value)
  | value => .error (mismatch .uuid value)

end Factory

/-- At most one factory for each type. -/
structure TypeRegistry where
  factories : List (ValueType × Factory)

namespace TypeRegistry

/-- The registry without factories. -/
def empty : TypeRegistry :=
  ⟨[]⟩

/-- The registry with a factory for every type of scalars and for keywords. -/
def standard : TypeRegistry :=
  ⟨[(.nil, .nil), (.boolean, .boolean), (.string, .string), (.character, .character),
    (.keyword, .keyword), (.integer, .integer), (.float, .float), (.instant, .instant),
    (.uuid, .uuid)]⟩

/-- The factory of a type. -/
def factory? (r : TypeRegistry) (type : ValueType) : Option Factory :=
  r.factories.lookup type

/-- Tells whether a type has a factory. -/
def contains (r : TypeRegistry) (type : ValueType) : Bool :=
  (r.factory? type).isSome

/-- Adds a factory for a type that has none. -/
def register (r : TypeRegistry) (type : ValueType) (factory : Factory) :
    Except Error TypeRegistry :=
  if r.contains type then
    .error (.invalidFactory ("factory for " ++ type.name ++ " already registered"))
  else .ok ⟨(type, factory) :: r.factories⟩

/-- Builds an element from a native value that is no element. -/
def build (r : TypeRegistry) (value : Native) : Except Error Element := do
  let (value, type) ← value.stereotype
  match r.factory? type with
  | some factory => factory value
  | none => .error (.invalidElement ("no factory for " ++ type.name))

/-- Builds an element from a native value. -/
def newElement (r : TypeRegistry) (value : Native) : Except Error Element :=
  match value with
  | .element e => .ok e
  | value => r.build value

end TypeRegistry

/-- Builds an element from a native value with the standard factories.  Factories that are added to
them later are for other types than those of native values. -/
def Element.ofNative (value : Native) : Except Error Element :=
  TypeRegistry.standard.newElement value

namespace Collection

/-- Builds the children of a collection from native values, in order, from the child numbered
`index` on. -/
def nativeChildren (kind : CollectionKind) (index : Nat) :
    List (Option Native) → Except Error (List Element)
  | [] => .ok []
  | none :: _ => .error (.invalidElement (kind.type.name ++ s!" child {index} is absent"))
  | some value :: rest => do
    let child ← Element.ofNative value
    return child :: (← nativeChildren kind (index + 1) rest)

/-- The collection of a kind whose children are built from native values. -/
def ofNatives (kind : CollectionKind) (children : List (Option Native)) :
    Except Error Collection := do
  ofElements kind (← nativeChildren kind 0 children)

end Collection

/-- The pair whose parts are built from native values; both have to be there. -/
def Pair.ofNatives (key value : Option Native) : Except Error Pair :=
  match key, value with
  | some key, some value => do
    let key ← Element.ofNative key
    let value ← Element.ofNative value
    return ⟨key, value⟩
  | _, _ => .error (.invalidPair "key and value are both required")

end Edn
