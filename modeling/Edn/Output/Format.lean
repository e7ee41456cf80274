import Edn.Collection

/-!
# Output formats

A format is a MIME type, optionally followed by a semicolon and options.
Options are separated by commas or semicolons, and each is `name=value` or a
bare name.  The MIME type alone selects a serializer; the serializer keeps
the whole format.

`Element.serialize` looks for the serializer in a registry.  The program has
one registry for all its threads, which starts as
`SerializerRegistry.standard` and changes as serializers are added.  Here a
registry is a value: `SerializerRegistry.register` gives the next one.  To
encode an element that cannot be written stops the program.
-/

namespace Edn

/-- A format: the whole text. -/
structure Format where
  text : String
deriving DecidableEq, Repr

namespace Format

/-- The pieces of a text between the characters that satisfy `isMark`. -/
def pieces (isMark : Char → Bool) : List Char → List (List Char)
  | [] => [[]]
  | c :: rest =>
    if isMark c then [] :: pieces isMark rest
    else
      match pieces isMark rest with
      | [] => [[c]]
      | piece :: others => (c :: piece) :: others

/-- The part before the first semicolon. -/
def mimeType (f : Format) : String :=
  String.ofList (f.text.toList.takeWhile (· != ';'))

/-- The name of an option: the part before the first equals sign. -/
def optionName (option : List Char) : List Char :=
  option.takeWhile (· != '=')

/-- The value of an option: the part after the first equals sign, empty if there is none. -/
def optionValue (option : List Char) : List Char :=
  (option.dropWhile (· != '=')).drop 1

/-- The options of a format, in order. -/
def options (f : Format) : List (List Char) :=
  match f.text.toList.dropWhile (· != ';') with
  | [] => []
  | _ :: rest => pieces (fun c => c == ',' || c == ';') rest

/-- The value of the first option with a given name. -/
def option? (f : Format) (name : String) : Option String :=
  (f.options.find? fun option => optionName option == name.toList).map
    fun option => String.ofList (optionValue option)

/-- The format of the notation itself. -/
def edn : Format :=
  ⟨"application/vnd.eva+edn"⟩

end Format

/-- Encodes elements as text.  A serializer knows the format that it was made for. -/
structure Serializer where
  format : Format
  encode : Element → Except Failure String

namespace Serializer

/-- The serializer of the notation: the canonical text. -/
def canonical (format : Format) : Serializer :=
  ⟨format, fun e =>
    match e.display with
    | some text => .ok text
    | none => .error .stop⟩

end Serializer

/-- At most one way to make a serializer for each MIME type. -/
structure SerializerRegistry where
  makers : List (String × (Format → Serializer))

namespace SerializerRegistry

/-- The registry without serializers. -/
def empty : SerializerRegistry :=
  ⟨[]⟩

/-- The registry with the serializer of the notation. -/
def standard : SerializerRegistry :=
  ⟨[(Format.edn.mimeType, Serializer.canonical)]⟩

/-- Adds a serializer for a MIME type that has none. -/
def register (r : SerializerRegistry) (mimeType : String) (maker : Format → Serializer) :
    Except Error SerializerRegistry :=
  match r.makers.lookup mimeType with
  | some _ => .error (.invalidFactory ("serializer for " ++ mimeType ++ " already registered"))
  | none => .ok ⟨(mimeType, maker) :: r.makers⟩

/-- The serializer for a format.  The MIME type selects it. -/
def get (r : SerializerRegistry) (format : String) : Except Error Serializer :=
  match r.makers.lookup (Format.mimeType ⟨format⟩) with
  | some maker => .ok (maker ⟨format⟩)
  | none => .error (.unknownMimeType format)

end SerializerRegistry

/-- Encodes an element in a format that a registry has a serializer for. -/
def Element.serialize (r : SerializerRegistry) (e : Element) (format : String) :
    Except Failure String :=
  match r.get format with
  | .ok serializer => serializer.encode e
  | .error error => .error (.error error)

end Edn
