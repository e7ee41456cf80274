import Edn.Decimal.Reading
import Edn.Grammar
import Edn.Pair

/-!
# The grammar of the notation

The literals and the collections that every reader knows.  The patterns take
every text that is shaped like a literal; the functions behind them refuse
those that stand for nothing.

A string after the tag `inst` is an instant, and after the tag `uuid` a UUID.
Any other tag is attached to the value as it is.
-/

namespace Edn.Grammar

/-- A value with the tag that stands in front of it, if there is one. -/
def tagged (value : Element) (tag : String) : Except Error Element :=
  if tag.isEmpty then .ok value else value.withTag tag

/-- A text without a given last character. -/
def dropLastIf (c : Char) (text : List Char) : List Char :=
  if text.getLast? = some c then text.dropLast else text

/-- Reads an integer, which may end in `N`. -/
def readInteger (token : String) : Except Error Int64 :=
  match Text.readInt64 (dropLastIf 'N' token.toList) with
  | .ok value => .ok value
  | .error fault => .error (.unplaced ("invalid integer '" ++ token ++ "': " ++ fault.message))

/-- Reads a float, which may end in `M`. -/
def readFloat (token : String) : Except Error Decimal.Double :=
  match Decimal.readDouble (dropLastIf 'M' token.toList) with
  | .ok value => .ok value
  | .error fault => .error (.unplaced ("invalid float '" ++ token ++ "': " ++ fault.message))

/-- Reads a character after its backslash. -/
def readCharacter (body : List Char) : Except Error Char :=
  match Text.readCharacter body with
  | .ok value => .ok value
  | .error fault => .error (.unplaced fault.message)

/-- Reads the text between quotes. -/
def readText (body : List Char) : Except Error String :=
  match Text.unescape body with
  | .ok value => .ok (String.ofList value)
  | .error fault => .error (.unplaced fault.message)

/-- Reads an instant. -/
def readInstant (body : List Char) : Except Error Instant :=
  match Instant.read body with
  | .ok value => .ok value
  | .error fault =>
    .error (.unread (fault.details.after ("invalid instant \"" ++ String.ofList body ++ "\": ")))

/-- Reads a UUID. -/
def readUuid (body : List Char) : Except Error Uuid :=
  match Uuid.read? body with
  | some value => .ok value
  | none =>
    .error (.unread ⟨"invalid uuid \"" ++ String.ofList body ++ "\": ", some (.uuid body)⟩)

/-- The text between the quotes of a literal. -/
def unquoted? (token : List Char) : Option (List Char) :=
  match token with
  | '"' :: rest => if rest.getLast? = some '"' then some rest.dropLast else none
  | _ => none

/-- Reads a literal in quotes, as its tag says. -/
def readQuoted (tag token : String) : Except Error Element :=
  match unquoted? token.toList with
  | none => .error (.unplaced ("malformed string literal: " ++ token))
  | some body =>
    if tag = Element.instantTag then (readInstant body).map Element.instant
    else if tag = Element.uuidTag then (readUuid body).map Element.uuid
    else do tagged (.string (← readText body)) tag

/-- The text after the backslash that a character starts with. -/
def afterBackslash (token : List Char) : List Char :=
  match token with
  | '\\' :: body => body
  | body => body

/-- Integers: an optional sign, no leading zeros, and an optional `N`. -/
def integerPattern : String :=
  "[-+]?(?:0|[1-9][0-9]*)N?"

/-- Floats: an integer with an optional fraction, exponent and `M`. -/
def floatPattern : String :=
  "[-+]?(?:0|[1-9][0-9]*)(?:\\.[0-9]*)?(?:[eE][-+]?[0-9]+)?M?"

/-- Characters: a name, a code point, or any visible character after a backslash. -/
def characterPattern : String :=
  "\\\\(?:newline|return|space|tab|u[0-9A-Fa-f]\x7b4\x7d|\\S)"

/-- Texts that are shaped like symbols. -/
def symbolPattern : String :=
  "[-+*!?$%&=<>_.a-zA-Z/][-+*!?$%&=<>_.:#/a-zA-Z0-9]*"

/-- Texts that are shaped like keywords. -/
def keywordPattern : String :=
  ":[-+*!?$%&=<>_.:#/a-zA-Z0-9]*"

/-- Texts in quotes, in which a backslash takes the next character along. -/
def stringPattern : String :=
  "(?s)\"(?:[^\"\\\\]|\\\\.)*\""

/-- The literals of the notation. -/
def standardLiterals : List (Priority × String × (String → String → Except Error Element)) :=
  [(.literal, "nil", fun tag _ => tagged .nil tag),
   (.literal, "true", fun tag _ => tagged (.boolean true) tag),
   (.literal, "false", fun tag _ => tagged (.boolean false) tag),
   (.integer, integerPattern, fun tag token => do tagged (.integer (← readInteger token)) tag),
   (.float, floatPattern, fun tag token => do tagged (.float (← readFloat token)) tag),
   (.character, characterPattern, fun tag token => do
      tagged (.character (← readCharacter (afterBackslash token.toList))) tag),
   (.symbol, symbolPattern, fun tag token => do tagged (← Element.readSymbol token) tag),
   (.symbol, keywordPattern, fun tag token => do tagged (← Element.readKeyword token) tag),
   (.string, stringPattern, readQuoted)]

/-- The collections of the notation. -/
def standardDelimiters : List (CollectionKind × (String → List Element → Except Error Element)) :=
  [(.ordered .list, fun tag children => tagged (.list children) tag),
   (.ordered .vector, fun tag children => tagged (.vector children) tag),
   (.keyed .map, fun tag children => do tagged (← Element.map (← Pair.ofFlat children)) tag),
   (.keyed .set, fun tag children => do tagged (← Element.set children) tag)]

/-- A grammar with the literals of the notation added. -/
def addStandardLiterals (g : Grammar) (engine : Engine) : Except Error Grammar :=
  standardLiterals.foldlM (fun g (priority, written, process) =>
    g.addPattern engine priority written process) g

/-- A grammar with the collections of the notation added. -/
def addStandardDelimiters (g : Grammar) : Except Error Grammar :=
  standardDelimiters.foldlM (fun g (kind, process) =>
    g.addDelimiters (String.ofList kind.opener) (String.ofList kind.closer) process) g

/-- The rules of the notation, added to the empty grammar one by one. -/
def addStandard (engine : Engine) : Except Error Grammar := do
  addStandardDelimiters (← empty.addStandardLiterals engine)

/-- The grammar of the notation. -/
def standard : Grammar :=
  match addStandard .automata with
  | .ok grammar => grammar
  | .error _ => empty

end Edn.Grammar
