import Edn.Text.CodePoint

/-!
# Characters

A character is written after a backslash: four of them by name, visible
ASCII characters and those beyond `FFFF` as themselves, all others by code
point.  `readCharacter` takes any single character as itself.
-/

namespace Edn.Text

/-- The characters that have a name. -/
def namedCharacters : List (Char × String) :=
  [('\r', "return"), ('\n', "newline"), (' ', "space"), ('\t', "tab")]

/-- The name of a character. -/
def characterName? (c : Char) : Option String :=
  namedCharacters.lookup c

/-- The character with a given name. -/
def namedCharacter? (name : List Char) : Option Char :=
  (namedCharacters.find? fun entry => entry.2.toList == name).map Prod.fst

/-- A character after its backslash. -/
def characterBody (c : Char) : List Char :=
  match characterName? c with
  | some name => name.toList
  | none => if isGraphic c || decide (0xffff < c.toNat) then [c] else codePoint c

/-- A character with its backslash. -/
def character (c : Char) : List Char :=
  '\\' :: characterBody c

/-- The reasons why a text is not a character. -/
inductive CharacterFault where
  | codePoint (fault : CodePointFault)
  | unknown (body : List Char)
deriving DecidableEq, Repr

/-- The wording of a fault. -/
def CharacterFault.message : CharacterFault → String
  | .codePoint fault => fault.message
  | .unknown body => "invalid character literal: \\" ++ String.ofList body

/-- Reads the text after the backslash: a name, a single character, or a code point. -/
def readCharacter (body : List Char) : Except CharacterFault Char :=
  match namedCharacter? body with
  | some c => .ok c
  | none =>
    match body with
    | [c] => .ok c
    | 'u' :: digits =>
      match readCodePoint digits with
      | .ok c => .ok c
      | .error fault => .error (.codePoint fault)
    | _ => .error (.unknown body)

end Edn.Text
