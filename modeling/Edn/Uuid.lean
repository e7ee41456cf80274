import Edn.Text.Numeral

/-!
# UUIDs

A UUID is a number of 128 bits.  It is written as 32 lower-case hexadecimal
digits with hyphens after the 8th, 12th, 16th and 20th.  Four spellings are
read: without hyphens, with hyphens, with hyphens after `urn:uuid:`, and with
hyphens inside braces.
-/

namespace Edn

/-- A UUID. -/
structure Uuid where
  value : BitVec 128
deriving DecidableEq, Repr

namespace Uuid

/-- The text of a UUID. -/
def text (u : Uuid) : List Char :=
  let digits := Text.hex 32 u.value.toNat
  let part (start length : Nat) := (digits.drop start).take length
  part 0 8 ++ '-' :: part 8 4 ++ '-' :: part 12 4 ++ '-' :: part 16 4 ++ '-' :: part 20 12

/-- Reads exactly 32 hexadecimal digits. -/
def readDigits? (digits : List Char) : Option Uuid :=
  if digits.length = 32 then (Text.ofHex? digits).map fun n => ⟨BitVec.ofNat 128 n⟩ else none

/-- Reads 32 hexadecimal digits with four hyphens in their places. -/
def readHyphenated? (text : List Char) : Option Uuid :=
  if text.length = 36 ∧ [8, 13, 18, 23].all (fun i => text[i]? == some '-') then
    let part (start length : Nat) := (text.drop start).take length
    readDigits? (part 0 8 ++ part 9 4 ++ part 14 4 ++ part 19 4 ++ part 24 12)
  else none

/-- Reads a UUID in any of its spellings. -/
def read? (text : List Char) : Option Uuid :=
  match text.length with
  | 32 => readDigits? text
  | 36 => readHyphenated? text
  | 38 =>
    if text.head? = some '\x7b' ∧ text.getLast? = some '\x7d' then
      readHyphenated? (text.tail.dropLast)
    else none
  | 45 =>
    if (text.take 9).map Text.lowerLetter = "urn:uuid:".toList then readHyphenated? (text.drop 9)
    else none
  | _ => none

end Uuid

end Edn
