import Edn.Element

/-!
# The text of elements

The canonical text of an element: its tag, if it has one, and its payload.
The children of a collection stand between its delimiters; those of a keyed
one in the order of their storage keys.

`Element.storageKey` is the text under which a keyed collection files a key:
the raw text of a string, and the canonical text of everything else.

`Element.display` is what the program writes of an element: nothing, where it
stops at an instant without a local date.  A key that cannot be written stops
it, too, and is never filed.
-/

namespace Edn

/-- A tag as it is written in front of a payload. -/
def tagText (tag : String) : List Char :=
  if tag.isEmpty then [] else '#' :: tag.toList ++ [' ']

/-- Texts with a separator between them. -/
def joinTexts (separator : List Char) : List (List Char) → List Char
  | [] => []
  | [text] => text
  | text :: rest => text ++ separator ++ joinTexts separator rest

mutual

/-- The canonical text of an element. -/
def Element.chars : Element → List Char
  | .scalar tag value => tagText tag ++ value.text
  | .symbol tag value => tagText tag ++ value.text.toList
  | .collection tag value => tagText tag ++ value.chars

/-- The canonical text of a collection. -/
def Collection.chars : Collection → List Char
  | .ordered kind items =>
    let kind := CollectionKind.ordered kind
    kind.opener ++ joinTexts kind.separator (itemTexts items) ++ kind.closer
  | .keyed kind entries =>
    let kind := CollectionKind.keyed kind
    kind.opener ++ joinTexts kind.separator (entryTexts kind.keySeparator? entries) ++ kind.closer

/-- The texts of items. -/
def itemTexts : List Element → List (List Char)
  | [] => []
  | item :: rest => item.chars :: itemTexts rest

/-- The texts of entries: key and value if there is something to write between them, otherwise the
value alone. -/
def entryTexts (keySeparator : Option (List Char)) : List Entry → List (List Char)
  | [] => []
  | entry :: rest => entryText keySeparator entry :: entryTexts keySeparator rest

/-- The text of one entry. -/
def entryText (keySeparator : Option (List Char)) : Entry → List Char
  | ⟨_, key, value⟩ =>
    match keySeparator with
    | some separator => key.chars ++ separator ++ value.chars
    | none => value.chars

end

/-- The canonical text of an element. -/
def Element.text (e : Element) : String :=
  String.ofList e.chars

/-- The canonical text of a collection without a tag. -/
def Collection.text (c : Collection) : String :=
  String.ofList c.chars

mutual

/-- Tells whether the program can write an element. -/
def Element.isWritable : Element → Bool
  | .scalar _ value => value.isWritable
  | .symbol _ _ => true
  | .collection _ value => value.isWritable

/-- Tells whether the program can write a collection. -/
def Collection.isWritable : Collection → Bool
  | .ordered _ items => areItemsWritable items
  | .keyed kind entries => areEntriesWritable (CollectionKind.keyed kind).keySeparator? entries

/-- Tells whether the program can write items. -/
def areItemsWritable : List Element → Bool
  | [] => true
  | item :: rest => item.isWritable && areItemsWritable rest

/-- Tells whether the program can write entries. -/
def areEntriesWritable (keySeparator : Option (List Char)) : List Entry → Bool
  | [] => true
  | entry :: rest => isEntryWritable keySeparator entry && areEntriesWritable keySeparator rest

/-- Tells whether the program can write what is written of one entry. -/
def isEntryWritable (keySeparator : Option (List Char)) : Entry → Bool
  | ⟨_, key, value⟩ => (keySeparator.isNone || key.isWritable) && value.isWritable

end

/-- The canonical text that the program writes; none if it stops instead. -/
def Element.display (e : Element) : Option String :=
  if e.isWritable then some e.text else none

/-- The text under which a keyed collection files an element.  A string and the symbol of the same
letters share it. -/
def Element.storageKey (e : Element) : String :=
  match e.string? with
  | some text => text
  | none => e.text

end Edn
