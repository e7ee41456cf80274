import Edn.Element.Text
import Edn.Reading.Span

/-!
# Tokens

The pieces of a text.  A value is one token, a whole collection too; a
closing delimiter is a token only where no collection is open.
-/

namespace Edn

/-- What a token is. -/
inductive TokenKind where
  | value (element : Element)
  | close (closer : List Char)
  | comment (text : List Char)
  | endOfInput

namespace TokenKind

/-- The name of a kind of tokens.  A value is named by its type. -/
def name : TokenKind → String
  | value element => element.type.name
  | close closer => "'" ++ String.ofList closer ++ "'"
  | comment _ => "comment"
  | endOfInput => "end of input"

/-- Tells whether a kind ends a text. -/
def isEnd : TokenKind → Bool
  | endOfInput => true
  | _ => false

end TokenKind

/-- A piece of a text and its place. -/
structure Token where
  kind : TokenKind
  span : Span

namespace Token

/-- The text of a token. -/
def text (t : Token) (source : List Char) : List Char :=
  t.span.text source

/-- Tells whether a token is a value. -/
def isValue (t : Token) : Bool :=
  match t.kind with
  | .value _ => true
  | _ => false

/-- Tells whether a token has no meaning: comments have none. -/
def isTrivia (t : Token) : Bool :=
  match t.kind with
  | .comment _ => true
  | _ => false

end Token

end Edn
