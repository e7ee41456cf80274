import Edn.Proofs.Reading.Progress

/-!
# String literals

What is written between quotes is one token, whatever stands behind it.

* `nextToken_quoted`: a body that the expression of strings reads up to its end
  is the next token between quotes, and its value is what the body stands for.
* `quote_append_inj`: no text between quotes is the start of another one.
* `string_literals` is the result for the texts that `Text.quote` writes.
-/

namespace Edn

open Grammar (byteLength standard stringMachine stringRule)

section Literals

variable {limits : Limits} {k : Cursor} {rest : List Char}

/-- A body that is read up to its end is the next token between quotes, with the string that it
stands for as the value. -/
theorem nextToken_quoted {body : List Char} {value : String}
    (hk : k.rest = '"' :: body ++ ['"'] ++ rest)
    (hbody : stringMachine.after? .inside body = some .inside)
    (hvalue : Grammar.readText body = .ok value) :
    let next := k.advance ('"' :: body ++ ['"']).length
    nextToken standard limits k = .ok ⟨.value (.string value), next.spanFrom k.mark⟩ next := by
  intro next
  have hprocess : stringRule.process "" (String.ofList ('"' :: body ++ ['"'])) =
      .ok (.string value) := by
    rw [stringRule_process, readQuoted_quoted, if_neg (by decide), if_neg (by decide), hvalue]
    rfl
  obtain ⟨hstart, hread⟩ := readsValue_literal hk (Grammar.longestMatch?_quoted hbody) hprocess
  exact nextToken_of_readsValue hstart hread

/-- No text between quotes is the start of another one. -/
theorem quote_append_inj {text text' rest' : List Char}
    (h : Text.quote text ++ rest = Text.quote text' ++ rest') : text = text' ∧ rest = rest' := by
  -- both are what the rule of strings matches at the start of the same text
  have hmatch : some (stringRule, (Text.quote text).length) =
      some (stringRule, (Text.quote text').length) := by
    rw [← @longestMatch?_quote rest text, h, longestMatch?_quote]
  have hlength := (Prod.mk.inj (Option.some.inj hmatch)).2
  obtain ⟨hquote, hrest⟩ := List.append_inj h hlength
  exact ⟨Text.quote_injective hquote, hrest⟩

end Literals

/-- **String literals end at their own quote and lose nothing.**  Under all limits, the token where
a string is written between quotes is the string without a tag, and the cursor behind it has the
text behind the literal ahead and has moved over the bytes of the literal.  What stands between the
quotes stands for the string.  A body that stands for a text, in whichever way it is written, can be
replaced by what is written for that text. -/
theorem string_literals (limits : Limits) :
    (∀ (value : String) (rest : List Char) (position line column : Nat),
      let k : Cursor := ⟨Text.quote value.toList ++ rest, position, line, column⟩
      ∃ next, nextToken .standard limits k =
          .ok ⟨.value (.string value), next.spanFrom k.mark⟩ next ∧
        next.rest = rest ∧
        next.position = position + byteLength (Text.quote value.toList)) ∧
    (∀ value : List Char,
      (Grammar.unquoted? (Text.quote value)).map Text.unescape = some (.ok value)) ∧
    (∀ body value, Text.unescape body = .ok value →
      (Grammar.unquoted? (Text.quote value)).map Text.unescape = some (Text.unescape body)) := by
  have hinside : ∀ value,
      (Grammar.unquoted? (Text.quote value)).map Text.unescape = some (.ok value) := by
    intro value
    rw [Text.quote, unquoted?_quoted, Option.map_some, Text.unescape_escapeAll]
  refine ⟨fun value rest position line column => ?_, hinside, fun body value h => ?_⟩
  · intro k
    have hk : k.rest = Text.quote value.toList ++ rest := rfl
    refine ⟨k.advance (Text.quote value.toList).length, ?_, Cursor.rest_advance_of_eq hk,
      Cursor.position_advance hk⟩
    exact nextToken_quoted hk (Grammar.after?_escapeAll value.toList) (readText_escapeAll value)
  · rw [h]
    exact hinside value

/-- A body that names a quote by its code point: `string_literals` gives the literal with a
backslash in front of the quote. -/
theorem string_literals_quote :
    Text.unescape "\\u0022".toList = .ok ['"'] ∧
      (Grammar.unquoted? (Text.quote ['"'])).map Text.unescape =
        some (Text.unescape "\\u0022".toList) :=
  have hbody : Text.unescape "\\u0022".toList = .ok ['"'] := by rfl
  ⟨hbody, (string_literals .standard).2.2 _ _ hbody⟩

end Edn
