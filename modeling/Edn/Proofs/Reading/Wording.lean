import Edn.Proofs.Grammar.Decoding
import Edn.Proofs.Reading.Blame

/-!
# What readers never say

The decoders of the notation have words for texts that are not shaped like
their tokens.  But they get nothing but tokens, and so nobody ever reads these
words.

* `Error.BlamesShape` are the errors that are worded in this way.
* `failsWith_literal`: no rule of the notation gives such an error for a token
  of its own, whatever grammar it is part of and whatever the tag is.
* `Reader.Refuses.not_blamesShape`: no text is refused with such an error.
* `patterns_fit_decoders` is the result.
-/

namespace Edn

open Decimal (IsIntegerNumeral)
open Grammar (FitsInt64 standard tagged)
open Text (HasBadEscape IsHexCode IsSurrogate)

/-! ## Blaming the shape of a token -/

/-- What the decoders say of a text that is not shaped like a token of theirs. -/
def shapeFaults : List String :=
  ["malformed string literal", "escape character at end of string", "invalid character literal",
    "invalid float"]

/-- A fault of syntax that starts with these words. -/
def Cause.BlamesShape : Cause → Prop
  | .syntaxFault details _ _ _ => ∃ words ∈ shapeFaults, words.toList <+: details.text.toList
  | _ => False

/-- Some fault of the error blames the shape of a token. -/
def Error.BlamesShape (e : Error) : Prop :=
  ∃ fault ∈ e.faults, fault.cause.BlamesShape

/-- The words are none of those that blame a shape, nor the start of any. -/
def SparesShape (words : String) : Prop :=
  ∀ other ∈ shapeFaults, ¬other.toList <+: words.toList ∧ ¬words.toList <+: other.toList

instance (words : String) : Decidable (SparesShape words) :=
  inferInstanceAs (Decidable (∀ other ∈ shapeFaults, _))

section Words

variable {words details : String} {cause : Cause} {e : Error}

theorem Error.blamesShape_ofCause : (ofCause cause).BlamesShape ↔ cause.BlamesShape := by
  simp [BlamesShape, ofCause, faults]

theorem Error.not_blamesShape_ofCause (h : ¬cause.BlamesShape) : ¬(ofCause cause).BlamesShape :=
  blamesShape_ofCause.not.2 h

/-- Whatever follows the words, they decide. -/
theorem Error.not_blamesShape_unread {details : Details} (hwords : SparesShape words)
    (hdetails : words.toList <+: details.text.toList) : ¬(unread details).BlamesShape := by
  rw [unread, blamesShape_ofCause]
  rintro ⟨other, hother, hprefix⟩
  obtain ⟨hlonger, hshorter⟩ := hwords other hother
  rcases List.prefix_or_prefix_of_prefix hprefix hdetails with h | h
  · exact hlonger h
  · exact hshorter h

theorem Error.not_blamesShape_unread_append (hwords : SparesShape words) (details : String)
    (reason : Option Reason) : ¬(unread ⟨words ++ details, reason⟩).BlamesShape := by
  apply not_blamesShape_unread hwords
  rw [String.toList_append]
  exact List.prefix_append _ _

theorem Error.not_blamesShape_append (hwords : SparesShape words) (details : String) :
    ¬(unplaced (words ++ details)).BlamesShape :=
  not_blamesShape_unread_append hwords details none

/-- A place does not change what is blamed. -/
theorem Error.blamesShape_located (line column : Nat) (sourceLine : String) :
    (e.located line column sourceLine).BlamesShape ↔ e.BlamesShape := by
  cases e with
  | many faults place => rfl
  | one fault =>
    obtain ⟨cause, place⟩ := fault
    cases cause with
    | syntaxFault details before column' sourceLine' =>
      cases before with
      | zero => simp [located, BlamesShape, ofCause, faults, Cause.BlamesShape]
      | succ before => simp [located, BlamesShape, faults, Cause.BlamesShape]
    | _ => simp [located, BlamesShape, faults, Cause.BlamesShape]

end Words

/-! ## Literals -/

section Literals

variable {α : Type} {words : String}

/-- An error that starts with other words. -/
theorem failsWith_unread (hwords : SparesShape words) (details : String) (reason : Option Reason) :
    FailsWith (¬·.BlamesShape) (.error (.unread ⟨words ++ details, reason⟩) : Except Error α) :=
  failsWith_error (Error.not_blamesShape_unread_append hwords details reason)

theorem failsWith_unplaced (hwords : SparesShape words) (details : String) :
    FailsWith (¬·.BlamesShape) (.error (.unplaced (words ++ details)) : Except Error α) :=
  failsWith_unread hwords details none

theorem not_blamesShape_tagged (value : Element) (tag : String) :
    FailsWith (¬·.BlamesShape) (tagged value tag) :=
  failsWith_tagged (fun _ => Error.not_blamesShape_ofCause id) value tag

/-- Every fault of an escape but an unfinished one is told in other words. -/
theorem failsWith_escapeFault {fault : Text.EscapeFault} (h : fault ≠ .unfinished) :
    FailsWith (¬·.BlamesShape) (.error (.unplaced fault.message) : Except Error α) := by
  cases fault with
  | unknown letter => exact failsWith_unplaced (by decide) _
  | codePoint fault => cases fault <;> exact failsWith_unplaced (by decide) _
  | unfinished => exact absurd rfl h

variable {input body : List Char} {length : Nat}

/-- A numeral that is too long for an integer is said to be an invalid integer. -/
theorem failsWith_readInteger (token : String) :
    FailsWith (¬·.BlamesShape) (Grammar.readInteger token) := by
  unfold Grammar.readInteger
  split
  · exact failsWith_ok _
  · rw [String.append_assoc, String.append_assoc]
    exact failsWith_unplaced (by decide) _

/-- A token of a character is at most the code point of a surrogate. -/
theorem failsWith_readCharacter {token : List Char} (h : Grammar.IsCharacterToken token) :
    FailsWith (¬·.BlamesShape) (Grammar.readCharacter (Grammar.afterBackslash token)) := by
  rcases Grammar.readCharacter_token h with ⟨c, hread⟩ | ⟨digits, code, rfl, hcode, hsurrogate⟩
  · rw [Grammar.readCharacter, hread]
    exact failsWith_ok _
  · rw [Grammar.afterBackslash, Grammar.readCharacter, hcode.readCharacter_eq,
      hcode.readCodePoint_of_surrogate hsurrogate]
    exact failsWith_unplaced (by decide) _

/-- What stands between the quotes of a token is finished. -/
theorem failsWith_readText
    (hbody : Grammar.stringMachine.after? .inside body = some .inside) :
    FailsWith (¬·.BlamesShape) (Grammar.readText body) := by
  unfold Grammar.readText
  split
  · exact failsWith_ok _
  · next fault hfault =>
    apply failsWith_escapeFault
    rintro rfl
    exact Grammar.not_hasEscape_nil hbody (Text.hasEscape_nil_of_unfinished hfault)

/-- The token of a string is a string, an instant or a UUID, or is refused in other words. -/
theorem failsWith_readQuoted (hbody : Grammar.stringMachine.after? .inside body = some .inside)
    (tag : String) :
    FailsWith (¬·.BlamesShape) (Grammar.readQuoted tag (String.ofList ('"' :: body ++ ['"']))) := by
  rw [readQuoted_quoted]
  split
  · apply FailsWith.map
    unfold Grammar.readInstant
    split
    · exact failsWith_ok _
    · rw [Details.after, String.append_assoc, String.append_assoc]
      exact failsWith_unread (by decide) _ _
  · split
    · apply FailsWith.map
      unfold Grammar.readUuid
      split
      · exact failsWith_ok _
      · rw [String.append_assoc]
        exact failsWith_unread (by decide) _ _
    · exact (failsWith_readText hbody).bind fun _ => not_blamesShape_tagged _ _

/-- A rule of the notation does not blame the shape of what it takes itself. -/
theorem failsWith_literal {rule : LiteralRule} (hrule : rule ∈ Grammar.literalRules)
    (hmatch : rule.matcher.matchEnd? input = some length) (tag : String) :
    FailsWith (¬·.BlamesShape) (rule.process tag (String.ofList (input.take length))) := by
  rcases Grammar.mem_literalRules_iff.1 hrule with rfl | rfl | rfl | rfl | rfl | rfl | rfl | rfl | rfl
  · exact not_blamesShape_tagged _ _
  · exact not_blamesShape_tagged _ _
  · exact not_blamesShape_tagged _ _
  · exact (failsWith_readInteger _).bind fun _ => not_blamesShape_tagged _ _
  · obtain ⟨body, hbody⟩ := Grammar.exists_floatNumeral hmatch
    obtain ⟨x, hread⟩ := Grammar.exists_readFloat hbody
    show FailsWith _ (Grammar.readFloat _ >>= fun value => tagged (.float value) tag)
    rw [hread]
    exact not_blamesShape_tagged _ _
  · have hread := failsWith_readCharacter (Grammar.isCharacterToken_take hmatch)
    rw [← String.toList_ofList (l := input.take length)] at hread
    exact hread.bind fun _ => not_blamesShape_tagged _ _
  · have hread : FailsWith (¬·.BlamesShape) (Symbol.read (String.ofList (input.take length))) :=
      failsWith_readSymbol (fun _ => Error.not_blamesShape_ofCause id) _
    exact (hread.map _).bind fun _ => not_blamesShape_tagged _ _
  · have hread : FailsWith (¬·.BlamesShape) (Symbol.readKeyword (String.ofList (input.take length))) :=
      failsWith_readKeyword (fun _ => Error.not_blamesShape_ofCause id) _
    exact (hread.map _).bind fun _ => not_blamesShape_tagged _ _
  · obtain ⟨body, htoken, hbody⟩ := Grammar.exists_stringBody hmatch
    rw [htoken]
    exact failsWith_readQuoted hbody tag

end Literals

/-! ## Texts -/

/-- A text that no rule takes is said to be unexpected or unterminated. -/
theorem not_blamesShape_unexpected (rest : List Char) :
    ¬(Error.unplaced (unexpected rest)).BlamesShape := by
  unfold unexpected
  split
  · exact Error.not_blamesShape_unread (by decide) List.prefix_rfl
  · exact Error.not_blamesShape_unread (by decide) List.prefix_rfl
  · exact Error.not_blamesShape_append (by decide) _

/-- In the notation, no fault of a value blames the shape of a token. -/
theorem Faulty.not_blamesShape {maxDepth depth : Nat} {k place : Cursor} {e : Error}
    (h : Faulty .standard maxDepth depth k place e) : ¬e.BlamesShape := by
  induction h with
  | danglingTag | secondTag | gluedTag =>
    rw [String.append_assoc]
    exact Error.not_blamesShape_append (by decide) _
  | mismatched =>
    rw [String.append_assoc, String.append_assoc]
    exact Error.not_blamesShape_append (by decide) _
  | unterminated => exact Error.not_blamesShape_append (by decide) _
  | unknownLiteral => exact not_blamesShape_unexpected _
  | tooDeep => exact Error.not_blamesShape_ofCause id
  | @refusedLiteral depth length k payload tag rule e htag hopen hmatch hprocess =>
    obtain ⟨hrule, hend⟩ := Grammar.literal_of_longestMatch? hmatch
    exact failsWith_literal hrule hend tag e hprocess
  | @refusedCollection depth k inside last tag rule found items e hopens hdepth hitems hclose
      hcloser hprocess =>
    obtain ⟨payload, -, hopen, -⟩ := hopens
    obtain ⟨kind, rfl⟩ := exists_kind_of_opening? hopen
    refine failsWith_collection (p := (¬·.BlamesShape)) ?_ ?_ ?_ kind tag items e hprocess
    all_goals exact fun _ => Error.not_blamesShape_ofCause id
  | inside hopens hdepth hitems hstarts hitem ih => exact ih

/-- No text is refused with an error that blames the shape of a token. -/
theorem Reader.Refuses.not_blamesShape {limits : Limits} {wantsCollection : Bool}
    {text : List Char} {place : Cursor} {e : Error}
    (h : (within limits).Refuses wantsCollection text place e) : ¬e.BlamesShape := by
  cases h with
  | value hread hstarts hfaulty =>
    rw [grammar_within] at hfaulty
    exact hfaulty.not_blamesShape
  | strayCloser | noValue | manyValues | noCollection =>
    exact Error.not_blamesShape_append (by decide) _

/-- The errors of tokens do not blame their shape, wherever reading goes on. -/
theorem not_blamesShape_nextToken {limits : Limits} {k next : Cursor} {m : Misread}
    (h : nextToken standard limits k = .error m next) : ¬m.error.BlamesShape := by
  obtain ⟨-, place, -, hfaulty⟩ := faulty_of_nextToken h
  exact hfaulty.not_blamesShape

/-- The errors of texts do not blame the shape of a token. -/
theorem not_blamesShape_parse {limits : Limits} {wantsCollection : Bool} {source : String}
    {e : Error} (h : (if wantsCollection then (Reader.within limits).parseCollection source
      else (Reader.within limits).parse source) = .error e) : ¬e.BlamesShape := by
  rcases Reader.eq_error_of_parse h with hread | ⟨rfl, value, span, hread, hvalue, rfl⟩
  · rcases Reader.readWithin_eq_error hread with ⟨limit, actual, rfl⟩ | ⟨m, hone, rfl⟩
    · exact Error.not_blamesShape_ofCause id
    · obtain ⟨place, -, hrefuses⟩ := @Reader.refuses_of_readOne _ false _ _ hone
      rw [Misread.located, Error.blamesShape_located]
      exact hrefuses.not_blamesShape
  · obtain ⟨place, -, hrefuses⟩ := Reader.refuses_of_scalar (Reader.readOne_of_readWithin hread) hvalue
    rw [Misread.located, Error.blamesShape_located]
    exact hrefuses.not_blamesShape

/-! ## The result -/

/-- **Patterns and decoders fit.**  Where a rule of the notation is selected, its decoder reads the token
without a tag like this: an integer as its value, or not if 64 bits do not hold it; a float always; a
character unless it is written as a surrogate; and a string unless a backslash between its quotes starts
no escape.  So no rule of the notation blames the shape of a token that it takes, with any tag and as a
part of any grammar, and no error of a token or of a text does. -/
theorem patterns_fit_decoders :
    (∀ (input : List Char) (rule : LiteralRule) (length : Nat),
      standard.longestMatch? input = some (rule, length) →
        let token := input.take length
        let result := rule.process "" (String.ofList token)
        (rule.priority = .integer → ∃ value, IsIntegerNumeral token value ∧
          (FitsInt64 value → ∃ x : Int64, x.toInt = value ∧ result = .ok (.integer x)) ∧
          (Fails result ↔ ¬FitsInt64 value)) ∧
        (rule.priority = .float → ∃ x, result = .ok (.float x)) ∧
        (rule.priority = .character → (Fails result ↔ ∃ digits code,
          token = '\\' :: 'u' :: digits ∧ IsHexCode digits code ∧ IsSurrogate code)) ∧
        (rule.priority = .string → ∃ body, token = '"' :: body ++ ['"'] ∧
          (Fails result ↔ HasBadEscape body))) ∧
    (∀ (g : Grammar) (input : List Char) (rule : LiteralRule) (length : Nat),
      g.longestMatch? input = some (rule, length) → rule ∈ standard.literals → ∀ tag error,
        rule.process tag (String.ofList (input.take length)) = .error error →
          ¬error.BlamesShape) ∧
    (∀ (limits : Limits) (k next : Cursor) (m : Misread) (source : List Char),
      nextToken standard limits k = .error m next → ¬(m.located source).BlamesShape) ∧
    ∀ (limits : Limits) (source : String) (wantsCollection : Bool) (e : Error),
      (if wantsCollection then (Reader.within limits).parseCollection source
        else (Reader.within limits).parse source) = .error e → ¬e.BlamesShape := by
  refine ⟨fun input rule length hmatch => ?_, fun g input rule length hmatch hrule tag => ?_,
    fun limits k next m source h => ?_, fun limits source wantsCollection e h => ?_⟩
  · intro token result
    obtain ⟨hrule, hend⟩ := Grammar.literal_of_longestMatch? hmatch
    obtain ⟨hinteger, hfloat, hcharacter, hstring⟩ := Grammar.eq_of_priority hrule
    refine ⟨fun hpriority => ?_, fun hpriority => ?_, fun hpriority => ?_, fun hpriority => ?_⟩
    · obtain rfl := hinteger hpriority
      exact Grammar.process_integer hend
    · obtain rfl := hfloat hpriority
      exact Grammar.process_float hend
    · obtain rfl := hcharacter hpriority
      exact Grammar.process_character hend
    · obtain rfl := hstring hpriority
      exact Grammar.process_string hend
  · rw [Grammar.standard_eq] at hrule
    exact failsWith_literal hrule (Grammar.matchEnd?_of_longestMatch? hmatch) tag
  · rw [Misread.located, Error.blamesShape_located]
    exact not_blamesShape_nextToken h
  · exact not_blamesShape_parse h

/-- A surrogate whose digits are followed by another escape: `patterns_fit_decoders` says that the string
is refused, and that neither its rule, nor its token, nor the text blames the shape of it. -/
theorem patterns_fit_decoders_surrogate :
    let body := ['\\', 'u', 'd', '8', '0', '0', '\\', 'n']
    let token := '"' :: body ++ ['"']
    standard.longestMatch? (token ++ [')']) = some (Grammar.stringRule, token.length) ∧
      HasBadEscape body ∧
      (∃ e, Grammar.stringRule.process "" (String.ofList token) = .error e ∧ ¬e.BlamesShape) ∧
      (∃ m next, nextToken standard .strict (.start token) = .error m next ∧
        ¬(m.located token).BlamesShape) ∧
      ∃ e, (Reader.within .strict).parse (String.ofList token) = .error e ∧ ¬e.BlamesShape := by
  intro body token
  have hbody : Grammar.stringMachine.after? .inside body = some .inside := by decide
  have hmatch : standard.longestMatch? (token ++ [')']) = some (Grammar.stringRule, token.length) :=
    Grammar.longestMatch?_quoted hbody
  obtain ⟨hread, hrule, htoken, htext⟩ := patterns_fit_decoders
  -- the digits are a code point, but there is no character for it
  have hcode : IsHexCode ['d', '8', '0', '0'] 0xd800 := ⟨rfl, by decide⟩
  have hbad : HasBadEscape body := by
    apply Text.hasBadEscape_of_not_startsEscape
    show ¬Text.StartsEscape ('u' :: (['d', '8', '0', '0'] ++ ['\\', 'n']))
    rw [Text.startsEscape_codePoint_iff rfl, hcode.exists_readCodePoint_iff]
    exact not_not_intro ⟨by decide, by decide⟩
  refine ⟨hmatch, hbad, ?_, ?_, ?_⟩
  · obtain ⟨-, -, -, hstring⟩ := hread _ _ _ hmatch
    obtain ⟨other, hother, hfails⟩ := hstring rfl
    have hbody : other = body := by
      rw [List.take_left] at hother
      exact (List.append_inj_left' (List.cons.inj hother).2 rfl).symm
    obtain ⟨e, he⟩ := hfails.2 (hbody ▸ hbad)
    have hliteral : Grammar.stringRule ∈ standard.literals := by
      simp [Grammar.standard_eq, Grammar.literalRules]
    have hspared := hrule standard _ _ _ hmatch hliteral _ _ he
    rw [List.take_left] at he
    exact ⟨e, he, hspared⟩
  · have hrefused : (nextToken standard .strict (.start token)).result.toBool = false := by
      decide +kernel
    cases hnext : nextToken standard .strict (.start token) with
    | mk result next =>
      cases result with
      | ok token => simp [hnext, Except.toBool] at hrefused
      | error m => exact ⟨m, next, rfl, htoken _ _ next m token hnext⟩
  · have hrefused : ((Reader.within .strict).parse (String.ofList token)).toBool = false := by
      decide +kernel
    cases hparse : (Reader.within .strict).parse (String.ofList token) with
    | ok value => simp [hparse, Except.toBool] at hrefused
    | error e => exact ⟨e, rfl, htext .strict _ false e hparse⟩

end Edn
