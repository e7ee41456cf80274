import Edn.Proofs.Grammar.Additions
import Edn.Proofs.Pattern.Grouping

/-!
# Patterns that stand alone

A grammar puts the pattern of a rule in a group behind the assertion of the
start of a text, and takes what lies in front of the end of the first match.
This is the match at the start of the text only if the pattern stays in its
group.  A pattern that is refused on its own may be accepted there, because it
ends the group.

* `Engine.Anchors` says what can be expected of an engine: a pattern that it
  reads on its own is found at the start of a text only.
  `Engine.anchors_automata`: so it is for the engine of the notation.
* `Addition.literal?` is the rule that a call brings, and
  `Addition.standsAlone` says of a call that its pattern is refused, or is read
  on its own, too.
* `matchEnd?_eq_matchAtStart?`: the rule of such a call takes the match at the
  start of a text.
-/

namespace Edn

/-! ## Matches at the start -/

namespace Matcher

/-- The end of the match at the start of a text.  There is none if the first match starts behind. -/
def matchAtStart? (m : Matcher) (text : List Char) : Option Nat :=
  ((m.find? text).filter fun found => found.start = 0).map Match.stop

theorem matchEnd?_eq_matchAtStart? {m : Matcher} {text : List Char}
    (h : ∀ found ∈ m.find? text, found.start = 0) : m.matchEnd? text = m.matchAtStart? text := by
  rw [matchEnd?, matchAtStart?]
  cases hfound : m.find? text with
  | none => rfl
  | some found =>
    have hstart := h found hfound
    rw [Option.filter_some, decide_eq_true hstart, if_pos rfl]

/-- A pattern that asserts the start of the text is found there only. -/
theorem start_eq_zero_of_isAnchored {pattern : Pattern} (h : pattern.isAnchored = true)
    (text : List Char) : ∀ found ∈ (ofPattern pattern).find? text, found.start = 0 := by
  intro found hfound
  rw [ofPattern] at hfound
  dsimp only at hfound
  rw [if_pos h] at hfound
  obtain ⟨length, -, rfl⟩ := Option.map_eq_some_iff.1 hfound
  rfl

end Matcher

/-! ## Engines -/

namespace Engine

/-- A pattern that is read on its own, and also in a group behind the assertion of the start, is found
there at the start of a text only. -/
def Anchors (engine : Engine) : Prop :=
  ∀ written alone matcher, engine.read written = .ok alone →
    engine.read (Grammar.atStart written) = .ok matcher →
      ∀ text, ∀ found ∈ matcher.find? text, found.start = 0

theorem read_automata_eq_ok_iff {written : String} {matcher : Matcher} :
    automata.read written = .ok matcher ↔
      ∃ pattern, Pattern.read? written = some pattern ∧ .ofPattern pattern = matcher := by
  cases hread : Pattern.read? written with
  | none => simp [automata, hread]
  | some pattern => simp [automata, hread]

theorem anchors_automata : automata.Anchors := by
  intro written alone matcher halone hread text
  obtain ⟨inner, hinner, -⟩ := read_automata_eq_ok_iff.1 halone
  obtain ⟨pattern, hpattern, rfl⟩ := read_automata_eq_ok_iff.1 hread
  exact Matcher.start_eq_zero_of_isAnchored (Pattern.isAnchored_of_read? hinner hpattern) text

end Engine

theorem Grammar.readPattern_eq_ok_iff {engine : Engine} {written : String} {matcher : Matcher} :
    readPattern engine written = .ok matcher ↔ engine.read (atStart written) = .ok matcher := by
  unfold readPattern
  split <;> (next hread => simp [hread])

/-! ## Calls -/

namespace Addition

/-- The literal rule that a call brings; none if its pattern is refused. -/
def literal? (engine : Engine) : Addition → Option LiteralRule
  | literal priority written process =>
    match Grammar.readPattern engine written with
    | .ok matcher => some ⟨priority, written, matcher, process⟩
    | .error _ => none
  | delimiters _ _ _ => none

/-- Tells whether a pattern is refused or is read on its own, outside of a group, too. -/
def standsAlone (engine : Engine) (call : Addition) : Bool :=
  (call.literal? engine).all fun rule => (engine.read rule.written).isOk

variable {engine : Engine} {call : Addition} {rule : LiteralRule}

theorem read_of_literal? (h : call.literal? engine = some rule) :
    engine.read (Grammar.atStart rule.written) = .ok rule.matcher := by
  cases call with
  | delimiters opener closer process => cases h
  | literal priority written process =>
    rw [literal?] at h
    split at h
    · next hread =>
      cases h
      exact Grammar.readPattern_eq_ok_iff.1 hread
    · cases h

/-- The rule of a call whose pattern stands alone is found at the start of a text only. -/
theorem start_eq_zero_of_standsAlone (law : engine.Anchors)
    (halone : call.standsAlone engine = true) (hrule : call.literal? engine = some rule)
    (text : List Char) : ∀ found ∈ rule.matcher.find? text, found.start = 0 := by
  rw [standsAlone, hrule, Option.all_some] at halone
  cases hread : engine.read rule.written with
  | error reason =>
    rw [hread] at halone
    cases halone
  | ok alone => exact law _ alone _ hread (read_of_literal? hrule) text

end Addition

end Edn
