import Edn.Pattern.Automaton
import Edn.Pattern.Reading

/-!
# Engines

An engine reads the patterns that are written for rules.  It refuses some of
them, and gives a reason in its own words.  What becomes of a pattern that is
read finds the first match in a text.

Grammars can be built with any engine.  `Engine.automata` is the one with
which the grammar of the notation is built: it reads patterns as
`Pattern.read?` does, and follows them by automata.  Of the syntax that
engines of this kind know it has characters, `.`, escapes, the classes of
digits, of words and of blanks, bracketed classes, groups, alternatives,
repetitions, the assertions at the ends of a text and of a word, and the flag
`s`.  It refuses the other flags (`i`, `m`, `R`, `U`, `u` and `x`) and the
classes of Unicode (`\p` and `\P`).
-/

namespace Edn

/-- A match: where it starts in a text, and where it ends. -/
structure Match where
  start : Nat
  stop : Nat
deriving DecidableEq, Repr

/-- Finds the first match in a text. -/
structure Matcher where
  find? : List Char → Option Match
  within : ∀ text, ∀ found ∈ find? text, found.start ≤ found.stop ∧ found.stop ≤ text.length

namespace Matcher

/-- The end of the first match in a text, wherever it starts. -/
def matchEnd? (m : Matcher) (text : List Char) : Option Nat :=
  (m.find? text).map Match.stop

/-- A match in the empty text ends where it starts. -/
theorem eq_zero_of_matchEnd?_nil (m : Matcher) : ∀ length ∈ m.matchEnd? [], length = 0 := by
  intro length h
  obtain ⟨found, hfound, rfl⟩ := Option.map_eq_some_iff.1 h
  exact Nat.le_zero.1 (m.within [] found hfound).2

/-- The matcher of a pattern, whose automaton is built once.  A pattern that asserts the start of the
text is tried there only. -/
def ofPattern (pattern : Pattern) : Matcher :=
  let automaton := pattern.automaton
  ⟨fun text =>
    if pattern.isAnchored then (automaton.matchLength? none text).map (⟨0, ·⟩)
    else (automaton.search none 0 text).map fun (start, stop) => ⟨start, stop⟩, by
    intro text found h
    dsimp only at h
    split at h
    · obtain ⟨length, hlength, rfl⟩ := Option.map_eq_some_iff.1 h
      exact ⟨Nat.zero_le _, Automaton.matchLength?_le _ _ _ length hlength⟩
    · obtain ⟨place, hplace, rfl⟩ := Option.map_eq_some_iff.1 h
      have := Automaton.search_within _ _ _ _ place hplace
      rwa [Nat.zero_add] at this⟩

/-- A pattern that asserts the start of the text is followed from there. -/
theorem matchEnd?_ofPattern {pattern : Pattern} (h : pattern.isAnchored = true) (text : List Char) :
    (ofPattern pattern).matchEnd? text = pattern.automaton.matchLength? none text := by
  rw [matchEnd?, ofPattern]
  dsimp only
  rw [if_pos h, Option.map_map]
  exact Option.map_id'

end Matcher

/-- Reads written patterns, or says why it refuses them. -/
structure Engine where
  read : String → Except String Matcher

/-- The engine that follows patterns by automata.  It has one reason for all that it refuses. -/
def Engine.automata : Engine :=
  ⟨fun written =>
    match Pattern.read? written with
    | some pattern => .ok (.ofPattern pattern)
    | none => .error "malformed pattern"⟩

end Edn
