import Edn.Pattern

/-!
# Automata

An automaton follows all ways of a pattern through a text at once.  Its
states are numbered.  A state takes a character of a set, checks an
assertion, forks into two states of which the first is preferred, or
accepts.

* `Pattern.build` adds the states of a pattern in front of a state that
  follows it.
* `Automaton.closure` lists the states that can be reached from others
  without taking a character, the preferred ones first.  A state that has
  been visited is not visited again, not even after an empty round of a
  repetition.
* `Automaton.run` goes through a text.  A way that accepts cuts off every way
  that is less preferred; the ways before it may still find a text that is
  preferred to it.
-/

namespace Edn

/-- A state of an automaton.  The numbers are those of the states that follow. -/
inductive State where
  | accept
  | step (set : CharSet) (next : Nat)
  | check (condition : Assertion) (next : Nat)
  | fork (first second : Nat)
deriving DecidableEq, Repr

/-- States by their numbers, and the one to start in. -/
structure Automaton where
  states : Array State
  start : Nat
deriving DecidableEq, Repr

namespace Automaton

/-! ## Reaching states -/

/-- Visits states without taking a character.  `pending` are the states still to be visited, the
preferred ones first, and `seen` are those that have been visited, the last one first.  `steps`
bounds the visits. -/
def visit (a : Automaton) (before after : Option Char) :
    (steps : Nat) → (pending seen : List Nat) → List Nat
  | 0, _, seen => seen
  | _, [], seen => seen
  | steps + 1, state :: pending, seen =>
    if seen.contains state then a.visit before after steps pending seen
    else
      match a.states[state]? with
      | some (.fork first second) =>
        a.visit before after steps (first :: second :: pending) (state :: seen)
      | some (.check condition next) =>
        if condition.holds before after then
          a.visit before after steps (next :: pending) (state :: seen)
        else a.visit before after steps pending (state :: seen)
      | _ => a.visit before after steps pending (state :: seen)

/-- The states that can be reached without taking a character, the preferred ones first.  Each state
is visited once and has at most two states after it, which bounds the visits. -/
def closure (a : Automaton) (before after : Option Char) (states : List Nat) : List Nat :=
  (a.visit before after (states.length + 2 * a.states.size) states []).reverse

/-- Tells whether one of some states accepts. -/
def accepts (a : Automaton) (states : List Nat) : Bool :=
  states.any fun state => a.states[state]? == some .accept

/-- The states after a character, without those that are less preferred than a state that
accepts. -/
def after (a : Automaton) (c : Char) : (states : List Nat) → List Nat
  | [] => []
  | state :: rest =>
    match a.states[state]? with
    | some .accept => []
    | some (.step set next) => if set.contains c then next :: a.after c rest else a.after c rest
    | _ => a.after c rest

/-! ## Running -/

/-- Goes through a text from some states.  `before` is the character in front of the text, `taken`
is the number of characters that have been taken, and `best` is the length of the preferred match so
far. -/
def run (a : Automaton) (before : Option Char) (states : List Nat) (taken : Nat) (best : Option Nat)
    (text : List Char) : Option Nat :=
  let reached := a.closure before text.head? states
  let best := if a.accepts reached then some taken else best
  match text with
  | [] => best
  | c :: rest =>
    match a.after c reached with
    | [] => best
    | next => a.run (some c) next (taken + 1) best rest

/-- The length of the preferred match at the start of a text.  `before` is the character in front of
it, if there is one. -/
def matchLength? (a : Automaton) (before : Option Char) (text : List Char) : Option Nat :=
  a.run before [a.start] 0 none text

/-- The preferred match at the first place of a text that has one: where it starts, and where it ends.
`skipped` characters lie before the text. -/
def search (a : Automaton) (before : Option Char) (skipped : Nat) (text : List Char) :
    Option (Nat × Nat) :=
  match a.matchLength? before text with
  | some length => some (skipped, skipped + length)
  | none =>
    match text with
    | [] => none
    | c :: rest => a.search (some c) (skipped + 1) rest

/-- A run takes no more characters than there are. -/
theorem run_le (a : Automaton) (text : List Char) (before : Option Char) (states : List Nat)
    (taken : Nat) (best : Option Nat) (hbest : ∀ length ∈ best, length ≤ taken) :
    ∀ length ∈ a.run before states taken best text, length ≤ taken + text.length := by
  induction text generalizing before states taken best with
  | nil =>
    intro length h
    rw [run] at h
    grind
  | cons c rest ih =>
    intro length h
    rw [run] at h
    have hnext : ∀ next, ∀ length ∈ a.run (some c) next (taken + 1)
        (if a.accepts (a.closure before (some c) states) then some taken else best) rest,
        length ≤ taken + 1 + rest.length := by
      intro next
      apply ih
      grind
    simp only [List.head?_cons, List.length_cons] at h ⊢
    grind

theorem matchLength?_le (a : Automaton) (before : Option Char) (text : List Char) :
    ∀ length ∈ a.matchLength? before text, length ≤ text.length := by
  intro length h
  have := a.run_le text before [a.start] 0 none (by simp) length h
  omega

/-- A match that is found lies in the text. -/
theorem search_within (a : Automaton) (text : List Char) (before : Option Char) (skipped : Nat) :
    ∀ found ∈ a.search before skipped text,
      found.1 ≤ found.2 ∧ found.2 ≤ skipped + text.length := by
  induction text generalizing before skipped with
  | nil =>
    intro found h
    rw [search] at h
    split at h
    · next length hlength =>
      have := a.matchLength?_le before [] length hlength
      cases h
      exact ⟨Nat.le_add_right _ _, Nat.add_le_add_left this _⟩
    · cases h
  | cons c rest ih =>
    intro found h
    rw [search] at h
    split at h
    · next length hlength =>
      have := a.matchLength?_le before (c :: rest) length hlength
      cases h
      exact ⟨Nat.le_add_right _ _, Nat.add_le_add_left this _⟩
    · obtain ⟨hstart, hstop⟩ := ih (some c) (skipped + 1) found h
      rw [List.length_cons]
      omega

end Automaton

namespace Pattern

/-! ## Building -/

/-- States that have been built, and the one to enter them by. -/
structure Built where
  entry : Nat
  states : Array State

namespace Built

/-- One more state, which becomes the entry. -/
def push (b : Built) (state : State) : Built :=
  ⟨b.states.size, b.states.push state⟩

/-- The fork of a repetition: one more round, or the state `next` after it. -/
def roundFork (eager : Bool) (round next : Nat) : State :=
  if eager then .fork round next else .fork next round

/-- Applies a step of building a number of times. -/
def times (step : Built → Built) : Nat → Built → Built
  | 0, b => b
  | n + 1, b => times step n (step b)

/-- A round and the fork after it, which may go back to the start of the round.  `body` builds a
round in front of the entry.  The entry is the start of the round, and the fork stands at the given
number. -/
def loop (eager : Bool) (body : Built → Built) (b : Built) : Nat × Built :=
  let fork := b.states.size
  let round := body ⟨fork, b.states.push .accept⟩
  (fork, ⟨round.entry, round.states.setIfInBounds fork (roundFork eager round.entry b.entry)⟩)

/-- A part that may be left out. -/
def orElse (eager : Bool) (part : Built) (next : Nat) : Built :=
  part.push (roundFork eager part.entry next)

/-- Any number of rounds, and none as well.  If a round takes at least one character, the fork after
it is the entry.  Otherwise the entry is a fork of its own: a first round that takes nothing has to
leave the loop at its end, and not before its other alternatives. -/
def anyRounds (eager takesSome : Bool) (body : Built → Built) (b : Built) : Built :=
  let (fork, round) := loop eager body b
  if takesSome then { round with entry := fork } else orElse eager round b.entry

/-- A number of rounds after each other, each of which may be the last.  To stop is to go to
`next`. -/
def upTo (eager : Bool) (body : Built → Built) (next n : Nat) (b : Built) : Built :=
  times (fun b => orElse eager (body b) next) n b

end Built

/-- Adds the states of a pattern in front of the entry. -/
def build : Pattern → Built → Built
  | empty, b => b
  | one set, b => b.push (.step set b.entry)
  | assertion condition, b => b.push (.check condition b.entry)
  | sequence first second, b => first.build (second.build b)
  | choice first second, b =>
    let other := second.build b
    let preferred := first.build { other with entry := b.entry }
    preferred.push (.fork preferred.entry other.entry)
  | repeated least most eager body, b =>
    match most, least with
    | some most, least =>
      Built.times body.build least (Built.upTo eager body.build b.entry (most - least) b)
    | none, 0 => Built.anyRounds eager body.takesSome body.build b
    | none, least + 1 => Built.times body.build least (Built.loop eager body.build b).2
  | group _ body, b => body.build b

/-- The automaton of a pattern. -/
def automaton (p : Pattern) : Automaton :=
  let b := p.build ⟨0, #[.accept]⟩
  ⟨b.states, b.entry⟩

end Pattern

end Edn
