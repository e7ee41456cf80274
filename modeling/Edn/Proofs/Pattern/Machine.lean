import Edn.Pattern.Automaton
import Edn.Proofs.Pattern.CharSet

/-!
# Machines that follow automata

An automaton follows several ways at once.  Where the sets of characters on
these ways have nothing in common, one way is left after each character, and
the automaton is a machine in the ordinary sense.

* A `Machine` says where the characters of a set lead from a state.
  `Machine.longest?` is the length of the longest prefix that it accepts.
* `Machine.Follows` says that the states of a machine stand for states of an
  automaton.  It is checked by evaluation.
  `Machine.Follows.matchLength?_eq` says that the preferred match is then the
  longest one.
* `Automaton.Chain` is a single way without branches, the one of a word.
-/

namespace Edn

/-! ## Machines -/

/-- A machine that reads a text from left to right.  In each state it may accept what it has read,
and the characters of some sets lead to other states. -/
structure Machine (State : Type) where
  start : State
  accepts : State → Bool
  exits : State → List (CharSet × State)

namespace Machine

variable {S : Type} {m : Machine S} {state last : S}

/-- The state after a character. -/
def next? (m : Machine S) (state : S) (c : Char) : Option S :=
  ((m.exits state).find? fun exit => exit.1.contains c).map Prod.snd

theorem exists_exit {c : Char} {next : S} (h : m.next? state c = some next) :
    ∃ exit ∈ m.exits state, exit.1.contains c = true ∧ exit.2 = next := by
  obtain ⟨exit, hfound, rfl⟩ := Option.map_eq_some_iff.1 h
  exact ⟨exit, List.mem_of_find?_eq_some hfound, by simpa using List.find?_some hfound, rfl⟩

/-- The state after a text. -/
def after? (m : Machine S) (state : S) : List Char → Option S
  | [] => some state
  | c :: rest => (m.next? state c).bind fun next => m.after? next rest

/-- The length of the longest prefix of a text that is accepted. -/
def longest? (m : Machine S) (state : S) : List Char → Option Nat
  | [] => if m.accepts state then some 0 else none
  | c :: rest =>
    match (m.next? state c).bind fun next => m.longest? next rest with
    | some length => some (length + 1)
    | none => if m.accepts state then some 0 else none

/-- A text that the machine cannot go on with from a state. -/
def Stops (m : Machine S) (state : S) (rest : List Char) : Prop :=
  ∀ c ∈ rest.head?, m.next? state c = none

theorem after?_append {first second : List Char} (h : m.after? state first = some last) :
    m.after? state (first ++ second) = m.after? last second := by
  induction first generalizing state with
  | nil =>
    cases h
    rfl
  | cons c rest ih =>
    obtain ⟨next, hnext, hrest⟩ := Option.bind_eq_some_iff.1 h
    rw [List.cons_append, after?, hnext, Option.bind_some, ih hrest]

/-- A loop: every character leads back to the state. -/
theorem after?_of_loop {text : List Char} (h : ∀ c ∈ text, m.next? state c = some state) :
    m.after? state text = some state := by
  induction text with
  | nil => rfl
  | cons c rest ih =>
    rw [after?, h c List.mem_cons_self, Option.bind_some,
      ih fun d hd => h d (List.mem_cons_of_mem _ hd)]

/-- Everything that a machine reads consists of its characters. -/
theorem forall_of_after? {p : Char → Prop}
    (hreads : ∀ state c next, m.next? state c = some next → p c) {text : List Char}
    (h : m.after? state text = some last) : ∀ c ∈ text, p c := by
  induction text generalizing state with
  | nil => simp
  | cons d text ih =>
    obtain ⟨next, hnext, hrest⟩ := Option.bind_eq_some_iff.1 h
    exact List.forall_mem_cons.2 ⟨hreads _ _ _ hnext, ih hrest⟩

theorem isSome_next?_of_after? {c : Char} {text : List Char}
    (h : m.after? state (c :: text) = some last) : (m.next? state c).isSome = true := by
  obtain ⟨next, hnext, -⟩ := Option.bind_eq_some_iff.1 h
  rw [hnext]
  rfl

theorem longest?_of_stops {rest : List Char} (h : m.Stops state rest) :
    m.longest? state rest = if m.accepts state then some 0 else none := by
  cases rest with
  | nil => rfl
  | cons c rest => rw [longest?, h c rfl, Option.bind_none]

/-- A text that leads to an accepting state is the longest match, if the machine stops behind it. -/
theorem longest?_append {text rest : List Char} (h : m.after? state text = some last)
    (haccepts : m.accepts last = true) (hstops : m.Stops last rest) :
    m.longest? state (text ++ rest) = some text.length := by
  induction text generalizing state with
  | nil =>
    cases h
    rw [List.nil_append, longest?_of_stops hstops, haccepts]
    rfl
  | cons c text ih =>
    obtain ⟨next, hnext, hrest⟩ := Option.bind_eq_some_iff.1 h
    rw [List.cons_append, longest?, hnext, Option.bind_some, ih hrest]
    rfl

/-- A match consists of characters that the machine can read. -/
theorem longest?_le {p : Char → Bool} (hp : ∀ state c next, m.next? state c = some next → p c = true)
    {text : List Char} {length : Nat} (h : m.longest? state text = some length) :
    length ≤ (text.takeWhile p).length := by
  induction text generalizing state length with
  | nil =>
    rw [longest?] at h
    split at h <;> cases h
    exact Nat.le_refl _
  | cons c rest ih =>
    rw [longest?] at h
    split at h
    · next found hfound =>
      cases h
      obtain ⟨next, hnext, hrest⟩ := Option.bind_eq_some_iff.1 hfound
      rw [List.takeWhile_cons_of_pos (hp _ _ _ hnext)]
      exact Nat.succ_le_succ (ih hrest)
    · split at h <;> cases h
      exact Nat.zero_le _

/-! ## Following an automaton -/

end Machine

/-- The sets of characters on the ways of an automaton, and where they lead.  A state that accepts
cuts off the ways behind it. -/
def Automaton.exits (a : Automaton) : (reached : List Nat) → List (CharSet × Nat)
  | [] => []
  | state :: rest =>
    match a.states[state]? with
    | some .accept => []
    | some (.step set next) => (set, next) :: a.exits rest
    | _ => a.exits rest

/-- A character leads to all states behind the sets that hold it. -/
theorem Automaton.after_eq_exits (a : Automaton) (c : Char) (reached : List Nat) :
    a.after c reached =
      ((a.exits reached).filter fun exit => exit.1.contains c).map Prod.snd := by
  fun_induction Automaton.exits a reached with
  | case1 => rfl
  | case2 state rest hstate => simp [after, hstate]
  | case3 state rest set next hstate ih =>
    simp only [after, hstate, List.filter_cons, ih]
    split <;> rfl
  | case4 state rest _ _ ih =>
    unfold after
    split <;> simp_all

namespace Machine

variable {S : Type} {m : Machine S} {state last : S}

/-- The states that an automaton reaches are, as to what they accept and where they lead, a state of
a machine. -/
def Agrees (m : Machine S) (a : Automaton) (number : S → Nat) (state : S) (reached : List Nat) :
    Prop :=
  a.accepts reached = m.accepts state ∧
    a.exits reached = (m.exits state).map fun exit => (exit.1, number exit.2)

/-- The states of a machine stand for states of an automaton.  Only the start stands before the
text, and the sets of a state have nothing in common. -/
structure Follows (m : Machine S) (a : Automaton) (number : S → Nat) : Prop where
  start : number m.start = a.start
  agrees_start : ∀ after, m.Agrees a number m.start (a.closure none after [number m.start])
  agrees : ∀ state, state ≠ m.start → ∀ before after,
    m.Agrees a number state (a.closure (some before) after [number state])
  exits_ne_start : ∀ state, ∀ exit ∈ m.exits state, exit.2 ≠ m.start
  apart : ∀ state, (m.exits state).Pairwise fun exit other => exit.1.apart other.1 = true

namespace Follows

variable {a : Automaton} {number : S → Nat}

/-- Of sets that have nothing in common, one at most holds a character. -/
theorem filter_exits {exits : List (CharSet × S)} (c : Char)
    (h : exits.Pairwise fun exit other => exit.1.apart other.1 = true) :
    exits.filter (fun exit => exit.1.contains c) =
      (exits.find? fun exit => exit.1.contains c).toList := by
  induction exits with
  | nil => rfl
  | cons exit rest ih =>
    obtain ⟨hexit, hrest⟩ := List.pairwise_cons.1 h
    rw [List.filter_cons, List.find?_cons]
    cases hc : exit.1.contains c with
    | false => simpa using ih hrest
    | true =>
      have hnone : rest.filter (fun exit => exit.1.contains c) = [] := by
        rw [List.filter_eq_nil_iff]
        intro other hother
        simp [CharSet.contains_of_apart (hexit other hother) hc]
      simp [hnone]

theorem next_ne_start (h : m.Follows a number) {c : Char} {next : S}
    (hnext : m.next? state c = some next) : next ≠ m.start := by
  obtain ⟨exit, hfound, rfl⟩ := Option.map_eq_some_iff.1 hnext
  exact h.exits_ne_start state exit (List.mem_of_find?_eq_some hfound)

/-- One state is left after a character at most. -/
theorem after_eq (h : m.Follows a number) {reached : List Nat}
    (hagrees : m.Agrees a number state reached) (c : Char) :
    a.after c reached = ((m.next? state c).map number).toList := by
  have hfilter := filter_exits c (h.apart state)
  rw [Automaton.after_eq_exits, hagrees.2, List.filter_map, List.map_map, next?]
  simp only [Function.comp_def]
  rw [hfilter]
  cases (m.exits state).find? fun exit => exit.1.contains c <;> rfl

/-- From a state on, the automaton finds the longest match of the machine, or keeps what it has. -/
theorem run_eq (h : m.Follows a number) {before : Option Char}
    (hagrees : ∀ after, m.Agrees a number state (a.closure before after [number state]))
    (taken : Nat) (best : Option Nat) (text : List Char) :
    a.run before [number state] taken best text =
      ((m.longest? state text).map (taken + ·)).or best := by
  induction text generalizing before state taken best with
  | nil =>
    simp only [Automaton.run, (hagrees _).1, longest?]
    split <;> rfl
  | cons c rest ih =>
    simp only [Automaton.run, (hagrees _).1, h.after_eq (hagrees _), longest?]
    cases hnext : m.next? state c with
    | none =>
      simp only [Option.map_none, Option.toList_none, Option.bind_none]
      split <;> rfl
    | some next =>
      simp only [Option.map_some, Option.toList_some, Option.bind_some]
      rw [ih (h.agrees next (h.next_ne_start hnext) c)]
      cases m.longest? next rest with
      | none => simp only [Option.map_none, Option.none_or]; split <;> rfl
      | some length => simp [Nat.add_assoc, Nat.add_comm 1]

/-- The preferred match of the automaton is the longest match of the machine. -/
theorem matchLength?_eq (h : m.Follows a number) (text : List Char) :
    a.matchLength? none text = m.longest? m.start text := by
  have hrun := h.run_eq h.agrees_start 0 none text
  rw [h.start] at hrun
  rw [Automaton.matchLength?, hrun]
  simp

end Follows

end Machine

/-! ## Chains -/

/-- A text starts with one character of each set. -/
def startsIn : List CharSet → List Char → Bool
  | [], _ => true
  | _ :: _, [] => false
  | set :: sets, c :: rest => set.contains c && startsIn sets rest

namespace Automaton

variable {a : Automaton} {state : Nat} {sets : List CharSet}

/-- From a state, one character of each set leads to a state that accepts. -/
inductive Chain (a : Automaton) : Nat → List CharSet → Prop where
  | accept {state : Nat} (hstate : a.states[state]? = some .accept) : Chain a state []
  | step {state next : Nat} {set : CharSet} {sets : List CharSet}
      (hstate : a.states[state]? = some (.step set next)) (hnext : Chain a next sets) :
      Chain a state (set :: sets)

theorem closure_singleton (h : ∃ s, a.states[state]? = some s ∧
      (s = .accept ∨ ∃ set next, s = .step set next)) (before after : Option Char) :
    a.closure before after [state] = [state] := by
  obtain ⟨s, hstate, hs⟩ := h
  have hvisit : ∀ steps, a.visit before after steps [] [state] = [state] := by
    intro steps
    cases steps <;> rfl
  unfold closure
  rw [List.length_singleton, Nat.add_comm, visit]
  rcases hs with rfl | ⟨set, next, rfl⟩ <;> simp [hstate, hvisit]

/-- A single way finds its word, or keeps what it has. -/
theorem run_of_chain (h : a.Chain state sets) (before : Option Char) (taken : Nat)
    (best : Option Nat) (text : List Char) :
    a.run before [state] taken best text =
      if startsIn sets text then some (taken + sets.length) else best := by
  induction h generalizing before taken best text with
  | accept hstate =>
    have hclosure := closure_singleton (a := a) ⟨_, hstate, .inl rfl⟩
    cases text <;> simp [run, hclosure, accepts, after, hstate, startsIn]
  | @step state next set sets hstate hnext ih =>
    have hclosure := closure_singleton (a := a) ⟨_, hstate, .inr ⟨_, _, rfl⟩⟩
    cases text with
    | nil => simp [run, hclosure, accepts, hstate, startsIn]
    | cons c rest =>
      by_cases hc : set.contains c = true
      · simp [run, hclosure, accepts, after, hstate, startsIn, hc, ih, Nat.add_assoc,
          Nat.add_comm 1]
      · simp [run, hclosure, accepts, after, hstate, startsIn, hc]

/-- The longer of two ways finds its word, or the shorter one accepts at once. -/
theorem run_of_chain_or_accept {set : CharSet} {next other : Nat}
    (hstate : a.states[state]? = some (.step set next)) (hnext : a.Chain next sets)
    (hother : a.states[other]? = some .accept) (before : Option Char) (taken : Nat)
    (best : Option Nat) (text : List Char) :
    a.run before [state, other] taken best text =
      some (if startsIn (set :: sets) text then taken + sets.length + 1 else taken) := by
  have hne : state ≠ other := by
    rintro rfl
    rw [hstate] at hother
    cases hother
  have hclosure : ∀ after, a.closure before after [state, other] = [state, other] := by
    intro after
    have hvisit : ∀ steps, a.visit before after steps [] [other, state] = [other, state] := by
      intro steps
      cases steps <;> rfl
    unfold closure
    rw [show [state, other].length + 2 * a.states.size = 2 * a.states.size + 1 + 1 from
      Nat.add_comm _ _]
    simp [visit, hstate, hother, hne.symm, hvisit]
  cases text with
  | nil => simp [run, hclosure, accepts, hother, startsIn]
  | cons c rest =>
    by_cases hc : set.contains c = true
    · simp only [run, hclosure, accepts, after, hstate, hother, hc, if_true, List.any_cons,
        List.any_nil, run_of_chain hnext, startsIn, List.head?_cons, Bool.true_and]
      split <;> simp [Nat.add_right_comm]
    · simp [run, hclosure, accepts, after, hstate, hother, startsIn, hc]

/-- A single way behind the start of the text finds its word. -/
theorem matchLength?_of_chain {set : CharSet} {first next : Nat}
    (hstart : a.states[a.start]? = some (.check .textStart first))
    (hfirst : a.states[first]? = some (.step set next)) (hnext : a.Chain next sets)
    (text : List Char) :
    a.matchLength? none text =
      if startsIn (set :: sets) text then some (sets.length + 1) else none := by
  have hne : first ≠ a.start := by
    intro h
    rw [h, hstart] at hfirst
    cases hfirst
  have hclosure : ∀ after, a.closure none after [a.start] = [a.start, first] := by
    intro after
    have hvisit : ∀ steps, a.visit none after steps [] [first, a.start] = [first, a.start] := by
      intro steps
      cases steps <;> rfl
    have hsize : 0 < a.states.size := by
      obtain ⟨hlt, -⟩ := Array.getElem?_eq_some_iff.1 hstart
      exact Nat.zero_lt_of_lt hlt
    obtain ⟨steps, hsteps⟩ : ∃ steps, [a.start].length + 2 * a.states.size = steps + 1 + 1 :=
      ⟨2 * a.states.size - 1, by simp only [List.length_singleton]; omega⟩
    unfold closure
    rw [hsteps]
    simp [visit, hstart, hfirst, hne, hvisit, Assertion.holds]
  cases text with
  | nil => simp [matchLength?, run, hclosure, accepts, hstart, hfirst, startsIn]
  | cons c rest =>
    by_cases hc : set.contains c = true
    · simp [matchLength?, run, hclosure, accepts, after, hstart, hfirst, startsIn, hc,
        run_of_chain hnext, Nat.add_comm]
    · simp [matchLength?, run, hclosure, accepts, after, hstart, hfirst, startsIn, hc]

end Automaton

end Edn
