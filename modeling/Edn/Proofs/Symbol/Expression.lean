import Edn.Proofs.Grammar.Tokens

/-!
# The expression of names

Names have an expression, in which one repetition stands inside another: a text
that starts with several first characters is matched in several ways.  The scan
that tells names takes one way, and finds the same texts.

* `Automaton.Recognizes` says that an automaton goes through a text in stages,
  and that it matches nothing but whole texts.
  `Automaton.Recognizes.matchLength?_eq` is the induction along a text.
* `Name.Stage` are the stages of a name, and `Name.recognizes` says that the
  automaton of the expression has them.
* `Name.matchEnd?_expression` is the result: the expression matches the names.
-/

namespace Edn

/-! ## Recognizing whole texts -/

namespace Automaton

/-- Tells whether all assertions of an automaton are about the ends of the text. -/
def assertsEnds (a : Automaton) : Bool :=
  a.states.all fun
    | .check condition _ => decide (condition = .textStart ∨ condition = .textEnd)
    | _ => true

/-- Where only the ends of the text are asserted, the characters at a place do not matter. -/
theorem closure_congr {a : Automaton} (h : a.assertsEnds = true)
    {before before' after after' : Option Char} (hbefore : before.isNone = before'.isNone)
    (hafter : after.isNone = after'.isNone) (states : List Nat) :
    a.closure before after states = a.closure before' after' states := by
  have hholds : ∀ (state : Nat) (condition : Assertion) (next : Nat),
      a.states[state]? = some (.check condition next) →
        condition.holds before after = condition.holds before' after' := by
    intro state condition next hstate
    obtain ⟨hlt, hget⟩ := Array.getElem?_eq_some_iff.1 hstate
    have := (Array.all_eq_true.1 h) state hlt
    rw [hget] at this
    rcases of_decide_eq_true this with rfl | rfl
    · exact hbefore
    · exact hafter
  have hvisit : ∀ (steps : Nat) (pending seen : List Nat),
      a.visit before after steps pending seen = a.visit before' after' steps pending seen := by
    intro steps
    induction steps with
    | zero =>
      intro pending seen
      rfl
    | succ steps ih =>
      intro pending seen
      cases pending with
      | nil => rfl
      | cons state pending =>
        simp only [visit, ih]
        split
        · rfl
        · split
          · rfl
          · next condition next hstate => rw [hholds state condition next hstate]
          · rfl
  rw [closure, closure, hvisit]

/-- The character in front of a place of a text, as far as it matters to the ends of the text. -/
def sideOf (atEnd : Bool) : Option Char :=
  if atEnd then none else some ' '

/-- An automaton goes through a text in stages, each of which stands for a list of states.  It takes
ASCII characters only, and it accepts at the end of the text and nowhere else. -/
structure Recognizes (a : Automaton) {Stage : Type} [DecidableEq Stage] (start : Stage)
    (step : Stage → Char → Option Stage) (complete : Stage → Bool) (states : Stage → List Nat) :
    Prop where
  ends : a.assertsEnds = true
  states_start : states start = [a.start]
  states_ne_nil : ∀ stage, states stage ≠ []
  step_ne_start : ∀ stage c, step stage c ≠ some start
  accepts : ∀ stage, a.accepts (a.closure (sideOf (stage = start)) none (states stage)) =
    complete stage
  rejects : ∀ stage,
    a.accepts (a.closure (sideOf (stage = start)) (some ' ') (states stage)) = false
  ascii : ∀ stage, ∀ exit ∈ a.exits (a.closure (sideOf (stage = start)) (some ' ') (states stage)),
    exit.1.within (.range '\x00' '\x7f') = true
  step_ascii : ∀ stage c, 128 ≤ c.toNat → step stage c = none
  exits : ∀ stage, ∀ n < 128,
    ((a.exits (a.closure (sideOf (stage = start)) (some ' ') (states stage))).filter
        fun exit => exit.1.contains (Char.ofNat n)).map Prod.snd =
      ((step stage (Char.ofNat n)).map states).getD []

namespace Recognizes

variable {a : Automaton} {Stage : Type} [DecidableEq Stage] {start stage : Stage}
  {step : Stage → Char → Option Stage} {complete : Stage → Bool} {states : Stage → List Nat}

/-- Each character leads to the states of the next stage. -/
theorem after_eq (h : a.Recognizes start step complete states) (stage : Stage) (c : Char) :
    a.after c (a.closure (sideOf (stage = start)) (some ' ') (states stage)) =
      ((step stage c).map states).getD [] := by
  rw [after_eq_exits]
  by_cases hascii : c.toNat < 128
  · have := h.exits stage c.toNat hascii
    rwa [Char.ofNat_toNat] at this
  · rw [h.step_ascii stage c (Nat.le_of_not_lt hascii)]
    have hnone : (a.exits (a.closure (sideOf (stage = start)) (some ' ') (states stage))).filter
        (fun exit => exit.1.contains c) = [] := by
      rw [List.filter_eq_nil_iff]
      intro exit hexit hc
      have hrange := CharSet.contains_of_within (h.ascii stage exit hexit) (by decide) hc
      obtain ⟨range, hmem, -, hhigh⟩ := CharSet.exists_range_of_contains hrange
      rw [List.mem_singleton.1 hmem] at hhigh
      exact hascii (Nat.lt_succ_of_le hhigh)
    rw [hnone]
    rfl

/-- From a stage on, the automaton matches the rest of the text as a whole, or not at all. -/
theorem run_eq (h : a.Recognizes start step complete states) {before : Option Char}
    (hbefore : before.isNone = decide (stage = start)) (taken : Nat) (text : List Char) :
    a.run before (states stage) taken none text =
      if (text.foldlM step stage).any complete then some (taken + text.length) else none := by
  have hside : before.isNone = (sideOf (stage = start)).isNone := by
    rw [hbefore, sideOf]
    split <;> simp_all
  induction text generalizing before stage taken with
  | nil =>
    have haccepts : a.accepts (a.closure before none (states stage)) = complete stage := by
      rw [closure_congr h.ends hside rfl, h.accepts]
    simp only [Automaton.run, List.head?_nil, haccepts]
    rfl
  | cons c rest ih =>
    have hclosure : a.closure before (some c) (states stage) =
        a.closure (sideOf (stage = start)) (some ' ') (states stage) :=
      closure_congr h.ends hside (Option.isNone_some.trans Option.isNone_some.symm) _
    simp only [Automaton.run, List.head?_cons, hclosure, h.rejects, h.after_eq, List.foldlM_cons]
    cases hstep : step stage c with
    | none => rfl
    | some next =>
      have hne : next ≠ start := fun heq => h.step_ne_start stage c (heq ▸ hstep)
      have hnext : (some c).isNone = decide (next = start) := by simp [hne]
      have hrun := ih hnext (taken + 1) (by rw [hnext, sideOf]; simp [hne])
      rw [Option.map_some, Option.getD_some]
      cases hstates : states next with
      | nil => exact absurd hstates (h.states_ne_nil next)
      | cons first others =>
        rw [hstates] at hrun
        rw [List.length_cons, ← Nat.add_assoc, Nat.add_right_comm]
        exact hrun

/-- The automaton matches the texts that lead to a complete stage, as a whole. -/
theorem matchLength?_eq (h : a.Recognizes start step complete states) (text : List Char) :
    a.matchLength? none text =
      if (text.foldlM step start).any complete then some text.length else none := by
  have hstart : (none : Option Char).isNone = decide (start = start) := by simp
  have hrun := h.run_eq hstart 0 text
  rwa [h.states_start, Nat.zero_add] at hrun

end Recognizes

end Automaton

/-! ## The stages of a name -/

namespace Name

/-- The places inside a name. -/
inductive Stage where
  | start
  | modifier
  | first
  | again
  | mixed
  | later
deriving DecidableEq

namespace Stage

/-- The place after a character.  Behind a first character, another one, and one behind a modifier,
may belong to the inner repetition or to what follows it. -/
def step : Stage → Char → Option Stage
  | start, c => if isModifier c then some modifier else if isFirst c then some first else none
  | modifier, c => if isFirst c then some first else none
  | first, c | again, c =>
    if isModifier c then some mixed else if isFirst c then some again
    else if isLater c then some later else none
  | mixed, c => if isFirst c then some again else if isLater c then some later else none
  | later, c => if isLater c then some later else none

/-- Tells whether a name may end at a place. -/
def isComplete (stage : Stage) : Bool :=
  decide (stage ≠ start)

/-- Tells whether a place lies behind a first character. -/
def isInside (stage : Stage) : Bool :=
  decide (stage ≠ start ∧ stage ≠ modifier)

/-- Behind a first character, later characters lead on, and no others. -/
theorem step_of_isInside {stage : Stage} (h : stage.isInside = true) (c : Char) :
    (stage.step c).isSome = isLater c ∧ ∀ next ∈ stage.step c, next.isInside = true := by
  have hmodifier : isModifier c = true → isLater c = true := fun h => by simp [isLater, h]
  have hfirst : isFirst c = true → isLater c = true := fun h => by simp [isLater, h]
  cases stage <;> simp only [step] <;> split_ifs <;> simp_all [isInside]

theorem foldlM_step_of_isInside {stage : Stage} (h : stage.isInside = true) (text : List Char) :
    (text.foldlM step stage).any isComplete = text.all isLater := by
  induction text generalizing stage with
  | nil => cases stage <;> first | rfl | cases h
  | cons c text ih =>
    obtain ⟨hsome, hinside⟩ := step_of_isInside h c
    rw [List.foldlM_cons, List.all_cons, ← hsome]
    cases hstep : stage.step c with
    | none => rfl
    | some next => exact ih (hinside next hstep)

/-- A text leads from the start to a complete place exactly if it is a name. -/
theorem foldlM_step_start (text : List Char) :
    (text.foldlM step start).any isComplete = isName text := by
  have hplain : ∀ rest : List Char, (rest.foldlM step modifier).any isComplete =
      (rest.isEmpty || isPlain rest) := by
    intro rest
    cases rest with
    | nil => rfl
    | cons c rest =>
      rw [List.foldlM_cons, step, isPlain]
      split
      · next hfirst =>
        rw [hfirst]
        exact foldlM_step_of_isInside rfl rest
      · next hfirst =>
        simp [hfirst]
  cases text with
  | nil => rfl
  | cons c rest =>
    rw [List.foldlM_cons, step, isName]
    split
    · exact hplain rest
    · rw [isPlain]
      split
      · next hfirst =>
        rw [hfirst]
        exact foldlM_step_of_isInside rfl rest
      · next hfirst => simp [hfirst]

end Stage

/-! ## The expression -/

/-- The written form of modifiers. -/
def modifierExpression : String :=
  "(?:\\.|\\+|-)"

/-- The written form of the marks that start a name. -/
def markExpression : String :=
  "\\*|!|_|\\?|\\$|%|&|=|<|>"

/-- The written form of first characters. -/
def firstExpression : String :=
  "(?:" ++ markExpression ++ "|[[:alpha:]])"

/-- The written form of names. -/
def expression : String :=
  "^(?:" ++ modifierExpression ++
    "|(?:" ++ modifierExpression ++ firstExpression ++ "|" ++ firstExpression ++ ")+" ++
    "(?:" ++ modifierExpression ++ "|" ++ markExpression ++ "|:|#|[[:alnum:]])*)$"

/-! ## Its automaton -/

/-- The sets of the marks that start a name, the last one of the expression first. -/
def markSets : List CharSet :=
  ['>', '<', '=', '&', '%', '$', '?', '_', '!', '*'].map .single

/-- The modifiers. -/
def modifierSet : CharSet :=
  ⟨[(43, 43), (45, 46)]⟩

/-- The ASCII letters. -/
def letterSet : CharSet :=
  ⟨[(65, 90), (97, 122)]⟩

/-- The ASCII letters and digits. -/
def letterOrDigitSet : CharSet :=
  ⟨[(48, 57), (65, 90), (97, 122)]⟩

/-- The states that take a character of one of some sets, from a number on.  The last set of a
choice comes first. -/
def choiceStates (base next : Nat) (last : CharSet) (others : List CharSet) : List State :=
  .step last next :: others.zipIdx.flatMap fun (set, i) =>
    [.step set next, .fork (base + 2 * i + 1) (base + 2 * i)]

/-- The automaton of names. -/
def automaton : Automaton where
  states :=
    (([.accept, .check .textEnd 0, .fork 29 1] ++
      choiceStates 3 2 letterOrDigitSet (.single '#' :: .single ':' :: markSets ++ [modifierSet]) ++
      [.fork 74 2] ++ choiceStates 31 30 letterSet markSets ++
      choiceStates 52 30 letterSet markSets ++
      [.step modifierSet 72, .fork 73 51, .step modifierSet 1, .fork 75 74,
        .check .textStart 76]) : List State).toArray
  start := 77

theorem read?_expression :
    (Pattern.read? expression).map (fun p => (p.automaton, p.isAnchored)) =
      some (automaton, true) := by
  decide +kernel

/-- The states of the automaton at the places of a name. -/
def Stage.states : Stage → List Nat
  | start => [77]
  | modifier => [1, 72]
  | first => [30]
  | again => [30, 2]
  | mixed => [72, 2]
  | later => [2]

/-- The characters of names are ASCII. -/
theorem isLater_eq_false {c : Char} (h : 128 ≤ c.toNat) : isLater c = false := by
  rw [← Bool.not_eq_true]
  intro hlater
  have hsymbol : Grammar.symbolSet.contains c = true := by
    rw [Grammar.contains_symbolSet, hlater, Bool.true_or]
  obtain ⟨range, hrange, -, hhigh⟩ := CharSet.exists_range_of_contains hsymbol
  have hascii : ∀ range ∈ Grammar.symbolSet.table, range.2 < 128 := by decide
  have := hascii range hrange
  omega

theorem exits_eq_step (stage : Stage) : ∀ n < 128,
    ((automaton.exits (automaton.closure (Automaton.sideOf (stage = .start)) (some ' ')
        stage.states)).filter fun exit => exit.1.contains (Char.ofNat n)).map Prod.snd =
      ((stage.step (Char.ofNat n)).map Stage.states).getD [] := by
  cases stage <;> decide +kernel

/-- The automaton goes through a text in the stages of a name. -/
theorem recognizes : automaton.Recognizes .start Stage.step Stage.isComplete Stage.states where
  ends := by decide +kernel
  states_start := rfl
  states_ne_nil stage := by cases stage <;> decide
  step_ne_start stage c := by cases stage <;> simp only [Stage.step] <;> split_ifs <;> simp
  accepts stage := by cases stage <;> decide +kernel
  rejects stage := by cases stage <;> decide +kernel
  ascii stage := by cases stage <;> decide +kernel
  step_ascii stage c h := by
    have hlater := isLater_eq_false h
    cases stage <;> simp_all [Stage.step, isLater]
  exits := exits_eq_step

/-! ## The result -/

/-- The expression is well-formed, and it matches the names, as a whole. -/
theorem matchEnd?_expression : ∃ p, Pattern.read? expression = some p ∧ ∀ text,
    (Matcher.ofPattern p).matchEnd? text = if isName text then some text.length else none := by
  obtain ⟨p, hread, hvalues⟩ := Option.map_eq_some_iff.1 read?_expression
  obtain ⟨hautomaton, hanchored⟩ := Prod.mk.injEq .. ▸ hvalues
  refine ⟨p, hread, fun text => ?_⟩
  rw [Matcher.matchEnd?_ofPattern hanchored, hautomaton, recognizes.matchLength?_eq,
    Stage.foldlM_step_start]

end Name

end Edn
