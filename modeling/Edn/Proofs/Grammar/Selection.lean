import Edn.Grammar

/-!
# Selecting a rule

The rules are tried one after the other, and a rule takes the place of the
best one so far only if it takes more.

* `IsBest` says what is best among the rules that were tried, and
  `isBest_longestMatch?` is the invariant of the search at its end.
* `longestMatch?_of_split`: a rule is selected if no rule before it takes as
  much and none behind it takes more.
* `exists_split_of_longestMatch?`: no other rule is selected.
  `lt_of_longestMatch?` says so of the rules in front of it.
* `longestMatch?_congr`: nothing but the lengths of the matches matters.
* `opener_prefix_of_opening?` and `closer_prefix_of_closing?`: a delimiter
  that is found starts the text.
-/

namespace Edn.Grammar

/-! ## The best rule -/

/-- After some rules, the best one is the first of those that take the most. -/
def IsBest (input : List Char) (tried : List LiteralRule) : Option (LiteralRule × Nat) → Prop
  | none => ∀ other ∈ tried, ∀ n ∈ other.matcher.matchEnd? input, n = 0
  | some (rule, length) =>
    (∀ other ∈ tried, ∀ n ∈ other.matcher.matchEnd? input, n ≤ length) ∧
      ∃ before after, tried = before ++ rule :: after ∧
        rule.matcher.matchEnd? input = some length ∧
          ∀ other ∈ before, ∀ n ∈ other.matcher.matchEnd? input, n < length

theorem isBest_longer {input : List Char} {tried : List LiteralRule}
    {best : Option (LiteralRule × Nat)} (h : IsBest input tried best) (rule : LiteralRule) :
    IsBest input (tried ++ [rule]) (longer input best rule) := by
  unfold longer
  cases hend : rule.matcher.matchEnd? input with
  | none =>
    cases best with
    | none => exact List.forall_mem_append.2 ⟨h, by simp [hend]⟩
    | some found =>
      obtain ⟨hle, before, after, rfl, hrule, hbefore⟩ := h
      exact ⟨List.forall_mem_append.2 ⟨hle, by simp [hend]⟩, before, after ++ [rule], by simp,
        hrule, hbefore⟩
  | some length =>
    cases best with
    | none =>
      dsimp only
      split
      · next hpos =>
        refine ⟨List.forall_mem_append.2 ⟨fun other hother n hn => ?_, by simp [hend]⟩, tried, [],
          rfl, hend, fun other hother n hn => ?_⟩
        · exact h other hother n hn ▸ Nat.zero_le _
        · exact h other hother n hn ▸ hpos
      · next hpos =>
        refine List.forall_mem_append.2 ⟨h, ?_⟩
        simp only [List.mem_singleton, forall_eq, hend, Option.mem_some_iff, forall_eq']
        omega
    | some found =>
      obtain ⟨hle, before, after, rfl, hrule, hbefore⟩ := h
      dsimp only
      split
      · next hlt =>
        refine ⟨List.forall_mem_append.2 ⟨fun other hother n hn => ?_, by simp [hend]⟩, _, [], rfl,
          hend, fun other hother n hn => ?_⟩
        · exact Nat.le_of_lt (Nat.lt_of_le_of_lt (hle other hother n hn) hlt)
        · exact Nat.lt_of_le_of_lt (hle other hother n hn) hlt
      · next hlt =>
        refine ⟨List.forall_mem_append.2 ⟨hle, ?_⟩, before, after ++ [rule], by simp, hrule,
          hbefore⟩
        simp only [List.mem_singleton, forall_eq, hend, Option.mem_some_iff, forall_eq']
        omega

theorem isBest_longestMatch? (g : Grammar) (input : List Char) :
    IsBest input g.literals (g.longestMatch? input) := by
  have all : ∀ (rules tried : List LiteralRule) (best : Option (LiteralRule × Nat)),
      IsBest input tried best → IsBest input (tried ++ rules) (rules.foldl (longer input) best) := by
    intro rules
    induction rules with
    | nil =>
      intro tried best h
      rwa [List.append_nil]
    | cons rule rest ih =>
      intro tried best h
      rw [List.append_cons]
      exact ih _ _ (isBest_longer h rule)
  exact all g.literals [] none (List.forall_mem_nil _)

/-! ## The selected rule -/

/-- No rule in front of the selected one takes as much. -/
theorem exists_split_of_longestMatch? {g : Grammar} {input : List Char} {rule : LiteralRule}
    {length : Nat} (h : g.longestMatch? input = some (rule, length)) :
    ∃ before after, g.literals = before ++ rule :: after ∧
      rule.matcher.matchEnd? input = some length ∧
        ∀ other ∈ before, ∀ n ∈ other.matcher.matchEnd? input, n < length := by
  have hbest := isBest_longestMatch? g input
  rw [h] at hbest
  exact hbest.2

/-- The selected rule is one of the grammar. -/
theorem mem_of_longestMatch? {g : Grammar} {input : List Char} {rule : LiteralRule} {length : Nat}
    (h : g.longestMatch? input = some (rule, length)) : rule ∈ g.literals := by
  obtain ⟨before, after, hsplit, -⟩ := exists_split_of_longestMatch? h
  rw [hsplit]
  exact List.mem_append_right _ List.mem_cons_self

/-- The selected rule takes as much of the text as is told. -/
theorem matchEnd?_of_longestMatch? {g : Grammar} {input : List Char} {rule : LiteralRule}
    {length : Nat} (h : g.longestMatch? input = some (rule, length)) :
    rule.matcher.matchEnd? input = some length := by
  obtain ⟨-, -, -, hend, -⟩ := exists_split_of_longestMatch? h
  exact hend

/-- No rule takes more than the selected one. -/
theorem le_of_longestMatch? {g : Grammar} {input : List Char} {rule : LiteralRule} {length : Nat}
    (h : g.longestMatch? input = some (rule, length)) :
    ∀ other ∈ g.literals, ∀ n ∈ other.matcher.matchEnd? input, n ≤ length := by
  have hbest := isBest_longestMatch? g input
  rw [h] at hbest
  exact hbest.1

/-- The rules that stand in front of every rule with the selected pattern take less. -/
theorem lt_of_longestMatch? {g : Grammar} {input : List Char} {rule other : LiteralRule}
    {length : Nat} (h : g.longestMatch? input = some (rule, length))
    (hother : other ∈ g.literals.takeWhile fun r => r.written != rule.written) :
    ∀ n ∈ other.matcher.matchEnd? input, n < length := by
  obtain ⟨before, after, hsplit, -, hbefore⟩ := exists_split_of_longestMatch? h
  refine hbefore other ?_
  rw [hsplit] at hother
  clear hsplit hbefore
  induction before with
  | nil => simp at hother
  | cons first before ih =>
    rw [List.cons_append, List.takeWhile_cons] at hother
    split at hother
    · rcases List.mem_cons.1 hother with rfl | hother
      · exact List.mem_cons_self
      · exact List.mem_cons_of_mem _ (ih hother)
    · cases hother

/-- A rule is selected if no rule before it takes as much and no rule behind it takes more. -/
theorem longestMatch?_of_split {g : Grammar} (before : List LiteralRule) {after : List LiteralRule}
    {rule : LiteralRule} {input : List Char} {length : Nat} (hg : g.literals = before ++ rule :: after)
    (hpos : 0 < length) (hrule : rule.matcher.matchEnd? input = some length)
    (hbefore : ∀ other ∈ before, ∀ n ∈ other.matcher.matchEnd? input, n < length)
    (hafter : ∀ other ∈ after, ∀ n ∈ other.matcher.matchEnd? input, n ≤ length) :
    g.longestMatch? input = some (rule, length) := by
  have hbest := isBest_longestMatch? g input
  rw [hg] at hbest
  cases hmatch : g.longestMatch? input with
  | none =>
    rw [hmatch] at hbest
    have := hbest rule (by simp) length hrule
    omega
  | some found =>
    obtain ⟨other, most⟩ := found
    rw [hmatch] at hbest
    obtain ⟨hle, first, last, hsplit, hother, hfirst⟩ := hbest
    have hlength : length ≤ most := hle rule (by simp) length hrule
    -- neither of the two stands in front of the other
    obtain ⟨rfl, rfl, rfl⟩ : before = first ∧ rule = other ∧ after = last := by
      rcases List.append_eq_append_iff.1 hsplit with ⟨mid, rfl, heq⟩ | ⟨mid, rfl, heq⟩
      · cases mid with
        | nil => simpa using heq
        | cons head mid =>
          obtain ⟨rfl, rfl⟩ := List.cons.inj heq
          have := hfirst rule (by simp) length hrule
          have := hafter other (by simp) most hother
          omega
      · cases mid with
        | nil => simpa [eq_comm] using heq
        | cons head mid =>
          obtain ⟨rfl, rfl⟩ := List.cons.inj heq
          have := hbefore other (by simp) most hother
          omega
    rw [hother] at hrule
    cases hrule
    rfl

/-- Texts of which every rule takes the same have the same rule selected. -/
theorem longestMatch?_congr {g : Grammar} {first second : List Char}
    (h : ∀ rule ∈ g.literals, rule.matcher.matchEnd? first = rule.matcher.matchEnd? second) :
    g.longestMatch? first = g.longestMatch? second := by
  have all : ∀ (rules : List LiteralRule) (best : Option (LiteralRule × Nat)),
      (∀ rule ∈ rules, rule.matcher.matchEnd? first = rule.matcher.matchEnd? second) →
      rules.foldl (longer first) best = rules.foldl (longer second) best := by
    intro rules
    induction rules with
    | nil =>
      intro best _
      rfl
    | cons rule rest ih =>
      intro best h
      obtain ⟨hrule, hrest⟩ := List.forall_mem_cons.1 h
      have hlonger : longer first best rule = longer second best rule := by
        unfold longer
        rw [hrule]
      rw [List.foldl_cons, List.foldl_cons, hlonger, ih _ hrest]
  exact all g.literals none h

/-! ## Delimiters -/

theorem opener_prefix_of_opening? {g : Grammar} {input : List Char} {rule : DelimiterRule}
    (h : g.opening? input = some rule) : rule.opener <+: input := by
  have hrule := List.find?_some h
  exact List.isPrefixOf_iff_prefix.1 hrule

theorem closer_prefix_of_closing? {g : Grammar} {input : List Char} {rule : DelimiterRule}
    (h : g.closing? input = some rule) : rule.closer <+: input := by
  have hrule := List.find?_some h
  exact List.isPrefixOf_iff_prefix.1 hrule

end Edn.Grammar
