import Edn.Proofs.Grammar.Filing
import Edn.Proofs.Grammar.Rules
import Edn.Proofs.Grammar.Selection

/-!
# Adding rules

A grammar is built by adding rules to it, one after the other.

* `Addition` is a rule as it is handed to a grammar, and `addAll` adds a list
  of them.  `IsBuilt` says that a grammar comes about in this way.  The patterns
  are read by one engine, whichever it is.
* `insertLiteral_eq` and `insertDelimiter_eq`: rules are kept in the order of
  their ranks.
* `grows_of_add` is the step: an addition that succeeds changes nothing, if the
  grammar knows the rule, or puts one new rule in its place.
* `IsBuilt.isOrdered` is the invariant of a run: rules with longer opening
  delimiters stand in front.
* `longestMatch?_insertLiteral`, `opening?_insertDelimiter` and
  `closing?_insertDelimiter`: a rule that finds nothing in a text changes
  nothing there.
-/

namespace Edn

/-- A rule as it is handed to a grammar. -/
inductive Addition where
  | literal (priority : Priority) (written : String)
      (process : (tag token : String) → Except Error Element)
  | delimiters (opener closer : String)
      (process : (tag : String) → (children : List Element) → Except Error Element)

/-- The rank of a literal rule. -/
def LiteralRule.rank (rule : LiteralRule) : Nat :=
  rule.priority.rank

/-- The rank of a delimiter rule: longer opening delimiters have smaller ranks. -/
def DelimiterRule.rank (rule : DelimiterRule) : Natᵒᵈ :=
  .toDual (Grammar.byteLength rule.opener)

namespace Grammar

/-- Adds a rule. -/
def add (g : Grammar) (engine : Engine) : Addition → Except Error Grammar
  | .literal priority written process => g.addPattern engine priority written process
  | .delimiters opener closer process => g.addDelimiters opener closer process

/-- The grammar after an addition.  One that is refused changes nothing. -/
def afterAdd (engine : Engine) (g : Grammar) (addition : Addition) : Grammar :=
  match g.add engine addition with
  | .ok next => next
  | .error _ => g

/-- Adds rules one after the other. -/
def addAll (g : Grammar) (engine : Engine) (additions : List Addition) : Grammar :=
  additions.foldl (afterAdd engine) g

/-- The grammar comes about by adding rules to the empty grammar or to that of the notation. -/
def IsBuilt (g : Grammar) (engine : Engine) : Prop :=
  ∃ base additions, (base = empty ∨ addStandard engine = .ok base) ∧
    g = base.addAll engine additions

/-- A rule with the same priority and pattern is there, or one with the same opening delimiter. -/
def Knows (g : Grammar) : Addition → Prop
  | .literal priority written _ =>
    ∃ rule ∈ g.literals, rule.priority = priority ∧ rule.written = written
  | .delimiters opener _ _ => ∃ rule ∈ g.delimiters, rule.opener = opener.toList

theorem isBuilt_standard : standard.IsBuilt .automata := by
  have hstandard : addStandard .automata = .ok standard := by rw [addStandard_eq, standard_eq]
  exact ⟨standard, [], .inr hstandard, List.foldl_nil.symm⟩

variable {engine : Engine}

theorem IsBuilt.add {g next : Grammar} {addition : Addition} (hg : g.IsBuilt engine)
    (hadd : g.add engine addition = .ok next) : next.IsBuilt engine := by
  obtain ⟨base, additions, hbase, rfl⟩ := hg
  refine ⟨base, additions ++ [addition], hbase, ?_⟩
  simp only [addAll, List.foldl_append, List.foldl_cons, List.foldl_nil] at hadd ⊢
  rw [afterAdd, hadd]

/-! ## Places of new rules -/

/-- A new literal rule is put in its place by its rank. -/
theorem insertLiteral_eq (new : LiteralRule) (rules : List LiteralRule) :
    insertLiteral new rules = rules.orderedInsert (fun a b => a.rank < b.rank) new := by
  induction rules with
  | nil => rfl
  | cons rule rest ih =>
    rw [insertLiteral, List.orderedInsert_cons, ih]
    rfl

/-- So is a new delimiter rule. -/
theorem insertDelimiter_eq (new : DelimiterRule) (rules : List DelimiterRule) :
    insertDelimiter new rules = rules.orderedInsert (fun a b => a.rank < b.rank) new := by
  induction rules with
  | nil => rfl
  | cons rule rest ih =>
    rw [insertDelimiter, List.orderedInsert_cons, ih]
    rfl

/-! ## One addition -/

/-- What an addition makes of a grammar. -/
inductive Grows (engine : Engine) (g : Grammar) : Addition → Grammar → Prop where
  | known {addition : Addition} (hknown : g.Knows addition) : Grows engine g addition g
  | literal {priority : Priority} {written : String}
      {process : (tag token : String) → Except Error Element} {matcher : Matcher}
      (hread : readPattern engine written = .ok matcher) :
      Grows engine g (.literal priority written process)
        { g with literals := insertLiteral ⟨priority, written, matcher, process⟩ g.literals }
  | delimiters {opener closer : String}
      {process : (tag : String) → (children : List Element) → Except Error Element}
      (hopener : opener.toList ≠ []) (hcloser : closer.toList ≠ []) :
      Grows engine g (.delimiters opener closer process)
        { g with
          delimiters := insertDelimiter ⟨opener.toList, closer.toList, hopener, hcloser, process⟩
            g.delimiters }

/-- An addition that succeeds changes nothing or adds one rule. -/
theorem grows_of_add {g next : Grammar} {addition : Addition}
    (h : g.add engine addition = .ok next) : Grows engine g addition next := by
  cases addition with
  | literal priority written process =>
    simp only [add, addPattern] at h
    split at h
    · next hany =>
      cases h
      apply Grows.known
      simpa [Knows] using hany
    · cases hread : readPattern engine written with
      | error e =>
        rw [hread] at h
        cases h
      | ok matcher =>
        rw [hread] at h
        cases h
        exact .literal hread
  | delimiters opener closer process =>
    simp only [add, addDelimiters] at h
    split at h
    · next hne =>
      split at h
      · next hany =>
        cases h
        apply Grows.known
        simpa [Knows] using hany
      · cases h
        exact .delimiters hne.1 hne.2
    · cases h

/-- A rule that is there is not added again. -/
theorem eq_of_add_of_knows {g next : Grammar} {addition : Addition} (hknown : g.Knows addition)
    (h : g.add engine addition = .ok next) : next = g := by
  cases addition with
  | literal priority written process =>
    have hany : (g.literals.any fun rule =>
        rule.priority == priority && rule.written == written) = true := by
      simpa [Knows] using hknown
    rw [add, addPattern, if_pos hany] at h
    exact (Except.ok.inj h).symm
  | delimiters opener closer process =>
    have hany : (g.delimiters.any fun rule => rule.opener == opener.toList) = true := by
      simpa [Knows] using hknown
    simp only [add, addDelimiters, hany, if_true] at h
    split at h
    · exact (Except.ok.inj h).symm
    · cases h

/-! ## The order of delimiters -/

/-- Rules with longer opening delimiters stand in front. -/
def IsOrdered (g : Grammar) : Prop :=
  g.delimiters.Pairwise fun first second => byteLength second.opener ≤ byteLength first.opener

/-- An addition keeps the order. -/
theorem IsOrdered.add {g next : Grammar} {addition : Addition} (h : g.IsOrdered)
    (hadd : g.add engine addition = .ok next) : next.IsOrdered := by
  cases grows_of_add hadd with
  | known => exact h
  | literal => exact h
  | delimiters hopener hcloser =>
    have hranks : g.delimiters.Pairwise fun first second => first.rank ≤ second.rank := h
    show (insertDelimiter _ g.delimiters).Pairwise fun first second => first.rank ≤ second.rank
    rw [insertDelimiter_eq]
    exact Filing.pairwise_orderedInsert hranks _

theorem IsOrdered.addAll {g : Grammar} (h : g.IsOrdered) (additions : List Addition) :
    (g.addAll engine additions).IsOrdered := by
  induction additions generalizing g with
  | nil => exact h
  | cons addition additions ih =>
    refine ih ?_
    rw [afterAdd]
    split
    · next hadd => exact h.add hadd
    · exact h

theorem eq_addAll_of_foldlM {calls : List Addition} {g next : Grammar}
    (h : calls.foldlM (fun g call => g.add engine call) g = .ok next) :
    next = g.addAll engine calls := by
  induction calls generalizing g with
  | nil =>
    cases h
    rfl
  | cons call calls ih =>
    rw [List.foldlM_cons] at h
    obtain ⟨after, hadd, h⟩ := exists_of_bind h
    rw [ih h, addAll, addAll, List.foldl_cons, afterAdd, hadd]

/-- The calls that add the rules of the notation. -/
def standardCalls : List Addition :=
  standardLiterals.map (fun (priority, written, process) => .literal priority written process) ++
    standardDelimiters.map fun (kind, process) =>
      .delimiters (String.ofList kind.opener) (String.ofList kind.closer) process

/-- The rules of the notation are added by calls, too. -/
theorem eq_addAll_standardCalls {base : Grammar} (h : addStandard engine = .ok base) :
    base = empty.addAll engine standardCalls := by
  refine eq_addAll_of_foldlM ?_
  rw [← h, standardCalls, List.foldlM_append, List.foldlM_map]
  simp only [List.foldlM_map]
  rfl

/-- The grammar of the notation is built from the empty one. -/
theorem isBuilt_iff {g : Grammar} :
    g.IsBuilt engine ↔ ∃ calls, g = empty.addAll engine calls := by
  constructor
  · intro ⟨base, calls, hbase, hg⟩
    rcases hbase with hempty | hstandard
    · exact ⟨calls, by rw [hg, hempty]⟩
    · refine ⟨standardCalls ++ calls, ?_⟩
      rw [hg, eq_addAll_standardCalls hstandard, addAll, addAll, addAll, List.foldl_append]
  · intro ⟨calls, hg⟩
    exact ⟨empty, calls, .inl rfl, hg⟩

/-- In every grammar that is built, rules with longer opening delimiters stand in front. -/
theorem IsBuilt.isOrdered {g : Grammar} (h : g.IsBuilt engine) : g.IsOrdered := by
  obtain ⟨calls, rfl⟩ := isBuilt_iff.1 h
  have hempty : empty.IsOrdered := List.Pairwise.nil
  exact hempty.addAll calls

/-! ## Rules that find nothing -/

section Idle

variable {g : Grammar} {input : List Char}

/-- A rule that takes nothing does not take the place of the best one. -/
theorem longer_of_takesNothing {rule : LiteralRule}
    (h : ∀ n ∈ rule.matcher.matchEnd? input, n = 0) (best : Option (LiteralRule × Nat)) :
    longer input best rule = best := by
  unfold longer
  cases hend : rule.matcher.matchEnd? input with
  | none => rfl
  | some length =>
    have hzero := h length hend
    subst hzero
    cases best <;> simp

theorem longestMatch?_insertLiteral {new : LiteralRule}
    (h : ∀ n ∈ new.matcher.matchEnd? input, n = 0) :
    longestMatch? { g with literals := insertLiteral new g.literals } input =
      g.longestMatch? input := by
  obtain ⟨before, after, hsplit, hinsert, -⟩ :=
    @Filing.exists_split_orderedInsert _ _ _ LiteralRule.rank new g.literals
  simp only [longestMatch?, insertLiteral_eq, hinsert]
  simp only [hsplit, List.foldl_append, List.foldl_cons, longer_of_takesNothing h]

/-- A search passes over a new rule that it does not look for. -/
theorem find?_insertDelimiter {new : DelimiterRule} {p : DelimiterRule → Bool} (h : p new = false)
    (rules : List DelimiterRule) : (insertDelimiter new rules).find? p = rules.find? p := by
  obtain ⟨before, after, hsplit, hinsert, -⟩ :=
    @Filing.exists_split_orderedInsert _ _ _ DelimiterRule.rank new rules
  rw [insertDelimiter_eq, hinsert, hsplit]
  simp [List.find?_append, h]

theorem opening?_insertDelimiter {new : DelimiterRule} (h : ¬ new.opener <+: input) :
    opening? { g with delimiters := insertDelimiter new g.delimiters } input =
      g.opening? input := by
  apply find?_insertDelimiter
  rwa [← Bool.not_eq_true, List.isPrefixOf_iff_prefix]

theorem closing?_insertDelimiter {new : DelimiterRule} (h : ¬ new.closer <+: input) :
    closing? { g with delimiters := insertDelimiter new g.delimiters } input =
      g.closing? input := by
  apply find?_insertDelimiter
  rwa [← Bool.not_eq_true, List.isPrefixOf_iff_prefix]

end Idle

end Grammar

end Edn
