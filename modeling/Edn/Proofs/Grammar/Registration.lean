import Edn.Proofs.Grammar.Anchoring
import Edn.Proofs.Grammar.Filing
import Edn.Proofs.Reading.Places

/-!
# Rules by their registration

Which rule reads a text is told by the calls that added the rules, whatever
was called between.

* `Addition.literal?` and `Addition.delimiter?` are the rules that a call
  brings, and `Grammar.literals_addAll` and `Grammar.delimiters_addAll` say that
  a grammar files them.
* `IsSelected` and `IsOpening` say by the calls alone which rule is the one for
  a text.  Each text has one at most (`IsSelected.eq`, `IsOpening.eq`).
* `selection_by_calls` is the result.  It holds of every engine that reads the
  patterns.  Where the matches at the start of a text are meant, the patterns
  have to stand alone.
-/

namespace Edn

open Filing
open Grammar (byteLength)

/-! ## Calls -/

namespace Addition

/-- The delimiter rule that a call brings; none if a delimiter is empty. -/
def delimiter? : Addition → Option DelimiterRule
  | literal _ _ _ => none
  | delimiters opener closer process =>
    if hopener : opener.toList = [] then none
    else if hcloser : closer.toList = [] then none
    else some ⟨opener.toList, closer.toList, hopener, hcloser, process⟩

/-- Tells whether a call adds a literal of a priority. -/
def hasPriority (priority : Priority) : Addition → Bool
  | literal other _ _ => decide (other = priority)
  | delimiters _ _ _ => false

end Addition

namespace LiteralRule

/-- Literal rules with one key are one rule to a grammar. -/
def key (rule : LiteralRule) : Priority × String :=
  (rule.priority, rule.written)

end LiteralRule

theorem Priority.eq_of_rank_eq {p q : Priority} (h : p.rank = q.rank) : p = q := by
  cases p <;> cases q <;> first | rfl | cases h

/-! ## Filing the rules of calls -/

namespace Grammar

section Calls

variable {engine : Engine} {g : Grammar} {call : Addition}

/-- A literal rule whose pattern is read is filed. -/
theorem addPattern_eq_file {priority : Priority} {written : String} {matcher : Matcher}
    {process : (tag token : String) → Except Error Element}
    (hread : readPattern engine written = .ok matcher) :
    g.addPattern engine priority written process =
      .ok { g with
        literals := file LiteralRule.key LiteralRule.rank g.literals
          ⟨priority, written, matcher, process⟩ } := by
  rw [addPattern, hread, Except.map]
  split
  · next hknown => rw [file_of_known (by simpa [LiteralRule.key] using hknown)]
  · next hnew => rw [file_of_new (by simpa [LiteralRule.key] using hnew), insertLiteral_eq]

/-- A delimiter rule is filed. -/
theorem addDelimiters_eq_file {opener closer : String}
    {process : (tag : String) → (children : List Element) → Except Error Element}
    (hopener : opener.toList ≠ []) (hcloser : closer.toList ≠ []) :
    g.addDelimiters opener closer process =
      .ok { g with
        delimiters := file DelimiterRule.opener DelimiterRule.rank g.delimiters
          ⟨opener.toList, closer.toList, hopener, hcloser, process⟩ } := by
  rw [addDelimiters, dif_pos ⟨hopener, hcloser⟩]
  split
  · next hknown => rw [file_of_known (by simpa using hknown)]
  · next hnew =>
    dsimp only
    rw [file_of_new (by simpa using hnew), insertDelimiter_eq]

theorem literals_afterAdd_of_none (h : call.literal? engine = none) :
    (afterAdd engine g call).literals = g.literals := by
  cases hadd : g.add engine call with
  | error e => rw [afterAdd, hadd]
  | ok next =>
    rw [afterAdd, hadd]
    cases grows_of_add hadd with
    | known => rfl
    | delimiters => rfl
    | literal hread =>
      rw [Addition.literal?, hread] at h
      cases h

theorem literals_afterAdd_of_some {rule : LiteralRule} (h : call.literal? engine = some rule) :
    (afterAdd engine g call).literals = file LiteralRule.key LiteralRule.rank g.literals rule := by
  cases call with
  | delimiters opener closer process => cases h
  | literal priority written process =>
    rw [Addition.literal?] at h
    split at h
    · next matcher hread =>
      cases h
      rw [afterAdd, add, addPattern_eq_file hread]
    · cases h

theorem delimiters_afterAdd_of_none (h : call.delimiter? = none) :
    (afterAdd engine g call).delimiters = g.delimiters := by
  cases hadd : g.add engine call with
  | error e => rw [afterAdd, hadd]
  | ok next =>
    rw [afterAdd, hadd]
    cases grows_of_add hadd with
    | known => rfl
    | literal => rfl
    | delimiters hopener hcloser =>
      rw [Addition.delimiter?, dif_neg hopener, dif_neg hcloser] at h
      cases h

theorem delimiters_afterAdd_of_some {rule : DelimiterRule} (h : call.delimiter? = some rule) :
    (afterAdd engine g call).delimiters =
      file DelimiterRule.opener DelimiterRule.rank g.delimiters rule := by
  cases call with
  | literal priority written process => cases h
  | delimiters opener closer process =>
    rw [Addition.delimiter?] at h
    split at h
    · cases h
    · next hopener =>
      split at h
      · cases h
      · next hcloser =>
        cases h
        rw [afterAdd, add, addDelimiters_eq_file hopener hcloser]

theorem addAll_append_singleton (calls : List Addition) (call : Addition) :
    g.addAll engine (calls ++ [call]) = afterAdd engine (g.addAll engine calls) call := by
  rw [addAll, List.foldl_append]
  rfl

end Calls

/-- A grammar files the literal rules of its calls. -/
theorem literals_addAll (engine : Engine) (calls : List Addition) :
    (empty.addAll engine calls).literals =
      fileAll (Addition.literal? engine) LiteralRule.key LiteralRule.rank calls := by
  induction calls using List.reverseRecOn with
  | nil => rfl
  | append_singleton calls call ih =>
    rw [addAll_append_singleton]
    cases hliteral : call.literal? engine with
    | none => rw [literals_afterAdd_of_none hliteral, fileAll_append_of_none hliteral, ih]
    | some rule => rw [literals_afterAdd_of_some hliteral, fileAll_append_of_some hliteral, ih]

/-- It files their delimiter rules, too. -/
theorem delimiters_addAll (engine : Engine) (calls : List Addition) :
    (empty.addAll engine calls).delimiters =
      fileAll Addition.delimiter? DelimiterRule.opener DelimiterRule.rank calls := by
  induction calls using List.reverseRecOn with
  | nil => rfl
  | append_singleton calls call ih =>
    rw [addAll_append_singleton]
    cases hdelimiter : call.delimiter? with
    | none => rw [delimiters_afterAdd_of_none hdelimiter, fileAll_append_of_none hdelimiter, ih]
    | some rule =>
      rw [delimiters_afterAdd_of_some hdelimiter, fileAll_append_of_some hdelimiter, ih]

end Grammar

/-! ## Selection by calls -/

/-- The call with the given number is the first that adds the literal rule. -/
abbrev IsRegistered (engine : Engine) (calls : List Addition) (n : Nat) (rule : LiteralRule) : Prop :=
  IsFirst (Addition.literal? engine) LiteralRule.key calls n rule

/-- The call with the given number is the first that adds the delimiter rule. -/
abbrev IsDelimiter (calls : List Addition) (n : Nat) (rule : DelimiterRule) : Prop :=
  IsFirst Addition.delimiter? DelimiterRule.opener calls n rule

/-- Of the registered rules, given the lengths of their matches, none has a match that is not empty,
or one is selected: its match is the longest, and of the rules with such a match it has the
strongest priority, and then the earliest call. -/
def IsSelected (engine : Engine) (calls : List Addition) (lengthOf : LiteralRule → Option Nat) :
    Option (LiteralRule × Nat) → Prop
  | none => ∀ m other, IsRegistered engine calls m other → ∀ taken ∈ lengthOf other, taken = 0
  | some (rule, length) =>
    0 < length ∧ lengthOf rule = some length ∧ ∃ n, IsRegistered engine calls n rule ∧
      ∀ m other, IsRegistered engine calls m other → ∀ taken ∈ lengthOf other,
        taken < length ∨ taken = length ∧
          (rule.rank < other.rank ∨ rule.rank = other.rank ∧ n ≤ m)

/-- No registered opening delimiter starts a text, or one is the longest that does. -/
def IsOpening (calls : List Addition) (input : List Char) : Option DelimiterRule → Prop
  | none => ∀ m other, IsDelimiter calls m other → ¬ other.opener <+: input
  | some rule =>
    (∃ n, IsDelimiter calls n rule) ∧ rule.opener <+: input ∧
      ∀ m other, IsDelimiter calls m other → other.opener <+: input →
        byteLength other.opener ≤ byteLength rule.opener

section Selection

variable {engine : Engine} {calls : List Addition} {input : List Char}

/-- One rule is selected at most. -/
theorem IsSelected.eq {lengthOf : LiteralRule → Option Nat}
    {found found' : Option (LiteralRule × Nat)} (h : IsSelected engine calls lengthOf found)
    (h' : IsSelected engine calls lengthOf found') :
    found = found' := by
  cases found with
  | none =>
    cases found' with
    | none => rfl
    | some other =>
      obtain ⟨hpos, hlength, n, hother, -⟩ := h'
      exact absurd (h n _ hother _ hlength) (Nat.ne_of_gt hpos)
  | some first =>
    obtain ⟨hpos, hlength, n, hfirst, hbest⟩ := h
    cases found' with
    | none => exact absurd (h' n _ hfirst _ hlength) (Nat.ne_of_gt hpos)
    | some other =>
      obtain ⟨-, hlength', m, hother, hbest'⟩ := h'
      have hle := hbest m _ hother _ hlength'
      have hle' := hbest' n _ hfirst _ hlength
      obtain ⟨rule, length⟩ := first
      obtain ⟨rule', length'⟩ := other
      dsimp only at *
      obtain rfl : n = m := by omega
      obtain rfl := hfirst.rule_eq hother
      obtain rfl : length = length' := by omega
      rfl

/-- A rule without a match is not selected. -/
theorem not_isSelected_of_eq_none {lengthOf : LiteralRule → Option Nat}
    {found : Option (LiteralRule × Nat)}
    (h : found.map (fun found => lengthOf found.1) = some none) :
    ¬ IsSelected engine calls lengthOf found := by
  obtain ⟨⟨rule, length⟩, rfl, hnone⟩ := Option.map_eq_some_iff.1 h
  rintro ⟨-, hlength, -⟩
  cases hnone.symm.trans hlength

/-- Nothing but the lengths of the matches of registered rules matters. -/
theorem isSelected_congr {lengthOf lengthOf' : LiteralRule → Option Nat}
    (h : ∀ n rule, IsRegistered engine calls n rule → lengthOf rule = lengthOf' rule)
    (found : Option (LiteralRule × Nat)) :
    IsSelected engine calls lengthOf found ↔ IsSelected engine calls lengthOf' found := by
  have one_way : ∀ {lengthOf lengthOf' : LiteralRule → Option Nat},
      (∀ n rule, IsRegistered engine calls n rule → lengthOf rule = lengthOf' rule) →
        IsSelected engine calls lengthOf found → IsSelected engine calls lengthOf' found := by
    intro lengthOf lengthOf' h hfound
    cases found with
    | none => exact fun m other hother => h m other hother ▸ hfound m other hother
    | some found =>
      obtain ⟨hpos, hlength, n, hrule, hbest⟩ := hfound
      exact ⟨hpos, h n _ hrule ▸ hlength, n, hrule,
        fun m other hother => h m other hother ▸ hbest m other hother⟩
  exact ⟨one_way h, one_way fun n rule hrule => (h n rule hrule).symm⟩

/-- A grammar selects the rule that the calls tell. -/
theorem isSelected_longestMatch? :
    IsSelected engine calls (fun rule => rule.matcher.matchEnd? input)
      ((Grammar.empty.addAll engine calls).longestMatch? input) := by
  have hmem : ∀ {rule}, rule ∈ (Grammar.empty.addAll engine calls).literals ↔
      ∃ n, IsRegistered engine calls n rule := by
    intro rule
    rw [Grammar.literals_addAll]
    exact mem_fileAll_iff
  have hbest := Grammar.isBest_longestMatch? (Grammar.empty.addAll engine calls) input
  cases hmatch : (Grammar.empty.addAll engine calls).longestMatch? input with
  | none =>
    rw [hmatch] at hbest
    exact fun m other hother => hbest other (hmem.2 ⟨m, hother⟩)
  | some found =>
    obtain ⟨rule, length⟩ := found
    rw [hmatch] at hbest
    obtain ⟨hle, before, after, hsplit, hlength, hbefore⟩ := hbest
    have horder : (fileAll (Addition.literal? engine) LiteralRule.key LiteralRule.rank calls).Pairwise
        (Precedes (Addition.literal? engine) LiteralRule.key LiteralRule.rank calls) := pairwise_fileAll
    rw [← Grammar.literals_addAll, hsplit, List.pairwise_append, List.pairwise_cons] at horder
    obtain ⟨n, hn⟩ := hmem.1 (Grammar.mem_of_longestMatch? hmatch)
    refine ⟨Grammar.longestMatch?_pos hmatch, hlength, n, hn, fun m other hother taken htaken => ?_⟩
    have hfiled := hmem.2 ⟨m, hother⟩
    rw [hsplit, List.mem_append, List.mem_cons] at hfiled
    rcases hfiled with hfiled | rfl | hfiled
    · exact .inl (hbefore other hfiled taken htaken)
    · cases Option.some.inj (hlength.symm.trans htaken)
      exact .inr ⟨rfl, .inr ⟨rfl, Nat.le_of_eq (hn.number_eq hother rfl)⟩⟩
    · -- what stands behind the selected rule is weaker, or was called later
      have htakenLe := hle other (hmem.2 ⟨m, hother⟩) taken htaken
      obtain ⟨n', m', hn', hm', hprecedes⟩ := horder.2.1.1 other hfiled
      obtain rfl := hn.number_eq hn' rfl
      obtain rfl := hother.number_eq hm' rfl
      rcases Nat.lt_or_eq_of_le htakenLe with hlt | heq
      · exact .inl hlt
      · exact .inr ⟨heq, hprecedes.imp_right fun h => ⟨h.1, Nat.le_of_lt h.2⟩⟩

/-- Texts of the same length in bytes that start one text are equal. -/
theorem eq_of_prefix_of_byteLength {first second : List Char} (hfirst : first <+: input)
    (hsecond : second <+: input) (h : byteLength first = byteLength second) : first = second := by
  have equal : ∀ {first second : List Char}, first <+: second →
      byteLength first = byteLength second → first = second := by
    rintro first _ ⟨more, rfl⟩ h
    have hmore := Grammar.length_le_byteLength more
    rw [Grammar.byteLength_append] at h
    rw [List.length_eq_zero_iff.1 (by omega : more.length = 0), List.append_nil]
  rcases List.prefix_or_prefix_of_prefix hfirst hsecond with hprefix | hprefix
  · exact equal hprefix h
  · exact (equal hprefix h.symm).symm

/-- One opening delimiter is found at most. -/
theorem IsOpening.eq {found found' : Option DelimiterRule} (h : IsOpening calls input found)
    (h' : IsOpening calls input found') : found = found' := by
  cases found with
  | none =>
    cases found' with
    | none => rfl
    | some other =>
      obtain ⟨⟨n, hother⟩, hprefix, -⟩ := h'
      exact absurd hprefix (h n other hother)
  | some rule =>
    obtain ⟨⟨n, hrule⟩, hprefix, hlongest⟩ := h
    cases found' with
    | none => exact absurd hprefix (h' n rule hrule)
    | some other =>
      obtain ⟨⟨m, hother⟩, hprefix', hlongest'⟩ := h'
      have hopener : rule.opener = other.opener :=
        eq_of_prefix_of_byteLength hprefix hprefix'
          (Nat.le_antisymm (hlongest' n rule hrule hprefix) (hlongest m other hother hprefix'))
      obtain rfl := hrule.number_eq hother hopener
      rw [hrule.rule_eq hother]

/-- A grammar finds the opening delimiter that the calls tell. -/
theorem isOpening_opening? :
    IsOpening calls input ((Grammar.empty.addAll engine calls).opening? input) := by
  have hmem : ∀ {rule}, rule ∈ (Grammar.empty.addAll engine calls).delimiters ↔
      ∃ n, IsDelimiter calls n rule := by
    intro rule
    rw [Grammar.delimiters_addAll]
    exact mem_fileAll_iff
  cases hopening : (Grammar.empty.addAll engine calls).opening? input with
  | none =>
    intro m other hother hprefix
    have := List.find?_eq_none.1 hopening other (hmem.2 ⟨m, hother⟩)
    exact this (List.isPrefixOf_iff_prefix.2 hprefix)
  | some rule =>
    obtain ⟨-, before, after, hsplit, hbefore⟩ := List.find?_eq_some_iff_append.1 hopening
    have horder :
        (fileAll Addition.delimiter? DelimiterRule.opener DelimiterRule.rank calls).Pairwise
          (Precedes Addition.delimiter? DelimiterRule.opener DelimiterRule.rank calls) :=
      pairwise_fileAll
    rw [← Grammar.delimiters_addAll, hsplit, List.pairwise_append, List.pairwise_cons] at horder
    refine ⟨hmem.1 (List.mem_of_find?_eq_some hopening),
      Grammar.opener_prefix_of_opening? hopening, fun m other hother hprefix => ?_⟩
    have hfiled := hmem.2 ⟨m, hother⟩
    rw [hsplit, List.mem_append, List.mem_cons] at hfiled
    rcases hfiled with hfiled | rfl | hfiled
    · have hnot := hbefore other hfiled
      rw [List.isPrefixOf_iff_prefix.2 hprefix] at hnot
      cases hnot
    · exact Nat.le_refl _
    · exact (horder.2.1.1 other hfiled).rank_le

/-! ## Interleaving -/

/-- Calls that are the same within each priority register the same literals in the same order. -/
theorem literals_eq_of_filter_eq {others : List Addition}
    (h : ∀ priority, calls.filter (·.hasPriority priority) =
      others.filter (·.hasPriority priority)) :
    (Grammar.empty.addAll engine calls).literals = (Grammar.empty.addAll engine others).literals := by
  rw [Grammar.literals_addAll, Grammar.literals_addAll]
  refine fileAll_eq_of_filter_eq (fun a b hkey => ?_) fun rule => ?_
  · have hpriority : a.priority = b.priority := (Prod.ext_iff.1 hkey).1
    rw [LiteralRule.rank, LiteralRule.rank, hpriority]
  · -- a call that brings a rule of the rank has its priority
    have hfilter : ∀ calls : List Addition,
        (calls.filter fun call => (call.literal? engine).any fun other => other.rank = rule.rank) =
          (calls.filter (·.hasPriority rule.priority)).filter fun call =>
            (call.literal? engine).any fun other => other.rank = rule.rank := by
      intro calls
      rw [List.filter_filter]
      refine List.filter_congr fun call _ => ?_
      cases call with
      | delimiters opener closer process => rfl
      | literal priority written process =>
        rw [Addition.literal?, Addition.hasPriority]
        split
        · rw [Option.any_some, Bool.eq_iff_iff, Bool.and_eq_true, decide_eq_true_eq,
            decide_eq_true_eq]
          exact ⟨fun h => ⟨h, Priority.eq_of_rank_eq h⟩, And.left⟩
        · rfl
    rw [hfilter, hfilter others, h]

end Selection

/-! ## The result -/

/-- Whichever engine reads the patterns, the calls tell which rule reads a text.  A literal rule is
selected by the ends of the first matches in the text.  These are matches at its start where all
patterns are read on their own, too, if the engine keeps them in their groups.  The longest opening
delimiter of a text is found.  Calls that are the same within each priority select the same
literals. -/
theorem selection_by_calls (engine : Engine) (calls : List Addition) :
    (∀ input found, (Grammar.empty.addAll engine calls).longestMatch? input = found ↔
        IsSelected engine calls (fun rule => rule.matcher.matchEnd? input) found) ∧
      (engine.Anchors → (∀ call ∈ calls, call.standsAlone engine = true) →
        ∀ input found, (Grammar.empty.addAll engine calls).longestMatch? input = found ↔
          IsSelected engine calls (fun rule => rule.matcher.matchAtStart? input) found) ∧
      (∀ input found, (Grammar.empty.addAll engine calls).opening? input = found ↔
        IsOpening calls input found) ∧
      ∀ others : List Addition,
        (∀ priority, calls.filter (·.hasPriority priority) =
          others.filter (·.hasPriority priority)) →
        ∀ input, (Grammar.empty.addAll engine calls).longestMatch? input =
          (Grammar.empty.addAll engine others).longestMatch? input := by
  have hselected : ∀ input found, (Grammar.empty.addAll engine calls).longestMatch? input = found ↔
      IsSelected engine calls (fun rule => rule.matcher.matchEnd? input) found := fun input found =>
    ⟨fun h => h ▸ isSelected_longestMatch?, fun h => isSelected_longestMatch?.eq h⟩
  refine ⟨hselected, fun law halone input found => ?_, fun input found => ?_,
    fun others h input => ?_⟩
  · have hstart : ∀ n rule, IsRegistered engine calls n rule →
        rule.matcher.matchEnd? input = rule.matcher.matchAtStart? input := by
      intro n rule hrule
      obtain ⟨call, hcall, hliteral⟩ := hrule.exists_call
      have hcalled := halone call (List.mem_of_getElem? hcall)
      exact Matcher.matchEnd?_eq_matchAtStart?
        (Addition.start_eq_zero_of_standsAlone law hcalled hliteral input)
    rw [hselected, isSelected_congr hstart]
  · exact ⟨fun h => h ▸ isOpening_opening?, fun h => isOpening_opening?.eq h⟩
  · rw [Grammar.longestMatch?, Grammar.longestMatch?, literals_eq_of_filter_eq h]

/-- A rule that reads no value. -/
def readsNothing (_ _ : String) : Except Error Element :=
  .error (.invalidElement "no value")

/-- Calls with a pattern that is refused and one that is repeated. -/
def wordCalls : List Addition :=
  [.literal .symbol "[a-z]+" readsNothing, .literal .symbol "(" readsNothing,
    .literal .integer "xy" readsNothing, .literal .symbol "[a-z]+" readsNothing]

/-- The same calls within each priority. -/
def wordCallsApart : List Addition :=
  [.literal .integer "xy" readsNothing, .literal .symbol "[a-z]+" readsNothing,
    .literal .symbol "(" readsNothing, .literal .symbol "[a-z]+" readsNothing]

theorem selection_by_calls_words :
    ((Grammar.empty.addAll .automata wordCalls).longestMatch? ['x', 'y', ' ']).map
        (fun found => (found.1.written, found.2)) = some ("xy", 2) ∧
      (Engine.automata.Anchors ∧ (∀ call ∈ wordCalls, call.standsAlone .automata = true) ∧
        IsSelected .automata wordCalls (fun rule => rule.matcher.matchAtStart? ['x', 'y', ' '])
          ((Grammar.empty.addAll .automata wordCalls).longestMatch? ['x', 'y', ' '])) ∧
      (∀ priority, wordCalls.filter (·.hasPriority priority) =
          wordCallsApart.filter (·.hasPriority priority)) ∧
        (Grammar.empty.addAll .automata wordCalls).longestMatch? ['x', 'y', ' '] =
          (Grammar.empty.addAll .automata wordCallsApart).longestMatch? ['x', 'y', ' '] := by
  obtain ⟨-, hselected, -, hsame⟩ := selection_by_calls .automata wordCalls
  have halone : ∀ call ∈ wordCalls, call.standsAlone .automata = true := by decide +kernel
  have hfilter : ∀ priority, wordCalls.filter (·.hasPriority priority) =
      wordCallsApart.filter (·.hasPriority priority) := by
    intro priority
    cases priority <;> rfl
  refine ⟨by decide +kernel, ⟨Engine.anchors_automata, halone, ?_⟩, hfilter,
    hsame wordCallsApart hfilter ['x', 'y', ' ']⟩
  rw [← hselected Engine.anchors_automata halone]

/-- Calls with a pattern that is well-formed in a group only, where it ends the group. -/
def strayCalls : List Addition :=
  [.literal .symbol "a)|(?:b" readsNothing, .literal .symbol "x" readsNothing]

/-- A pattern that ends its group is selected by a match that is not at the start of the text, in
place of a rule that has one. -/
theorem not_isSelected_stray :
    ((Grammar.empty.addAll .automata strayCalls).longestMatch? ['x', 'b']).map (fun found =>
        (found.1.written, found.2, found.1.matcher.matchAtStart? ['x', 'b'])) =
          some ("a)|(?:b", 2, none) ∧
      ¬ IsSelected .automata strayCalls (fun rule => rule.matcher.matchAtStart? ['x', 'b'])
        ((Grammar.empty.addAll .automata strayCalls).longestMatch? ['x', 'b']) :=
  ⟨by decide +kernel, not_isSelected_of_eq_none (by decide +kernel)⟩

end Edn
