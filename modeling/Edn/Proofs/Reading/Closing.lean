import Edn.Proofs.Grammar.Additions
import Edn.Proofs.Reading.Places
import Edn.Proofs.Reading.Values

/-!
# Closing collections

The scanner looks for closing delimiters in the order of the rules, without a
look at the collection that is open.  Where one delimiter starts with another
one, the first one that is found may be that of another collection.

* `Scans` is a run of the scanner up to some state, and `Scans.rule_mem` its
  invariant: the open collections are those of rules of the grammar.
* `closesInnermost_iff` says when the innermost collection is closed at a place
  where its closing delimiter stands.
* `closesEverywhere_iff`: the innermost collection is closed at all such places
  exactly if no closing delimiter starts another one.
* `closesInnermost_of_isBuilt` is the result for the grammars that are built,
  in which the order of the rules is that of their opening delimiters.
-/

namespace Edn

open Grammar (byteLength standard)

/-! ## Runs -/

/-- The scanner starts at a cursor and comes to some open collections and another cursor. -/
inductive Scans (g : Grammar) (maxDepth : Nat) (start : Cursor) : List Frame → Cursor → Prop where
  | start : Scans g maxDepth start [] start
  | turn {frames inner : List Frame} {k next : Cursor} (hscans : Scans g maxDepth start frames k)
      (hturn : turn g maxDepth frames k = .going inner next) :
      Scans g maxDepth start inner next

section Runs

variable {g : Grammar} {maxDepth : Nat} {frames inner : List Frame} {k next : Cursor}

theorem rule_mem_of_settle {value : Element} (hframes : ∀ frame ∈ frames, frame.rule ∈ g.delimiters)
    (h : settle frames value k = .going inner next) :
    ∀ frame ∈ inner, frame.rule ∈ g.delimiters := by
  cases frames with
  | nil => cases h
  | cons frame outer =>
    cases h
    -- the child that is added leaves the rule of the frame as it is
    simpa [Frame.push] using hframes

theorem rule_mem_of_valueTurn (hframes : ∀ frame ∈ frames, frame.rule ∈ g.delimiters)
    (h : valueTurn g maxDepth frames k = .going inner next) :
    ∀ frame ∈ inner, frame.rule ∈ g.delimiters := by
  unfold valueTurn at h
  split at h
  · cases h
  · split at h
    · next rule hopen =>
      unfold openTurn at h
      split at h
      · cases h
      · cases h
        have hrule : rule ∈ g.delimiters := List.mem_of_find?_eq_some hopen
        simpa [hrule] using hframes
    · unfold literalTurn at h
      split at h
      · cases h
      · split at h
        · cases h
        · exact rule_mem_of_settle hframes h

/-- A step opens collections of rules of the grammar only. -/
theorem rule_mem_of_turn (hframes : ∀ frame ∈ frames, frame.rule ∈ g.delimiters)
    (h : turn g maxDepth frames k = .going inner next) :
    ∀ frame ∈ inner, frame.rule ∈ g.delimiters := by
  unfold turn at h
  split at h
  · exact rule_mem_of_valueTurn hframes h
  · next frame outer =>
    dsimp only at h
    split at h
    · cases h
    · split at h
      · split at h
        · unfold closeTurn at h
          split at h
          · cases h
          · exact rule_mem_of_settle (fun f hf => hframes f (List.mem_cons_of_mem _ hf)) h
        · cases h
      · exact rule_mem_of_valueTurn hframes h

/-- All open collections are those of rules of the grammar. -/
theorem Scans.rule_mem {start : Cursor} (h : Scans g maxDepth start frames k) :
    ∀ frame ∈ frames, frame.rule ∈ g.delimiters := by
  induction h with
  | start => simp
  | turn hscans hturn ih => exact rule_mem_of_turn ih hturn

end Runs

/-! ## One place -/

/-- The innermost collection is closed at a place, behind blanks and comments, by its own closing
delimiter. -/
def ClosesInnermost (g : Grammar) (maxDepth : Nat) (frame : Frame) (outer : List Frame)
    (k : Cursor) : Prop :=
  turn g maxDepth (frame :: outer) k =
    closeTurn frame outer (k.skipTrivia.advance frame.rule.closer.length)

namespace Grammar

/-- A rule of the grammar is tried before another one. -/
def TriesBefore (g : Grammar) (first second : DelimiterRule) : Prop :=
  ∃ before after, g.delimiters = before ++ first :: after ∧ second ∉ before

/-- Where rules stand in order, a rule that is tried before another one has no shorter opening
delimiter. -/
theorem IsOrdered.le_of_triesBefore {g : Grammar} (h : g.IsOrdered) {first second : DelimiterRule}
    (hsecond : second ∈ g.delimiters) (htries : g.TriesBefore first second) :
    byteLength second.opener ≤ byteLength first.opener := by
  obtain ⟨before, after, hsplit, hnot⟩ := htries
  unfold IsOrdered at h
  rw [hsplit, List.pairwise_append, List.pairwise_cons] at h
  rw [hsplit, List.mem_append, List.mem_cons] at hsecond
  rcases hsecond with hbefore | rfl | hafter
  · exact absurd hbefore hnot
  · exact Nat.le_refl _
  · exact h.2.1.1 second hafter

/-- A closing delimiter that starts a text is found, unless one of another rule is. -/
theorem exists_closing? {g : Grammar} {rule : DelimiterRule} {text : List Char}
    (hrule : rule ∈ g.delimiters) (hcloser : rule.closer <+: text) :
    ∃ found, g.closing? text = some found := by
  have hsome : (g.closing? text).isSome := by
    rw [closing?, List.find?_isSome]
    exact ⟨rule, hrule, List.isPrefixOf_iff_prefix.2 hcloser⟩
  exact Option.isSome_iff_exists.1 hsome

/-- The rule that is found is tried before all others whose closing delimiter starts the text. -/
theorem closing?_spec {g : Grammar} {found : DelimiterRule} {text : List Char}
    (h : g.closing? text = some found) :
    found ∈ g.delimiters ∧ found.closer <+: text ∧
      ∀ other, other.closer <+: text → g.TriesBefore found other := by
  obtain ⟨hfound, before, after, hsplit, hbefore⟩ := List.find?_eq_some_iff_append.1 h
  refine ⟨by simp [hsplit], List.isPrefixOf_iff_prefix.1 hfound, fun other hother => ?_⟩
  refine ⟨before, after, hsplit, fun hmem => ?_⟩
  have := hbefore other hmem
  simp [List.isPrefixOf_iff_prefix.2 hother] at this

/-- No rule whose closing delimiter starts a text is tried before the one that is found. -/
theorem eq_of_triesBefore {g : Grammar} {found own : DelimiterRule} {text : List Char}
    (h : g.closing? text = some found) (hown : own.closer <+: text)
    (htries : g.TriesBefore own found) : own = found := by
  obtain ⟨-, before, after, hsplit, hbefore⟩ := List.find?_eq_some_iff_append.1 h
  obtain ⟨front, back, hsplit', hnot⟩ := htries
  rw [hsplit'] at hsplit
  rcases List.append_eq_append_iff.1 hsplit with ⟨middle, rfl, heq⟩ | ⟨middle, rfl, heq⟩
  · cases middle with
    | nil => exact (List.cons.inj heq).1
    | cons head middle =>
      -- the other rule stands in front of the one that is found
      obtain ⟨rfl, -⟩ := List.cons.inj heq
      have := hbefore own (by simp)
      simp [List.isPrefixOf_iff_prefix.2 hown] at this
  · cases middle with
    | nil => exact (List.cons.inj heq).1.symm
    | cons head middle =>
      obtain ⟨rfl, -⟩ := List.cons.inj heq
      simp at hnot

end Grammar

section Places

variable {g : Grammar} {maxDepth : Nat} {frame : Frame} {outer : List Frame} {k : Cursor}

/-- Where its closing delimiter stands, the innermost collection is closed, or the closing delimiter of
another rule is reported in its place. -/
theorem closesInnermost_or_mismatched (hrule : frame.rule ∈ g.delimiters)
    (hcloser : frame.rule.closer <+: k.skipTrivia.rest) :
    ClosesInnermost g maxDepth frame outer k ∨
      ∃ other ∈ g.delimiters, other.closer <+: k.skipTrivia.rest ∧
        turn g maxDepth (frame :: outer) k = .finished
          (.error (mismatched k.skipTrivia.mark other.closer frame.rule.closer) k.skipTrivia) := by
  obtain ⟨found, hfound⟩ := Grammar.exists_closing? hrule hcloser
  by_cases heq : found.closer = frame.rule.closer
  · exact .inl (turn_of_closes hfound heq)
  · obtain ⟨hmem, hstarts, -⟩ := Grammar.closing?_spec hfound
    exact .inr ⟨found, hmem, hstarts, turn_of_mismatch hfound heq⟩

/-- The innermost collection is closed if a rule with its closing delimiter is found. -/
theorem closesInnermost_iff_closing? (hrule : frame.rule ∈ g.delimiters)
    (hcloser : frame.rule.closer <+: k.skipTrivia.rest) :
    ClosesInnermost g maxDepth frame outer k ↔
      ∃ found, g.closing? k.skipTrivia.rest = some found ∧ found.closer = frame.rule.closer := by
  constructor
  · intro h
    obtain ⟨found, hfound⟩ := Grammar.exists_closing? hrule hcloser
    by_cases heq : found.closer = frame.rule.closer
    · exact ⟨found, hfound, heq⟩
    · -- the scanner fails without a step over the delimiter
      exfalso
      have hplace := congrArg Turn.next h
      rw [turn_of_mismatch hfound heq, closeTurn_next] at hplace
      have hshorter : (k.skipTrivia.advance frame.rule.closer.length).rest.length <
          k.skipTrivia.rest.length :=
        Cursor.length_rest_advance_lt (List.length_pos_iff.2 frame.rule.closer_ne_nil)
          (closing_rest_ne_nil hfound)
      rw [← hplace] at hshorter
      exact Nat.lt_irrefl _ hshorter
  · intro ⟨found, hfound, heq⟩
    exact turn_of_closes hfound heq

/-- The innermost collection is closed at a place where its closing delimiter stands exactly if a
rule with this delimiter is tried before all rules with other closing delimiters that start the text. -/
theorem closesInnermost_iff (hrule : frame.rule ∈ g.delimiters)
    (hcloser : frame.rule.closer <+: k.skipTrivia.rest) :
    ClosesInnermost g maxDepth frame outer k ↔
      ∃ own ∈ g.delimiters, own.closer = frame.rule.closer ∧
        ∀ other ∈ g.delimiters, other.closer <+: k.skipTrivia.rest →
          other.closer ≠ frame.rule.closer → g.TriesBefore own other := by
  rw [closesInnermost_iff_closing? hrule hcloser]
  constructor
  · intro ⟨found, hfound, heq⟩
    obtain ⟨hmem, -, hfirst⟩ := Grammar.closing?_spec hfound
    exact ⟨found, hmem, heq, fun other _ hother _ => hfirst other hother⟩
  · intro ⟨own, hown, heq, hfirst⟩
    obtain ⟨found, hfound⟩ := Grammar.exists_closing? hrule hcloser
    obtain ⟨hmem, hstarts, -⟩ := Grammar.closing?_spec hfound
    refine ⟨found, hfound, ?_⟩
    by_cases hne : found.closer = frame.rule.closer
    · exact hne
    · have hsame : own = found :=
        Grammar.eq_of_triesBefore hfound (heq ▸ hcloser) (hfirst found hmem hstarts hne)
      exact hsame ▸ heq

end Places

/-! ## All places -/

/-- A text starts with a blank or a comment. -/
def startsTrivia (text : List Char) : Bool :=
  text.head?.any fun c => Cursor.isBlank c || c == ';'

/-- No closing delimiter starts another one.  Those that start with a blank or a comment are never
found behind blanks and comments, and do not count. -/
def Grammar.ClosersApart (g : Grammar) : Prop :=
  ∀ first ∈ g.delimiters, ∀ second ∈ g.delimiters, startsTrivia first.closer = false →
    first.closer <+: second.closer → first.closer = second.closer

instance (g : Grammar) : Decidable g.ClosersApart :=
  inferInstanceAs (Decidable (∀ first ∈ g.delimiters, _))

theorem triviaLength_spec (inComment : Bool) (taken : Nat) (text : List Char) :
    ∃ n, Cursor.triviaLength inComment taken text = taken + n ∧
      startsTrivia (text.drop n) = false := by
  induction text generalizing inComment taken with
  | nil => exact ⟨0, rfl, rfl⟩
  | cons c rest ih =>
    unfold Cursor.triviaLength
    by_cases hcomment : inComment = true
    · obtain ⟨n, hlength, hrest⟩ := ih (Span.inLine c) (taken + 1)
      exact ⟨n + 1, by rw [if_pos hcomment, hlength]; omega, hrest⟩
    · by_cases hblank : Cursor.isBlank c = true
      · obtain ⟨n, hlength, hrest⟩ := ih false (taken + 1)
        exact ⟨n + 1, by rw [if_neg hcomment, if_pos hblank, hlength]; omega, hrest⟩
      · by_cases hsemicolon : c = ';'
        · obtain ⟨n, hlength, hrest⟩ := ih true (taken + 1)
          refine ⟨n + 1, ?_, hrest⟩
          rw [if_neg hcomment, if_neg hblank, if_pos hsemicolon, hlength]
          omega
        · refine ⟨0, ?_, ?_⟩
          · rw [if_neg hcomment, if_neg hblank, if_neg hsemicolon]
            rfl
          · simp [startsTrivia, hblank, hsemicolon]

/-- Neither a blank nor a comment stands behind blanks and comments. -/
theorem startsTrivia_skipTrivia (k : Cursor) : startsTrivia k.skipTrivia.rest = false := by
  obtain ⟨n, hlength, hrest⟩ := triviaLength_spec false 0 k.rest
  rw [Nat.zero_add] at hlength
  rw [Cursor.skipTrivia, Cursor.rest_advance, hlength]
  exact hrest

theorem startsTrivia_of_startsWith {first text : List Char} (hne : first ≠ [])
    (h : first <+: text) :
    startsTrivia first = startsTrivia text := by
  obtain ⟨rest, rfl⟩ := h
  cases first with
  | nil => contradiction
  | cons c first => rfl

theorem skipTrivia_start {text : List Char} (h : startsTrivia text = false) :
    (Cursor.start text).skipTrivia = .start text := by
  have hhead : ∀ c ∈ text.head?, Cursor.isBlank c = false ∧ c ≠ ';' := by
    intro c hc
    simpa [startsTrivia, Option.mem_def.1 hc] using h
  exact @Cursor.skipTrivia_eq (.start text) [] text rfl .nil hhead

/-- The innermost collection is closed at all places where its closing delimiter stands exactly if
no closing delimiter of the grammar starts another one. -/
theorem closesEverywhere_iff {g : Grammar} :
    (∀ maxDepth frame outer k, frame.rule ∈ g.delimiters →
      frame.rule.closer <+: k.skipTrivia.rest → ClosesInnermost g maxDepth frame outer k) ↔
      g.ClosersApart := by
  constructor
  · intro h first hfirst second hsecond hvisible hstarts
    -- behind blanks and comments, the longer of the two stands alone
    have hstart : startsTrivia second.closer = false := by
      rw [← startsTrivia_of_startsWith first.closer_ne_nil hstarts]
      exact hvisible
    have hplace := skipTrivia_start hstart
    have closes : ∀ rule ∈ g.delimiters, rule.closer <+: second.closer →
        ∃ found, g.closing? second.closer = some found ∧ found.closer = rule.closer := by
      intro rule hrule hcloser
      have hclosed := h 0 ⟨rule, "", .point 0 1 1, []⟩ [] (.start second.closer) hrule
        (by rwa [hplace])
      rw [closesInnermost_iff_closing? hrule (by rwa [hplace]), hplace] at hclosed
      exact hclosed
    obtain ⟨found, hfound, heq⟩ := closes first hfirst hstarts
    obtain ⟨found', hfound', heq'⟩ := closes second hsecond List.prefix_rfl
    rw [hfound] at hfound'
    cases hfound'
    rw [← heq, heq']
  · intro h maxDepth frame outer k hrule hcloser
    rw [closesInnermost_iff_closing? hrule hcloser]
    obtain ⟨found, hfound⟩ := Grammar.exists_closing? hrule hcloser
    obtain ⟨hmem, hstarts, -⟩ := Grammar.closing?_spec hfound
    refine ⟨found, hfound, ?_⟩
    have visible : ∀ rule : DelimiterRule, rule.closer <+: k.skipTrivia.rest →
        startsTrivia rule.closer = false := by
      intro rule hstarts
      rw [startsTrivia_of_startsWith rule.closer_ne_nil hstarts]
      exact startsTrivia_skipTrivia k
    rcases List.prefix_or_prefix_of_prefix hstarts hcloser with hle | hle
    · exact h found hmem frame.rule hrule (visible found hstarts) hle
    · exact (h frame.rule hrule found hmem (visible frame.rule hcloser) hle).symm

/-! ## Grammars that are built -/

/-- In a grammar that is built by adding rules, the innermost collection is closed at a place where
its closing delimiter stands exactly if a rule with this delimiter is tried before all rules with
other closing delimiters that start the text.  The rules are tried from the longest opening delimiter
to the shortest.  Otherwise one of the others is reported.  So every collection is closed where its
closing delimiter stands if no closing delimiter starts another one, and this is the only case in
which it is. -/
theorem closesInnermost_of_isBuilt {engine : Engine} {g : Grammar} (hg : g.IsBuilt engine) :
    (∀ maxDepth start frame outer k, Scans g maxDepth start (frame :: outer) k →
      frame.rule.closer <+: k.skipTrivia.rest →
      (ClosesInnermost g maxDepth frame outer k ↔
        ∃ own ∈ g.delimiters, own.closer = frame.rule.closer ∧
          ∀ other ∈ g.delimiters, other.closer <+: k.skipTrivia.rest →
            other.closer ≠ frame.rule.closer →
              byteLength other.opener ≤ byteLength own.opener ∧ g.TriesBefore own other)) ∧
    (∀ maxDepth start frame outer k, Scans g maxDepth start (frame :: outer) k →
      frame.rule.closer <+: k.skipTrivia.rest →
      ClosesInnermost g maxDepth frame outer k ∨
        ∃ other ∈ g.delimiters, other.closer <+: k.skipTrivia.rest ∧
          turn g maxDepth (frame :: outer) k = .finished
            (.error (mismatched k.skipTrivia.mark other.closer frame.rule.closer) k.skipTrivia)) ∧
    (g.ClosersApart → ∀ maxDepth start frame outer k, Scans g maxDepth start (frame :: outer) k →
      frame.rule.closer <+: k.skipTrivia.rest → ClosesInnermost g maxDepth frame outer k) ∧
    ((∀ maxDepth frame outer k, frame.rule ∈ g.delimiters →
      frame.rule.closer <+: k.skipTrivia.rest → ClosesInnermost g maxDepth frame outer k) ↔
        g.ClosersApart) := by
  refine ⟨?_, ?_, ?_, closesEverywhere_iff⟩
  · intro maxDepth start frame outer k hscans hcloser
    rw [closesInnermost_iff (hscans.rule_mem frame List.mem_cons_self) hcloser]
    constructor
    · intro ⟨own, hown, heq, hfirst⟩
      refine ⟨own, hown, heq, fun other hother hstarts hne => ?_⟩
      have htries := hfirst other hother hstarts hne
      exact ⟨hg.isOrdered.le_of_triesBefore hother htries, htries⟩
    · intro ⟨own, hown, heq, hfirst⟩
      exact ⟨own, hown, heq, fun other hother hstarts hne => (hfirst other hother hstarts hne).2⟩
  · intro maxDepth start frame outer k hscans hcloser
    exact closesInnermost_or_mismatched (hscans.rule_mem frame List.mem_cons_self) hcloser
  · intro hapart maxDepth start frame outer k hscans hcloser
    exact closesEverywhere_iff.2 hapart maxDepth frame outer k
      (hscans.rule_mem frame List.mem_cons_self) hcloser

/-- Inside a vector of the notation, the closing bracket closes it. -/
theorem closesInnermost_of_isBuilt_vector :
    standard.IsBuilt .automata ∧ standard.ClosersApart ∧ ∃ frame k,
      Scans standard 512 (.start "[]".toList) [frame] k ∧
        frame.rule.closer <+: k.skipTrivia.rest ∧ ClosesInnermost standard 512 frame [] k := by
  have hopen : ∃ frame k, turn standard 512 [] (.start "[]".toList) = .going [frame] k ∧
      frame.rule.closer = k.skipTrivia.rest := by
    rw [Grammar.standard_eq]
    exact ⟨_, _, rfl, rfl⟩
  obtain ⟨frame, k, hturn, hrest⟩ := hopen
  have hscans : Scans standard 512 (.start "[]".toList) [frame] k := .turn .start hturn
  have hcloser : frame.rule.closer <+: k.skipTrivia.rest := hrest ▸ List.prefix_rfl
  have hapart : standard.ClosersApart := by
    rw [Grammar.standard_eq]
    decide
  obtain ⟨-, -, hcloses, -⟩ := closesInnermost_of_isBuilt Grammar.isBuilt_standard
  exact ⟨Grammar.isBuilt_standard, hapart, frame, k, hscans, hcloser,
    hcloses hapart 512 _ frame [] k hscans hcloser⟩

/-- Lists between an angle bracket and two square brackets. -/
def angleRule : DelimiterRule :=
  ⟨['<'], [']', ']'], by decide, by decide, fun _ items => .ok (.list items)⟩

/-- The grammar of the notation with one more rule. -/
def angleGrammar : Grammar :=
  ⟨Grammar.literalRules, Grammar.delimiterRules ++ [angleRule]⟩

/-- The closing bracket of vectors is found where the two closing brackets of the open collection
stand. -/
theorem not_closesInnermost_angle :
    (standard.add .automata (.delimiters "<" "]]" fun _ items => .ok (.list items)) =
        .ok angleGrammar ∧ angleGrammar.IsBuilt .automata) ∧
      (∃ frame k, Scans angleGrammar 512 (.start "<]]".toList) [frame] k ∧
        frame.rule.closer <+: k.skipTrivia.rest ∧ ¬ ClosesInnermost angleGrammar 512 frame [] k) ∧
        Reader.parse ⟨angleGrammar, .standard⟩ "<]]" =
          .error ((mismatched ⟨1, 1, 1, 2⟩ [']'] [']', ']']).located "<]]".toList) := by
  have hadd : standard.add .automata (.delimiters "<" "]]" fun _ items => .ok (.list items)) =
      .ok angleGrammar := by
    rw [Grammar.standard_eq]
    rfl
  have hopen : turn angleGrammar 512 [] (.start "<]]".toList) =
      .going [⟨angleRule, "", .point 0 1 1, []⟩] ((Cursor.start "<]]".toList).advance 1) := rfl
  have hscans : Scans angleGrammar 512 (.start "<]]".toList) [⟨angleRule, "", .point 0 1 1, []⟩]
      ((Cursor.start "<]]".toList).advance 1) := .turn .start hopen
  have hclosing : angleGrammar.closing? [']', ']'] =
      some (Grammar.collectionRule (.ordered .vector)) := rfl
  have hfails : turn angleGrammar 512 [⟨angleRule, "", .point 0 1 1, []⟩]
      ((Cursor.start "<]]".toList).advance 1) = .finished (.error
        (mismatched ⟨1, 1, 1, 2⟩ [']'] [']', ']']) ((Cursor.start "<]]".toList).advance 1)) := rfl
  refine ⟨⟨hadd, Grammar.isBuilt_standard.add hadd⟩, ⟨_, _, hscans, by decide, ?_⟩, ?_⟩
  · intro h
    rw [ClosesInnermost, hfails] at h
    cases h
  · have htoken : nextToken angleGrammar .standard (.start "<]]".toList) = .error
        (mismatched ⟨1, 1, 1, 2⟩ [']'] [']', ']']) ((Cursor.start "<]]".toList).advance 1) := by
      have hscan : scanValue angleGrammar 512 (.start "<]]".toList) = .error
          (mismatched ⟨1, 1, 1, 2⟩ [']'] [']', ']']) ((Cursor.start "<]]".toList).advance 1) := by
        rw [scanValue, scanFrom_eq_finish, hopen, Turn.finish, scanFrom_eq_finish, hfails]
        rfl
      show valueToken angleGrammar .standard (.start "<]]".toList) = _
      rw [valueToken, show Limits.standard.maxDepth = 512 from rfl, hscan]
      rfl
    rw [Reader.parse_eq rfl, Reader.readOne, Reader.valuesFrom_of_error htoken]
    rfl

end Edn
