import Edn.Proofs.Grammar.Anchoring
import Edn.Proofs.Reading.Runs
import Edn.Proofs.Reading.Tiling

/-!
# Grammars that agree on a text

A reader asks its grammar three questions, each about the rest of the text at
some cursor.  Grammars that give the same answers in a text read it alike.

* `Grammar.AgreeOn` says that two grammars select the same rules at every
  place of a text.
* `turn_congr` is the step of the scanner under two such grammars, and
  `scanFrom_congr` the run.  `nextToken_congr`, `tokens_congr` and
  `Reader.readWithin_congr` carry it to tokens and values.
* `Addition.IsIdleIn` says that a rule finds nothing in a text, and
  `agreeOn_of_add` that the grammars before and after its addition agree there,
  if the pattern of the rule is read on its own, too.
* `read_of_add` puts both together.  `not_read_of_add_stray`: a pattern that ends
  its group may find nothing in a text, and still be selected there.
-/

namespace Edn

/-! ## Agreement -/

/-- Two grammars select the same rules at every place of a text. -/
structure Grammar.AgreeOn (g other : Grammar) (text : List Char) : Prop where
  longestMatch? : ∀ rest, rest <:+ text → other.longestMatch? rest = g.longestMatch? rest
  opening? : ∀ rest, rest <:+ text → other.opening? rest = g.opening? rest
  closing? : ∀ rest, rest <:+ text → other.closing? rest = g.closing? rest

theorem Grammar.AgreeOn.of_suffix {g other : Grammar} {text rest : List Char}
    (h : g.AgreeOn other text) (hrest : rest <:+ text) : g.AgreeOn other rest :=
  ⟨fun part hpart => h.longestMatch? part (hpart.trans hrest),
    fun part hpart => h.opening? part (hpart.trans hrest),
    fun part hpart => h.closing? part (hpart.trans hrest)⟩

/-- A cursor has a part of the text ahead that was ahead before it moved. -/
theorem Cursor.Reaches.rest_suffix {k next : Cursor} (h : k.Reaches next) :
    next.rest <:+ k.rest := by
  obtain ⟨taken, hrest, -⟩ := h.exists_taken
  exact ⟨taken, hrest.symm⟩

section Congruence

variable {g other : Grammar} {k : Cursor}

/-- The two grammars agree ahead of a cursor to which another one moves. -/
theorem Grammar.AgreeOn.of_reaches {next : Cursor} (h : g.AgreeOn other k.rest)
    (hreach : k.Reaches next) : g.AgreeOn other next.rest :=
  h.of_suffix hreach.rest_suffix

/-! ## Values -/

theorem tagFault?_congr (h : g.AgreeOn other k.rest) (length : Nat) (tag : String) :
    tagFault? other k length tag = tagFault? g k length tag := by
  have hreach : k.Reaches (afterTag k length) :=
    (k.reaches_advance length).trans (Cursor.reaches_skipWhile _ _)
  unfold tagFault? endsValue
  dsimp only
  rw [h.opening? _ hreach.rest_suffix, h.closing? _ hreach.rest_suffix]

theorem readTag_congr (h : g.AgreeOn other k.rest) : readTag other k = readTag g k := by
  simp only [readTag, tagFault?_congr h]

theorem valueTurn_congr (h : g.AgreeOn other k.rest) (maxDepth : Nat) (frames : List Frame) :
    valueTurn other maxDepth frames k = valueTurn g maxDepth frames k := by
  have hreach := readTag_reaches g k
  unfold valueTurn
  rw [readTag_congr h]
  split
  · rfl
  · next tag next htag =>
    rw [htag] at hreach
    simp only [literalTurn, h.opening? _ hreach.rest_suffix, h.longestMatch? _ hreach.rest_suffix]

/-- A step of the scanner asks about the text ahead only. -/
theorem turn_congr (h : g.AgreeOn other k.rest) (maxDepth : Nat) (frames : List Frame) :
    turn other maxDepth frames k = turn g maxDepth frames k := by
  cases frames with
  | nil => exact valueTurn_congr h maxDepth []
  | cons frame outer =>
    have htrivia := h.of_reaches k.reaches_skipTrivia
    simp only [turn, htrivia.closing? _ List.suffix_rfl, valueTurn_congr htrivia]

/-- The scanner reads the same value, or fails alike. -/
theorem scanFrom_congr (h : g.AgreeOn other k.rest) (maxDepth : Nat) (frames : List Frame) :
    scanFrom other maxDepth frames k = scanFrom g maxDepth frames k := by
  fun_induction scanFrom g maxDepth frames k with
  | case1 frames k outcome hturn =>
    rw [scanFrom_eq_finish, turn_congr h, hturn]
    rfl
  | case2 frames k inner next hturn ih =>
    have hreach := turn_reaches g maxDepth frames k
    rw [hturn] at hreach
    rw [scanFrom_eq_finish, turn_congr h, hturn]
    exact ih (h.of_reaches hreach)

/-! ## Tokens -/

theorem nextToken_congr (h : g.AgreeOn other k.rest) (limits : Limits) :
    nextToken other limits k = nextToken g limits k := by
  have hblanks : g.AgreeOn other k.skipBlanks.rest := h.of_reaches (Cursor.reaches_skipWhile _ _)
  simp only [nextToken, tokenAt, hblanks.closing? _ List.suffix_rfl, valueToken, scanValue,
    scanFrom_congr hblanks]

/-- The cursor behind a token has a part of the text ahead in which the grammars agree as well. -/
theorem Grammar.AgreeOn.of_nextToken {limits : Limits} {result : Except Misread Token}
    {next : Cursor} (h : g.AgreeOn other k.rest) (hnext : nextToken g limits k = ⟨result, next⟩) :
    g.AgreeOn other next.rest := by
  have hreach := nextToken_reaches g limits k
  rw [hnext] at hreach
  exact h.of_reaches hreach

/-- The same tokens, or the same first error. -/
theorem mapM_tokensFrom_congr (h : g.AgreeOn other k.rest) (limits : Limits) :
    (tokensFrom other limits 0 k).mapM id = (tokensFrom g limits 0 k).mapM id := by
  induction hn : k.rest.length using Nat.strongRecOn generalizing k with
  | ind n ih =>
    subst hn
    rw [mapM_tokensFrom, mapM_tokensFrom g, nextToken_congr h]
    cases htoken : nextToken g limits k with
    | mk result next =>
      cases result with
      | error m => rfl
      | ok token =>
        dsimp only
        split
        · rfl
        · next hend =>
          have hlt := nextToken_shortens htoken (by simpa using hend)
          rw [ih _ hlt (h.of_nextToken htoken) rfl]

theorem tokens_congr {source : String} (h : g.AgreeOn other source.toList) (limits : Limits) :
    tokens other limits source = tokens g limits source :=
  mapM_tokensFrom_congr (k := .start source.toList) h limits

/-! ## Texts -/

namespace Reader

theorem valuesFrom_congr (h : g.AgreeOn other k.rest) (limits : Limits)
    (read : List (Element × Span)) :
    valuesFrom ⟨other, limits⟩ read k = valuesFrom ⟨g, limits⟩ read k := by
  induction hn : k.rest.length using Nat.strongRecOn generalizing k read with
  | ind n ih =>
    subst hn
    rw [valuesFrom_eq, valuesFrom_eq ⟨g, limits⟩]
    dsimp only
    rw [nextToken_congr h]
    cases htoken : nextToken g limits k with
    | mk result next =>
      cases result with
      | error m => rfl
      | ok token =>
        have hnext := h.of_nextToken htoken
        have hshorter := nextToken_shortens htoken
        dsimp only
        split
        · rfl
        · rfl
        · next text hkind =>
          have hlt := hshorter (by rw [hkind]; rfl)
          exact ih _ hlt hnext read rfl
        · next value hkind =>
          have hlt := hshorter (by rw [hkind]; rfl)
          exact ih _ hlt hnext _ rfl

/-- The same value and the same place, or the same error. -/
theorem readWithin_congr {source : String} (h : g.AgreeOn other source.toList) (limits : Limits) :
    readWithin ⟨other, limits⟩ source = readWithin ⟨g, limits⟩ source := by
  have hvalues := valuesFrom_congr (k := .start source.toList) h limits []
  simp only [readWithin, lengthError?, readOne, hvalues]

end Reader

end Congruence

/-! ## Rules that find nothing -/

/-- A rule finds nothing in a text.  Whatever a rest of the text is searched for the pattern, the
match is empty, if there is one, wherever it starts.  Neither delimiter occurs. -/
def Addition.IsIdleIn (engine : Engine) (text : List Char) : Addition → Prop
  | .literal _ written _ => ∀ matcher, Grammar.readPattern engine written = .ok matcher →
      ∀ rest, rest <:+ text → ∀ found ∈ matcher.find? rest, found.start = found.stop
  | .delimiters opener closer _ => ¬ opener.toList <:+: text ∧ ¬ closer.toList <:+: text

section Additions

variable {engine : Engine} {g next : Grammar} {addition : Addition}

/-- Empty matches take nothing if they are at the start of a text. -/
theorem Addition.IsIdleIn.takesNothing {priority : Priority} {written : String}
    {process : (tag token : String) → Except Error Element} {matcher : Matcher}
    {text rest : List Char} (hidle : IsIdleIn engine text (.literal priority written process))
    (law : engine.Anchors)
    (halone : standsAlone engine (.literal priority written process) = true)
    (hread : Grammar.readPattern engine written = .ok matcher) (hrest : rest <:+ text) :
    ∀ n ∈ matcher.matchEnd? rest, n = 0 := by
  intro n hn
  obtain ⟨found, hfound, rfl⟩ := Option.map_eq_some_iff.1 hn
  have hliteral : literal? engine (.literal priority written process) =
      some ⟨priority, written, matcher, process⟩ := by rw [literal?, hread]
  rw [← hidle matcher hread rest hrest found hfound]
  exact start_eq_zero_of_standsAlone law halone hliteral rest found hfound

/-- A grammar to which a rule is added that finds nothing in a text, or that it knows, selects what
it selected before. -/
theorem agreeOn_of_add (law : engine.Anchors) (hadd : g.add engine addition = .ok next)
    {text : List Char}
    (h : addition.IsIdleIn engine text ∧ addition.standsAlone engine = true ∨ g.Knows addition) :
    g.AgreeOn next text := by
  have unchanged : g.AgreeOn g text :=
    ⟨fun _ _ => rfl, fun _ _ => rfl, fun _ _ => rfl⟩
  rcases h with ⟨hidle, halone⟩ | hknown
  · cases Grammar.grows_of_add hadd with
    | known => exact unchanged
    | literal hread =>
      refine ⟨fun rest hrest => ?_, fun _ _ => rfl, fun _ _ => rfl⟩
      exact Grammar.longestMatch?_insertLiteral (hidle.takesNothing law halone hread hrest)
    | delimiters =>
      obtain ⟨hopener, hcloser⟩ := hidle
      refine ⟨fun _ _ => rfl, fun rest hrest => ?_, fun rest hrest => ?_⟩
      · apply Grammar.opening?_insertDelimiter
        exact fun hstarts => hopener (hstarts.isInfix.trans hrest.isInfix)
      · apply Grammar.closing?_insertDelimiter
        exact fun hstarts => hcloser (hstarts.isInfix.trans hrest.isInfix)
  · rw [Grammar.eq_of_add_of_knows hknown hadd]
    exact unchanged

/-- A rule that finds nothing in a text and whose pattern is read on its own, or a rule that is there
already, can be added to any grammar without a change to what is read from the text: the value, the
collection and the tokens are the same, or the error is, with its place.  The engine may be any that
keeps patterns in their groups. -/
theorem read_of_add (law : engine.Anchors) (hadd : g.add engine addition = .ok next)
    {source : String}
    (h : addition.IsIdleIn engine source.toList ∧ addition.standsAlone engine = true ∨
      g.Knows addition) (limits : Limits) :
    Reader.parse ⟨next, limits⟩ source = Reader.parse ⟨g, limits⟩ source ∧
      Reader.parseCollection ⟨next, limits⟩ source = Reader.parseCollection ⟨g, limits⟩ source ∧
        tokens next limits source = tokens g limits source := by
  have hagree := agreeOn_of_add law hadd h
  have hread := Reader.readWithin_congr hagree limits
  refine ⟨?_, ?_, tokens_congr hagree limits⟩
  · rw [Reader.parse, Reader.parse, hread]
  · rw [Reader.parseCollection, Reader.parseCollection, hread]

end Additions

/-- Angle brackets change nothing in a text in which they do not occur. -/
theorem read_of_add_angles :
    Engine.automata.Anchors ∧
      ∃ next, Grammar.standard.add .automata (.delimiters "<" ">" fun _ items => .ok (.list items)) =
          .ok next ∧
        (Addition.IsIdleIn .automata "[1]".toList
            (.delimiters "<" ">" fun _ items => .ok (.list items)) ∧
          Addition.standsAlone .automata (.delimiters "<" ">" fun _ items => .ok (.list items)) =
            true) ∧
        Reader.parse ⟨next, .standard⟩ "[1]" = Reader.parse ⟨.standard, .standard⟩ "[1]" ∧
          Reader.parseCollection ⟨next, .standard⟩ "[1]" =
            Reader.parseCollection ⟨.standard, .standard⟩ "[1]" ∧
              tokens next .standard "[1]" = tokens .standard .standard "[1]" := by
  have hidle : Addition.IsIdleIn .automata "[1]".toList
      (.delimiters "<" ">" fun _ items => .ok (.list items)) := by
    have absent : ∀ c, c ∉ "[1]".toList → ¬ [c] <:+: "[1]".toList :=
      fun c hc hwithin => hc (hwithin.subset (List.mem_singleton_self c))
    exact ⟨absent '<' (by decide), absent '>' (by decide)⟩
  have hadd : ∃ next, Grammar.standard.add .automata
      (.delimiters "<" ">" fun _ items => .ok (.list items)) = .ok next := by
    rw [Grammar.standard_eq]
    exact ⟨_, rfl⟩
  obtain ⟨next, hadd⟩ := hadd
  exact ⟨Engine.anchors_automata, next, hadd, ⟨hidle, rfl⟩,
    read_of_add Engine.anchors_automata hadd (.inl ⟨hidle, rfl⟩) .standard⟩

/-- A rule whose pattern ends its group.  Its second part is found at the end of a text. -/
def strayRule : LiteralRule :=
  Grammar.literalRule .literal "a)|(?:$" fun _ _ => .ok .nil

/-- The grammar of the notation with one more rule. -/
def strayGrammar : Grammar :=
  ⟨Grammar.wordRules ++ strayRule :: Grammar.literalRules.drop 3, Grammar.delimiterRules⟩

/-- The pattern is read, and its first match in a numeral is the empty one at the end. -/
theorem strayRule_matches :
    Grammar.readPattern .automata strayRule.written = .ok strayRule.matcher ∧
      strayRule.matcher.matchEnd? ['1'] = some 1 ∧
        ∀ rest, rest <:+ ['1'] → ∀ found ∈ strayRule.matcher.find? rest, found.start = found.stop := by
  have hpattern : (Pattern.read? (Grammar.atStart strayRule.written)).any (fun pattern =>
      decide ((Matcher.ofPattern pattern).matchEnd? ['1'] = some 1) &&
        ['1'].tails.all fun rest => ((Matcher.ofPattern pattern).find? rest).all fun found =>
          decide (found.start = found.stop)) = true := by
    decide +kernel
  obtain ⟨pattern, hread, hmatches⟩ := (Option.any_eq_true _ _).1 hpattern
  have hmatcher : strayRule.matcher = .ofPattern pattern := Grammar.matcherOf_of_read? hread
  rw [Bool.and_eq_true, decide_eq_true_iff, List.all_eq_true, ← hmatcher] at hmatches
  obtain ⟨hend, hempty⟩ := hmatches
  refine ⟨hmatcher ▸ Grammar.readPattern_of_read? hread, hend, fun rest hrest found hfound => ?_⟩
  have hall := hempty rest ((List.mem_tails _ _).2 hrest)
  rw [Option.mem_def.1 hfound] at hall
  exact of_decide_eq_true hall

/-- The rule is selected for a numeral, which it takes up to the end. -/
theorem longestMatch?_strayGrammar : strayGrammar.longestMatch? ['1'] = some (strayRule, 1) := by
  refine Grammar.longestMatch?_of_split Grammar.wordRules rfl (by decide) strayRule_matches.2.1 ?_ ?_
  · intro other hother n hn
    rw [Grammar.words_fail (by decide) (by decide) (by decide) other hother] at hn
    cases hn
  · intro other _ n hn
    obtain ⟨found, hfound, rfl⟩ := Option.map_eq_some_iff.1 hn
    exact (other.matcher.within ['1'] found hfound).2

/-- Where a rule with such a pattern is added, a numeral is no longer read, although no match in it
takes a character. -/
theorem not_read_of_add_stray :
    Grammar.standard.add .automata (.literal .literal strayRule.written strayRule.process) =
        .ok strayGrammar ∧
      Addition.IsIdleIn .automata "1".toList
          (.literal .literal strayRule.written strayRule.process) ∧
        Reader.parse ⟨.standard, .standard⟩ "1" = .ok (.scalar "" (.integer 1)) ∧
          Reader.parse ⟨strayGrammar, .standard⟩ "1" = .ok .nil := by
  obtain ⟨hread, -, hempty⟩ := strayRule_matches
  refine ⟨?_, fun matcher hmatcher => ?_, ?_, ?_⟩
  · rw [Grammar.standard_eq, Grammar.add, Grammar.addPattern, hread]
    rfl
  · cases hread.symm.trans hmatcher
    exact hempty
  · have hnumeral : Decimal.IsIntegerNumeral "1".toList (1 : Int64).toInt :=
      ⟨[], false, ['1'], 1, [], rfl, .absent, .inr ⟨'1', [], rfl, by decide,
        List.all_eq_true.1 rfl⟩, rfl, .inl rfl, rfl⟩
    exact ((parse_atom_iff (by decide) (List.all_eq_true.1 rfl)).2 _).2 (.integer hnumeral)
  · have hvalue : ReadsValue strayGrammar 512 0 (.start ['1'])
        (.ok .nil ((Cursor.start ['1']).advance 1)) := by
      have hliteral : readLiteral strayGrammar "" (.start ['1']) =
          .ok .nil ((Cursor.start ['1']).advance 1) :=
        readLiteral_eq_ok_iff.2 ⟨strayRule, 1, longestMatch?_strayGrammar, rfl, rfl⟩
      exact hliteral ▸ .literal rfl rfl
    have hfirst : nextToken strayGrammar .standard (.start ['1']) =
        .ok ⟨.value .nil, ⟨0, 1, 1, 1⟩⟩ ((Cursor.start ['1']).advance 1) := by
      show valueToken strayGrammar .standard (.start ['1']) = _
      rw [valueToken, show Limits.standard.maxDepth = 512 from rfl, hvalue.scanValue_eq]
      rfl
    have hsecond := @nextToken_of_blanks strayGrammar .standard ((Cursor.start ['1']).advance 1)
      (List.forall_mem_nil _)
    exact Reader.parse_eq_ok_iff.2 ⟨rfl, _, _,
      (Reader.valuesFrom_of_value hfirst rfl).trans (Reader.valuesFrom_of_end hsecond rfl)⟩

end Edn
