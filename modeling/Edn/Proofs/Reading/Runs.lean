import Edn.Proofs.Reading.Atoms
import Edn.Proofs.Reading.Locality

/-!
# Runs of characters

A run is a text of characters of atoms, with nothing between them that
separates values.

* `readsValue_run_iff`: where a run starts, its first token is read, as the
  element for which the token stands.
* `parse_atom_iff`: a text that is a run is read if it stands for an element as
  a whole, and as this element.
* `ReadsRun` cuts a run into its tokens one after the other.  `parse_run_iff`:
  inside brackets, the reader takes each of them for a child.  So a numeral
  that goes on with other characters is cut off in front of them.
-/

namespace Edn

open Decimal (IsIntegerNumeral IsFloatNumeral)
open Grammar (EndsToken standard symbolSet)

section Runs

variable {maxDepth depth : Nat} {k next : Cursor} {value : Element} {tag : String}
  {text rest token more : List Char}

/-! ## The end of a run -/

/-- A run ends with the text, or in front of a closing delimiter. -/
def EndsRun (rest : List Char) : Prop :=
  ∀ c ∈ rest.head?, c = ')' ∨ c = ']' ∨ c = '\x7d'

theorem endsRun_nil : EndsRun [] := by
  rintro c ⟨⟩

theorem endsRun_closer (kind : CollectionKind) (more : List Char) :
    EndsRun (kind.closer ++ more) := by
  cases kind <;> rename_i k <;> cases k <;> (rintro c ⟨⟩; decide)

theorem EndsRun.endsToken (h : EndsRun rest) : EndsToken rest := by
  intro c hc
  rcases h c hc with rfl | rfl | rfl <;> rfl

/-- No value follows where a run ends. -/
theorem EndsRun.endsValue (h : EndsRun rest) : endsValue standard rest = true := by
  cases rest with
  | nil => rfl
  | cons c rest =>
    rw [endsValue_cons c rest [], Edn.endsValue, Grammar.standard_eq]
    rcases h c rfl with rfl | rfl | rfl <;> rfl

theorem isWhiteSpace_of_isAtomChar {c : Char} (hc : isAtomChar c = true) :
    Text.isWhiteSpace c = false ∧ Cursor.isBlank c = false ∧ c ≠ ';' := by
  rw [isAtomChar_eq] at hc
  exact not_trivia_of_valueSet (CharSet.contains_of_within
    (show symbolSet.within Grammar.valueSet = true by decide) (by decide) hc)

/-- Behind a run, or a part of it, there is no white space. -/
theorem EndsRun.isWhiteSpace (h : EndsRun rest) (hatoms : ∀ c ∈ text, isAtomChar c = true) :
    ∀ c ∈ (text ++ rest).head?, Text.isWhiteSpace c = false := by
  intro c hc
  cases text with
  | nil => rcases h c hc with rfl | rfl | rfl <;> rfl
  | cons d text =>
    cases hc
    exact (isWhiteSpace_of_isAtomChar (hatoms c List.mem_cons_self)).1

/-- A part of a text with characters of atoms only lies inside the run that starts the text. -/
theorem exists_of_append_eq (hrest : EndsToken rest) (htoken : ∀ c ∈ token, isAtomChar c = true)
    (h : text ++ rest = token ++ more) : ∃ middle, text = token ++ middle ∧ more = middle ++ rest := by
  rcases List.append_eq_append_iff.1 h with ⟨middle, rfl, hmore⟩ | ⟨middle, htext, hmore⟩
  · cases middle with
    | nil => exact ⟨[], by simp, hmore.symm⟩
    | cons c middle =>
      have hc := htoken c (List.mem_append_right _ List.mem_cons_self)
      rw [isAtomChar_eq, hrest c (by rw [hmore]; rfl)] at hc
      cases hc
  · exact ⟨middle, htext, hmore⟩

/-- No collection starts with a run. -/
theorem opening?_run (hatoms : ∀ c ∈ text, isAtomChar c = true) (hne : text ≠ [])
    (hrest : EndsRun rest) : standard.opening? (text ++ rest) = none := by
  rw [Option.eq_none_iff_forall_ne_some]
  intro rule hopen
  obtain ⟨kind, rfl⟩ := exists_kind_of_opening? hopen
  obtain ⟨inside, hinside⟩ := Grammar.opener_prefix_of_opening? hopen
  obtain ⟨c, more, rfl⟩ := List.exists_cons_of_ne_nil hne
  obtain ⟨hc, hmore⟩ := List.forall_mem_cons.1 hatoms
  match kind, hinside with
  | .ordered .list, hinside | .ordered .vector, hinside | .keyed .map, hinside =>
    obtain ⟨rfl, -⟩ := List.cons.inj hinside
    exact absurd hc (by decide)
  | .keyed .set, hinside =>
    -- behind the number sign of a set stands a brace
    obtain ⟨-, hbrace⟩ := List.cons.inj hinside
    cases more with
    | cons d more =>
      obtain ⟨rfl, -⟩ := List.cons.inj hbrace
      exact absurd (hmore _ List.mem_cons_self) (by decide)
    | nil =>
      have hhead : rest.head? = some '\x7b' := (congrArg List.head? hbrace).symm
      rcases hrest _ hhead with h | h | h <;> exact absurd h (by decide)

/-! ## No tags -/

/-- The characters of tags are characters of atoms. -/
theorem isAtomChar_of_tag {c : Char} {tail : List Char} (hc : Text.isLetter c = true) :
    ∀ d ∈ '#' :: c :: tail.takeWhile isTagChar, isAtomChar d = true := by
  refine List.forall_mem_cons.2 ⟨rfl, List.forall_mem_cons.2 ⟨by simp [isAtomChar, hc], ?_⟩⟩
  intro d hd
  have htag := List.mem_takeWhile_imp hd
  simp only [isTagChar, Bool.or_eq_true, beq_iff_eq] at htag
  rcases htag with ((((h | h) | rfl) | rfl) | rfl) | rfl
  · simp [isAtomChar, h]
  · simp [isAtomChar, h]
  all_goals rfl

/-- A run has no tag: a value would have to follow behind white space. -/
theorem eq_of_readTag_run (hatoms : ∀ c ∈ text, isAtomChar c = true) (hrest : EndsRun rest)
    (hk : k.rest = text ++ rest) (htag : readTag standard k = ⟨.ok tag, next⟩) :
    tag = "" ∧ next = k := by
  unfold readTag at htag
  split at htag
  · cases htag
    exact ⟨rfl, rfl⟩
  · next length hlength =>
    exfalso
    dsimp only at htag
    split at htag
    · cases htag
    · next hfault =>
      obtain ⟨c, tail, hcons, hc, rfl⟩ := exists_of_tagLength? hlength
      obtain ⟨hvalue, -, hspace⟩ := tagFault?_eq_none_iff.1 hfault
      have hsplit : text ++ rest =
          ('#' :: c :: tail.takeWhile isTagChar) ++ tail.dropWhile isTagChar := by
        rw [← hk, hcons, List.cons_append, List.cons_append, List.takeWhile_append_dropWhile]
      obtain ⟨middle, rfl, -⟩ := exists_of_append_eq hrest.endsToken (isAtomChar_of_tag hc) hsplit
      have hmiddle : ∀ d ∈ middle, isAtomChar d = true := fun d hd =>
        hatoms d (List.mem_append_right _ hd)
      -- behind the tag the run goes on, or ends
      rw [List.append_assoc] at hk
      have hbehind : (k.advance ((tail.takeWhile isTagChar).length + 2)).rest = middle ++ rest :=
        @Cursor.rest_advance_of_eq k ('#' :: c :: tail.takeWhile isTagChar) _ hk
      have hspaces := hrest.isWhiteSpace hmiddle
      have hskip : afterTag k ((tail.takeWhile isTagChar).length + 2) =
          k.advance ((tail.takeWhile isTagChar).length + 2) :=
        @Cursor.skipWhile_eq _ _ [] _ hbehind (List.forall_mem_nil _) hspaces
      rw [hskip, hbehind] at hvalue hspace
      cases middle with
      | nil =>
        rw [List.nil_append, hrest.endsValue] at hvalue
        cases hvalue
      | cons d middle =>
        rw [opening?_run hmiddle (List.cons_ne_nil _ _) hrest, List.cons_append,
          List.takeWhile_cons_of_neg (by simp [hspaces d rfl])] at hspace
        cases hspace rfl

/-- What is read where a run starts is a literal. -/
theorem readsValue_run (hatoms : ∀ c ∈ text, isAtomChar c = true) (hne : text ≠ [])
    (hrest : EndsRun rest) (hk : k.rest = text ++ rest) :
    ReadsValue standard maxDepth depth k (.ok value next) ↔
      readLiteral standard "" k = .ok value next := by
  have hopen := opening?_run hatoms hne hrest
  rw [← hk] at hopen
  constructor
  · intro h
    generalize ho : Outcome.ok value next = o at h
    cases h with
    | badTag | tooDeep => cases ho
    | @literal _ _ payload tag htag _ =>
      obtain ⟨htag, hpayload⟩ := eq_of_readTag_run hatoms hrest hk htag
      rw [htag, hpayload]
    | collection htag hopening =>
      obtain ⟨rfl, rfl⟩ := eq_of_readTag_run hatoms hrest hk htag
      rw [hopen] at hopening
      cases hopening
  · intro h
    obtain ⟨c, tail, rfl⟩ := List.exists_cons_of_ne_nil hne
    have hstart : StartsLiteral k.rest := ⟨c, tail ++ rest, hk, contains_literalSet_of_readLiteral h hk⟩
    have htag := @readTag_tagText "" rfl k k.rest (.inl hstart) (List.nil_append _).symm
    rw [show tagText "" = [] from rfl, List.length_nil, Cursor.advance] at htag
    have hread := @ReadsValue.literal standard maxDepth depth _ _ _ htag hopen
    rwa [h] at hread

/-- Where a run starts, its first token is read, as the element for which it stands. -/
theorem readsValue_run_iff (hatoms : ∀ c ∈ text, isAtomChar c = true) (hne : text ≠ [])
    (hrest : EndsRun rest) (hk : k.rest = text ++ rest) :
    ReadsValue standard maxDepth depth k (.ok value next) ↔
      ∃ token more, text = token ++ more ∧ IsFirst token more ∧ Denotes token value ∧
        next = k.advance token.length := by
  rw [readsValue_run hatoms hne hrest hk]
  constructor
  · intro h
    obtain ⟨rule, length, hmatch, hprocess, rfl⟩ := readLiteral_eq_ok_iff.1 h
    rw [hk] at hmatch hprocess
    have hlength : length ≤ text.length := by
      obtain ⟨hrule, hend⟩ := Grammar.literal_of_longestMatch? hmatch
      exact Grammar.matchEnd?_le (contains_symbolSet_of_atoms hatoms) hne hrest.endsToken hrule length
        hend
    -- the token is the part of the run that the rule takes
    have hcut : text.take length ++ text.drop length = text := List.take_append_drop _ _
    have htoken : (text.take length).length = length := by rw [List.length_take, Nat.min_eq_left hlength]
    rw [List.take_append_of_le_length hlength] at hprocess
    obtain ⟨hfirst, hdenotes⟩ := (@exists_longestMatch?_iff (text.take length) (text.drop length) rest
      value (by rwa [hcut]) hrest.endsToken).1
        ⟨rule, by rw [← List.append_assoc, hcut, htoken, hmatch], hprocess⟩
    exact ⟨_, _, hcut.symm, hfirst, hdenotes, by rw [htoken]⟩
  · rintro ⟨token, more, rfl, hfirst, hdenotes, rfl⟩
    rw [List.append_assoc] at hk
    obtain ⟨rule, hmatch, hprocess⟩ :=
      (exists_longestMatch?_iff hatoms hrest.endsToken).2 ⟨hfirst, hdenotes⟩
    exact readLiteral_eq hk hmatch hprocess

theorem StartsValue.of_atoms (hatoms : ∀ c ∈ text, isAtomChar c = true) (hne : text ≠ []) :
    StartsValue text := by
  obtain ⟨c, more, rfl⟩ := List.exists_cons_of_ne_nil hne
  have hc := hatoms c List.mem_cons_self
  rw [isAtomChar_eq] at hc
  exact ⟨c, more, rfl, CharSet.contains_of_within
    (show symbolSet.within Grammar.valueSet = true by decide) (by decide) hc⟩

/-! ## Atoms on their own -/

/-- A text that is a run is read as the element for which it stands as a whole. -/
theorem parse_eq_ok_iff_denotes {source : String} {e : Element} (hne : source ≠ "")
    (hatoms : ∀ c ∈ source.toList, isAtomChar c = true) :
    parse source = .ok e ↔ Denotes source.toList e := by
  have hne' : source.toList ≠ [] := fun h => hne (String.toList_eq_nil_iff.1 h)
  have hstart := StartsValue.of_atoms hatoms hne'
  have hrun : (Cursor.start source.toList).rest = source.toList ++ [] := (List.append_nil _).symm
  constructor
  · intro h
    obtain ⟨next, hread, hnext⟩ :=
      @Reader.exists_readsValue_of_parse .standard source e Reader.standard_grammar hstart h
    obtain ⟨token, more, hsplit, hfirst, hdenotes, rfl⟩ :=
      (readsValue_run_iff hatoms hne' endsRun_nil hrun).1 hread
    rw [@Cursor.rest_advance_of_eq (.start source.toList) token more hsplit] at hnext
    cases more with
    | nil =>
      rw [List.append_nil] at hsplit
      rwa [hsplit]
    | cons c more =>
      -- a second value would start behind the token
      rw [hsplit] at hatoms
      exact absurd (StartsValue.of_atoms (fun d hd => hatoms d (List.mem_append_right _ hd))
        (List.cons_ne_nil _ _)) hnext
  · intro h
    have hread := (@readsValue_run_iff 512 0 _ _ _ _ _ hatoms hne' endsRun_nil hrun).2
      ⟨source.toList, [], (List.append_nil _).symm, .inl rfl, h, rfl⟩
    refine @Reader.parse_of_readsValue .standard _ source e Reader.standard_grammar hstart hread ?_ rfl
    rw [Cursor.rest_advance_of_eq hrun]
    exact List.forall_mem_nil _

/-- What an atom stands for is a word, the numeral of an integer of 64 bits, the numeral of a float that
is none of an integer, a symbol, or a keyword. -/
theorem exists_denotes_iff {text : List Char} :
    (∃ e, Denotes text e) ↔
      text ∈ ["nil".toList, "true".toList, "false".toList] ∨
      (∃ x : Int64, IsIntegerNumeral text x.toInt) ∨
      ((∃ body, IsFloatNumeral text body) ∧ ∀ value, ¬IsIntegerNumeral text value) ∨
      (∃ s, Symbol.read (String.ofList text) = .ok s) ∨
      (text.head? = some ':' ∧ ∃ s, Symbol.readKeyword (String.ofList text) = .ok s) := by
  simp only [List.mem_cons, List.not_mem_nil, or_false]
  constructor
  · rintro ⟨e, h⟩
    cases h with
    | nil h => exact .inl (.inl h)
    | true h => exact .inl (.inr (.inl h))
    | false h => exact .inl (.inr (.inr h))
    | integer h => exact .inr (.inl ⟨_, h⟩)
    | float h hinteger => exact .inr (.inr (.inl ⟨⟨_, h⟩, hinteger⟩))
    | symbol hword hread => exact .inr (.inr (.inr (.inl ⟨_, hread⟩)))
    | keyword hcolon hread => exact .inr (.inr (.inr (.inr ⟨hcolon, _, hread⟩)))
  · have words : (text = "nil".toList ∨ text = "true".toList ∨ text = "false".toList) →
        ∃ e, Denotes text e := by
      rintro (h | h | h)
      · exact ⟨_, .nil h⟩
      · exact ⟨_, .true h⟩
      · exact ⟨_, .false h⟩
    rintro (hword | ⟨x, h⟩ | ⟨⟨body, h⟩, hinteger⟩ | ⟨s, hread⟩ | ⟨hcolon, s, hread⟩)
    · exact words hword
    · exact ⟨_, .integer h⟩
    · obtain ⟨x, hread⟩ := Decimal.exists_readDouble h
      exact ⟨_, .float h hinteger hread⟩
    · by_cases hword : String.ofList text ∈ reservedWords
      · simp only [reservedWords, List.mem_cons, List.not_mem_nil, or_false] at hword
        refine words (hword.imp ?_ (.imp ?_ ?_)) <;> (intro heq; rw [← heq, String.toList_ofList])
      · exact ⟨_, .symbol hword hread⟩
    · exact ⟨_, .keyword hcolon hread⟩

/-- A text of characters of atoms is read exactly if it is a word, the numeral of an integer of 64 bits,
the numeral of a float that is none of an integer, a symbol, or a keyword with its colon.  It is read as
the element of that class for which it stands. -/
theorem parse_atom_iff {text : String} (hne : text ≠ "")
    (hatoms : ∀ c ∈ text.toList, isAtomChar c = true) :
    ((∃ e, parse text = .ok e) ↔
      text ∈ reservedWords ∨
      (∃ x : Int64, IsIntegerNumeral text.toList x.toInt) ∨
      ((∃ body, IsFloatNumeral text.toList body) ∧
        ∀ value, ¬IsIntegerNumeral text.toList value) ∨
      (∃ s, Symbol.read text = .ok s) ∨
      (text.toList.head? = some ':' ∧ ∃ s, Symbol.readKeyword text = .ok s)) ∧
    ∀ e, parse text = .ok e ↔ Denotes text.toList e := by
  have hdenotes := fun e => @parse_eq_ok_iff_denotes text e hne hatoms
  refine ⟨?_, hdenotes⟩
  rw [exists_congr hdenotes, exists_denotes_iff, String.ofList_toList]
  simp only [reservedWords, List.mem_cons, List.not_mem_nil, or_false, String.toList_inj]

theorem parse_atom_minusTwelve : "-12N" ≠ "" ∧ (∀ c ∈ "-12N".toList, isAtomChar c = true) ∧
    parse "-12N" = .ok (.integer (-12)) := by
  have hatoms : ∀ c ∈ "-12N".toList, isAtomChar c = true := List.all_eq_true.1 rfl
  have hnumeral : IsIntegerNumeral "-12N".toList (-12 : Int64).toInt :=
    ⟨['-'], true, ['1', '2'], 12, ['N'], rfl, .minus, .inr ⟨'1', ['2'], rfl, by decide,
      List.all_eq_true.1 rfl⟩, rfl, .inr rfl, rfl⟩
  exact ⟨by decide, hatoms, ((parse_atom_iff (by decide) hatoms).2 _).2 (.integer hnumeral)⟩

/-! ## Runs inside collections -/

/-- A run is cut into tokens, from its start to its end, and each stands for an element. -/
inductive ReadsRun : List Char → List Element → Prop where
  | nil : ReadsRun [] []
  | cons {token more : List Char} {e : Element} {es : List Element} (hfirst : IsFirst token more)
      (hdenotes : Denotes token e) (hmore : ReadsRun more es) : ReadsRun (token ++ more) (e :: es)

variable {kind : CollectionKind} {start : Span} {items es : List Element}

theorem ReadsRun.of_nil (h : ReadsRun [] es) : es = [] := by
  generalize htext : ([] : List Char) = text at h
  cases h with
  | nil => rfl
  | cons _ hdenotes _ => exact absurd (List.append_eq_nil_iff.1 htext.symm).1 hdenotes.ne_nil

/-- No blank and no comment stands in front of a run, or of the delimiter behind it. -/
theorem skipTrivia_run (hatoms : ∀ c ∈ text, isAtomChar c = true)
    (hk : k.rest = text ++ (kind.closer ++ rest)) : k.skipTrivia = k := by
  refine @Cursor.skipTrivia_eq k [] _ hk .nil fun c hc => ?_
  cases text with
  | nil => exact not_trivia_closer kind rest c hc
  | cons d text =>
    cases hc
    exact (isWhiteSpace_of_isAtomChar (hatoms c List.mem_cons_self)).2

/-- A run has no closing delimiter in it. -/
theorem closing?_run (hatoms : ∀ c ∈ text, isAtomChar c = true) (hne : text ≠ [])
    (hk : k.rest = text ++ rest) : k.rest ≠ [] ∧ standard.closing? k.rest = none := by
  have hstart := startsValue_append (StartsValue.of_atoms hatoms hne) rest
  rw [← hk] at hstart
  refine ⟨?_, closing?_eq_none_of_startsValue hstart⟩
  obtain ⟨c, tail, hcons, -⟩ := hstart
  rw [hcons]
  exact List.cons_ne_nil _ _

/-- The tokens of a run are read as the items of a collection. -/
theorem ReadsRun.readsItems (h : ReadsRun text es) (hatoms : ∀ c ∈ text, isAtomChar c = true)
    (hk : k.rest = text ++ (kind.closer ++ rest)) :
    ReadsItems standard maxDepth depth kind.closer start k
      (.ok es (k.advance (text.length + kind.closer.length))) := by
  have hskip := skipTrivia_run hatoms hk
  induction h generalizing k with
  | nil =>
    obtain ⟨rule, hclose, hcloser⟩ := Grammar.closing?_closer kind rest
    have hread := @ReadsItems.close standard maxDepth depth kind.closer start k rule
      (by rw [hskip, hk]; exact hclose) hcloser
    rwa [hskip, ← Nat.zero_add kind.closer.length] at hread
  | @cons token more e es hfirst hdenotes _ ih =>
    have hne : token ++ more ≠ [] := by simp [hdenotes.ne_nil]
    have hmore : ∀ c ∈ more, isAtomChar c = true := fun c hc =>
      hatoms c (List.mem_append_right _ hc)
    obtain ⟨hrest, hclose⟩ := closing?_run hatoms hne hk
    have hvalue := (@readsValue_run_iff maxDepth depth k _ e _ _ hatoms hne
      (endsRun_closer kind rest) hk).2 ⟨token, more, rfl, hfirst, hdenotes, rfl⟩
    rw [List.append_assoc] at hk
    have hnext := Cursor.rest_advance_of_eq hk
    have hall := ReadsItems.item (by rw [hskip]; exact hrest) (by rw [hskip]; exact hclose)
      (by rw [hskip]; exact hvalue) (ih hmore hnext (skipTrivia_run hmore hnext))
    rw [Cursor.advance_advance] at hall
    rw [List.length_append, Nat.add_assoc]
    exact hall

/-- The items that are read from a run are those of its tokens. -/
theorem readsRun_of_readsItems (hatoms : ∀ c ∈ text, isAtomChar c = true)
    (hk : k.rest = text ++ (kind.closer ++ rest))
    (h : ReadsItems standard maxDepth depth kind.closer start k (.ok items next)) :
    ReadsRun text items := by
  refine ReadsItems.induction_ok
    (q := fun k items _ => ∀ {text : List Char}, (∀ c ∈ text, isAtomChar c = true) →
      k.rest = text ++ (kind.closer ++ rest) → ReadsRun text items)
    ?close ?item h hatoms hk
  case close =>
    intro k rule hclose _ text hatoms hk
    cases text with
    | nil => exact .nil
    | cons c text =>
      rw [skipTrivia_run hatoms hk, (closing?_run hatoms (List.cons_ne_nil _ _) hk).2] at hclose
      cases hclose
  case item =>
    intro k middle value items next _ hclose hvalue _ ih text hatoms hk
    rw [skipTrivia_run hatoms hk] at hclose hvalue
    have hne : text ≠ [] := by
      rintro rfl
      obtain ⟨rule, hrule, -⟩ := Grammar.closing?_closer kind rest
      rw [hk, List.nil_append, hrule] at hclose
      cases hclose
    obtain ⟨token, more, rfl, hfirst, hdenotes, rfl⟩ :=
      (readsValue_run_iff hatoms hne (endsRun_closer kind rest) hk).1 hvalue
    rw [List.append_assoc] at hk
    exact .cons hfirst hdenotes (ih (fun c hc => hatoms c (List.mem_append_right _ hc))
      (Cursor.rest_advance_of_eq hk))

/-- Between delimiters, a text that is a run is read as what is built of the elements of its tokens. -/
theorem parse_run_iff (kind : CollectionKind) {source : String} {e : Element}
    (hatoms : ∀ c ∈ text, isAtomChar c = true)
    (hsource : source.toList = kind.opener ++ (text ++ kind.closer)) :
    parse source = .ok e ↔
      ∃ children, ReadsRun text children ∧ Grammar.build kind children = .ok e := by
  have hpayload : StartsPayload source.toList := .inr ⟨kind, _, hsource⟩
  have htag : readTag standard (.start source.toList) = .ok "" (.start source.toList) := by
    have htag := @readTag_tagText "" rfl (.start source.toList) _ hpayload (List.nil_append _).symm
    rwa [show tagText "" = [] from rfl, List.length_nil, Cursor.advance] at htag
  have hopen : standard.opening? (Cursor.start source.toList).rest =
      some (Grammar.collectionRule kind) := by
    rw [show (Cursor.start source.toList).rest = source.toList from rfl, hsource]
    exact Grammar.opening?_opener kind _
  have hinside : ((Cursor.start source.toList).advance kind.opener.length).rest =
      text ++ (kind.closer ++ []) := by
    rw [List.append_nil]
    exact Cursor.rest_advance_of_eq hsource
  constructor
  · intro h
    obtain ⟨next, hread, -⟩ :=
      @Reader.exists_readsValue_of_parse .standard source e Reader.standard_grammar
        hpayload.startsValue h
    obtain ⟨-, children, hitems, hprocess⟩ := hread.exists_items htag hopen
    obtain ⟨built, hbuild, htagged⟩ := exists_of_bind hprocess
    obtain rfl : built = e := Except.ok.inj htagged
    exact ⟨children, readsRun_of_readsItems hatoms hinside hitems, hbuild⟩
  · rintro ⟨children, hrun, hbuild⟩
    have hprocess : (Grammar.collectionRule kind).process "" children = .ok e := by
      show (Grammar.build kind children >>= fun e => Grammar.tagged e "") = .ok e
      rw [hbuild]
      rfl
    have hread := @ReadsValue.collection standard 512 0 _ _ _ _ _ htag hopen (by decide)
      (hrun.readsItems hatoms hinside)
    rw [buildCollection_ok hprocess] at hread
    refine @Reader.parse_of_readsValue .standard _ source e Reader.standard_grammar
      hpayload.startsValue hread ?_ rfl
    rw [Cursor.advance_advance, Cursor.rest_advance, List.drop_of_length_le]
    · exact List.forall_mem_nil _
    · show source.toList.length ≤ _
      rw [hsource]
      simp [Grammar.collectionRule, Grammar.delimiterRule]

/-- A run is one token, unless it starts with a numeral and goes on with other characters. -/
theorem ReadsRun.length_eq_one_iff (h : ReadsRun text es) (hne : text ≠ []) :
    es.length = 1 ↔ (startsWithDigit text = true → IsNumeral text) := by
  cases h with
  | nil => exact absurd rfl hne
  | @cons token more e es hfirst hdenotes hmore =>
    constructor
    · intro hone hdigit
      cases hmore with
      | nil =>
        rw [List.append_nil] at hdigit ⊢
        exact hdenotes.isNumeral hdigit
      | cons => cases hone
    · intro hnumeral
      have hlast : more = [] := by
        rcases hfirst with hlast | ⟨hdigit, hlongest⟩
        · exact hlast
        · have hdigit' : startsWithDigit (token ++ more) = true := by
            cases token with
            | nil => cases hdigit
            | cons c token => exact hdigit
          have hle := hlongest _ List.prefix_rfl (hnumeral hdigit')
          rw [List.length_append] at hle
          exact List.eq_nil_of_length_eq_zero (by omega)
      rw [hlast] at hmore
      rw [hmore.of_nil]
      rfl

/-- A vector that holds a run, without anything that separates values, has as many children as the run
has tokens.  This is one, unless the run starts with a digit and is no numeral as a whole. -/
theorem parse_run_in_vector {text : String} (hne : text ≠ "")
    (hatoms : ∀ c ∈ text.toList, isAtomChar c = true) :
    (∀ e, parse ("[" ++ text ++ "]") = .ok e ↔
      ∃ children, ReadsRun text.toList children ∧ e = .vector children) ∧
    ∀ children, ReadsRun text.toList children →
      (children.length = 1 ↔ (startsWithDigit text.toList = true → IsNumeral text.toList)) := by
  have hsource : ("[" ++ text ++ "]").toList =
      (CollectionKind.ordered .vector).opener ++
        (text.toList ++ (CollectionKind.ordered .vector).closer) := by
    simp [CollectionKind.opener, CollectionKind.closer]
  refine ⟨fun e => ?_, fun children h => h.length_eq_one_iff fun h => hne (String.toList_eq_nil_iff.1 h)⟩
  rw [parse_run_iff _ hatoms hsource]
  refine exists_congr fun children => and_congr_right fun _ => ?_
  constructor
  · exact fun h => (Except.ok.inj h).symm
  · rintro rfl
    rfl

theorem parse_run_in_vector_seven : "7N" ≠ "" ∧ (∀ c ∈ "7N".toList, isAtomChar c = true) ∧
    parse ("[" ++ "7N" ++ "]") = .ok (.vector [.integer 7]) ∧
      ReadsRun "7N".toList [.integer 7] ∧ IsNumeral "7N".toList := by
  have hatoms : ∀ c ∈ "7N".toList, isAtomChar c = true := List.all_eq_true.1 rfl
  have hnumeral : IsIntegerNumeral "7N".toList (7 : Int64).toInt :=
    ⟨[], false, ['7'], 7, ['N'], rfl, .absent, .inr ⟨'7', [], rfl, by decide,
      List.all_eq_true.1 rfl⟩, rfl, .inr rfl, rfl⟩
  have hrun : ReadsRun "7N".toList [.integer 7] :=
    @ReadsRun.cons _ [] _ _ (.inl rfl) (.integer hnumeral) .nil
  obtain ⟨hparse, hone⟩ := parse_run_in_vector (by decide) hatoms
  exact ⟨by decide, hatoms, (hparse _).2 ⟨_, hrun, rfl⟩, hrun, (hone _ hrun).1 rfl rfl⟩

/-- Behind a numeral, a symbol follows without anything in between. -/
theorem readsRun_oneBad :
    "1bad" ≠ "" ∧ (∀ c ∈ "1bad".toList, isAtomChar c = true) ∧
      parse ("[" ++ "1bad" ++ "]") =
        .ok (.vector [.scalar "" (.integer 1), .symbol "" ⟨"", "bad", false⟩]) := by
  have hatoms : ∀ c ∈ "1bad".toList, isAtomChar c = true := List.all_eq_true.1 rfl
  have hone : standard.longestMatch? (['1'] ++ (['b', 'a', 'd'] ++ [])) =
      some (Grammar.integerRule, 1) := by
    rw [Grammar.standard_eq]
    simp only [Grammar.longestMatch?, Grammar.literalRules, Grammar.wordRules, List.cons_append,
      List.nil_append, List.foldl, Grammar.longer, Grammar.matchEnd?_nil, Grammar.matchEnd?_true,
      Grammar.matchEnd?_false, Grammar.matchEnd?_integer, Grammar.matchEnd?_float,
      Grammar.matchEnd?_character, Grammar.matchEnd?_symbol, Grammar.matchEnd?_keyword,
      Grammar.matchEnd?_string]
    rfl
  obtain ⟨hfirst, hdenotes⟩ := (@exists_longestMatch?_iff ['1'] ['b', 'a', 'd'] []
    (.scalar "" (.integer 1)) hatoms Grammar.endsToken_nil).1 ⟨_, hone, rfl⟩
  have hbad : Denotes ['b', 'a', 'd'] (.symbol "" ⟨"", "bad", false⟩) := .symbol (by decide) rfl
  have hrun : ReadsRun "1bad".toList [.scalar "" (.integer 1), .symbol "" ⟨"", "bad", false⟩] :=
    .cons hfirst hdenotes (@ReadsRun.cons _ [] _ _ (.inl rfl) hbad .nil)
  exact ⟨by decide, hatoms, (parse_run_iff (.ordered .vector) hatoms rfl).2 ⟨_, hrun, rfl⟩⟩

end Runs

end Edn
