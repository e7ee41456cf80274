import Edn.Proofs.Reading.Failures

/-!
# The place of an error

A text that cannot be read is at fault at one place, and the error says
which: it has the line and the column of the place, and the line of the text
around it.

* `Reader.Refuses` says at which place a text is at fault, and with which
  error: in a value, at a closing delimiter that closes nothing, or where
  the text does not hold exactly one value, or no collection.
* `Error.IsPlaced` says that an error has the line, the column and the source
  line of a place that is at fault.
* `Reader.isPlaced_of_error` is the result.
-/

namespace Edn

open Grammar (byteLength)

/-! ## The line around a place -/

/-- Of a text that is cut in two, `line` is the longest piece around the cut without the end of a
line. -/
def IsLineAround (before after line : List Char) : Prop :=
  ∃ above left right below, before = above ++ left ∧ after = right ++ below ∧ line = left ++ right ∧
    (∀ c ∈ line, c ≠ '\n') ∧ (∀ c ∈ above.getLast?, c = '\n') ∧ ∀ c ∈ below.head?, c = '\n'

theorem ne_newline_of_inLine {c : Char} (h : Span.inLine c = true) : c ≠ '\n' := by
  simpa [Span.inLine] using h

/-- The first character that is not in the line ends it. -/
theorem eq_newline_of_head?_dropWhile {text : List Char} :
    ∀ c ∈ (text.dropWhile Span.inLine).head?, c = '\n' := by
  intro c hc
  have hnot := List.head?_dropWhile_not Span.inLine text
  rw [Option.mem_def.1 hc] at hnot
  simpa [Span.inLine] using hnot

/-- The line on which a span starts, given the text before it and the text from there on. -/
theorem Span.sourceLine_append {span : Span} {before : List Char} (after : List Char)
    (h : span.start = byteLength before) : span.sourceLine (before ++ after) =
      (before.reverse.takeWhile inLine).reverse ++ after.takeWhile inLine := by
  rw [sourceLine, h, splitAtByte_append, List.append_nil]

/-- The line on which a span starts is the line around its start. -/
theorem Span.isLineAround_sourceLine {span : Span} {before : List Char} (after : List Char)
    (h : span.start = byteLength before) :
    IsLineAround before after (span.sourceLine (before ++ after)) := by
  have hline := sourceLine_append after h
  refine ⟨(before.reverse.dropWhile inLine).reverse, (before.reverse.takeWhile inLine).reverse,
    after.takeWhile inLine, after.dropWhile inLine, ?_, ?_, hline, ?_, ?_, ?_⟩
  · rw [← List.reverse_append, List.takeWhile_append_dropWhile, List.reverse_reverse]
  · rw [List.takeWhile_append_dropWhile]
  · intro c hc
    rw [hline, List.mem_append, List.mem_reverse] at hc
    rcases hc with hc | hc
    · exact ne_newline_of_inLine (List.all_eq_true.1 List.all_takeWhile c hc)
    · exact ne_newline_of_inLine (List.all_eq_true.1 List.all_takeWhile c hc)
  · rw [List.getLast?_reverse]
    exact eq_newline_of_head?_dropWhile
  · exact eq_newline_of_head?_dropWhile

/-! ## What is at fault in a text -/

/-- A value of a text, with the cursors where it starts and where it ends. -/
structure Found where
  value : Element
  start : Cursor
  stop : Cursor

/-- The span of a value of a text. -/
def Found.span (found : Found) : Span :=
  found.stop.spanFrom found.start.mark

/-- Values and comments are read between two cursors.  The values come in order. -/
inductive Passes (g : Grammar) (limits : Limits) : Cursor → List Found → Cursor → Prop where
  | nil {k : Cursor} : Passes g limits k [] k
  | comment {k next last : Cursor} {token : Token} {text : List Char} {found : List Found}
      (htoken : nextToken g limits k = .ok token next) (hkind : token.kind = .comment text)
      (hrest : Passes g limits next found last) : Passes g limits k found last
  | value {k next last : Cursor} {token : Token} {value : Element} {found : List Found}
      (htoken : nextToken g limits k = .ok token next) (hkind : token.kind = .value value)
      (hrest : Passes g limits next found last) :
      Passes g limits k (⟨value, k.skipBlanks, next⟩ :: found) last

/-- Something that is neither a comment nor a closing delimiter stands at a cursor. -/
def StartsToken (g : Grammar) (k : Cursor) : Prop :=
  StartsItem g k ∧ k.rest.head? ≠ some ';'

namespace Reader

/-- A text cannot be read, or holds no collection where one is wanted.  It is at fault at `place`,
with the error `e`. -/
inductive Refuses (r : Reader) (wantsCollection : Bool) (text : List Char) :
    (place : Cursor) → (e : Error) → Prop where
  | value {k place : Cursor} {found : List Found} {e : Error}
      (hread : Passes r.grammar r.limits (.start text) found k)
      (hstarts : StartsToken r.grammar k.skipBlanks)
      (hfaulty : Faulty r.grammar r.limits.maxDepth 0 k.skipBlanks place e) :
      Refuses r wantsCollection text place e
  | strayCloser {k : Cursor} {found : List Found} {rule : DelimiterRule}
      (hread : Passes r.grammar r.limits (.start text) found k)
      (hcomment : k.skipBlanks.rest.head? ≠ some ';')
      (hclose : r.grammar.closing? k.skipBlanks.rest = some rule) :
      Refuses r wantsCollection text k.skipBlanks
        (.unplaced ("unexpected end token: " ++ quoted rule.closer))
  | noValue {k : Cursor} (hread : Passes r.grammar r.limits (.start text) [] k)
      (hend : k.skipBlanks.rest = []) :
      Refuses r wantsCollection text k.skipBlanks (.unplaced s!"expected one result, got: {0}")
  | manyValues {k : Cursor} {first second : Found} {others : List Found}
      (hread : Passes r.grammar r.limits (.start text) (first :: second :: others) k)
      (hend : k.skipBlanks.rest = []) :
      Refuses r wantsCollection text second.start
        (.unplaced s!"expected one result, got: {others.length + 2}")
  | noCollection {k : Cursor} {only : Found}
      (hread : Passes r.grammar r.limits (.start text) [only] k) (hend : k.skipBlanks.rest = [])
      (hwants : wantsCollection = true) (hvalue : only.value.isCollection = false) :
      Refuses r wantsCollection text only.start
        (.unplaced ("expected a collection, got " ++ only.value.type.name))

end Reader

/-- An error has the place of a cursor in a text, and is what `Blames` says of that cursor: its line
and its column are those of the text before the cursor, and its source line is the line around it. -/
def Error.IsPlaced (source : List Char) (Blames : Cursor → Error → Prop) (e : Error) : Prop :=
  ∃ before after place fault line column sourceLine,
    source = before ++ after ∧ place.Behind source before ∧ Blames place fault ∧
      line = lineBehind before ∧ 1 ≤ line ∧ line ≤ source.length + 1 ∧
      column = columnBehind before ∧ 1 ≤ column ∧ column ≤ source.length + 1 ∧
      IsLineAround before after sourceLine ∧
      e = fault.located line column (String.ofList sourceLine) ∧
      e.position? = some (line, column, String.ofList sourceLine)

/-! ## Spans -/

/-- A span starts at a cursor. -/
def Span.StartsAt (span : Span) (k : Cursor) : Prop :=
  span.start = k.position ∧ span.line = k.line ∧ span.column = k.column

theorem Cursor.startsAt_mark (k : Cursor) : k.mark.StartsAt k :=
  ⟨rfl, rfl, rfl⟩

theorem Cursor.startsAt_spanFrom (k next : Cursor) : (next.spanFrom k.mark).StartsAt k :=
  ⟨rfl, rfl, rfl⟩

/-! ## Tokens -/

section Tokens

variable {g : Grammar} {limits : Limits} {k next : Cursor} {token : Token} {m : Misread}

/-- A token that cannot be read is a value behind the blanks, and that value is at fault. -/
theorem faulty_of_nextToken (h : nextToken g limits k = .error m next) :
    StartsToken g k.skipBlanks ∧
      ∃ place, m.span = place.mark ∧ Faulty g limits.maxDepth 0 k.skipBlanks place m.error := by
  unfold nextToken tokenAt at h
  split at h
  · cases h
  · cases h
  · next hnil hcomment =>
    split at h
    · cases h
    · next hclose =>
      refine ⟨⟨⟨hnil, hclose⟩, fun hhead => ?_⟩, ?_⟩
      · obtain ⟨rest, hrest⟩ := List.head?_eq_some_iff.1 hhead
        exact hcomment rest hrest
      · unfold valueToken at h
        split at h
        · next hscan =>
          cases h
          exact ((scanValue_eq_iff_readsValue _ _ _ _).1 hscan).faulty
        · cases h

/-- A closing delimiter stands behind the blanks. -/
theorem closing?_of_nextToken {closer : List Char} (h : nextToken g limits k = .ok token next)
    (hkind : token.kind = .close closer) :
    k.skipBlanks.rest.head? ≠ some ';' ∧
      ∃ rule, g.closing? k.skipBlanks.rest = some rule ∧ rule.closer = closer := by
  unfold nextToken tokenAt at h
  split at h
  · cases h
    cases hkind
  · cases h
    cases hkind
  · next hnil hcomment =>
    split at h
    · next rule hclose =>
      cases h
      cases hkind
      refine ⟨fun hhead => ?_, rule, hclose, rfl⟩
      obtain ⟨rest, hrest⟩ := List.head?_eq_some_iff.1 hhead
      exact hcomment rest hrest
    · unfold valueToken at h
      split at h
      · cases h
      · cases h
        cases hkind

theorem Passes.trans {k next last : Cursor} {found others : List Found}
    (h : Passes g limits k found next) (h' : Passes g limits next others last) :
    Passes g limits k (found ++ others) last := by
  induction h with
  | nil => exact h'
  | comment htoken hkind hrest ih => exact .comment htoken hkind (ih h')
  | value htoken hkind hrest ih => exact .value htoken hkind (ih h')

theorem Passes.reaches {k last : Cursor} {found : List Found} (h : Passes g limits k found last) :
    k.Reaches last ∧ ∀ f ∈ found, k.Reaches f.start := by
  induction h with
  | nil => exact ⟨.refl _, List.forall_mem_nil _⟩
  | @comment k next last token text found htoken hkind hrest ih =>
    have hreach := nextToken_reaches g limits k
    rw [htoken] at hreach
    exact ⟨hreach.trans ih.1, fun f hf => hreach.trans (ih.2 f hf)⟩
  | @value k next last token value found htoken hkind hrest ih =>
    have hreach := nextToken_reaches g limits k
    rw [htoken] at hreach
    exact ⟨hreach.trans ih.1, List.forall_mem_cons.2
      ⟨Cursor.reaches_skipWhile _ _, fun f hf => hreach.trans (ih.2 f hf)⟩⟩

end Tokens

/-! ## Texts -/

namespace Reader

variable {r : Reader} {k : Cursor}

/-- The values of a text that has been read, with their spans, and the end of the text. -/
theorem passes_of_valuesFrom {read values : List (Element × Span)} {stop : Span}
    (h : r.valuesFrom read k = .ok (values, stop)) :
    ∃ found last, Passes r.grammar r.limits k found last ∧ last.skipBlanks.rest = [] ∧
      stop = last.skipBlanks.mark ∧
      values = read.reverse ++ found.map fun f => (f.value, f.span) := by
  fun_induction valuesFrom r read k with
  | case1 => cases h
  | case2 read k token next htoken hkind =>
    cases h
    obtain ⟨hspan, text, hrest, htells⟩ := tokenAt_spec htoken
    rw [hkind] at htells
    obtain ⟨rfl, hnext⟩ : text = [] ∧ next.rest = [] := htells
    have hend : k.skipBlanks.rest = [] := hrest.trans hnext
    have hreach := tokenAt_reaches r.grammar r.limits k.skipBlanks
    rw [show tokenAt r.grammar r.limits k.skipBlanks = .ok token next from htoken] at hreach
    have hsame : next = k.skipBlanks := hreach.eq_advance hrest
    refine ⟨[], k, .nil, hend, ?_, by simp⟩
    rw [hspan, hsame]
    rfl
  | case3 => cases h
  | case4 read k token next htoken text hkind ih =>
    obtain ⟨found, last, hpasses, hrest⟩ := ih h
    exact ⟨found, last, .comment htoken hkind hpasses, hrest⟩
  | case5 read k token next htoken value hkind ih =>
    obtain ⟨found, last, hpasses, hend, hstop, hvalues⟩ := ih h
    refine ⟨_, last, .value htoken hkind hpasses, hend, hstop, ?_⟩
    have hspan : token.span = next.spanFrom k.skipBlanks.mark := (tokenAt_spec htoken).1
    rw [hvalues, List.reverse_cons, List.append_assoc, hspan]
    rfl

/-- A text whose values cannot be read is refused at the place of the error. -/
theorem refuses_of_valuesFrom {wantsCollection : Bool} {text : List Char} {found : List Found}
    {read : List (Element × Span)} {m : Misread}
    (hread : Passes r.grammar r.limits (.start text) found k)
    (h : r.valuesFrom read k = .error m) :
    ∃ place, m.span.StartsAt place ∧ r.Refuses wantsCollection text place m.error := by
  fun_induction valuesFrom r read k generalizing found with
  | case1 read k m' next htoken =>
    cases h
    obtain ⟨hstarts, place, hspan, hfaulty⟩ := faulty_of_nextToken htoken
    exact ⟨place, by rw [hspan]; exact place.startsAt_mark, .value hread hstarts hfaulty⟩
  | case2 => cases h
  | case3 read k token next htoken closer hkind =>
    cases h
    obtain ⟨hcomment, rule, hclose, rfl⟩ := closing?_of_nextToken htoken hkind
    have hspan : token.span = next.spanFrom k.skipBlanks.mark := (tokenAt_spec htoken).1
    refine ⟨k.skipBlanks, ?_, .strayCloser hread hcomment hclose⟩
    rw [hspan]
    exact k.skipBlanks.startsAt_spanFrom next
  | case4 read k token next htoken text hkind ih =>
    exact ih (hread.trans (.comment htoken hkind .nil)) h
  | case5 read k token next htoken value hkind ih =>
    exact ih (hread.trans (.value htoken hkind .nil)) h

/-- A text that does not hold exactly one value is refused at the second value, or at its end. -/
theorem refuses_of_onlyValue {wantsCollection : Bool} {text : List Char} {found : List Found}
    {last : Cursor} {m : Misread} (hread : Passes r.grammar r.limits (.start text) found last)
    (hend : last.skipBlanks.rest = [])
    (h : onlyValue (found.map fun f => (f.value, f.span)) last.skipBlanks.mark = .error m) :
    ∃ place, m.span.StartsAt place ∧ r.Refuses wantsCollection text place m.error := by
  match found with
  | [] =>
    cases h
    exact ⟨last.skipBlanks, last.skipBlanks.startsAt_mark, .noValue hread hend⟩
  | [only] => cases h
  | first :: second :: others =>
    simp only [onlyValue, List.map_cons, List.length_cons, List.length_map] at h
    cases h
    exact ⟨second.start, second.start.startsAt_spanFrom second.stop, .manyValues hread hend⟩

/-- A text in which not exactly one value is found is refused at the place of the error. -/
theorem refuses_of_readOne {wantsCollection : Bool} {source : String} {m : Misread}
    (h : r.readOne source = .error m) :
    ∃ place, m.span.StartsAt place ∧ r.Refuses wantsCollection source.toList place m.error := by
  unfold readOne at h
  cases hvalues : r.valuesFrom [] (.start source.toList) with
  | error m' =>
    rw [hvalues] at h
    cases h
    exact refuses_of_valuesFrom .nil hvalues
  | ok all =>
    obtain ⟨values, stop⟩ := all
    obtain ⟨found, last, hread, hend, rfl, rfl⟩ := passes_of_valuesFrom hvalues
    rw [hvalues] at h
    exact refuses_of_onlyValue hread hend h

/-- A text in which one value is found that is no collection is refused where one is wanted. -/
theorem refuses_of_scalar {source : String} {value : Element} {span : Span}
    (h : r.readOne source = .ok (value, span)) (hvalue : value.isCollection = false) :
    ∃ place, span.StartsAt place ∧ r.Refuses true source.toList place
      (.unplaced ("expected a collection, got " ++ value.type.name)) := by
  obtain ⟨⟨values, stop⟩, hvalues, honly⟩ := exists_of_bind h
  obtain ⟨found, last, hread, hend, rfl, rfl⟩ := passes_of_valuesFrom hvalues
  obtain ⟨only, rfl, hpair⟩ := List.map_eq_singleton_iff.1 (eq_of_onlyValue honly)
  cases hpair
  exact ⟨only.start, only.start.startsAt_spanFrom only.stop, .noCollection hread hend rfl hvalue⟩

/-- The place at which a text is refused lies in the text. -/
theorem Refuses.reaches {wantsCollection : Bool} {text : List Char} {place : Cursor} {e : Error}
    (h : r.Refuses wantsCollection text place e) : (Cursor.start text).Reaches place := by
  have hskip : ∀ k : Cursor, k.Reaches k.skipBlanks := Cursor.reaches_skipWhile _
  cases h with
  | value hread hstarts hfaulty =>
    exact (hread.reaches.1.trans (hskip _)).trans hfaulty.reaches
  | strayCloser hread hcomment hclose => exact hread.reaches.1.trans (hskip _)
  | noValue hread hend => exact hread.reaches.1.trans (hskip _)
  | manyValues hread hend =>
    exact hread.reaches.2 _ (List.mem_cons_of_mem _ List.mem_cons_self)
  | noCollection hread hend hwants hvalue => exact hread.reaches.2 _ List.mem_cons_self

/-- In the notation, a text is refused with an error that has no place of its own. -/
theorem Refuses.isUnplaced {limits : Limits} {wantsCollection : Bool} {text : List Char}
    {place : Cursor} {e : Error} (h : (within limits).Refuses wantsCollection text place e) :
    e.IsUnplaced := by
  cases h with
  | value hread hstarts hfaulty => exact hfaulty.isUnplaced
  | strayCloser | noValue | manyValues | noCollection => exact Error.isUnplaced_ofCause rfl

/-- An error at whose span a text is refused has the place of that span. -/
theorem isPlaced_located {limits : Limits} {wantsCollection : Bool} {source : String} {m : Misread}
    {place : Cursor} (hspan : m.span.StartsAt place)
    (h : (within limits).Refuses wantsCollection source.toList place m.error) :
    (m.located source.toList).IsPlaced source.toList
      ((within limits).Refuses wantsCollection source.toList) := by
  obtain ⟨before, hsource, hplace⟩ := (Cursor.behind_start source.toList).reaches h.reaches
  rw [List.nil_append] at hplace
  obtain ⟨hstart, hline, hcolumn⟩ := hspan
  have hlength : before.length ≤ source.toList.length := by
    rw [hplace.source_eq, List.length_append]
    exact Nat.le_add_right _ _
  have hsourceLine := Span.isLineAround_sourceLine place.rest (hstart.trans hplace.position)
  rw [← hplace.source_eq] at hsourceLine
  refine ⟨before, place.rest, place, m.error, m.span.line, m.span.column, _, hplace.source_eq,
    hplace, h, hline.trans hplace.line, ?_, ?_, hcolumn.trans hplace.column, ?_, ?_, hsourceLine,
    rfl, Error.position?_located h.isUnplaced⟩
  · rw [hline, hplace.line]
    exact Nat.succ_le_succ (Nat.zero_le _)
  · rw [hline, hplace.line]
    exact Nat.le_trans (lineBehind_le before) (Nat.succ_le_succ hlength)
  · rw [hcolumn, hplace.column]
    exact Nat.succ_le_succ (Nat.zero_le _)
  · rw [hcolumn, hplace.column]
    exact Nat.le_trans (columnBehind_le before) (Nat.succ_le_succ hlength)

/-- The error of a text is the one of its length, or has its place from the text. -/
theorem readWithin_eq_error {source : String} {e : Error} (h : r.readWithin source = .error e) :
    (∃ limit actual, e = .limitExceeded (.length limit actual)) ∨
      ∃ m, r.readOne source = .error m ∧ e = m.located source.toList := by
  unfold readWithin at h
  split at h
  · next error herror =>
    cases h
    unfold lengthError? at herror
    split at herror
    · split at herror
      · cases herror
        exact .inl ⟨_, _, rfl⟩
      · cases herror
    · cases herror
  · cases hone : r.readOne source with
    | error m =>
      rw [hone] at h
      cases h
      exact .inr ⟨m, rfl, rfl⟩
    | ok found =>
      rw [hone] at h
      cases h

theorem readOne_of_readWithin {source : String} {found : Element × Span}
    (h : r.readWithin source = .ok found) : r.readOne source = .ok found := by
  unfold readWithin at h
  split at h
  · cases h
  · exact eq_ok_of_mapError h

/-- Reading fails if no single value is found, or if it is not the collection that is wanted. -/
theorem eq_error_of_parse {wantsCollection : Bool} {source : String} {e : Error}
    (h : (if wantsCollection then r.parseCollection source else r.parse source) = .error e) :
    r.readWithin source = .error e ∨
      wantsCollection = true ∧ ∃ value span, r.readWithin source = .ok (value, span) ∧
        value.isCollection = false ∧ e = (Misread.fault span
          ("expected a collection, got " ++ value.type.name)).located source.toList := by
  unfold parseCollection parse at h
  cases hread : r.readWithin source with
  | error error =>
    rw [hread] at h
    split at h <;> (cases h; exact .inl rfl)
  | ok found =>
    obtain ⟨value, span⟩ := found
    rw [hread] at h
    split at h
    · next hwants =>
      replace h : (if value.isCollection then .ok value else .error
        ((Misread.fault span ("expected a collection, got " ++ value.type.name)).located
          source.toList)) = Except.error e := h
      split at h
      · cases h
      · next hvalue =>
        cases h
        exact .inr ⟨hwants, value, span, rfl, Bool.eq_false_of_not_eq_true hvalue, rfl⟩
    · cases h

/-- Every error of a text, but that of its length, has a place in the text.  Its line and its column
are at least one and are those of a cursor that stands between two characters, and its source line is
the line around that cursor.  There the text is at fault: at a collection that is unterminated or that
its rule refuses, its tag included, if nothing inside is at fault; at a closing delimiter that closes
nothing or the wrong collection; or at a literal that its rule refuses. -/
theorem isPlaced_of_error {limits : Limits} {wantsCollection : Bool} {source : String} {e : Error}
    (h : (if wantsCollection then (within limits).parseCollection source
      else (within limits).parse source) = .error e)
    (hlength : ∀ limit actual, e ≠ .limitExceeded (.length limit actual)) :
    e.IsPlaced source.toList ((within limits).Refuses wantsCollection source.toList) := by
  rcases eq_error_of_parse h with hread | ⟨rfl, value, span, hread, hvalue, rfl⟩
  · rcases readWithin_eq_error hread with ⟨limit, actual, htooLong⟩ | ⟨m, hone, rfl⟩
    · exact absurd htooLong (hlength limit actual)
    · obtain ⟨place, hspan, hrefuses⟩ := refuses_of_readOne hone
      exact isPlaced_located hspan hrefuses
  · obtain ⟨place, hspan, hrefuses⟩ := refuses_of_scalar (readOne_of_readWithin hread) hvalue
    exact isPlaced_located hspan hrefuses

theorem isPlaced_of_error_unterminated :
    let e := Error.ofCause (.syntaxFault "unterminated collection, expected ')'" 2 1 "(")
    (within ⟨2, none⟩).parse "[\n(" = .error e ∧
      e.IsPlaced "[\n(".toList ((within ⟨2, none⟩).Refuses false "[\n(".toList) := by
  intro e
  have hvector : Opens .standard (.start "[\n(".toList) "" _ ⟨"\n(".toList, 1, 1, 2⟩ :=
    ⟨_, rfl, Grammar.opening?_opener (.ordered .vector) "\n(".toList, rfl⟩
  have hlist : Opens .standard ⟨"(".toList, 2, 2, 1⟩ "" _ ⟨[], 3, 2, 2⟩ :=
    ⟨_, rfl, Grammar.opening?_opener (.ordered .list) [], rfl⟩
  have hfaulty : Faulty .standard 2 0 (.start "[\n(".toList) ⟨"(".toList, 2, 2, 1⟩
      (.unplaced "unterminated collection, expected ')'") :=
    .inside hvector (by decide) .nil ⟨by decide, Grammar.closing?_eq_none rfl⟩
      (.unterminated hlist (by decide) .nil rfl)
  obtain ⟨next, hread⟩ := hfaulty.readsValue
  have hparse := @parse_of_readsValue_error (within ⟨2, none⟩) next "[\n(" _ rfl ⟨_, _, rfl, rfl⟩
    hread rfl
  exact ⟨hparse, @isPlaced_of_error ⟨2, none⟩ false "[\n(" e hparse
    (by simp [e, Error.ofCause, Error.limitExceeded])⟩

end Reader

end Edn
