import Edn.Reading.Scanner

/-!
# Recursive descent

`scanFrom` keeps the open collections in a list of frames.  This module
states what it reads as a plain recursion, without frames, and proves that
both read the same.

* `ReadsValue` and `ReadsItems` are the recursion: a value is an optional
  tag and a literal, or an optional tag, an opening delimiter, the items at
  one depth more, and the closing delimiter.  They relate a cursor to an
  outcome, so they speak of errors and of the place where reading stops too.
* `ReadsValue.induction_ok` and `ReadsItems.induction_ok` are the inductions
  over what is read, with no case for errors.
* `ReadsValue.shortens` says that a value takes characters, and
  `exists_readsValue` that the recursion has an outcome at every cursor.
* `ReadsValue.deliver_eq` is the simulation.  The frames around a value are
  the calls that wait for it: `deliver` hands them its outcome.
* `scanValue_eq_iff_readsValue` is the result.
-/

namespace Edn

/-! ## The recursion -/

/-- Reads a literal after its tag. -/
def readLiteral (g : Grammar) (tag : String) (k : Cursor) : Outcome Element :=
  match g.longestMatch? k.rest with
  | none => .error (.fault k.mark (unexpected k.rest)) k
  | some (rule, length) =>
    match rule.process tag (String.ofList (k.rest.take length)) with
    | .error error => .error ⟨k.mark, error⟩ (k.advance length)
    | .ok value => .ok value (k.advance length)

/-- Hands the items of a collection to its rule.  What the rule refuses is at fault from the start of
the collection on. -/
def buildCollection (rule : DelimiterRule) (tag : String) (start : Span) :
    Outcome (List Element) → Outcome Element
  | ⟨.error m, next⟩ => .error m next
  | ⟨.ok items, next⟩ =>
    match rule.process tag items with
    | .error error => .error ⟨start, error⟩ next
    | .ok value => .ok value next

/-- Puts the items that have been read in front of those that follow. -/
def afterItems (read : List Element) : Outcome (List Element) → Outcome (List Element)
  | ⟨.error m, next⟩ => .error m next
  | ⟨.ok items, next⟩ => .ok (read ++ items) next

/-- The fault of a collection that starts at `start` and is still open at the end of the text. -/
def unterminated (start : Span) (closer : List Char) : Misread :=
  .fault start ("unterminated collection, expected " ++ quoted closer)

/-- The fault of a closing delimiter that is not the one of the innermost collection. -/
def mismatched (place : Span) (found closer : List Char) : Misread :=
  .fault place ("unexpected end token: " ++ quoted found ++ " instead of " ++ quoted closer)

mutual

/-- Reading the value at a cursor has an outcome.  `depth` collections are open around it. -/
inductive ReadsValue (g : Grammar) (maxDepth : Nat) : Nat → Cursor → Outcome Element → Prop where
  | badTag {depth : Nat} {k next : Cursor} {m : Misread}
      (htag : readTag g k = ⟨.error m, next⟩) :
      ReadsValue g maxDepth depth k (.error m next)
  | literal {depth : Nat} {k next : Cursor} {tag : String}
      (htag : readTag g k = ⟨.ok tag, next⟩) (hopen : g.opening? next.rest = none) :
      ReadsValue g maxDepth depth k (readLiteral g tag next)
  | tooDeep {depth : Nat} {k next : Cursor} {tag : String} {rule : DelimiterRule}
      (htag : readTag g k = ⟨.ok tag, next⟩) (hopen : g.opening? next.rest = some rule)
      (hdepth : maxDepth ≤ depth) :
      ReadsValue g maxDepth depth k
        (.error ⟨k.mark, .limitExceeded (.depth maxDepth)⟩ (next.advance rule.opener.length))
  | collection {depth : Nat} {k next : Cursor} {tag : String} {rule : DelimiterRule}
      {items : Outcome (List Element)}
      (htag : readTag g k = ⟨.ok tag, next⟩) (hopen : g.opening? next.rest = some rule)
      (hdepth : depth < maxDepth)
      (hitems : ReadsItems g maxDepth (depth + 1) rule.closer k.mark
        (next.advance rule.opener.length) items) :
      ReadsValue g maxDepth depth k (buildCollection rule tag k.mark items)

/-- Reading the items of a collection from a cursor on, and its closing delimiter, has an outcome.
The collection starts at `start` and counts as open. -/
inductive ReadsItems (g : Grammar) (maxDepth : Nat) :
    Nat → (closer : List Char) → (start : Span) → Cursor → Outcome (List Element) → Prop where
  | unterminated {depth : Nat} {closer : List Char} {start : Span} {k : Cursor}
      (hrest : k.skipTrivia.rest = []) :
      ReadsItems g maxDepth depth closer start k (.error (unterminated start closer) k.skipTrivia)
  | close {depth : Nat} {closer : List Char} {start : Span} {k : Cursor} {rule : DelimiterRule}
      (hclose : g.closing? k.skipTrivia.rest = some rule) (hcloser : rule.closer = closer) :
      ReadsItems g maxDepth depth closer start k (.ok [] (k.skipTrivia.advance closer.length))
  | mismatched {depth : Nat} {closer : List Char} {start : Span} {k : Cursor}
      {rule : DelimiterRule}
      (hclose : g.closing? k.skipTrivia.rest = some rule) (hcloser : rule.closer ≠ closer) :
      ReadsItems g maxDepth depth closer start k
        (.error (mismatched k.skipTrivia.mark rule.closer closer) k.skipTrivia)
  | badItem {depth : Nat} {closer : List Char} {start : Span} {k next : Cursor} {m : Misread}
      (hrest : k.skipTrivia.rest ≠ []) (hclose : g.closing? k.skipTrivia.rest = none)
      (hvalue : ReadsValue g maxDepth depth k.skipTrivia (.error m next)) :
      ReadsItems g maxDepth depth closer start k (.error m next)
  | item {depth : Nat} {closer : List Char} {start : Span} {k next : Cursor} {value : Element}
      {items : Outcome (List Element)}
      (hrest : k.skipTrivia.rest ≠ []) (hclose : g.closing? k.skipTrivia.rest = none)
      (hvalue : ReadsValue g maxDepth depth k.skipTrivia (.ok value next))
      (hitems : ReadsItems g maxDepth depth closer start next items) :
      ReadsItems g maxDepth depth closer start k (afterItems [value] items)

end

/-! ## Progress -/

/-- A literal that is read is what its rule makes of what it takes. -/
theorem readLiteral_eq_ok_iff {g : Grammar} {tag : String} {k next : Cursor} {value : Element} :
    readLiteral g tag k = .ok value next ↔
      ∃ rule length, g.longestMatch? k.rest = some (rule, length) ∧
        rule.process tag (String.ofList (k.rest.take length)) = .ok value ∧
          next = k.advance length := by
  constructor
  · intro h
    unfold readLiteral at h
    split at h
    · cases h
    · next rule length hmatch =>
      split at h
      · cases h
      · next hprocess =>
        cases h
        exact ⟨rule, length, hmatch, hprocess, rfl⟩
  · rintro ⟨rule, length, hmatch, hprocess, rfl⟩
    rw [readLiteral, hmatch]
    dsimp only
    rw [hprocess]

/-- A literal that is read shortens the rest of the text. -/
theorem readLiteral_takes {g : Grammar} {tag : String} {k next : Cursor} {value : Element}
    (h : readLiteral g tag k = .ok value next) : next.rest.length < k.rest.length := by
  obtain ⟨rule, length, hmatch, -, rfl⟩ := readLiteral_eq_ok_iff.1 h
  refine Cursor.length_rest_advance_lt (Grammar.longestMatch?_pos hmatch) fun hnil => ?_
  rw [hnil, Grammar.longestMatch?_nil] at hmatch
  cases hmatch

/-- A collection that is built ends where its items end. -/
theorem buildCollection_eq_ok {rule : DelimiterRule} {tag : String} {start : Span}
    {items : Outcome (List Element)} {value : Element} {next : Cursor}
    (h : buildCollection rule tag start items = .ok value next) :
    ∃ children, items = .ok children next ∧ rule.process tag children = .ok value := by
  unfold buildCollection at h
  split at h
  · cases h
  · next children after =>
    split at h
    · cases h
    · next hvalue =>
      cases h
      exact ⟨children, rfl, hvalue⟩

/-- Items that follow others are read to the same place. -/
theorem afterItems_eq_ok {read items : List Element} {o : Outcome (List Element)} {next : Cursor}
    (h : afterItems read o = .ok items next) :
    ∃ rest, o = .ok rest next ∧ items = read ++ rest := by
  unfold afterItems at h
  split at h
  · cases h
  · next rest after =>
    cases h
    exact ⟨rest, rfl, rfl⟩

/-- The rest of the text does not grow over a tag, and an opening delimiter shortens it. -/
theorem rest_after_opener_lt {g : Grammar} {k next : Cursor} {tag : String}
    {rule : DelimiterRule} (htag : readTag g k = ⟨.ok tag, next⟩)
    (hopen : g.opening? next.rest = some rule) :
    (next.advance rule.opener.length).rest.length < k.rest.length := by
  have hle := next_readTag_le g k
  rw [htag] at hle
  exact Nat.lt_of_lt_of_le (Cursor.length_rest_advance_lt
    (List.length_pos_iff.2 rule.opener_ne_nil) (opening_rest_ne_nil hopen)) hle

/-- Induction over what is read: `p` holds of every value, and `q` of the items of every collection.
Errors have no case. -/
theorem ReadsValue.induction_ok {g : Grammar} {maxDepth : Nat}
    {p : Nat → Cursor → Element → Cursor → Prop}
    {q : Nat → List Char → Cursor → List Element → Cursor → Prop}
    (literal : ∀ {depth : Nat} {k payload : Cursor} {tag : String} {value : Element} {next : Cursor},
      readTag g k = ⟨.ok tag, payload⟩ → g.opening? payload.rest = none →
      readLiteral g tag payload = .ok value next → p depth k value next)
    (collection : ∀ {depth : Nat} {k payload : Cursor} {tag : String} {rule : DelimiterRule}
      {items : List Element} {value : Element} {next : Cursor},
      readTag g k = ⟨.ok tag, payload⟩ → g.opening? payload.rest = some rule → depth < maxDepth →
      ReadsItems g maxDepth (depth + 1) rule.closer k.mark (payload.advance rule.opener.length)
        (.ok items next) →
      rule.process tag items = .ok value →
      q (depth + 1) rule.closer (payload.advance rule.opener.length) items next →
      p depth k value next)
    (close : ∀ {depth : Nat} {k : Cursor} {rule : DelimiterRule},
      g.closing? k.skipTrivia.rest = some rule →
      q depth rule.closer k [] (k.skipTrivia.advance rule.closer.length))
    (item : ∀ {depth : Nat} {closer : List Char} {start : Span} {k middle : Cursor}
      {value : Element} {items : List Element} {next : Cursor},
      k.skipTrivia.rest ≠ [] → g.closing? k.skipTrivia.rest = none →
      ReadsValue g maxDepth depth k.skipTrivia (.ok value middle) →
      ReadsItems g maxDepth depth closer start middle (.ok items next) →
      p depth k.skipTrivia value middle → q depth closer middle items next →
      q depth closer k (value :: items) next)
    {depth : Nat} {k : Cursor} {value : Element} {next : Cursor}
    (h : ReadsValue g maxDepth depth k (.ok value next)) : p depth k value next := by
  refine @ReadsValue.rec g maxDepth
    (fun depth k o _ => ∀ {value : Element} {next : Cursor}, o = .ok value next →
      p depth k value next)
    (fun depth closer _ k o _ => ∀ {items : List Element} {next : Cursor}, o = .ok items next →
      q depth closer k items next)
    ?badTag ?literal ?tooDeep ?collection ?unterminated ?close ?mismatched ?badItem ?item
    depth k _ h value next rfl
  case badTag | tooDeep | unterminated | mismatched | badItem => intros; next h => cases h
  case literal =>
    intro depth k payload tag htag hopen value next h
    exact literal htag hopen h
  case collection =>
    intro depth k payload tag rule items htag hopen hdepth hitems ih value next h
    obtain ⟨children, rfl, hprocess⟩ := buildCollection_eq_ok h
    exact collection htag hopen hdepth hitems hprocess (ih rfl)
  case close =>
    intro depth closer start k rule hclose hcloser items next h
    cases h
    subst hcloser
    exact close hclose
  case item =>
    intro depth closer start k middle value items hrest hclose hvalue hitems ihv ihi all next h
    obtain ⟨rest, rfl, rfl⟩ := afterItems_eq_ok h
    exact item hrest hclose hvalue hitems (ihv rfl) (ihi rfl)

/-- A value that is read shortens the rest of the text, and items do not lengthen it. -/
theorem ReadsValue.shortens {g : Grammar} {maxDepth depth : Nat} {k next : Cursor} {value : Element}
    (h : ReadsValue g maxDepth depth k (.ok value next)) :
    next.rest.length < k.rest.length := by
  refine ReadsValue.induction_ok (p := fun _ k _ next => next.rest.length < k.rest.length)
    (q := fun _ _ k _ next => next.rest.length ≤ k.rest.length) ?literal ?collection ?close ?item h
  case literal =>
    intro depth k payload tag value next htag hopen hread
    have hle := next_readTag_le g k
    rw [htag] at hle
    exact Nat.lt_of_lt_of_le (readLiteral_takes hread) hle
  case collection =>
    intro depth k payload tag rule items value next htag hopen hdepth hitems hprocess ih
    exact Nat.lt_of_le_of_lt ih (rest_after_opener_lt htag hopen)
  case close =>
    intro depth k rule hclose
    exact Nat.le_trans (Cursor.length_rest_advance_le _ _) (Cursor.length_rest_advance_le _ _)
  case item =>
    intro depth closer start k middle value items next hrest hclose hvalue hitems ihv ihi
    have hk : k.skipTrivia.rest.length ≤ k.rest.length := Cursor.length_rest_advance_le _ _
    omega

/-- Induction over the items of one collection, from the last one to the first. -/
theorem ReadsItems.induction_ok {g : Grammar} {maxDepth depth : Nat} {closer : List Char}
    {start : Span} {q : Cursor → List Element → Cursor → Prop}
    (close : ∀ {k : Cursor} {rule : DelimiterRule}, g.closing? k.skipTrivia.rest = some rule →
      rule.closer = closer → q k [] (k.skipTrivia.advance closer.length))
    (item : ∀ {k middle : Cursor} {value : Element} {items : List Element} {next : Cursor},
      k.skipTrivia.rest ≠ [] → g.closing? k.skipTrivia.rest = none →
      ReadsValue g maxDepth depth k.skipTrivia (.ok value middle) →
      ReadsItems g maxDepth depth closer start middle (.ok items next) →
      q middle items next → q k (value :: items) next)
    {k : Cursor} {items : List Element} {next : Cursor}
    (h : ReadsItems g maxDepth depth closer start k (.ok items next)) : q k items next := by
  induction hn : k.rest.length using Nat.strongRecOn generalizing k items with
  | ind n ih =>
    generalize ho : Outcome.ok items next = o at h
    cases h with
    | unterminated | mismatched | badItem => cases ho
    | close hclose hcloser =>
      cases ho
      exact close hclose hcloser
    | item hrest hclose hvalue hitems =>
      obtain ⟨tail, rfl, rfl⟩ := afterItems_eq_ok ho.symm
      have hle : k.skipTrivia.rest.length ≤ k.rest.length := Cursor.length_rest_advance_le _ _
      have hlt := hvalue.shortens
      exact item hrest hclose hvalue hitems (ih _ (by omega) hitems rfl)

/-- The value where a collection opens is what its rule makes of its items. -/
theorem ReadsValue.exists_items {g : Grammar} {maxDepth depth : Nat} {k payload next : Cursor}
    {tag : String} {rule : DelimiterRule} {value : Element} (htag : readTag g k = .ok tag payload)
    (hopen : g.opening? payload.rest = some rule)
    (h : ReadsValue g maxDepth depth k (.ok value next)) :
    depth < maxDepth ∧ ∃ children,
      ReadsItems g maxDepth (depth + 1) rule.closer k.mark (payload.advance rule.opener.length)
        (.ok children next) ∧ rule.process tag children = .ok value := by
  generalize ho : Outcome.ok value next = o at h
  cases h with
  | badTag | tooDeep => cases ho
  | literal htag' hopen' =>
    rw [htag] at htag'
    cases htag'
    rw [hopen] at hopen'
    cases hopen'
  | collection htag' hopen' hdepth hitems =>
    rw [htag] at htag'
    cases htag'
    rw [hopen] at hopen'
    cases hopen'
    obtain ⟨children, rfl, hprocess⟩ := buildCollection_eq_ok ho.symm
    exact ⟨hdepth, children, hitems, hprocess⟩

/-! ## Every cursor has an outcome -/

/-- A value has an outcome where the items at every later cursor have one. -/
theorem exists_readsValue_of {g : Grammar} {maxDepth : Nat} {k : Cursor}
    (items : ∀ j : Cursor, j.rest.length < k.rest.length →
      ∀ depth closer start, ∃ o, ReadsItems g maxDepth depth closer start j o) (depth : Nat) :
    ∃ o, ReadsValue g maxDepth depth k o := by
  cases htag : readTag g k with
  | mk result next =>
    cases result with
    | error m => exact ⟨_, .badTag htag⟩
    | ok tag =>
      cases hopen : g.opening? next.rest with
      | none => exact ⟨_, .literal htag hopen⟩
      | some rule =>
        by_cases hdepth : maxDepth ≤ depth
        · exact ⟨_, .tooDeep htag hopen hdepth⟩
        · obtain ⟨o, ho⟩ := items _ (rest_after_opener_lt htag hopen) (depth + 1) rule.closer k.mark
          exact ⟨_, .collection htag hopen (Nat.lt_of_not_le hdepth) ho⟩

/-- The items at a cursor have an outcome. -/
theorem exists_readsItems (g : Grammar) (maxDepth : Nat) (k : Cursor) :
    ∀ depth closer start, ∃ o, ReadsItems g maxDepth depth closer start k o := by
  induction hn : k.rest.length using Nat.strongRecOn generalizing k with
  | ind n ih =>
    subst hn
    intro depth closer start
    have hk : k.skipTrivia.rest.length ≤ k.rest.length := Cursor.length_rest_advance_le _ _
    by_cases hrest : k.skipTrivia.rest = []
    · exact ⟨_, .unterminated hrest⟩
    cases hclose : g.closing? k.skipTrivia.rest with
    | some rule =>
      by_cases hcloser : rule.closer = closer
      · exact ⟨_, .close hclose hcloser⟩
      · exact ⟨_, .mismatched hclose hcloser⟩
    | none =>
      have later : ∀ j : Cursor, j.rest.length < k.skipTrivia.rest.length →
          ∀ depth closer start, ∃ o, ReadsItems g maxDepth depth closer start j o :=
        fun j hj => ih _ (Nat.lt_of_lt_of_le hj hk) j rfl
      obtain ⟨⟨result | item, next⟩, hvalue⟩ := exists_readsValue_of later depth
      · exact ⟨_, .badItem hrest hclose hvalue⟩
      · obtain ⟨items, hitems⟩ := later next hvalue.shortens depth closer start
        exact ⟨_, .item hrest hclose hvalue hitems⟩

/-- The value at a cursor has an outcome. -/
theorem exists_readsValue (g : Grammar) (maxDepth depth : Nat) (k : Cursor) :
    ∃ o, ReadsValue g maxDepth depth k o :=
  exists_readsValue_of (fun j _ => exists_readsItems g maxDepth j) depth

/-! ## Frames as pending calls -/

/-- Goes on after a step. -/
def Turn.finish (g : Grammar) (maxDepth : Nat) : Turn → Outcome Element
  | .finished outcome => outcome
  | .going frames next => scanFrom g maxDepth frames next

/-- Hands the outcome of a value to the frames around it. -/
def deliver (g : Grammar) (maxDepth : Nat) (frames : List Frame) : Outcome Element → Outcome Element
  | ⟨.error m, next⟩ => .error m next
  | ⟨.ok value, next⟩ => (settle frames value next).finish g maxDepth

section Simulation

variable {g : Grammar} {maxDepth : Nat}

/-- Scanning takes one step and goes on. -/
theorem scanFrom_eq_finish (frames : List Frame) (k : Cursor) :
    scanFrom g maxDepth frames k = (turn g maxDepth frames k).finish g maxDepth := by
  rw [scanFrom]
  cases turn g maxDepth frames k <;> rfl

/-- Without frames the outcome of a value is the outcome of scanning. -/
theorem deliver_nil (o : Outcome Element) : deliver g maxDepth [] o = o := by
  obtain ⟨m | value, next⟩ := o <;> rfl

/-- A literal is delivered to the frames around it. -/
theorem finish_literalTurn (frames : List Frame) (tag : String) (k : Cursor) :
    (literalTurn g frames tag k).finish g maxDepth =
      deliver g maxDepth frames (readLiteral g tag k) := by
  unfold literalTurn readLiteral
  cases g.longestMatch? k.rest with
  | none => rfl
  | some found =>
    dsimp only
    cases found.1.process tag (String.ofList (k.rest.take found.2)) <;> rfl

/-- A collection that closes is delivered to the frames around it. -/
theorem finish_closeTurn (frame : Frame) (outer : List Frame) (next : Cursor) :
    (closeTurn frame outer next).finish g maxDepth =
      deliver g maxDepth outer
        (buildCollection frame.rule frame.tag frame.start (.ok frame.children.reverse next)) := by
  unfold closeTurn buildCollection Outcome.ok
  dsimp only
  cases frame.rule.process frame.tag frame.children.reverse <;> rfl

/-! ## What a step inside a collection does -/

/-- At the end of the text the innermost collection is at fault. -/
theorem turn_of_rest_eq_nil {frame : Frame} {outer : List Frame} {k : Cursor}
    (hrest : k.skipTrivia.rest = []) :
    turn g maxDepth (frame :: outer) k =
      .finished (.error (unterminated frame.start frame.rule.closer) k.skipTrivia) := by
  simp [turn, hrest, unterminated]

/-- The closing delimiter of the innermost collection closes it. -/
theorem turn_of_closes {frame : Frame} {outer : List Frame} {k : Cursor} {rule : DelimiterRule}
    (hclose : g.closing? k.skipTrivia.rest = some rule) (hcloser : rule.closer = frame.rule.closer) :
    turn g maxDepth (frame :: outer) k =
      closeTurn frame outer (k.skipTrivia.advance frame.rule.closer.length) := by
  have hrest := closing_rest_ne_nil hclose
  simp only [turn, List.isEmpty_iff, if_neg hrest, hclose, hcloser, if_true]

/-- Another closing delimiter is at fault. -/
theorem turn_of_mismatch {frame : Frame} {outer : List Frame} {k : Cursor} {rule : DelimiterRule}
    (hclose : g.closing? k.skipTrivia.rest = some rule)
    (hcloser : rule.closer ≠ frame.rule.closer) :
    turn g maxDepth (frame :: outer) k =
      .finished (.error (mismatched k.skipTrivia.mark rule.closer frame.rule.closer)
        k.skipTrivia) := by
  have hrest := closing_rest_ne_nil hclose
  simp only [turn, List.isEmpty_iff, if_neg hrest, hclose, if_neg hcloser, mismatched]

/-- Anything else is a value. -/
theorem turn_of_value {frame : Frame} {outer : List Frame} {k : Cursor}
    (hrest : k.skipTrivia.rest ≠ []) (hclose : g.closing? k.skipTrivia.rest = none) :
    turn g maxDepth (frame :: outer) k =
      valueTurn g maxDepth (frame :: outer) k.skipTrivia := by
  simp only [turn, List.isEmpty_iff, if_neg hrest, hclose]

/-! ## The simulation -/

/-- A value that is read is delivered to the frames around it. -/
theorem ReadsValue.deliver_eq {depth : Nat} {k : Cursor} {o : Outcome Element}
    (h : ReadsValue g maxDepth depth k o) :
    ∀ frames : List Frame, frames.length = depth →
      (valueTurn g maxDepth frames k).finish g maxDepth = deliver g maxDepth frames o := by
  refine @ReadsValue.rec g maxDepth
    (fun depth k o _ => ∀ frames : List Frame, frames.length = depth →
      (valueTurn g maxDepth frames k).finish g maxDepth = deliver g maxDepth frames o)
    (fun depth closer start k o _ => ∀ (frame : Frame) (outer : List Frame),
      outer.length + 1 = depth → frame.rule.closer = closer → frame.start = start →
      scanFrom g maxDepth (frame :: outer) k =
        deliver g maxDepth outer (buildCollection frame.rule frame.tag frame.start
          (afterItems frame.children.reverse o)))
    ?badTag ?literal ?tooDeep ?collection ?unterminated ?close ?mismatched ?badItem ?item
    depth k o h
  case badTag =>
    intro depth k next m htag frames hframes
    simp only [valueTurn, htag]
    rfl
  case literal =>
    intro depth k next tag htag hopen frames hframes
    simp only [valueTurn, htag, hopen]
    exact finish_literalTurn frames tag next
  case tooDeep =>
    intro depth k next tag rule htag hopen hdepth frames hframes
    simp only [valueTurn, htag, hopen, openTurn, hframes, if_pos hdepth]
    rfl
  case collection =>
    intro depth k next tag rule items htag hopen hdepth hitems ih frames hframes
    simp only [valueTurn, htag, hopen, openTurn, hframes, if_neg (Nat.not_le.2 hdepth)]
    have := ih ⟨rule, tag, k.mark, []⟩ frames (by omega) rfl rfl
    simp only [Turn.finish, this]
    obtain ⟨m | items, stop⟩ := items <;> rfl
  case unterminated =>
    intro depth closer start k hrest frame outer hdepth hcloser hstart
    subst hcloser hstart
    rw [scanFrom_eq_finish, turn_of_rest_eq_nil hrest]
    rfl
  case close =>
    intro depth closer start k rule hclose hcloser frame outer hdepth hcloser' hstart
    subst hcloser' hstart
    rw [scanFrom_eq_finish, turn_of_closes hclose hcloser, finish_closeTurn]
    simp only [afterItems, Outcome.ok, List.append_nil]
  case mismatched =>
    intro depth closer start k rule hclose hcloser frame outer hdepth hcloser' hstart
    subst hcloser' hstart
    rw [scanFrom_eq_finish, turn_of_mismatch hclose hcloser]
    rfl
  case badItem =>
    intro depth closer start k next m hrest hclose hvalue ih frame outer hdepth hcloser hstart
    rw [scanFrom_eq_finish, turn_of_value hrest hclose, ih (frame :: outer) hdepth]
    rfl
  case item =>
    intro depth closer start k next value items hrest hclose hvalue hitems ihv ihi frame outer
      hdepth hcloser hstart
    rw [scanFrom_eq_finish, turn_of_value hrest hclose, ihv (frame :: outer) hdepth]
    -- the item becomes a child of the frame, and the rest is read by the same frame
    have hnext := ihi (frame.push value) outer hdepth hcloser hstart
    simp only [deliver, Outcome.ok, settle, Turn.finish, hnext]
    obtain ⟨m | rest, stop⟩ := items
    · rfl
    · simp [afterItems, Frame.push, Outcome.ok]

/-- What the recursion reads is what the scanner reads. -/
theorem ReadsValue.scanValue_eq {k : Cursor} {o : Outcome Element}
    (h : ReadsValue g maxDepth 0 k o) : scanValue g maxDepth k = o := by
  have hfinish := h.deliver_eq [] rfl
  rw [deliver_nil] at hfinish
  rw [scanValue, scanFrom_eq_finish, ← hfinish]
  rfl

/-- What the scanner reads is what the recursion reads. -/
theorem readsValue_scanValue (k : Cursor) :
    ReadsValue g maxDepth 0 k (scanValue g maxDepth k) := by
  obtain ⟨o, ho⟩ := exists_readsValue g maxDepth 0 k
  rwa [ho.scanValue_eq]

end Simulation

/-! ## The scanner reads what the recursion reads -/

/-- For every grammar, every greatest depth and every cursor, the scanner and the recursion have the
same outcome: the same value or the same error, and the same place where reading stops. -/
theorem scanValue_eq_iff_readsValue (g : Grammar) (maxDepth : Nat) (k : Cursor)
    (o : Outcome Element) : scanValue g maxDepth k = o ↔ ReadsValue g maxDepth 0 k o := by
  constructor
  · rintro rfl
    exact readsValue_scanValue k
  · exact ReadsValue.scanValue_eq

end Edn
