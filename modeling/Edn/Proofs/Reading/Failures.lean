import Edn.Proofs.Grammar.Refusals
import Edn.Proofs.Reading.Limits

/-!
# Where reading fails

A value cannot be read for one reason only, and the reason has a place: the
tag, the literal, the closing delimiter or the collection that is at fault.

* `Faulty` says where the value at a cursor is at fault, and with which error.
  It goes down from a collection into the first item that cannot be read.
* `readsValue_error_iff` is the result: the scanner fails exactly at such a
  place, with that error.
* `Faulty.isUnplaced`: in the notation no such error has a place of its own.
-/

namespace Edn

/-! ## The place at fault -/

/-- Something that is no closing delimiter stands at a cursor. -/
def StartsItem (g : Grammar) (k : Cursor) : Prop :=
  k.rest ≠ [] ∧ g.closing? k.rest = none

/-- A collection of a rule opens at a cursor, behind its tag if it has one.  The items start at
`inside`. -/
def Opens (g : Grammar) (k : Cursor) (tag : String) (rule : DelimiterRule) (inside : Cursor) : Prop :=
  ∃ payload, readTag g k = ⟨.ok tag, payload⟩ ∧ g.opening? payload.rest = some rule ∧
    inside = payload.advance rule.opener.length

/-- The name of a tag, given the place where the tag starts and its length. -/
def tagName (k : Cursor) (length : Nat) : String :=
  String.ofList ((k.rest.take length).drop 1)

/-- Values stand one behind the other between two cursors, with blanks and comments in front of
each. -/
inductive ReadsAll (g : Grammar) (maxDepth depth : Nat) : Cursor → List Element → Cursor → Prop where
  | nil {k : Cursor} : ReadsAll g maxDepth depth k [] k
  | cons {k middle last : Cursor} {value : Element} {values : List Element}
      (hstarts : StartsItem g k.skipTrivia)
      (hvalue : ReadsValue g maxDepth depth k.skipTrivia (.ok value middle))
      (hvalues : ReadsAll g maxDepth depth middle values last) :
      ReadsAll g maxDepth depth k (value :: values) last

/-- The value at a cursor cannot be read.  The text is at fault at `place`, with the error `e`, and
`depth` collections are open around the value. -/
inductive Faulty (g : Grammar) (maxDepth : Nat) :
    (depth : Nat) → Cursor → (place : Cursor) → (e : Error) → Prop where
  | danglingTag {depth length : Nat} {k : Cursor} (htag : tagLength? k.rest = some length)
      (hends : endsValue g (afterTag k length).rest = true) :
      Faulty g maxDepth depth k k
        (.unplaced ("tag '#" ++ tagName k length ++ "' is not followed by a value"))
  | secondTag {depth length : Nat} {k : Cursor} (htag : tagLength? k.rest = some length)
      (hends : endsValue g (afterTag k length).rest = false)
      (hsecond : (tagLength? (afterTag k length).rest).isSome = true) :
      Faulty g maxDepth depth k (afterTag k length)
        (.unplaced ("tag '#" ++ tagName k length ++ "' is followed by another tag"))
  | gluedTag {depth length : Nat} {k : Cursor} (htag : tagLength? k.rest = some length)
      (hends : endsValue g (afterTag k length).rest = false)
      (hsecond : tagLength? (afterTag k length).rest = none)
      (hglued : (afterTag k length).position = (k.advance length).position)
      (hopen : g.opening? (afterTag k length).rest = none) :
      Faulty g maxDepth depth k k
        (.unplaced ("tag '#" ++ tagName k length ++ "' must be followed by whitespace"))
  | unknownLiteral {depth : Nat} {k payload : Cursor} {tag : String}
      (htag : readTag g k = ⟨.ok tag, payload⟩) (hopen : g.opening? payload.rest = none)
      (hmatch : g.longestMatch? payload.rest = none) :
      Faulty g maxDepth depth k payload (.unplaced (unexpected payload.rest))
  | refusedLiteral {depth length : Nat} {k payload : Cursor} {tag : String} {rule : LiteralRule}
      {e : Error} (htag : readTag g k = ⟨.ok tag, payload⟩)
      (hopen : g.opening? payload.rest = none)
      (hmatch : g.longestMatch? payload.rest = some (rule, length))
      (hprocess : rule.process tag (String.ofList (payload.rest.take length)) = .error e) :
      Faulty g maxDepth depth k payload e
  | tooDeep {depth : Nat} {k inside : Cursor} {tag : String} {rule : DelimiterRule}
      (hopens : Opens g k tag rule inside) (hdepth : maxDepth ≤ depth) :
      Faulty g maxDepth depth k k (.limitExceeded (.depth maxDepth))
  | unterminated {depth : Nat} {k inside last : Cursor} {tag : String} {rule : DelimiterRule}
      {items : List Element} (hopens : Opens g k tag rule inside) (hdepth : depth < maxDepth)
      (hitems : ReadsAll g maxDepth (depth + 1) inside items last)
      (hrest : last.skipTrivia.rest = []) :
      Faulty g maxDepth depth k k
        (.unplaced ("unterminated collection, expected " ++ quoted rule.closer))
  | mismatched {depth : Nat} {k inside last : Cursor} {tag : String} {rule found : DelimiterRule}
      {items : List Element} (hopens : Opens g k tag rule inside) (hdepth : depth < maxDepth)
      (hitems : ReadsAll g maxDepth (depth + 1) inside items last)
      (hclose : g.closing? last.skipTrivia.rest = some found)
      (hcloser : found.closer ≠ rule.closer) :
      Faulty g maxDepth depth k last.skipTrivia (.unplaced
        ("unexpected end token: " ++ quoted found.closer ++ " instead of " ++ quoted rule.closer))
  | refusedCollection {depth : Nat} {k inside last : Cursor} {tag : String}
      {rule found : DelimiterRule} {items : List Element} {e : Error}
      (hopens : Opens g k tag rule inside) (hdepth : depth < maxDepth)
      (hitems : ReadsAll g maxDepth (depth + 1) inside items last)
      (hclose : g.closing? last.skipTrivia.rest = some found)
      (hcloser : found.closer = rule.closer) (hprocess : rule.process tag items = .error e) :
      Faulty g maxDepth depth k k e
  | inside {depth : Nat} {k inside last place : Cursor} {tag : String} {rule : DelimiterRule}
      {items : List Element} {e : Error} (hopens : Opens g k tag rule inside)
      (hdepth : depth < maxDepth) (hitems : ReadsAll g maxDepth (depth + 1) inside items last)
      (hstarts : StartsItem g last.skipTrivia)
      (hitem : Faulty g maxDepth (depth + 1) last.skipTrivia place e) :
      Faulty g maxDepth depth k place e

section Faults

variable {g : Grammar} {maxDepth depth : Nat}

/-! ## The places stand ahead -/

theorem Opens.reaches {k inside : Cursor} {tag : String} {rule : DelimiterRule}
    (h : Opens g k tag rule inside) : k.Reaches inside := by
  obtain ⟨payload, htag, -, rfl⟩ := h
  exact reaches_opener htag

theorem ReadsAll.reaches {k last : Cursor} {values : List Element}
    (h : ReadsAll g maxDepth depth k values last) : k.Reaches last := by
  induction h with
  | nil => exact .refl _
  | cons hstarts hvalue hvalues ih =>
    exact ((Cursor.reaches_skipTrivia _).trans hvalue.reaches).trans ih

/-- The place at fault does not lie before the value. -/
theorem Faulty.reaches {k place : Cursor} {e : Error} (h : Faulty g maxDepth depth k place e) :
    k.Reaches place := by
  induction h with
  | danglingTag | gluedTag | tooDeep | unterminated | refusedCollection => exact .refl _
  | @secondTag depth length k htag hends hsecond =>
    exact (k.reaches_advance length).trans (Cursor.reaches_skipWhile _ _)
  | @unknownLiteral depth k payload tag htag hopen hmatch =>
    have hreach := readTag_reaches g k
    rwa [htag] at hreach
  | @refusedLiteral depth length k payload tag rule e htag hopen hmatch hprocess =>
    have hreach := readTag_reaches g k
    rwa [htag] at hreach
  | mismatched hopens hdepth hitems hclose hcloser =>
    exact (hopens.reaches.trans hitems.reaches).trans (Cursor.reaches_skipTrivia _)
  | inside hopens hdepth hitems hstarts hitem ih =>
    exact ((hopens.reaches.trans hitems.reaches).trans (Cursor.reaches_skipTrivia _)).trans ih

/-! ## Tags -/

/-- A tag that cannot be read is at fault itself, or the tag behind it is. -/
theorem faulty_of_readTag {k next : Cursor} {m : Misread} (h : readTag g k = ⟨.error m, next⟩) :
    ∃ place, m.span = place.mark ∧ Faulty g maxDepth depth k place m.error := by
  unfold readTag at h
  split at h
  · cases h
  · next length htag =>
    dsimp only at h
    split at h
    · next fault hfault =>
      cases h
      unfold tagFault? at hfault
      dsimp only at hfault
      split at hfault
      · next hends =>
        cases hfault
        exact ⟨k, rfl, .danglingTag htag hends⟩
      · next hends =>
        replace hends := Bool.eq_false_of_not_eq_true hends
        split at hfault
        · next hsecond =>
          cases hfault
          exact ⟨afterTag k length, rfl, .secondTag htag hends hsecond⟩
        · next hsecond =>
          split at hfault
          · next hglued =>
            cases hfault
            exact ⟨k, rfl, .gluedTag htag hends (by simpa using hsecond) hglued.1
              (by simpa using hglued.2)⟩
          · cases hfault
    · cases h

/-- A tag that is at fault cannot be read. -/
theorem readTag_of_tagFault? {k : Cursor} {length : Nat} {m : Misread}
    (htag : tagLength? k.rest = some length) (h : tagFault? g k length (tagName k length) = some m) :
    readTag g k = ⟨.error m, afterTag k length⟩ := by
  unfold readTag
  rw [htag]
  dsimp only
  rw [show String.ofList ((k.rest.take length).drop 1) = tagName k length from rfl, h]
  rfl

/-! ## Literals -/

/-- A literal that cannot be read is at fault from its start on. -/
theorem faulty_of_readLiteral {k payload next : Cursor} {tag : String} {m : Misread}
    (htag : readTag g k = ⟨.ok tag, payload⟩) (hopen : g.opening? payload.rest = none)
    (h : readLiteral g tag payload = ⟨.error m, next⟩) :
    m.span = payload.mark ∧ Faulty g maxDepth depth k payload m.error := by
  unfold readLiteral at h
  split at h
  · next hmatch =>
    cases h
    exact ⟨rfl, .unknownLiteral htag hopen hmatch⟩
  · next rule length hmatch =>
    split at h
    · next hprocess =>
      cases h
      exact ⟨rfl, .refusedLiteral htag hopen hmatch hprocess⟩
    · cases h

/-! ## Items -/

/-- How reading the items of a collection stops behind `items`, at the cursor `last`: at a closing
delimiter, at the end of the text, or in an item that cannot be read. -/
inductive StopsAt (g : Grammar) (maxDepth depth : Nat) (closer : List Char) (start : Span)
    (items : List Element) (last : Cursor) : Outcome (List Element) → Prop where
  | close {rule : DelimiterRule} {next : Cursor} (hclose : g.closing? last.skipTrivia.rest = some rule)
      (hcloser : rule.closer = closer) : StopsAt g maxDepth depth closer start items last (.ok items next)
  | unterminated {next : Cursor} (hrest : last.skipTrivia.rest = []) :
      StopsAt g maxDepth depth closer start items last (.error (unterminated start closer) next)
  | mismatched {rule : DelimiterRule} {next : Cursor}
      (hclose : g.closing? last.skipTrivia.rest = some rule) (hcloser : rule.closer ≠ closer) :
      StopsAt g maxDepth depth closer start items last
        (.error (mismatched last.skipTrivia.mark rule.closer closer) next)
  | badItem {place next : Cursor} {m : Misread} (hstarts : StartsItem g last.skipTrivia)
      (hspan : m.span = place.mark) (hitem : Faulty g maxDepth depth last.skipTrivia place m.error) :
      StopsAt g maxDepth depth closer start items last (.error m next)

/-- An item in front of the others does not change where they stop. -/
theorem StopsAt.afterItems {closer : List Char} {start : Span} {items : List Element}
    {last : Cursor} {o : Outcome (List Element)}
    (h : StopsAt g maxDepth depth closer start items last o) (value : Element) :
    StopsAt g maxDepth depth closer start (value :: items) last (afterItems [value] o) := by
  cases h with
  | close hclose hcloser => exact .close hclose hcloser
  | unterminated hrest => exact .unterminated hrest
  | mismatched hclose hcloser => exact .mismatched hclose hcloser
  | badItem hstarts hspan hitem => exact .badItem hstarts hspan hitem

/-- A collection whose items stop with an error, or that its rule refuses, is at fault. -/
theorem StopsAt.faulty {k inside last next : Cursor} {tag : String} {rule : DelimiterRule}
    {items : List Element} {o : Outcome (List Element)} {m : Misread}
    (hopens : Opens g k tag rule inside) (hdepth : depth < maxDepth)
    (hitems : ReadsAll g maxDepth (depth + 1) inside items last)
    (hstops : StopsAt g maxDepth (depth + 1) rule.closer k.mark items last o)
    (h : buildCollection rule tag k.mark o = .error m next) :
    ∃ place, m.span = place.mark ∧ Faulty g maxDepth depth k place m.error := by
  cases hstops with
  | @close found after hclose hcloser =>
    simp only [Outcome.ok, buildCollection] at h
    split at h
    · next hprocess =>
      cases h
      exact ⟨k, rfl, .refusedCollection hopens hdepth hitems hclose hcloser hprocess⟩
    · cases h
  | unterminated hrest =>
    cases h
    exact ⟨k, rfl, .unterminated hopens hdepth hitems hrest⟩
  | mismatched hclose hcloser =>
    cases h
    exact ⟨last.skipTrivia, rfl, .mismatched hopens hdepth hitems hclose hcloser⟩
  | @badItem place after m' hstarts hspan hitem =>
    cases h
    exact ⟨place, hspan, .inside hopens hdepth hitems hstarts hitem⟩

/-! ## Values -/

/-- A value that cannot be read is at fault at the place of its error. -/
theorem ReadsValue.faulty {k next : Cursor} {m : Misread}
    (h : ReadsValue g maxDepth depth k (.error m next)) :
    ∃ place, m.span = place.mark ∧ Faulty g maxDepth depth k place m.error := by
  suffices hfault : ∀ o, ReadsValue g maxDepth depth k o → ∀ m next, o = .error m next →
      ∃ place, m.span = place.mark ∧ Faulty g maxDepth depth k place m.error from
    hfault _ h m next rfl
  clear h
  intro o h
  -- the items of a collection are read up to some cursor, and stop there
  refine @ReadsValue.rec g maxDepth
    (fun depth k o _ => ∀ m next, o = .error m next →
      ∃ place, m.span = place.mark ∧ Faulty g maxDepth depth k place m.error)
    (fun depth closer start k o _ => ∃ items last, ReadsAll g maxDepth depth k items last ∧
      StopsAt g maxDepth depth closer start items last o)
    ?badTag ?literal ?tooDeep ?collection ?unterminated ?close ?mismatched ?badItem ?item
    depth k o h
  case badTag =>
    intro depth k next m htag m' next' h
    cases h
    exact faulty_of_readTag htag
  case literal =>
    intro depth k payload tag htag hopen m next h
    exact ⟨payload, faulty_of_readLiteral htag hopen h⟩
  case tooDeep =>
    intro depth k payload tag rule htag hopen hdepth m next h
    cases h
    exact ⟨k, rfl, .tooDeep ⟨payload, htag, hopen, rfl⟩ hdepth⟩
  case collection =>
    intro depth k payload tag rule o htag hopen hdepth _ ih m next h
    obtain ⟨items, last, hitems, hstops⟩ := ih
    exact StopsAt.faulty ⟨payload, htag, hopen, rfl⟩ hdepth hitems hstops h
  case unterminated =>
    intro depth closer start k hrest
    exact ⟨[], k, .nil, .unterminated hrest⟩
  case close =>
    intro depth closer start k rule hclose hcloser
    exact ⟨[], k, .nil, .close hclose hcloser⟩
  case mismatched =>
    intro depth closer start k rule hclose hcloser
    exact ⟨[], k, .nil, .mismatched hclose hcloser⟩
  case badItem =>
    intro depth closer start k next m hrest hclose hvalue ih
    obtain ⟨place, hspan, hitem⟩ := ih m next rfl
    exact ⟨[], k, .nil, .badItem ⟨hrest, hclose⟩ hspan hitem⟩
  case item =>
    intro depth closer start k middle value o hrest hclose hvalue _ _ ih
    obtain ⟨items, last, hitems, hstops⟩ := ih
    exact ⟨value :: items, last, .cons ⟨hrest, hclose⟩ hvalue hitems, hstops.afterItems value⟩

/-- Behind values that are read, the items of a collection go on. -/
theorem ReadsAll.readsItems {k last : Cursor} {values : List Element} {closer : List Char}
    {start : Span} {o : Outcome (List Element)} (h : ReadsAll g maxDepth depth k values last)
    (hrest : ReadsItems g maxDepth depth closer start last o) :
    ReadsItems g maxDepth depth closer start k (afterItems values o) := by
  induction h with
  | nil =>
    obtain ⟨m | items, next⟩ := o <;> exact hrest
  | @cons k middle last value values hstarts hvalue hvalues ih =>
    have hitem := ReadsItems.item hstarts.1 hstarts.2 hvalue (ih hrest)
    obtain ⟨m | items, next⟩ := o <;> exact hitem

/-- A value that is at fault cannot be read. -/
theorem Faulty.readsValue {k place : Cursor} {e : Error} (h : Faulty g maxDepth depth k place e) :
    ∃ next, ReadsValue g maxDepth depth k (.error ⟨place.mark, e⟩ next) := by
  induction h with
  | @danglingTag depth length k htag hends =>
    refine ⟨_, .badTag (readTag_of_tagFault? htag ?_)⟩
    rw [tagFault?, if_pos hends]
    rfl
  | @secondTag depth length k htag hends hsecond =>
    refine ⟨_, .badTag (readTag_of_tagFault? htag ?_)⟩
    rw [tagFault?, if_neg (Bool.eq_false_iff.1 hends), if_pos hsecond]
    rfl
  | @gluedTag depth length k htag hends hsecond hglued hopen =>
    refine ⟨_, .badTag (readTag_of_tagFault? htag ?_)⟩
    rw [tagFault?, if_neg (Bool.eq_false_iff.1 hends), if_neg (by simp [hsecond]),
      if_pos ⟨hglued, by simp [hopen]⟩]
    rfl
  | @unknownLiteral depth k payload tag htag hopen hmatch =>
    have hread := @ReadsValue.literal g maxDepth depth _ _ _ htag hopen
    rw [readLiteral, hmatch] at hread
    exact ⟨_, hread⟩
  | @refusedLiteral depth length k payload tag rule e htag hopen hmatch hprocess =>
    have hread := @ReadsValue.literal g maxDepth depth _ _ _ htag hopen
    simp only [readLiteral, hmatch, hprocess] at hread
    exact ⟨_, hread⟩
  | tooDeep hopens hdepth =>
    obtain ⟨payload, htag, hopen, -⟩ := hopens
    exact ⟨_, .tooDeep htag hopen hdepth⟩
  | unterminated hopens hdepth hitems hrest =>
    obtain ⟨payload, htag, hopen, rfl⟩ := hopens
    exact ⟨_, .collection htag hopen hdepth (hitems.readsItems (.unterminated hrest))⟩
  | mismatched hopens hdepth hitems hclose hcloser =>
    obtain ⟨payload, htag, hopen, rfl⟩ := hopens
    exact ⟨_, .collection htag hopen hdepth (hitems.readsItems (.mismatched hclose hcloser))⟩
  | @refusedCollection depth k inside last tag rule found items e hopens hdepth hitems hclose
      hcloser hprocess =>
    obtain ⟨payload, htag, hopen, rfl⟩ := hopens
    have hread := ReadsValue.collection htag hopen hdepth
      (hitems.readsItems (.close hclose hcloser))
    simp only [afterItems, Outcome.ok, List.append_nil, buildCollection, hprocess] at hread
    exact ⟨_, hread⟩
  | inside hopens hdepth hitems hstarts hitem ih =>
    obtain ⟨payload, htag, hopen, rfl⟩ := hopens
    obtain ⟨next, hvalue⟩ := ih
    exact ⟨next, .collection htag hopen hdepth
      (hitems.readsItems (.badItem hstarts.1 hstarts.2 hvalue))⟩

/-- A value cannot be read exactly where it is at fault, and the error has the place of the fault. -/
theorem readsValue_error_iff {k : Cursor} {m : Misread} :
    (∃ next, ReadsValue g maxDepth depth k (.error m next)) ↔
      ∃ place, m.span = place.mark ∧ Faulty g maxDepth depth k place m.error := by
  constructor
  · rintro ⟨next, h⟩
    exact h.faulty
  · rintro ⟨place, hspan, h⟩
    obtain ⟨span, e⟩ := m
    subst hspan
    exact h.readsValue

end Faults

/-! ## Errors of the notation -/

/-- In the notation, no fault of a value has a place of its own. -/
theorem Faulty.isUnplaced {maxDepth depth : Nat} {k place : Cursor} {e : Error}
    (h : Faulty .standard maxDepth depth k place e) : e.IsUnplaced := by
  induction h with
  | danglingTag | secondTag | gluedTag | unknownLiteral | unterminated | mismatched =>
    exact Error.isUnplaced_ofCause rfl
  | tooDeep => exact Error.isUnplaced_ofCause trivial
  | @refusedLiteral depth length k payload tag rule e htag hopen hmatch hprocess =>
    obtain ⟨hrule, -⟩ := Grammar.literal_of_longestMatch? hmatch
    exact unplaced_literal hrule _ _ e hprocess
  | @refusedCollection depth k inside last tag rule found items e hopens hdepth hitems hclose
      hcloser hprocess =>
    obtain ⟨payload, -, hopen, -⟩ := hopens
    obtain ⟨kind, rfl⟩ := exists_kind_of_opening? hopen
    exact unplaced_collection kind tag items e hprocess
  | inside hopens hdepth hitems hstarts hitem ih => exact ih

end Edn
