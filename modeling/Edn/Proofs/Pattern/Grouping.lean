import Edn.Pattern.Automaton
import Edn.Pattern.Reading
import Mathlib.Data.List.SplitBy
import Mathlib.Data.List.TakeWhile

/-!
# Patterns in groups

The pattern of a rule is read in a group of its own, behind an assertion of
the start of the text.  A pattern that is well-formed on its own is well-formed
there, and none of its alternatives leaves the group.

* `Keeps` says of a reading of a piece of a written pattern that a closing
  parenthesis behind the text does not change it.  All pieces are read in this
  way (`keeps_mark?`), so that the text in a group has the same marks
  (`marks?_grouped`).
* `Assembly.push?_under`: marks that can be put together can be put together
  inside an open group.
* `isAnchored_of_read?` is the result.
-/

namespace Edn.Pattern

/-! ## Texts behind which a group closes -/

/-- What is read at the start of a text is read there when a group closes behind the text, too. -/
def Keeps {α : Type} (read? : List Char → Option (α × List Char)) : Prop :=
  ∀ text found rest, read? text = some (found, rest) →
    read? (text ++ [')']) = some (found, rest ++ [')'])

section Splitting

variable {p : Char → Bool} {text : List Char}

theorem takeWhile_closed (h : p ')' = false) :
    (text ++ [')']).takeWhile p = text.takeWhile p := by
  induction text with
  | nil => simp [h]
  | cons c text ih => simp only [List.cons_append, List.takeWhile_cons, ih]

theorem dropWhile_closed (h : p ')' = false) :
    (text ++ [')']).dropWhile p = text.dropWhile p ++ [')'] := by
  induction text with
  | nil => simp [h]
  | cons c text ih =>
    simp only [List.cons_append, List.dropWhile_cons, ih]
    split <;> rfl

/-- Where a character ends what is taken, nothing behind it matters. -/
theorem splitWhile_append {c : Char} {rest : List Char} (h : text.dropWhile p = c :: rest)
    (behind : List Char) :
    (text ++ behind).takeWhile p = text.takeWhile p ∧
      (text ++ behind).dropWhile p = c :: (rest ++ behind) := by
  induction text with
  | nil => cases h
  | cons d text ih =>
    simp only [List.cons_append, List.takeWhile_cons, List.dropWhile_cons] at h ⊢
    split at h
    · next hd =>
      obtain ⟨htake, hdrop⟩ := ih h
      simp [hd, htake, hdrop]
    · next hd =>
      cases h
      simp [hd]

theorem exists_cons_of_closed {c : Char} {rest : List Char} (hc : c ≠ ')')
    (h : text ++ [')'] = c :: rest) : ∃ more, text = c :: more := by
  cases text with
  | nil => exact absurd (List.cons.inj h).1.symm hc
  | cons d text => exact ⟨text, by rw [(List.cons.inj h).1]⟩

end Splitting

/-! ### Escapes -/

theorem keeps_hexEscape? (width : Nat) : Keeps (hexEscape? width) := by
  intro text found rest h
  unfold hexEscape? at h
  split at h
  · next inner =>
    dsimp only at h
    split at h
    · next behind hdrop =>
      obtain ⟨htake, hdrop'⟩ := splitWhile_append hdrop [')']
      split at h
      · cases h
      · next hempty =>
        obtain ⟨escape, hescape, heq⟩ := Option.map_eq_some_iff.1 h
        cases heq
        simp [hexEscape?, htake, hdrop', hempty, hescape]
    · cases h
  · next hbrace =>
    split at h
    · next hwidth =>
      obtain ⟨escape, hescape, heq⟩ := Option.map_eq_some_iff.1 h
      cases heq
      have hshort : width ≤ (text ++ [')']).length := by
        rw [List.length_append]
        omega
      unfold hexEscape?
      split
      · next inner heq =>
        cases text with
        | nil => simp at heq
        | cons c text => exact absurd (by rw [(List.cons.inj heq).1]) (hbrace text)
      · rw [if_pos hshort, List.take_append_of_le_length hwidth, hescape, Option.map_some,
          List.drop_append_of_le_length hwidth]
    · cases h

theorem keeps_borderEscape? : Keeps borderEscape? := by
  intro text found rest h
  unfold borderEscape? at h
  split at h
  · cases h
  · next first inner hne =>
    split at h
    · next hfirst =>
      dsimp only at h
      split at h
      · next behind hdrop =>
        obtain ⟨htake, hdrop'⟩ := splitWhile_append hdrop [')']
        obtain ⟨border, hborder, heq⟩ := Option.map_eq_some_iff.1 h
        cases heq
        simp [borderEscape?, hfirst, htake, hdrop', hborder]
      · cases h
    · next hfirst =>
      cases h
      simp [borderEscape?, hfirst]
  · next hbrace hbraces =>
    cases h
    unfold borderEscape?
    split
    · next heq =>
      cases text with
      | nil => simp at heq
      | cons c text => simp at heq
    · next first inner heq =>
      exfalso
      cases text with
      | nil => simp at heq
      | cons c text =>
        cases text with
        | nil =>
          obtain ⟨rfl, -⟩ := List.cons.inj heq
          exact hbrace rfl
        | cons d text =>
          obtain ⟨rfl, -⟩ := List.cons.inj heq
          exact hbraces d text rfl
    · rfl

theorem keeps_escape? : Keeps escape? := by
  intro text found rest h
  unfold escape? at h
  split at h
  · cases h
  · exact keeps_hexEscape? 2 _ _ _ h
  · exact keeps_hexEscape? 4 _ _ _ h
  · exact keeps_hexEscape? 8 _ _ _ h
  · exact keeps_borderEscape? _ _ _ h
  · next c inner hx hu hU hb =>
    obtain ⟨escape, hescape, heq⟩ := Option.map_eq_some_iff.1 h
    cases heq
    rw [List.cons_append]
    unfold escape?
    split <;> simp_all

/-! ### Classes -/

theorem keeps_item? : Keeps item? := by
  intro text found rest h
  unfold item? at h
  split at h
  · cases h
  · exact keeps_escape? _ _ _ h
  · next c inner hc =>
    cases h
    rw [List.cons_append]
    unfold item?
    split <;> simp_all

/-- What closes behind a text does not make a named set of its start. -/
theorem namedSetFrom?_closed (text : List Char) :
    namedSetFrom? (text ++ [')']) =
      (namedSetFrom? text).map fun found => (found.1, found.2 ++ [')']) := by
  unfold namedSetFrom?
  cases hdrop : text.dropWhile (· != ':') with
  | nil =>
    have hnone : (text ++ [')']).dropWhile (· != ':') = [] := by
      rw [List.dropWhile_eq_nil_iff] at hdrop ⊢
      exact List.forall_mem_append.2 ⟨hdrop, by simp⟩
    rw [hnone]
    rfl
  | cons c rest =>
    obtain ⟨htake, hdrop'⟩ := splitWhile_append hdrop [')']
    rw [htake, hdrop']
    cases rest with
    | nil => split <;> simp_all
    | cons d rest =>
      rw [List.cons_append]
      split
      · next heq =>
        cases heq
        cases namedSet? (text.takeWhile (· != ':')) <;> rfl
      · next hne =>
        split
        · next heq =>
          cases heq
          exact absurd rfl (hne _)
        · rfl

theorem named?_closed (text : List Char) :
    named? (text ++ [')']) = (named? text).map fun found => (found.1, found.2 ++ [')']) := by
  cases text with
  | nil => rfl
  | cons c text =>
    by_cases hc : c = ':'
    · subst hc
      cases text with
      | nil => rfl
      | cons d rest =>
        by_cases hd : d = '^'
        · subst hd
          simp only [List.cons_append, named?, namedSetFrom?_closed rest, Option.map_map]
          rfl
        · have hclosed := namedSetFrom?_closed (d :: rest)
          rw [List.cons_append] at hclosed
          simp [named?, hd, hclosed]
    · simp [named?, hc]

theorem keeps_itemOrRange? : Keeps itemOrRange? := by
  intro text found rest h
  unfold itemOrRange? at h ⊢
  obtain ⟨⟨first, behind⟩, hfirst, h⟩ := Option.bind_eq_some_iff.1 h
  rw [keeps_item? _ _ _ hfirst]
  dsimp only [Option.bind_eq_bind, Option.bind_some, Option.pure_def] at h ⊢
  split at h
  · cases h
  · obtain ⟨set, hset, heq⟩ := Option.bind_eq_some_iff.1 h
    cases heq
    rw [hset]
    rfl
  · obtain ⟨set, hset, heq⟩ := Option.bind_eq_some_iff.1 h
    cases heq
    rw [hset]
    rfl
  · next upper hbracket hhyphen =>
    obtain ⟨⟨last, behind⟩, hlast, h⟩ := Option.bind_eq_some_iff.1 h
    obtain ⟨set, hset, heq⟩ := Option.bind_eq_some_iff.1 h
    cases heq
    rw [List.cons_append]
    split
    · next heq => cases heq
    · next heq =>
      obtain ⟨more, rfl⟩ := exists_cons_of_closed (by decide) (List.cons.inj heq).2
      exact absurd rfl (hbracket more)
    · next heq =>
      obtain ⟨more, rfl⟩ := exists_cons_of_closed (by decide) (List.cons.inj heq).2
      exact absurd rfl (hhyphen more)
    · next heq =>
      cases heq
      rw [keeps_item? _ _ _ hlast, Option.bind_some, hset]
      rfl
    · next hne => exact absurd rfl (hne _)
  · next hnil _ _ hhyphen =>
    obtain ⟨set, hset, heq⟩ := Option.bind_eq_some_iff.1 h
    cases heq
    cases rest with
    | nil => exact absurd rfl hnil
    | cons c rest =>
      have hc : c ≠ '-' := fun hc => hhyphen rest (by rw [hc])
      simp [hset, hc]

/-- A class starts in the same way. -/
theorem classStart_closed (text : List Char) :
    classStart (text ++ [')']) =
      ((classStart text).1, (classStart text).2.1, (classStart text).2.2 ++ [')']) := by
  have hitems : ∀ text : List Char,
      (text ++ [')']).takeWhile (· == '-') = text.takeWhile (· == '-') ∧
        (text ++ [')']).dropWhile (· == '-') = text.dropWhile (· == '-') ++ [')'] :=
    fun text => ⟨takeWhile_closed rfl, dropWhile_closed rfl⟩
  cases text with
  | nil => rfl
  | cons c text =>
    by_cases hnegated : c = '^'
    · subst hnegated
      cases text with
      | nil => rfl
      | cons d text =>
        by_cases hbracket : d = ']'
        · subst hbracket
          rfl
        · have := hitems (d :: text)
          rw [List.cons_append] at this
          simp [classStart, hbracket, this]
    · by_cases hbracket : c = ']'
      · subst hbracket
        rfl
      · have := hitems (c :: text)
        rw [List.cons_append] at this
        simp [classStart, hnegated, hbracket, this]

theorem listedFrom?_closed {steps : Nat} {pending : Option (Listed × SetOperator)} {items : Items}
    {text rest : List Char} {listed : Listed}
    (h : listedFrom? steps pending items text = some (listed, rest)) :
    listedFrom? (steps + 1) pending items (text ++ [')']) = some (listed, rest ++ [')']) := by
  fun_induction listedFrom? steps pending items text generalizing listed rest with
  | case1 => cases h
  | case2 => cases h
  | case3 steps pending items behind =>
    cases h
    simp [listedFrom?]
  | case4 steps pending items behind ih =>
    simpa [listedFrom?] using ih h
  | case5 steps pending items behind ih => simpa [listedFrom?] using ih h
  | case6 steps pending items behind ih => simpa [listedFrom?] using ih h
  | case7 steps pending items inner set behind hnamed ih =>
    have hclosed := named?_closed inner
    rw [hnamed] at hclosed
    simpa [listedFrom?, hclosed] using ih h
  | case8 steps pending items inner hnamed negated start behind hstart ihInner ih =>
    have hclosed := named?_closed inner
    rw [hnamed] at hclosed
    have hclosedStart := classStart_closed inner
    rw [hstart] at hclosedStart
    obtain ⟨⟨nested, behind⟩, hnested, h⟩ := Option.bind_eq_some_iff.1 h
    rw [List.cons_append, listedFrom?, hclosed, Option.map_none]
    dsimp only [Option.bind_eq_bind]
    rw [hclosedStart]
    dsimp only
    rw [ihInner hnested, Option.bind_some]
    exact ih _ _ h
  | case9 steps pending items text hnil hbracket hinter hdiff hsymm hopen ih =>
    obtain ⟨⟨set, behind⟩, hset, hrest⟩ := Option.bind_eq_some_iff.1 h
    have hclosed := keeps_itemOrRange? _ _ _ hset
    cases text with
    | nil => exact absurd rfl hnil
    | cons c text =>
      -- no operator ends behind the text, since none has a closing parenthesis
      have hpair : ∀ d : Char, d ≠ ')' → (∀ rest, c :: text = d :: d :: rest → False) →
          ∀ rest, c :: (text ++ [')']) = d :: d :: rest → False := by
        intro d hd hne rest heq
        obtain ⟨rfl, heq⟩ := List.cons.inj heq
        obtain ⟨more, rfl⟩ := exists_cons_of_closed hd heq
        exact hne more rfl
      rw [List.cons_append] at hclosed ⊢
      rw [listedFrom?, hclosed]
      · exact ih _ _ hrest
      · simp
      · exact fun rest heq => hbracket text (by rw [(List.cons.inj heq).1])
      · exact hpair '&' (by decide) hinter
      · exact hpair '-' (by decide) hdiff
      · exact hpair '~' (by decide) hsymm
      · exact fun rest heq => hopen text (by rw [(List.cons.inj heq).1])

theorem keeps_class? : Keeps class? := by
  intro text found rest h
  unfold class? at h ⊢
  dsimp only at h ⊢
  obtain ⟨⟨listed, behind⟩, hlisted, h⟩ := Option.bind_eq_some_iff.1 h
  cases h
  rw [classStart_closed, List.length_append, List.length_singleton]
  dsimp only [Option.bind_eq_bind]
  rw [listedFrom?_closed hlisted]
  rfl

/-! ### Counts -/

theorem keeps_number? : Keeps number? := by
  intro text value rest h
  unfold number? at h ⊢
  obtain ⟨digits, hdigits, h⟩ := Option.bind_eq_some_iff.1 h
  have hspace : ∀ text : List Char,
      (text ++ [')']).dropWhile Text.isWhiteSpace = text.dropWhile Text.isWhiteSpace ++ [')'] :=
    fun text => dropWhile_closed (by decide)
  dsimp only [Option.bind_eq_bind]
  rw [hspace, takeWhile_closed (by decide), hdigits, Option.bind_some,
    dropWhile_closed (by decide), hspace]
  split at h
  · next hle =>
    cases h
    rw [if_pos hle]
    rfl
  · cases h

theorem bounds?_closed {text rest : List Char} {least : Nat} {most : Option Nat}
    (h : bounds? text = some (least, most, rest)) :
    bounds? (text ++ [')']) = some (least, most, rest ++ [')']) := by
  unfold bounds? at h ⊢
  obtain ⟨⟨first, behind⟩, hfirst, h⟩ := Option.bind_eq_some_iff.1 h
  rw [keeps_number? _ _ _ hfirst]
  dsimp only [Option.bind_eq_bind, Option.bind_some] at h ⊢
  split at h
  · cases h
    rfl
  · cases h
    rfl
  · next inner hbrace =>
    obtain ⟨⟨last, behind⟩, hlast, h⟩ := Option.bind_eq_some_iff.1 h
    have hinner : ∀ more, ',' :: (inner ++ [')']) = ',' :: '\x7d' :: more → False := by
      intro more heq
      obtain ⟨before, rfl⟩ := exists_cons_of_closed (by decide) (List.cons.inj heq).2
      exact hbrace before rfl
    dsimp only at h
    split at h
    · split at h
      · next hle =>
        cases h
        rw [List.cons_append]
        split
        · next heq => cases heq
        · next heq => exact absurd heq (hinner _)
        · next heq =>
          cases heq
          rw [keeps_number? _ _ _ hlast]
          exact if_pos hle
        · next hne => exact absurd rfl (hne _)
      · cases h
    · cases h
  · cases h

theorem countMark_closed (least : Nat) (most : Option Nat) (text : List Char) :
    countMark least most (text ++ [')']) =
      ((countMark least most text).1, (countMark least most text).2 ++ [')']) := by
  cases text with
  | nil => rfl
  | cons c text =>
    by_cases hc : c = '?'
    · subst hc
      rfl
    · simp [countMark, hc]

/-! ### Groups -/

theorem keeps_namedGroup? : Keeps namedGroup? := by
  intro text found rest h
  unfold namedGroup? at h ⊢
  dsimp only at h ⊢
  split at h
  · next first more c behind hname hdrop =>
    obtain ⟨htake, hdrop'⟩ := splitWhile_append hdrop [')']
    rw [htake, hdrop', hname]
    rw [hname] at h
    dsimp only
    split at h
    · next hvalid =>
      cases h
      rw [if_pos hvalid]
    · cases h
  · cases h

theorem keeps_openingMark? : Keeps openingMark? := by
  intro text found rest h
  unfold openingMark? at h
  split at h
  · cases h
    rfl
  · cases h
    rfl
  · cases h
    rfl
  · cases h
    rfl
  · cases h
    rfl
  · exact keeps_namedGroup? _ _ _ h
  · exact keeps_namedGroup? _ _ _ h
  · cases h
  · next hquestion =>
    cases h
    cases text with
    | nil => rfl
    | cons c text =>
      have hc : c ≠ '?' := fun hc => hquestion text (by rw [hc])
      simp [openingMark?, hc]

/-! ### Marks -/

theorem keeps_mark? : Keeps mark? := by
  have hcount : ∀ (least : Nat) (most : Option Nat) {text rest : List Char} {mark : Mark},
      countMark least most text = (mark, rest) →
        countMark least most (text ++ [')']) = (mark, rest ++ [')']) := by
    intro least most text rest mark h
    rw [countMark_closed, h]
  intro text mark rest h
  unfold mark? at h
  split at h
  · cases h
  · cases h
    rfl
  · cases h
    rfl
  · cases h
    rfl
  · cases h
    rfl
  · exact keeps_openingMark? _ _ _ h
  · cases h
    rfl
  · exact congrArg some (hcount 0 none (Option.some.inj h))
  · exact congrArg some (hcount 1 none (Option.some.inj h))
  · exact congrArg some (hcount 0 (some 1) (Option.some.inj h))
  · obtain ⟨⟨least, most, behind⟩, hbounds, heq⟩ := Option.map_eq_some_iff.1 h
    rw [List.cons_append, mark?, bounds?_closed hbounds, Option.map_some]
    exact congrArg some (hcount least most heq)
  · obtain ⟨⟨listed, behind⟩, hclass, heq⟩ := Option.map_eq_some_iff.1 h
    cases heq
    rw [List.cons_append, mark?, keeps_class? _ _ _ hclass]
    rfl
  · obtain ⟨⟨escape, behind⟩, hescape, heq⟩ := Option.map_eq_some_iff.1 h
    cases heq
    rw [List.cons_append, mark?, keeps_escape? _ _ _ hescape]
    rfl
  · cases h
    rw [List.cons_append]
    unfold mark?
    split <;> simp_all

/-- The marks of a text that is closed are those of the text, and the one that closes. -/
theorem marksWithin?_closed {steps more : Nat} {text : List Char} {marks : List Mark}
    (h : marksWithin? steps text = some marks) (hmore : steps < more) :
    marksWithin? more (text ++ [')']) = some (marks ++ [.closing]) := by
  induction steps generalizing more text marks with
  | zero =>
    cases text with
    | nil =>
      cases h
      cases more with
      | zero => exact absurd hmore (Nat.lt_irrefl 0)
      | succ more => cases more <;> rfl
    | cons c text => cases h
  | succ steps ih =>
    obtain ⟨more, rfl⟩ := Nat.exists_eq_succ_of_ne_zero (Nat.ne_zero_of_lt hmore)
    cases text with
    | nil =>
      cases h
      cases more <;> rfl
    | cons c text =>
      simp only [marksWithin?, Option.bind_eq_bind] at h
      obtain ⟨⟨mark, rest⟩, hmark, h⟩ := Option.bind_eq_some_iff.1 h
      obtain ⟨marks, hmarks, heq⟩ := Option.bind_eq_some_iff.1 h
      cases heq
      have hclosed := keeps_mark? _ _ _ hmark
      rw [List.cons_append] at hclosed ⊢
      simp only [marksWithin?, hclosed, Option.bind_eq_bind, Option.bind_some]
      rw [ih hmarks (Nat.lt_of_succ_lt_succ hmore)]
      rfl

/-! ## Levels around others -/

namespace Assembly

/-- The assembly inside some open groups. -/
def under (a : Assembly) (outer : List Level) : Assembly :=
  { a with outer := a.outer ++ outer }

/-- A mark that can follow can follow inside open groups, and does the same. -/
theorem push?_under {a b : Assembly} {mark : Mark} (h : a.push? mark = some b)
    (outer : List Level) : (a.under outer).push? mark = some (b.under outer) := by
  cases mark with
  | numbered name =>
    simp only [push?, openNumbered?] at h ⊢
    split at h
    · cases h
    · next hname =>
      cases h
      exact if_neg hname
  | closing =>
    simp only [push?, close?] at h ⊢
    split at h
    · cases h
    · next around outer' heq =>
      cases h
      simp [under, heq]
  | repeated least most eager =>
    simp only [push?, repeat?] at h ⊢
    split at h
    · cases h
    · next last before heq =>
      split at h
      · next hrepeatable =>
        cases h
        simp [under, heq, hrepeatable]
      · cases h
  | oneOf listed =>
    cases h
    rfl
  | dot =>
    cases h
    rfl
  | assertion condition =>
    cases h
    rfl
  | bar =>
    cases h
    rfl
  | opening dotTakesAll =>
    cases h
    rfl
  | dotTakesAll value =>
    cases h
    rfl

theorem foldlM_push?_under {a b : Assembly} {marks : List Mark}
    (h : marks.foldlM push? a = some b) (outer : List Level) :
    marks.foldlM push? (a.under outer) = some (b.under outer) := by
  induction marks generalizing a with
  | nil =>
    cases h
    rfl
  | cons mark marks ih =>
    rw [List.foldlM_cons] at h ⊢
    obtain ⟨next, hnext, h⟩ := Option.bind_eq_some_iff.1 h
    rw [push?_under hnext]
    exact ih h

end Assembly

/-! ## Anchored patterns -/

theorem isAnchored_ofParts (rest : List Pattern) :
    (ofParts (assertion .textStart :: rest)).isAnchored = true := by
  cases rest <;> rfl

theorem parts_ofParts (rest : List Pattern) :
    (ofParts (assertion .textStart :: rest)).parts =
      assertion .textStart :: (ofParts rest).parts := by
  cases rest <;> rfl

/-- A row that starts by asserting the start of the text still does when it is the only alternative
of a group. -/
theorem isAnchored_anyOf (rest : List Pattern) :
    (anyOf [ofParts (assertion .textStart :: rest)]).isAnchored = true := by
  have hbranches : [ofParts (assertion .textStart :: rest)].flatMap branches =
      [ofParts (assertion .textStart :: rest)] := by
    cases rest <;> rfl
  unfold anyOf
  dsimp only
  rw [hbranches]
  split
  · have hjoin : joinBranches [ofParts (assertion .textStart :: rest)] =
        ofParts (assertion .textStart :: rest) := by
      rw [joinBranches, hbranches]
      cases rest <;> rfl
    rw [hjoin]
    exact isAnchored_ofParts rest
  · next hstart =>
    have hpieces : sharedStart ([ofParts (assertion .textStart :: rest)].map pieces) =
        (ofParts (assertion .textStart :: rest)).pieces := by
      simp only [List.map_cons, List.map_nil, sharedStart, List.foldl_nil] at hstart ⊢
      split
      · rfl
      · next hshort => exact absurd (if_neg hshort) hstart
    have hflatten : (ofParts (assertion .textStart :: rest)).pieces.flatten =
        assertion .textStart :: (ofParts rest).parts := by
      rw [pieces, List.flatten_splitBy, parts_ofParts]
    rw [hpieces, hflatten, inRow, List.flatMap_cons, parts_ofParts]
    exact isAnchored_ofParts _

/-! ## The result -/

/-- The level around a group at the start of the text. -/
def anchorLevel : Level :=
  (Level.start none false).push ⟨assertion .textStart, 0, true⟩

/-- The marks of a pattern in a group of its own, at the start of the text. -/
theorem marks?_grouped {written : String} {marks : List Mark}
    (h : marks? written.toList = some marks) :
    marks? ("^(?:" ++ written ++ ")").toList =
      some (.assertion .textStart :: .opening none :: (marks ++ [.closing])) := by
  have htext : ("^(?:" ++ written ++ ")").toList =
      '^' :: '(' :: '?' :: ':' :: (written.toList ++ [')']) := by
    simp
  have hclosed : marksWithin? (written.toList.length + 3) (written.toList ++ [')']) =
      some (marks ++ [.closing]) := marksWithin?_closed h (by omega)
  rw [htext, marks?]
  simp only [List.length_cons, List.length_append, List.length_nil, marksWithin?, mark?,
    openingMark?, Option.bind_eq_bind, Option.bind_some]
  rw [show written.toList.length + 1 + 1 + 1 = written.toList.length + 3 from rfl, hclosed]
  rfl

/-- A pattern that is well-formed on its own asserts the start of the text as a whole, where it is
read in a group. -/
theorem isAnchored_of_read? {written : String} {alone pattern : Pattern}
    (halone : read? written = some alone)
    (h : read? ("^(?:" ++ written ++ ")") = some pattern) : pattern.isAnchored = true := by
  simp only [read?, Option.bind_eq_bind] at halone h
  obtain ⟨marks, hmarks, halone⟩ := Option.bind_eq_some_iff.1 halone
  obtain ⟨a, ha, halone⟩ := Option.bind_eq_some_iff.1 halone
  obtain ⟨part, hpart, -⟩ := Option.bind_eq_some_iff.1 halone
  have houter : a.outer = [] := by
    unfold Assembly.finish? at hpart
    split at hpart
    · next hempty => exact List.isEmpty_iff.1 hempty
    · cases hpart
  -- the group is open behind the marks of the pattern, and then it closes
  have hopen := Assembly.foldlM_push?_under ha [anchorLevel]
  have hclose : (a.under [anchorLevel]).push? .closing =
      some { a with level := anchorLevel.push a.level.close } := by
    simp [Assembly.push?, Assembly.close?, Assembly.under, houter]
  have hfold : (Mark.assertion .textStart :: .opening none :: (marks ++ [.closing])).foldlM
      Assembly.push? .start = some { a with level := anchorLevel.push a.level.close } := by
    show (marks ++ [Mark.closing]).foldlM Assembly.push? (Assembly.start.under [anchorLevel]) = _
    rw [List.foldlM_append, hopen]
    exact (Option.bind_some (a.under [anchorLevel]) _).trans (by simp [hclose])
  rw [marks?_grouped hmarks, Option.bind_some, hfold, Option.bind_some] at h
  obtain ⟨whole, hwhole, h⟩ := Option.bind_eq_some_iff.1 h
  have hbody : whole = (anchorLevel.push a.level.close).body := by
    rw [Assembly.finish?, if_pos (List.isEmpty_iff.2 houter)] at hwhole
    exact (Option.some.inj hwhole).symm
  split at h
  · cases h
    rw [hbody]
    exact isAnchored_anyOf ([a.level.close.pattern].flatMap parts)
  · cases h

end Edn.Pattern
