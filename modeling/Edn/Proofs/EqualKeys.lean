import Edn.Proofs.Element.Sameness
import Edn.Proofs.Representation
import Mathlib.Tactic.TFAE

/-!
# Equal keys

A keyed collection tells its keys apart by their storage keys.  Keys that are
the same are therefore taken for two if they are written in two ways.

* `Element.HasOneSpelling` says which elements can be written in one way only:
  those without an instant and without a map that has entries, except inside a
  set.
* `Element.HasOneSpelling.chars_eq`: what is the same as such an element is
  written like it.  `Element.IsWellFormed.hasOtherSpelling`: all others are
  the same as something that is written in another way.
* `Element.hasOneSpelling_tfae` is the result, for the elements and for the
  keys of a collection.
-/

namespace Edn

/-! ## Storage keys of what is the same -/

theorem Element.eq_string {e : Element} {text : String} (h : e.string? = some text) :
    e = .scalar e.tag (.string text) := by
  cases e with
  | scalar tag value =>
    cases value <;> cases h
    rfl
  | _ => cases h

theorem Element.string?_eq_of_same {a b : Element} (h : a.same b = true) : b.string? = a.string? := by
  cases a with
  | scalar tag value =>
    obtain ⟨other, rfl, hvalue⟩ := exists_of_same_scalar h
    by_cases htype : value.type = .instant
    · cases value <;> cases htype
      cases other <;> first | rfl | cases hvalue
    · rw [Scalar.eq_of_same hvalue htype]
  | symbol tag value => rw [eq_of_same_symbol h]
  | collection tag c =>
    obtain ⟨d, rfl, -⟩ := exists_of_same_collection h
    rfl

/-- Elements that are the same have the same storage key if they are written alike, and only then. -/
theorem Element.storageKey_eq_iff {a b : Element} (h : a.same b = true) :
    b.storageKey = a.storageKey ↔ b.chars = a.chars := by
  have hstring := string?_eq_of_same h
  cases ha : a.string? with
  | some text =>
    rw [ha] at hstring
    rw [eq_string ha] at h
    obtain ⟨other, hother, -⟩ := exists_of_same_scalar h
    have htag : b.tag = a.tag := by rw [hother]; rfl
    rw [eq_string ha, eq_string hstring, htag]
    exact iff_of_true rfl rfl
  | none =>
    rw [ha] at hstring
    rw [storageKey, storageKey, ha, hstring]
    exact String.ofList_inj

/-! ## One spelling -/

/-- Whatever is the same as the element is written like it: there are no instants and no maps with
entries in it, except inside a set. -/
inductive Element.HasOneSpelling : Element → Prop where
  | scalar {tag : String} {value : Scalar} (h : value.type ≠ .instant) :
      HasOneSpelling (.scalar tag value)
  | symbol {tag : String} {value : Symbol} : HasOneSpelling (.symbol tag value)
  | ordered {tag : String} {kind : OrderedKind} {items : List Element}
      (h : ∀ item ∈ items, HasOneSpelling item) :
      HasOneSpelling (.collection tag (.ordered kind items))
  | set {tag : String} {members : List Entry} :
      HasOneSpelling (.collection tag (.keyed .set members))
  | emptyMap {tag : String} : HasOneSpelling (.collection tag (.keyed .map []))

/-- Sets that are the same are written alike: each member has its storage key and is the same as a
member with that key. -/
theorem Collection.chars_set_eq {members others : List Entry}
    (h : (keyed .set members).IsFiled) (hothers : (keyed .set others).IsFiled)
    (hsame : (keyed .set members).same (keyed .set others) = true) :
    (keyed .set others).chars = (keyed .set members).chars := by
  have hpairs := (same_keyed_iff h.1 hothers.1).1 hsame
  have htexts : members.map (entryText none) = others.map (entryText none) := by
    refine forall₂_map_eq_iff.1 (forall₂_of_mem hpairs fun member hmember other hother hpair => ?_)
    obtain ⟨hfiled, hvalue⟩ := h.2 member hmember
    obtain ⟨hotherFiled, hotherValue⟩ := hothers.2 other hother
    have hkeys : other.value.storageKey = member.value.storageKey := by
      rw [hvalue rfl, hotherValue rfl, ← hfiled, ← hotherFiled, hpair.1]
    obtain ⟨_, _, value⟩ := member
    obtain ⟨_, _, otherValue⟩ := other
    exact ((Element.storageKey_eq_iff hpair.2).1 hkeys).symm
  simp only [Collection.chars, entryTexts_eq, CollectionKind.keySeparator?, htexts]

/-- Whatever is the same is written alike. -/
theorem Element.HasOneSpelling.chars_eq {a b : Element} (h : a.HasOneSpelling)
    (ha : a.IsWellFormed) (hb : b.IsWellFormed) (hsame : a.same b = true) : b.chars = a.chars := by
  induction h generalizing b with
  | scalar htype =>
    obtain ⟨other, rfl, hvalue⟩ := exists_of_same_scalar hsame
    rw [Scalar.eq_of_same hvalue htype]
  | symbol => rw [eq_of_same_symbol hsame]
  | @ordered tag kind items h ih =>
    obtain ⟨d, rfl, hcontents⟩ := exists_of_same_collection hsame
    obtain ⟨others, rfl, hpairs⟩ := Collection.exists_of_same_ordered hcontents
    have htexts : items.map chars = others.map chars :=
      forall₂_map_eq_iff.1 (forall₂_of_mem hpairs fun item hitem other hother hpair =>
        (ih item hitem (ha.parts _ hitem) (hb.parts _ hother) hpair).symm)
    simp only [Element.chars, Collection.chars, itemTexts_eq, htexts]
  | set =>
    obtain ⟨d, rfl, hcontents⟩ := exists_of_same_collection hsame
    obtain ⟨others, rfl⟩ := Collection.exists_of_same_keyed hcontents
    rw [Element.chars, Element.chars, Collection.chars_set_eq ha.here.2 hb.here.2 hcontents]
  | emptyMap =>
    obtain ⟨d, rfl, hcontents⟩ := exists_of_same_collection hsame
    obtain ⟨others, rfl⟩ := Collection.exists_of_same_keyed hcontents
    have hpairs := (Collection.same_keyed_iff .nil hb.here.2.1).1 hcontents
    rw [List.forall₂_nil_left_iff.1 hpairs]

/-! ## Two spellings -/

/-- Something that is the same as the element is written in another way. -/
def Element.HasOtherSpelling (a : Element) : Prop :=
  ∃ b : Element, b.IsWellFormed ∧ a.same b = true ∧ b.chars ≠ a.chars

namespace Instant

/-- A timestamp ends in a `Z` at the offset zero, and only there. -/
theorem getLast?_written {t : Instant} : t.written.getLast? = some 'Z' ↔ t.offset = 0 := by
  rw [written, offsetText]
  split
  · next hzero => simp [hzero]
  · next hne =>
    refine iff_of_false (fun hlast => ?_) hne
    dsimp only at hlast
    generalize (t.offset.natAbs + 30) / 60 = minutes at hlast
    have hdigits : Text.padded 2 (minutes % 60) ≠ [] := Text.padded_ne_nil (by decide)
    rw [List.getLast?_append_of_ne_nil _ (by simp), List.getLast?_append_of_ne_nil _ (by simp),
      List.getLast?_cons_of_ne_nil hdigits] at hlast
    exact absurd (Text.isDigit_of_mem_padded _ (List.mem_of_getLast? hlast)) (by decide)

/-- The same moment noted at another offset: zero, or one hour if it is zero already. -/
def elsewhere (t : Instant) : Instant :=
  { t with offset := if t.offset = 0 then 3600 else 0 }

theorem written_elsewhere_ne (t : Instant) : t.elsewhere.written ≠ t.written := by
  intro heq
  have hzero := @getLast?_written t.elsewhere
  rw [heq, getLast?_written, elsewhere] at hzero
  by_cases h : t.offset = 0 <;> simp [h] at hzero

theorem IsValid.elsewhere {t : Instant} (h : t.IsValid) : t.elsewhere.IsValid where
  inRange := h.inRange
  nanos_lt := h.nanos_lt
  offset_lt := by
    by_cases h : t.offset = 0 <;> simp [Instant.elsewhere, h]

end Instant

section Spellings

variable {tag : String}

theorem Element.HasOtherSpelling.instant {t : Instant} (htag : IsTag tag) (h : t.IsValid) :
    (Element.scalar tag (.instant t)).HasOtherSpelling := by
  refine ⟨.scalar tag (.instant t.elsewhere), everywhere_scalar.2 ⟨htag, h.elsewhere⟩, ?_, fun heq => ?_⟩
  · simp [Element.same, Scalar.same, Instant.sameMoment, Instant.elsewhere]
  · exact t.written_elsewhere_ne (Text.quote_injective (List.append_cancel_left heq))

theorem joinTexts_cons {separator first : List Char} {rest : List (List Char)} (h : rest ≠ []) :
    joinTexts separator (first :: rest) = first ++ separator ++ joinTexts separator rest := by
  cases rest with
  | nil => exact absurd rfl h
  | cons second rest => rfl

/-- Texts that are joined with the same neighbours are told apart. -/
theorem joinTexts_cancel {separator text other : List Char} {pre post : List (List Char)}
    (h : joinTexts separator (pre ++ text :: post) = joinTexts separator (pre ++ other :: post)) :
    text = other := by
  induction pre with
  | nil =>
    cases post with
    | nil => exact h
    | cons next rest => exact List.append_cancel_right (List.append_cancel_right h)
  | cons first rest ih =>
    rw [List.cons_append, List.cons_append, joinTexts_cons (by simp), joinTexts_cons (by simp)] at h
    exact ih (List.append_cancel_left h)

/-- An item is replaced by another spelling of it. -/
theorem Element.HasOtherSpelling.ordered {kind : OrderedKind} {items : List Element} {item : Element}
    (hitems : (Element.collection tag (.ordered kind items)).IsWellFormed) (hitem : item ∈ items)
    (h : item.HasOtherSpelling) : (Element.collection tag (.ordered kind items)).HasOtherSpelling := by
  obtain ⟨other, hother, hsame, hne⟩ := h
  obtain ⟨pre, post, rfl⟩ := List.append_of_mem hitem
  obtain ⟨hpre, htail⟩ := List.forall_mem_append.1 hitems.parts
  obtain ⟨-, hpost⟩ := List.forall_mem_cons.1 htail
  refine ⟨.collection tag (.ordered kind (pre ++ other :: post)), ?_, ?_, fun heq => hne ?_⟩
  · exact everywhere_ordered.2 ⟨⟨hitems.here.1, trivial⟩,
      List.forall_mem_append.2 ⟨hpre, List.forall_mem_cons.2 ⟨hother, hpost⟩⟩⟩
  · rw [Element.same, beq_self_eq_true, Bool.true_and, Collection.same, decide_eq_true rfl,
      Bool.true_and, sameItems_iff]
    exact List.rel_append (List.forall₂_same.2 fun item hitem => same_self (hpre item hitem))
      (.cons hsame (List.forall₂_same.2 fun item hitem => same_self (hpost item hitem)))
  · simp only [Element.chars, Collection.chars, itemTexts_eq, List.map_append, List.map_cons] at heq
    exact joinTexts_cancel
      (List.append_cancel_left (List.append_cancel_right (List.append_cancel_left heq)))

/-- Every key has the storage key of a string that is written in another way: with a tag, if it is
not without one. -/
theorem exists_other_key (key : Element) :
    ∃ other : Element, other.IsWellFormed ∧ other.storageKey = key.storageKey ∧
      other.chars ≠ key.chars := by
  by_cases h : (Element.string key.storageKey).chars = key.chars
  · -- A tag changes the text of a string, but not its storage key.
    refine ⟨.scalar "t" (.string key.storageKey),
      Element.everywhere_scalar.2 ⟨.inr (by decide), trivial⟩, rfl, fun heq => ?_⟩
    rw [← h] at heq
    cases heq
  · exact ⟨.string key.storageKey, Element.everywhere_scalar.2 ⟨.inl rfl, trivial⟩, rfl, h⟩

/-- The first key of a map is replaced by a string with the same storage key. -/
theorem Element.HasOtherSpelling.map {first : Entry} {rest : List Entry}
    (h : (Element.collection tag (.keyed .map (first :: rest))).IsWellFormed) :
    (Element.collection tag (.keyed .map (first :: rest))).HasOtherSpelling := by
  obtain ⟨other, hother, hkey, hne⟩ := exists_other_key first.key
  obtain ⟨⟨htag, hascending, hfiled⟩, hparts⟩ := everywhere_keyed.1 h
  obtain ⟨hfirst, hrest⟩ := List.forall_mem_cons.1 hparts
  obtain ⟨hfirstFiled, hrestFiled⟩ := List.forall_mem_cons.1 hfiled
  let new : Entry := ⟨first.storageKey, other, first.value⟩
  have hnew : Ascending (new :: rest) := List.pairwise_cons.2 (List.pairwise_cons.1 hascending)
  refine ⟨.collection tag (.keyed .map (new :: rest)), ?_, ?_, fun heq => hne ?_⟩
  · refine everywhere_keyed.2 ⟨⟨htag, hnew, List.forall_mem_cons.2 ⟨⟨?_, nofun⟩, hrestFiled⟩⟩,
      List.forall_mem_cons.2 ⟨⟨hother, hfirst.2⟩, hrest⟩⟩
    rw [show new.key.storageKey = other.storageKey from rfl, hkey, ← hfirstFiled.1]
    rfl
  · rw [Element.same, beq_self_eq_true, Bool.true_and, Collection.same_keyed_iff hascending hnew]
    exact .cons ⟨rfl, same_self hfirst.2⟩
      (List.forall₂_same.2 fun entry hentry => ⟨rfl, same_self (hrest entry hentry).2⟩)
  · obtain ⟨storageKey, key, value⟩ := first
    simp only [Element.chars, Collection.chars, entryTexts_eq, List.map_cons] at heq
    have htext := @joinTexts_cancel _ _ _ [] _
      (List.append_cancel_left (List.append_cancel_right (List.append_cancel_left heq)))
    exact List.append_cancel_right (List.append_cancel_right htext)

end Spellings

/-- Whatever has not one spelling has another one. -/
theorem Element.IsWellFormed.hasOtherSpelling {a : Element} (h : a.IsWellFormed)
    (hone : ¬ a.HasOneSpelling) : a.HasOtherSpelling := by
  induction h with
  | @intro a here parts ih =>
    cases a with
    | scalar tag value =>
      cases value with
      | instant t => exact .instant here.1 here.2
      | _ => exact absurd (.scalar nofun) hone
    | symbol tag value => exact absurd .symbol hone
    | collection tag c =>
      cases c with
      | ordered kind items =>
        obtain ⟨item, hitem, hnot⟩ : ∃ item ∈ items, ¬ item.HasOneSpelling := by
          by_contra! hall
          exact hone (.ordered hall)
        exact .ordered (.intro here parts) hitem (ih item hitem hnot)
      | keyed kind entries =>
        cases kind with
        | set => exact absurd .set hone
        | map =>
          cases entries with
          | nil => exact absurd .emptyMap hone
          | cons first rest => exact .map (.intro here parts)

/-! ## Equal keys -/

/-- An entry is told by its storage key. -/
theorem eq_of_storageKey_eq {entries : List Entry} (h : Ascending entries) {entry other : Entry}
    (hentry : entry ∈ entries) (hother : other ∈ entries)
    (hkey : other.storageKey = entry.storageKey) : other = entry := by
  have hfind := findEntry?_of_mem h hother
  rw [hkey, findEntry?_of_mem h hentry] at hfind
  exact (Option.some.inj hfind).symm

theorem isFiled_pair {first second : Element} (h : first.storageKey < second.storageKey) :
    (Collection.keyed .set [.of first first, .of second second]).IsFiled :=
  ⟨List.pairwise_pair.2 h, by simp [Entry.of, Entry.storageKey, Entry.key, Entry.value]⟩

/-- Two elements with different storage keys are the members of a set. -/
theorem exists_set_of_storageKey_ne {a b : Element} (ha : a.IsReachable) (hb : b.IsReachable)
    (hne : a.storageKey ≠ b.storageKey) :
    ∃ members, (Element.collection "" (.keyed .set members)).IsReachable ∧
      Entry.of a a ∈ members ∧ Entry.of b b ∈ members := by
  have hpair : ∀ {first second : Element}, first.IsReachable → second.IsReachable →
      first.storageKey < second.storageKey →
        (Element.collection "" (.keyed .set [.of first first, .of second second])).IsReachable := by
    intro first second hfirst hsecond hlt
    rw [Element.isReachable_iff] at hfirst hsecond ⊢
    refine Element.everywhere_keyed.2 ⟨⟨.inl rfl, isFiled_pair hlt⟩, ?_⟩
    simp only [List.forall_mem_cons]
    exact ⟨⟨hfirst, hfirst⟩, ⟨hsecond, hsecond⟩, List.forall_mem_nil _⟩
  rcases lt_or_gt_of_ne hne with hlt | hlt
  · exact ⟨_, hpair ha hb hlt, by simp, by simp⟩
  · exact ⟨_, hpair hb ha hlt, by simp, by simp⟩

/-- An element with one spelling has the storage key of everything that is the same, and no map or set
that a run leaves behind holds it beside another key that is the same.  Of every other element neither
is true. -/
theorem Element.hasOneSpelling_tfae {a : Element} (h : a.IsReachable) :
    [a.HasOneSpelling,
      ∀ b : Element, b.IsReachable → a.same b = true → a.storageKey = b.storageKey,
      ∀ tag kind entries, (Element.collection tag (.keyed kind entries)).IsReachable →
        ∀ entry ∈ entries, ∀ other ∈ entries,
          entry.key = a → a.same other.key = true → other = entry].TFAE := by
  tfae_have 1 → 2 := by
    intro hone b hb hsame
    rw [isReachable_iff] at h hb
    exact ((storageKey_eq_iff hsame).2 (hone.chars_eq h hb hsame)).symm
  tfae_have 2 → 3 := by
    intro hkeys tag kind entries hentries entry hentry other hother heq hsame
    obtain ⟨⟨-, hascending, hfiled⟩, hparts⟩ := everywhere_keyed.1 (isReachable_iff.1 hentries)
    refine eq_of_storageKey_eq hascending hentry hother ?_
    rw [(hfiled other hother).1, (hfiled entry hentry).1, heq]
    exact (hkeys other.key (isReachable_iff.2 (hparts other hother).1) hsame).symm
  tfae_have 3 → 1 := by
    intro hunique
    by_contra hone
    obtain ⟨b, hb, hsame, hne⟩ := (isReachable_iff.1 h).hasOtherSpelling hone
    have hkeys : a.storageKey ≠ b.storageKey := fun heq =>
      hne ((storageKey_eq_iff hsame).1 heq.symm)
    obtain ⟨members, hmembers, ha, hbmem⟩ := exists_set_of_storageKey_ne h hb.isReachable hkeys
    have heq := hunique "" .set members hmembers _ ha _ hbmem rfl hsame
    exact hkeys (congrArg Entry.storageKey heq).symm
  tfae_finish

/-- The vector of the string `a` and the number one. -/
theorem hasOneSpelling_tfae_vector :
    let e := Element.vector [.string "a", .integer 1]
    e.IsReachable ∧ ∀ b : Element, b.IsReachable → e.same b = true → e.storageKey = b.storageKey := by
  intro e
  have hscalars : ∀ item ∈ [Element.string "a", .integer 1], ∃ value : Scalar,
      item = .scalar "" value ∧ value.IsRegular ∧ value.type ≠ .instant := by
    simp [Element.string, Element.integer, Scalar.IsRegular, Scalar.type]
  have hwell : e.IsWellFormed := by
    refine Element.everywhere_ordered.2 ⟨⟨.inl rfl, trivial⟩, fun item hitem => ?_⟩
    obtain ⟨value, rfl, hregular, -⟩ := hscalars item hitem
    exact Element.everywhere_scalar.2 ⟨.inl rfl, hregular⟩
  have hone : e.HasOneSpelling := by
    refine .ordered fun item hitem => ?_
    obtain ⟨value, rfl, -, htype⟩ := hscalars item hitem
    exact .scalar htype
  exact ⟨hwell.isReachable, ((Element.hasOneSpelling_tfae hwell.isReachable).out 0 1).1 hone⟩

/-- The first moment of the year 2020, noted in UTC. -/
def utc : Element :=
  .instant ⟨1577836800, 0, 0⟩

/-- The same moment, noted two hours further east. -/
def east : Element :=
  .instant ⟨1577836800, 0, 7200⟩

/-- A run puts both into one set, although they are the same. -/
theorem isRun_two_spellings :
    IsRun [.ofCollection (.keyed .set [.of utc utc, .of east east]), east, utc] ∧
      utc.same east = true ∧ utc.storageKey ≠ east.storageKey := by
  have hlt : utc.storageKey < east.storageKey := by decide +kernel
  have hutc : Instant.IsValid ⟨1577836800, 0, 0⟩ := ⟨by decide, by decide, by decide⟩
  have heast : Instant.IsValid ⟨1577836800, 0, 7200⟩ := ⟨by decide, by decide, by decide⟩
  refine ⟨.call (.call (.call .start ?_) ?_) ?_, by decide, hlt.ne⟩
  · exact @Leaves.scalar _ (.instant ⟨1577836800, 0, 0⟩) hutc
  · exact @Leaves.scalar _ (.instant ⟨1577836800, 0, 7200⟩) heast
  · exact .ofElements (by simp [Collection.written, Collection.values, Entry.of, Entry.value])
      (Collection.ofElements_written (isFiled_pair hlt))

end Edn
