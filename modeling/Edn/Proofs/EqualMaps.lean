import Edn.Proofs.EqualKeys
import Edn.Proofs.RoundTrip

/-!
# Equal maps

Maps are compared through the storage keys of their entries.  The keys
themselves are not looked at.

* `same_map_iff` says what is compared: entries with one storage key have the
  same value.
* `MapsCompareKeys` says of a class of keys that this comes to the same as
  comparing the keys as elements, and `ToldByStorageKey` that its keys are the
  same if their storage keys are equal, and only then.
* `mapsCompareKeys_iff`: these are the classes of which it is true.  Readable
  keys are such a class if those that are the same are one element and no
  string has the storage key of another key.
-/

namespace Edn

variable {entries others : List Entry} {key other : Element} {K : Element → Prop}

/-- As many entries as there are others, and each has another entry with the same key and the same
value. -/
def SameEntries (entries others : List Entry) : Prop :=
  entries.length = others.length ∧ ∀ entry ∈ entries, ∃ other ∈ others,
    entry.key.same other.key = true ∧ entry.value.same other.value = true

/-- Equality of maps with keys of a class compares the keys and the values. -/
def MapsCompareKeys (K : Element → Prop) : Prop :=
  ∀ entries others : List Entry,
    (Element.collection "" (.keyed .map entries)).IsReachable →
    (Element.collection "" (.keyed .map others)).IsReachable →
    (∀ entry ∈ entries, K entry.key) → (∀ other ∈ others, K other.key) →
      ((Collection.keyed .map entries).same (.keyed .map others) = true ↔ SameEntries entries others)

/-- Keys of a class are the same if they have one storage key, and only then. -/
def ToldByStorageKey (K : Element → Prop) : Prop :=
  ∀ key other : Element, K key → K other →
    (key.same other = true ↔ key.storageKey = other.storageKey)

/-! ## Maps -/

/-- Maps are the same if each storage key of the one has the same value in the other. -/
theorem same_map_iff (h : (Collection.keyed .map entries).IsFiled)
    (hothers : (Collection.keyed .map others).IsFiled) :
    (Collection.keyed .map entries).same (.keyed .map others) = true ↔
      entries.length = others.length ∧ ∀ entry ∈ entries, ∃ other ∈ others,
        entry.key.storageKey = other.key.storageKey ∧ entry.value.same other.value = true := by
  rw [Collection.same, decide_eq_true rfl, Bool.true_and, Bool.and_eq_true, beq_iff_eq, filedIn_iff]
  refine and_congr_right fun _ => forall₂_congr fun entry hentry => ?_
  constructor
  · intro hsame
    obtain ⟨other, hother, hkey⟩ := exists_of_sameValueIn hsame
    rw [sameValueIn_eq hothers.1 hother hkey] at hsame
    rw [(h.2 entry hentry).1, (hothers.2 other hother).1] at hkey
    exact ⟨other, hother, hkey, hsame⟩
  · rintro ⟨other, hother, hkey, hsame⟩
    rw [← (h.2 entry hentry).1, ← (hothers.2 other hother).1] at hkey
    rwa [sameValueIn_eq hothers.1 hother hkey]

/-- The map with one entry is left behind by a run if the key and the value are. -/
theorem isReachable_single {value : Element} (h : key.IsReachable) (hvalue : value.IsReachable) :
    (Element.collection "" (.keyed .map [.of key value])).IsReachable := by
  rw [Element.isReachable_iff] at h hvalue ⊢
  refine Element.everywhere_keyed.2 ⟨⟨.inl rfl, List.pairwise_singleton _ _, ?_⟩, ?_⟩
  · exact List.forall_mem_singleton.2 ⟨rfl, nofun⟩
  · exact List.forall_mem_singleton.2 ⟨h, hvalue⟩

theorem ToldByStorageKey.mapsCompareKeys (h : ToldByStorageKey K) : MapsCompareKeys K := by
  intro entries others hentries hothers hkeys hotherKeys
  rw [Element.isReachable_iff] at hentries hothers
  rw [same_map_iff hentries.here.2 hothers.here.2]
  refine and_congr_right fun _ => forall₂_congr fun entry hentry => ?_
  refine exists_congr fun other => and_congr_right fun hother => and_congr_left fun _ => ?_
  exact (h _ _ (hkeys entry hentry) (hotherKeys other hother)).symm

/-- Maps with a single entry tell every two keys apart. -/
theorem MapsCompareKeys.toldByStorageKey (hreachable : ∀ key, K key → key.IsReachable)
    (h : MapsCompareKeys K) : ToldByStorageKey K := by
  intro key other hkey hother
  have hnil : Element.nil.IsReachable := (@Element.IsWellFormed.ofScalar .nil trivial).isReachable
  have hfirst := isReachable_single (hreachable key hkey) hnil
  have hsecond := isReachable_single (hreachable other hother) hnil
  have hsame := h _ _ hfirst hsecond (List.forall_mem_singleton.2 hkey)
    (List.forall_mem_singleton.2 hother)
  rw [Element.isReachable_iff] at hfirst hsecond
  rw [same_map_iff hfirst.here.2 hsecond.here.2] at hsame
  simpa [SameEntries, Entry.of, Entry.key, Entry.value, Element.nil, Element.same, Scalar.same]
    using hsame.symm

/-! ## Keys -/

/-- Printable elements that are written alike are read back as one element. -/
theorem Element.reread_eq_of_text_eq (h : key.Everywhere IsPrintable)
    (hother : other.Everywhere IsPrintable) (htext : key.text = other.text) :
    key.reread = other.reread := by
  -- some reader allows the depth of both
  obtain ⟨limits, hlength, hdepth, hotherDepth⟩ : ∃ limits : Limits, limits.maxLength = none ∧
      key.depth ≤ limits.maxDepth ∧ other.depth ≤ limits.maxDepth :=
    ⟨⟨max key.depth other.depth, none⟩, rfl, Nat.le_max_left _ _, Nat.le_max_right _ _⟩
  have hread : ∀ {e : Element}, e.Everywhere IsPrintable → e.depth ≤ limits.maxDepth →
      (Reader.within limits).parse e.text = .ok e.reread := by
    intro e h hdepth
    refine @Reader.parse_text (.within limits) e (Reader.grammar_within limits) h hdepth e.text []
      (by simp [text]) (List.forall_mem_nil _) ?_
    rw [Reader.lengthError?_eq_none_iff, Reader.within, hlength]
    rintro _ ⟨⟩
  have hkey := hread h hdepth
  rw [htext, hread hother hotherDepth] at hkey
  exact (Except.ok.inj hkey).symm

/-- Readable elements that are written alike are one element. -/
theorem Element.eq_of_text_eq (h : key.IsWellFormed) (hother : other.IsWellFormed)
    (hreadable : key.Everywhere IsReadable) (hotherReadable : other.Everywhere IsReadable)
    (htext : key.text = other.text) : key = other := by
  have hreread := reread_eq_of_text_eq (h.and (hreadable.imp fun _ h => h.1))
    (hother.and (hotherReadable.imp fun _ h => h.1)) htext
  rwa [key.reread_eq_self_iff.2 (hreadable.imp fun _ h => h.2),
    other.reread_eq_self_iff.2 (hotherReadable.imp fun _ h => h.2)] at hreread

/-- A string is one element with whatever is the same. -/
theorem Element.eq_of_same_string {text : String} (hstring : key.string? = some text)
    (h : key.same other = true) : key = other := by
  rw [eq_string hstring] at h ⊢
  obtain ⟨value, rfl, hvalue⟩ := exists_of_same_scalar h
  rw [Scalar.eq_of_same hvalue nofun]

/-- Readable keys that are no strings are told by their storage keys. -/
theorem Element.eq_of_storageKey_eq_of_readable (h : key.IsWellFormed) (hother : other.IsWellFormed)
    (hreadable : key.Everywhere IsReadable) (hotherReadable : other.Everywhere IsReadable)
    (hstring : key.string? = none) (hotherString : other.string? = none)
    (hkeys : key.storageKey = other.storageKey) : key = other := by
  rw [storageKey, storageKey, hstring, hotherString] at hkeys
  exact eq_of_text_eq h hother hreadable hotherReadable hkeys

/-- Readable keys are told by their storage keys if those that are the same are one element, and no
string has the storage key of another element. -/
theorem toldByStorageKey_iff_of_readable (hwell : ∀ key, K key → key.IsWellFormed)
    (hreadable : ∀ key, K key → key.Everywhere Element.IsReadable) :
    ToldByStorageKey K ↔ ∀ key other, K key → K other →
      (key.same other = true → key = other) ∧
        (key.string? = some other.storageKey → key = other) := by
  have told : ∀ {key other : Element}, K key → K other → key.string? = none →
      other.string? = none → key.storageKey = other.storageKey → key = other :=
    fun hkey hother => Element.eq_of_storageKey_eq_of_readable (hwell _ hkey) (hwell _ hother)
      (hreadable _ hkey) (hreadable _ hother)
  constructor
  · intro h key other hkey hother
    have hone : key.same other = true → key = other := by
      intro hsame
      cases hstring : key.string? with
      | some text => exact Element.eq_of_same_string hstring hsame
      | none =>
        have hotherString := (Element.string?_eq_of_same hsame).trans hstring
        exact told hkey hother hstring hotherString ((h _ _ hkey hother).1 hsame)
    refine ⟨hone, fun hstring => hone ((h _ _ hkey hother).2 ?_)⟩
    rw [Element.storageKey, hstring]
  · intro h key other hkey hother
    refine ⟨fun hsame => by rw [(h _ _ hkey hother).1 hsame], fun hkeys => ?_⟩
    have heq : key = other := by
      cases hstring : key.string? with
      | some text =>
        refine (h _ _ hkey hother).2 ?_
        rw [← hkeys, Element.storageKey, hstring]
      | none =>
        cases hotherString : other.string? with
        | some text =>
          refine ((h _ _ hother hkey).2 ?_).symm
          rw [hkeys, Element.storageKey, hotherString]
        | none => exact told hkey hother hstring hotherString hkeys
    rw [heq]
    exact Element.same_self (hwell _ hother)

/-- Equality of maps compares the keys of a class as elements if their equality is that of their storage
keys, and only then.  Of readable keys this is so if those that are the same are one element, and no
string has the storage key of another key. -/
theorem mapsCompareKeys_iff {K : Element → Prop} (hreachable : ∀ key, K key → key.IsReachable) :
    (MapsCompareKeys K ↔ ToldByStorageKey K) ∧
      ((∀ key, K key → key.Everywhere Element.IsReadable) →
        (MapsCompareKeys K ↔ ∀ key other, K key → K other →
          (key.same other = true → key = other) ∧
            (key.string? = some other.storageKey → key = other))) := by
  have htold : MapsCompareKeys K ↔ ToldByStorageKey K :=
    ⟨fun h => h.toldByStorageKey hreachable, fun h => h.mapsCompareKeys⟩
  refine ⟨htold, fun hreadable => htold.trans ?_⟩
  exact toldByStorageKey_iff_of_readable (fun key hkey => Element.isReachable_iff.1 (hreachable key hkey))
    hreadable

theorem mapsCompareKeys_integer :
    (∀ key, (∃ n, key = Element.integer n) → key.IsReachable) ∧
      (∀ key, (∃ n, key = Element.integer n) → key.Everywhere Element.IsReadable) ∧
        MapsCompareKeys fun key => ∃ n, key = Element.integer n := by
  have hreachable : ∀ key, (∃ n, key = Element.integer n) → key.IsReachable := by
    rintro _ ⟨n, rfl⟩
    exact (@Element.IsWellFormed.ofScalar (.integer n) trivial).isReachable
  have hreadable : ∀ key, (∃ n, key = Element.integer n) → key.Everywhere Element.IsReadable := by
    rintro _ ⟨n, rfl⟩
    exact Element.everywhere_scalar.2 ⟨⟨rfl, trivial⟩, rfl⟩
  refine ⟨hreachable, hreadable, ((mapsCompareKeys_iff hreachable).2 hreadable).2 ?_⟩
  rintro _ _ ⟨n, rfl⟩ ⟨m, rfl⟩
  refine ⟨fun hsame => ?_, nofun⟩
  obtain ⟨value, hvalue, hsame⟩ := Element.exists_of_same_scalar hsame
  rw [hvalue, Scalar.eq_of_same hsame nofun]
  rfl

/-- A string and a symbol with one storage key make maps that are the same, although the keys are not.
One moment in two notations makes maps that are not the same, although the keys are. -/
theorem same_of_other_keys :
    let text := [Entry.of (.string "a") (.integer 1)]
    let name := [Entry.of (.symbol "" ⟨"", "a", false⟩) (.integer 1)]
    let here := [Entry.of utc (.integer 1)]
    let there := [Entry.of east (.integer 1)]
    (∀ entries ∈ [text, name, here, there],
      (Element.collection "" (.keyed .map entries)).IsReachable) ∧
    ((Collection.keyed .map text).same (.keyed .map name) = true ∧ ¬SameEntries text name) ∧
      (Collection.keyed .map here).same (.keyed .map there) = false ∧ SameEntries here there := by
  intro text name here there
  have hone : (Element.integer 1).IsWellFormed := @Element.IsWellFormed.ofScalar (.integer 1) trivial
  have hname : (Element.symbol "" ⟨"", "a", false⟩).IsWellFormed := .ofSymbol (by decide)
  have hutc : Instant.IsValid ⟨1577836800, 0, 0⟩ := ⟨by decide, by decide, by decide⟩
  have heast : Instant.IsValid ⟨1577836800, 0, 7200⟩ := ⟨by decide, by decide, by decide⟩
  have hsingle : ∀ {key : Element}, key.IsWellFormed →
      (Element.collection "" (.keyed .map [.of key (.integer 1)])).IsReachable :=
    fun h => isReachable_single h.isReachable hone.isReachable
  refine ⟨?_, ⟨by decide +kernel, ?_⟩, by decide +kernel, rfl, ?_⟩
  · simp only [List.forall_mem_cons]
    exact ⟨hsingle (@Element.IsWellFormed.ofScalar (.string "a") trivial), hsingle hname,
      hsingle (@Element.IsWellFormed.ofScalar (.instant _) hutc),
      hsingle (@Element.IsWellFormed.ofScalar (.instant _) heast), List.forall_mem_nil _⟩
  · rintro ⟨-, h⟩
    obtain ⟨other, hother, hkey, -⟩ := h _ List.mem_cons_self
    rw [List.mem_singleton.1 hother] at hkey
    cases hkey
  · exact List.forall_mem_singleton.2 ⟨_, List.mem_cons_self, by decide, by decide⟩

end Edn
