import Edn.Pair
import Edn.Proofs.Element.Parts
import Mathlib.Data.String.Basic

/-!
# Entries in order

The entries of a keyed collection are filed: they stand in ascending order of
their storage keys, no two of which are equal, and each stands under the
storage key of its own key (`Collection.IsFiled`).

* `insertEntry` and `addEntry` keep the order (`ascending_addEntry`), so that
  every collection that is built is filed.
* `findEntry?_of_mem`: an entry is found under its storage key.
* `addEntries_of_ascending`: entries that are added in ascending order stay
  as they are, which is why a collection is built again from its own children.
-/

namespace Edn

/-- The entries stand in ascending order of their storage keys, and no two have the same one. -/
def Ascending (entries : List Entry) : Prop :=
  entries.Pairwise fun a b => a.storageKey < b.storageKey

instance (entries : List Entry) : Decidable (Ascending entries) :=
  inferInstanceAs (Decidable (List.Pairwise _ _))

/-! ## Looking up -/

theorem findEntry?_eq_none_iff {storageKey : String} {entries : List Entry} :
    findEntry? storageKey entries = none ↔ ∀ entry ∈ entries, entry.storageKey ≠ storageKey := by
  unfold findEntry?
  simp

/-- An entry is found under its storage key. -/
theorem findEntry?_of_mem {entries : List Entry} (h : Ascending entries) {entry : Entry}
    (hentry : entry ∈ entries) : findEntry? entry.storageKey entries = some entry := by
  induction entries with
  | nil => cases hentry
  | cons first rest ih =>
    obtain ⟨hfirst, hrest⟩ := List.pairwise_cons.1 h
    rcases List.mem_cons.1 hentry with rfl | hentry
    · exact List.find?_cons_of_pos (by simp)
    · unfold findEntry?
      rw [List.find?_cons_of_neg (by simpa using (hfirst entry hentry).ne)]
      exact ih hrest hentry

/-! ## Adding one entry -/

theorem mem_insertEntry {new entry : Entry} {entries : List Entry} :
    entry ∈ insertEntry new entries ↔ entry = new ∨ entry ∈ entries := by
  induction entries with
  | nil => simp [insertEntry]
  | cons first rest ih =>
    unfold insertEntry
    split
    · rw [List.mem_cons]
    · rw [List.mem_cons, ih, List.mem_cons]
      exact or_left_comm

/-- An entry with a storage key of its own is put where the order wants it. -/
theorem ascending_insertEntry {new : Entry} {entries : List Entry} (h : Ascending entries)
    (hnew : ∀ entry ∈ entries, entry.storageKey ≠ new.storageKey) :
    Ascending (insertEntry new entries) := by
  induction entries with
  | nil => exact List.pairwise_singleton _ _
  | cons first rest ih =>
    obtain ⟨hfirst, hrest⟩ := List.pairwise_cons.1 h
    unfold insertEntry
    split
    · next hlt =>
      refine List.pairwise_cons.2 ⟨fun entry hentry => ?_, h⟩
      rcases List.mem_cons.1 hentry with rfl | hentry
      · exact hlt
      · exact hlt.trans (hfirst entry hentry)
    · next hlt =>
      refine List.pairwise_cons.2 ⟨fun entry hentry => ?_,
        ih hrest fun entry hentry => hnew entry (List.mem_cons_of_mem _ hentry)⟩
      rcases mem_insertEntry.1 hentry with rfl | hentry
      · exact lt_of_le_of_ne (not_lt.1 hlt) (hnew first List.mem_cons_self)
      · exact hfirst entry hentry

/-- What is added stands in order, and nothing is lost. -/
theorem ascending_addEntry {new : Entry} {entries added : List Entry} (h : Ascending entries)
    (hadd : addEntry entries new = .ok added) :
    Ascending added ∧ ∀ entry, entry ∈ added ↔ entry = new ∨ entry ∈ entries := by
  unfold addEntry at hadd
  split at hadd
  · cases hadd
  · next hnone =>
    cases hadd
    exact ⟨ascending_insertEntry h (findEntry?_eq_none_iff.1 hnone), fun entry => mem_insertEntry⟩

/-- An entry with a greater storage key than all others is put behind them. -/
theorem addEntry_of_lt {new : Entry} {entries : List Entry}
    (h : ∀ entry ∈ entries, entry.storageKey < new.storageKey) :
    addEntry entries new = .ok (entries ++ [new]) := by
  have hinsert : insertEntry new entries = entries ++ [new] := by
    induction entries with
    | nil => rfl
    | cons first rest ih =>
      rw [insertEntry, if_neg (not_lt.2 (h first List.mem_cons_self).le),
        ih fun entry hentry => h entry (List.mem_cons_of_mem _ hentry), List.cons_append]
  rw [addEntry, findEntry?_eq_none_iff.2 fun entry hentry => (h entry hentry).ne, hinsert]

/-! ## Adding entries -/

/-- Entries that are added stand in order, and nothing is lost. -/
theorem ascending_addEntries {news entries added : List Entry} (h : Ascending entries)
    (hadd : addEntries entries news = .ok added) :
    Ascending added ∧ ∀ entry, entry ∈ added ↔ entry ∈ news ∨ entry ∈ entries := by
  induction news generalizing entries with
  | nil =>
    cases hadd
    simpa using h
  | cons new rest ih =>
    rw [addEntries, List.foldlM_cons] at hadd
    obtain ⟨next, hone, hadd⟩ := exists_of_bind hadd
    obtain ⟨hnext, hmem⟩ := ascending_addEntry h hone
    obtain ⟨hadded, hall⟩ := ih hnext hadd
    refine ⟨hadded, fun entry => ?_⟩
    rw [hall, hmem, List.mem_cons]
    tauto

/-- Adding entries fails only at a storage key that is taken. -/
theorem exists_duplicateKey_of_addEntries {news entries : List Entry} {error : Error}
    (h : addEntries entries news = .error error) : ∃ key, error = .duplicateKey key := by
  induction news generalizing entries with
  | nil => cases h
  | cons new rest ih =>
    rw [addEntries, List.foldlM_cons] at h
    cases hone : addEntry entries new with
    | error found =>
      rw [hone] at h
      cases h
      unfold addEntry at hone
      split at hone
      · cases hone
        exact ⟨_, rfl⟩
      · cases hone
    | ok next =>
      rw [hone] at h
      exact ih h

/-- Entries that are added in ascending order are put one behind the other. -/
theorem addEntries_of_ascending {entries news : List Entry} (h : Ascending (entries ++ news)) :
    addEntries entries news = .ok (entries ++ news) := by
  induction news generalizing entries with
  | nil => rw [List.append_nil]; rfl
  | cons new rest ih =>
    have hlt : ∀ entry ∈ entries, entry.storageKey < new.storageKey := fun entry hentry =>
      (List.pairwise_append.1 h).2.2 entry hentry new List.mem_cons_self
    rw [addEntries, List.foldlM_cons, addEntry_of_lt hlt]
    have hrest := @ih (entries ++ [new]) (by simpa using h)
    rw [List.append_assoc] at hrest
    exact hrest

/-! ## Filed collections -/

/-- Every entry stands under the storage key of its key, and the entries of a set have the member as
their key and as their value. -/
def Collection.IsFiled : Collection → Prop
  | .ordered _ _ => True
  | .keyed kind entries => Ascending entries ∧ ∀ entry ∈ entries,
      entry.storageKey = entry.key.storageKey ∧ (kind = .set → entry.value = entry.key)

theorem Entry.eq_of {entry : Entry} (h : entry.storageKey = entry.key.storageKey) :
    entry = .of entry.key entry.value := by
  obtain ⟨storageKey, key, value⟩ := entry
  dsimp only [Entry.of, Entry.key, Entry.value, Entry.storageKey] at h ⊢
  rw [h]

/-- The children from which a collection is built: a map takes its keys and its values in turn. -/
def Collection.written : Collection → List Element
  | .keyed .map entries => entries.flatMap fun entry => [entry.key, entry.value]
  | c => c.values

theorem pairUp?_flatMap {α : Type} (first second : α → Element) (items : List α) :
    pairUp? (items.flatMap fun item => [first item, second item]) =
      some (items.map fun item => (first item, second item)) := by
  induction items with
  | nil => rfl
  | cons item rest ih =>
    rw [List.flatMap_cons, List.map_cons, List.cons_append, List.cons_append, List.nil_append, pairUp?,
      ih, Option.map_some]

/-- The entries of a collection are those that its children stand for. -/
theorem entriesOf_written {kind : KeyedKind} {entries : List Entry}
    (h : (Collection.keyed kind entries).IsFiled) :
    entriesOf kind (Collection.keyed kind entries).written = .ok entries := by
  obtain ⟨-, hentries⟩ := h
  cases kind with
  | map =>
    have hentry : ∀ entry ∈ entries, Entry.of entry.key entry.value = entry :=
      fun entry hentry => (Entry.eq_of (hentries entry hentry).1).symm
    rw [Collection.written, entriesOf, pairUp?_flatMap]
    dsimp only
    rw [List.map_map]
    exact congrArg Except.ok ((List.map_congr_left hentry).trans (List.map_id _))
  | set =>
    have hmember : ∀ entry ∈ entries, Entry.of entry.value entry.value = entry := by
      intro entry hentry
      obtain ⟨hkey, hvalue⟩ := hentries entry hentry
      have hof := Entry.eq_of hkey
      rw [← hvalue rfl] at hof
      exact hof.symm
    show Except.ok ((entries.map Entry.value).map fun member => Entry.of member member) = .ok entries
    rw [List.map_map]
    exact congrArg Except.ok ((List.map_congr_left hmember).trans (List.map_id _))

/-- A collection that is filed is built again from its children. -/
theorem Collection.ofElements_written {c : Collection} (h : c.IsFiled) :
    ofElements c.kind c.written = .ok c := by
  cases c with
  | ordered kind items => rfl
  | keyed kind entries =>
    have hadd : addEntries [] entries = .ok entries := addEntries_of_ascending h.1
    show (entriesOf kind (keyed kind entries).written >>= fun news => _) = _
    rw [entriesOf_written h]
    show (addEntries [] entries >>= fun added => _) = _
    rw [hadd]
    rfl

/-! ## Building -/

/-- What is paired up are the children, each once. -/
theorem mem_pairUp?_iff {children : List Element} {pairs : List (Element × Element)}
    (h : pairUp? children = some pairs) (part : Element) :
    part ∈ children ↔ ∃ pair ∈ pairs, part = pair.1 ∨ part = pair.2 := by
  fun_induction pairUp? children generalizing pairs with
  | case1 =>
    cases h
    simp
  | case2 => cases h
  | case3 key value rest ih =>
    obtain ⟨others, hothers, rfl⟩ := Option.map_eq_some_iff.1 h
    rw [List.mem_cons, List.mem_cons, ih hothers]
    simp [or_assoc]

/-- Entries stand under the storage keys of their keys. -/
theorem storageKey_of_mem_entriesOf {kind : KeyedKind} {children : List Element}
    {news : List Entry} (h : entriesOf kind children = .ok news) : ∀ entry ∈ news,
      entry.storageKey = entry.key.storageKey ∧ (kind = .set → entry.value = entry.key) := by
  cases kind with
  | set =>
    cases h
    intro entry hentry
    obtain ⟨member, -, rfl⟩ := List.mem_map.1 hentry
    exact ⟨rfl, fun _ => rfl⟩
  | map =>
    rw [entriesOf] at h
    split at h
    · cases h
      intro entry hentry
      obtain ⟨pair, -, rfl⟩ := List.mem_map.1 hentry
      exact ⟨rfl, fun h => nomatch h⟩
    · cases h

/-- Entries are made of the children, and of all of them. -/
theorem mem_entriesOf_iff {kind : KeyedKind} {children : List Element} {news : List Entry}
    (h : entriesOf kind children = .ok news) (part : Element) :
    part ∈ children ↔ ∃ entry ∈ news, part = entry.key ∨ part = entry.value := by
  cases kind with
  | set =>
    cases h
    simp [Entry.of, Entry.key, Entry.value]
  | map =>
    rw [entriesOf] at h
    split at h
    · next pairs hpairs =>
      cases h
      rw [mem_pairUp?_iff hpairs]
      simp [Entry.of, Entry.key, Entry.value]
    · cases h

/-- What children are added to stays filed, and has them as parts besides those that it had. -/
theorem Collection.appended_spec {c added : Collection} {children : List Element} (h : c.IsFiled)
    (hadd : c.appended children = .ok added) :
    added.IsFiled ∧ ∀ part, part ∈ added.parts ↔ part ∈ c.parts ∨ part ∈ children := by
  cases c with
  | ordered kind items =>
    cases hadd
    exact ⟨trivial, fun part => List.mem_append⟩
  | keyed kind entries =>
    obtain ⟨news, hnews, hadd⟩ := exists_of_bind hadd
    obtain ⟨all, hentries, hadd⟩ := exists_of_bind hadd
    cases hadd
    obtain ⟨hall, hmem⟩ := ascending_addEntries h.1 hentries
    refine ⟨⟨hall, fun entry hentry => ?_⟩, fun part => ?_⟩
    · rcases (hmem entry).1 hentry with hentry | hentry
      · exact storageKey_of_mem_entriesOf hnews entry hentry
      · exact h.2 entry hentry
    · rw [mem_parts_keyed_iff, mem_parts_keyed_iff, mem_entriesOf_iff hnews]
      simp only [hmem, or_and_right, exists_or]
      exact or_comm

/-- Children that stand for entries are refused only for a storage key that two of them have. -/
theorem Collection.exists_duplicateKey_of_ofElements {kind : KeyedKind} {children : List Element}
    {news : List Entry} (hnews : entriesOf kind children = .ok news) {error : Error}
    (h : ofElements (.keyed kind) children = .error error) : ∃ key, error = .duplicateKey key := by
  replace h : (entriesOf kind children >>= fun news => do
      return keyed kind (← addEntries [] news)) = .error error := h
  rw [hnews] at h
  replace h : (addEntries [] news >>= fun entries => pure (keyed kind entries)) = .error error := h
  cases hadd : addEntries [] news with
  | error found =>
    rw [hadd] at h
    cases h
    exact exists_duplicateKey_of_addEntries hadd
  | ok entries =>
    rw [hadd] at h
    cases h

/-- A collection that is built of children is filed, and the children are its parts. -/
theorem Collection.ofElements_spec {kind : CollectionKind} {children : List Element}
    {c : Collection} (h : ofElements kind children = .ok c) :
    c.IsFiled ∧ ∀ part, part ∈ c.parts ↔ part ∈ children := by
  have hempty : (empty kind).IsFiled ∧ (empty kind).parts = [] := by
    cases kind with
    | ordered kind => exact ⟨trivial, rfl⟩
    | keyed kind => exact ⟨⟨List.Pairwise.nil, List.forall_mem_nil _⟩, rfl⟩
  obtain ⟨hfiled, hparts⟩ := appended_spec hempty.1 h
  refine ⟨hfiled, fun part => ?_⟩
  rw [hparts, hempty.2]
  simp

end Edn
