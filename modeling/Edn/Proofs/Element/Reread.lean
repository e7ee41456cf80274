import Edn.Proofs.Collection

/-!
# Elements read back

The text of an element does not tell everything: floats that are not finite
are written as `+Inf`, `-Inf` and `NaN`, which are symbols to the reader.
`Element.reread` is the element that the text tells.

* It has the same text (`Element.chars_reread`), and as a key it is filed
  under the same storage key (`Element.storageKey_reread`).
* It is the element itself if every float in it is finite, and only then
  (`Element.reread_eq_self_iff`).
* It is filed and written in the same way (`Collection.IsFiled.reread` and
  `Collection.written_reread`), so that a collection is built again from it.
-/

namespace Edn

/-! ## Finite scalars -/

/-- The scalar is no float, or a finite one. -/
def Scalar.isFinite : Scalar → Bool
  | .float value => !value.isNaN && !value.isInfinite
  | _ => true

/-- The element is no float, or a finite one. -/
def Element.isFinite : Element → Bool
  | .scalar _ value => value.isFinite
  | _ => true

/-! ## Reading back -/

/-- The element that the text of a scalar tells. -/
def Scalar.reread (tag : String) (value : Scalar) : Element :=
  if value.isFinite then .scalar tag value else .symbol tag ⟨"", String.ofList value.text, false⟩

mutual

/-- The element that the text of an element tells. -/
def Element.reread : Element → Element
  | .scalar tag value => value.reread tag
  | .symbol tag value => .symbol tag value
  | .collection tag value => .collection tag value.reread

/-- The collection that the text of a collection tells. -/
def Collection.reread : Collection → Collection
  | .ordered kind items => .ordered kind (rereadItems items)
  | .keyed kind entries => .keyed kind (rereadEntries entries)

/-- The items that the texts of items tell. -/
def rereadItems : List Element → List Element
  | [] => []
  | item :: rest => item.reread :: rereadItems rest

/-- The entries that the texts of entries tell. -/
def rereadEntries : List Entry → List Entry
  | [] => []
  | entry :: rest => entry.reread :: rereadEntries rest

/-- The entry that the text of an entry tells, in the same place. -/
def Entry.reread : Entry → Entry
  | ⟨storageKey, key, value⟩ => ⟨storageKey, key.reread, value.reread⟩

end

theorem rereadItems_eq (items : List Element) : rereadItems items = items.map Element.reread := by
  induction items with
  | nil => rfl
  | cons item rest ih => rw [rereadItems, ih, List.map_cons]

theorem rereadEntries_eq (entries : List Entry) :
    rereadEntries entries = entries.map Entry.reread := by
  induction entries with
  | nil => rfl
  | cons entry rest ih => rw [rereadEntries, ih, List.map_cons]

/-! ## The same text -/

theorem Scalar.chars_reread (tag : String) (value : Scalar) :
    (value.reread tag).chars = (Element.scalar tag value).chars := by
  unfold Scalar.reread
  split
  · rfl
  · simp [Element.chars, Symbol.text, Symbol.marker, Symbol.joinParts]

theorem entryText_reread {keySeparator : Option (List Char)} {entry : Entry}
    (hkey : entry.key.reread.chars = entry.key.chars)
    (hvalue : entry.value.reread.chars = entry.value.chars) :
    entryText keySeparator entry.reread = entryText keySeparator entry := by
  obtain ⟨storageKey, key, value⟩ := entry
  dsimp only [Entry.key, Entry.value] at hkey hvalue
  cases keySeparator <;> simp only [Entry.reread, entryText, hkey, hvalue]

/-- What is read back has the same text. -/
theorem Element.chars_reread (e : Element) : e.reread.chars = e.chars := by
  induction e using Element.induction_on_parts with
  | h e ih =>
    cases e with
    | scalar tag value => exact value.chars_reread tag
    | symbol tag value => rfl
    | collection tag value =>
      rw [Element.reread, Element.chars, Element.chars]
      congr 1
      cases value with
      | ordered kind items =>
        rw [Collection.reread, Collection.chars, Collection.chars, itemTexts_eq, itemTexts_eq,
          rereadItems_eq, List.map_map]
        rw [show items.map (chars ∘ reread) = items.map chars from List.map_congr_left ih]
      | keyed kind entries =>
        have ih := (Collection.forall_mem_parts_keyed kind).1 ih
        have hentries : ∀ keySeparator, entryTexts keySeparator (rereadEntries entries) =
            entryTexts keySeparator entries := fun keySeparator => by
          rw [entryTexts_eq, entryTexts_eq, rereadEntries_eq, List.map_map]
          exact List.map_congr_left fun entry hentry =>
            entryText_reread (ih entry hentry).1 (ih entry hentry).2
        simp only [Collection.reread, Collection.chars, hentries]

theorem Element.text_reread (e : Element) : e.reread.text = e.text := by
  rw [Element.text, e.chars_reread, Element.text]

theorem Element.string?_reread (e : Element) : e.reread.string? = e.string? := by
  cases e with
  | scalar tag value =>
    cases value with
    | float x =>
      rw [Element.reread, Scalar.reread]
      split <;> rfl
    | _ => rfl
  | symbol tag value => rfl
  | collection tag value => rfl

/-- What is read back is filed under the same storage key. -/
theorem Element.storageKey_reread (e : Element) : e.reread.storageKey = e.storageKey := by
  rw [Element.storageKey, e.string?_reread, e.text_reread, Element.storageKey]

/-! ## When it is the element itself -/

theorem map_eq_self_iff {α : Type} {f : α → α} {items : List α} :
    items.map f = items ↔ ∀ item ∈ items, f item = item := by
  induction items with
  | nil => simp
  | cons item rest ih => rw [List.map_cons, List.cons.injEq, ih, List.forall_mem_cons]

theorem Scalar.reread_eq_iff (tag : String) (value : Scalar) :
    value.reread tag = .scalar tag value ↔ value.isFinite = true := by
  unfold Scalar.reread
  split <;> simp_all

theorem Entry.reread_eq_self_iff (entry : Entry) :
    entry.reread = entry ↔ entry.key.reread = entry.key ∧ entry.value.reread = entry.value := by
  obtain ⟨storageKey, key, value⟩ := entry
  simp [Entry.reread, Entry.key, Entry.value]

theorem Collection.reread_eq_self_iff (c : Collection) :
    c.reread = c ↔ ∀ part ∈ c.parts, part.reread = part := by
  cases c with
  | ordered kind items =>
    rw [reread, rereadItems_eq, Collection.ordered.injEq, map_eq_self_iff]
    exact and_iff_right rfl
  | keyed kind entries =>
    rw [reread, rereadEntries_eq, Collection.keyed.injEq, map_eq_self_iff, forall_mem_parts_keyed]
    simp only [true_and, Entry.reread_eq_self_iff]

/-- An element is read back as itself if every float in it is finite, and only then. -/
theorem Element.reread_eq_self_iff (e : Element) :
    e.reread = e ↔ e.Everywhere (·.isFinite = true) := by
  induction e using Element.induction_on_parts with
  | h e ih =>
    rw [everywhere_iff, ← forall₂_congr ih]
    cases e with
    | scalar tag value =>
      simpa [Element.reread, Element.isFinite, parts] using value.reread_eq_iff tag
    | symbol tag value => simp [Element.reread, parts, isFinite]
    | collection tag value =>
      simpa [Element.reread, parts, isFinite] using value.reread_eq_self_iff

/-! ## Collections -/

namespace Entry

theorem storageKey_reread (entry : Entry) : entry.reread.storageKey = entry.storageKey := by
  cases entry
  rfl

theorem key_reread (entry : Entry) : entry.reread.key = entry.key.reread := by
  cases entry
  rfl

theorem value_reread (entry : Entry) : entry.reread.value = entry.value.reread := by
  cases entry
  rfl

end Entry

namespace Collection

theorem kind_reread (c : Collection) : c.reread.kind = c.kind := by
  cases c <;> rfl

/-- A collection that is read back is filed in the same way. -/
theorem IsFiled.reread {c : Collection} (h : c.IsFiled) : c.reread.IsFiled := by
  cases c with
  | ordered kind items => trivial
  | keyed kind entries =>
    obtain ⟨hascending, hentries⟩ := h
    rw [Collection.reread, rereadEntries_eq]
    refine ⟨List.pairwise_map.2 (hascending.imp fun hlt => ?_), List.forall_mem_map.2 fun entry hentry => ?_⟩
    · rwa [Entry.storageKey_reread, Entry.storageKey_reread]
    · rw [Entry.storageKey_reread, Entry.key_reread, Entry.value_reread, Element.storageKey_reread]
      exact ⟨(hentries entry hentry).1, fun hset => by rw [(hentries entry hentry).2 hset]⟩

/-- The children of what is read back are the children read back. -/
theorem written_reread (c : Collection) : c.reread.written = c.written.map Element.reread := by
  cases c with
  | ordered kind items => exact rereadItems_eq items
  | keyed kind entries =>
    cases kind with
    | map =>
      rw [reread, written, written, rereadEntries_eq, List.flatMap_map, List.map_flatMap]
      simp only [Entry.key_reread, Entry.value_reread, List.map_cons, List.map_nil]
    | set =>
      show (rereadEntries entries).map Entry.value = (entries.map Entry.value).map Element.reread
      rw [rereadEntries_eq, List.map_map, List.map_map]
      exact List.map_congr_left fun entry _ => entry.value_reread

end Collection

end Edn
