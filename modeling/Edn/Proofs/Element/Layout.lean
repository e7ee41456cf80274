import Edn.Proofs.Collection
import Edn.Reading.Cursor

/-!
# The layout of a collection

The text of a collection consists of its delimiters and, between them, of the
texts of elements with blanks in front of them.

* `Collection.layout` lists these elements and their blanks.
* `Collection.chars_eq` says that they make up the text, and
  `Collection.written_eq` that they are the children from which the
  collection is built.
* `Collection.separated_layout`: there is a blank in front of each but the
  first.
-/

namespace Edn

/-- The text of elements, each with the blanks in front of it. -/
def layoutText (layout : List (List Char × Element)) : List Char :=
  layout.flatMap fun piece => piece.1 ++ piece.2.chars

/-- Blanks separate the elements: in front of each but the first there is at least one. -/
structure Separated (layout : List (List Char × Element)) : Prop where
  blank : ∀ piece ∈ layout, ∀ c ∈ piece.1, Cursor.isBlank c = true
  apart : ∀ piece ∈ layout.tail, piece.1 ≠ []

/-! ## Spreading out -/

/-- Items with a separator in front of each but the first. -/
def spread {α : Type} (separator : List Char) : List α → List (List Char × α)
  | [] => []
  | first :: rest => ([], first) :: rest.map fun item => (separator, item)

theorem map_spread {α : Type} (separator : List Char) (items : List α) :
    (spread separator items).map Prod.snd = items := by
  cases items with
  | nil => rfl
  | cons first rest => simp [spread, Function.comp_def]

theorem joinTexts_map {α : Type} (separator : List Char) (text : α → List Char) (items : List α) :
    joinTexts separator (items.map text) =
      (spread separator items).flatMap fun piece => piece.1 ++ text piece.2 := by
  cases items with
  | nil => rfl
  | cons first rest =>
    rw [spread, List.flatMap_cons, List.nil_append, List.map_cons]
    induction rest generalizing first with
    | nil => simp [joinTexts]
    | cons second rest ih =>
      show text first ++ separator ++ joinTexts separator (text second :: rest.map text) = _
      rw [ih, List.map_cons, List.flatMap_cons, List.append_assoc, List.append_assoc]

/-! ## Layouts -/

/-- An entry as it is written, with blanks in front of it. -/
def Entry.layout (keySeparator : Option (List Char)) (blanks : List Char) (entry : Entry) :
    List (List Char × Element) :=
  match keySeparator with
  | some separator => [(blanks, entry.key), (separator, entry.value)]
  | none => [(blanks, entry.value)]

/-- The elements between the delimiters of a collection, each with the blanks in front of it. -/
def Collection.layout : Collection → List (List Char × Element)
  | .ordered kind items => spread (CollectionKind.ordered kind).separator items
  | .keyed kind entries =>
    (spread (CollectionKind.keyed kind).separator entries).flatMap fun piece =>
      piece.2.layout (CollectionKind.keyed kind).keySeparator? piece.1

theorem layoutText_entry (keySeparator : Option (List Char)) (blanks : List Char) (entry : Entry) :
    layoutText (entry.layout keySeparator blanks) = blanks ++ entryText keySeparator entry := by
  obtain ⟨storageKey, key, value⟩ := entry
  cases keySeparator <;> simp [layoutText, Entry.layout, entryText, Entry.key, Entry.value]

/-- The text of a collection is that of its layout between its delimiters. -/
theorem Collection.chars_eq (c : Collection) :
    c.chars = c.kind.opener ++ layoutText c.layout ++ c.kind.closer := by
  cases c with
  | ordered kind items =>
    rw [chars, itemTexts_eq, joinTexts_map]
    rfl
  | keyed kind entries =>
    rw [chars, entryTexts_eq, joinTexts_map, layout, layoutText, List.flatMap_assoc]
    simp only [← layoutText_entry]
    rfl

/-- The elements of a layout are the children from which the collection is built. -/
theorem Collection.written_eq (c : Collection) : c.written = c.layout.map Prod.snd := by
  cases c with
  | ordered kind items => exact (map_spread _ items).symm
  | keyed kind entries =>
    have hentries := map_spread (CollectionKind.keyed kind).separator entries
    rw [layout, List.map_flatMap]
    cases kind with
    | map =>
      rw [written]
      nth_rewrite 1 [← hentries]
      rw [List.flatMap_map]
      rfl
    | set =>
      show entries.map Entry.value = _
      nth_rewrite 1 [← hentries]
      rw [List.map_map, List.map_eq_flatMap]
      rfl

theorem Collection.mem_parts_of_mem_layout {c : Collection} {piece : List Char × Element}
    (h : piece ∈ c.layout) : piece.2 ∈ c.parts := by
  have hwritten : piece.2 ∈ c.written := by
    rw [written_eq]
    exact List.mem_map_of_mem h
  cases c with
  | ordered kind items => exact hwritten
  | keyed kind entries =>
    cases kind with
    | map => exact hwritten
    | set =>
      obtain ⟨entry, hentry, heq⟩ := List.mem_map.1 hwritten
      rw [← heq]
      exact value_mem_parts hentry

theorem of_mem_spread {α : Type} {separator : List Char} {items : List α}
    {piece : List Char × α} (h : piece ∈ spread separator items) :
    piece.1 = [] ∨ piece.1 = separator := by
  cases items with
  | nil => cases h
  | cons first rest =>
    rcases List.mem_cons.1 h with rfl | h
    · exact .inl rfl
    · obtain ⟨item, -, rfl⟩ := List.mem_map.1 h
      exact .inr rfl

theorem of_mem_tail_spread {α : Type} {separator : List Char} {items : List α}
    {piece : List Char × α} (h : piece ∈ (spread separator items).tail) : piece.1 = separator := by
  cases items with
  | nil => cases h
  | cons first rest =>
    obtain ⟨item, -, rfl⟩ := List.mem_map.1 h
    rfl

section EntryLayout

variable {keySeparator : Option (List Char)} {blanks : List Char} {entry : Entry}
  {piece : List Char × Element}

theorem Entry.of_mem_layout (h : piece ∈ entry.layout keySeparator blanks) :
    piece.1 = blanks ∨ keySeparator = some piece.1 := by
  cases keySeparator with
  | none =>
    rw [List.mem_singleton.1 h]
    exact .inl rfl
  | some separator =>
    rcases List.mem_cons.1 h with rfl | h
    · exact .inl rfl
    · rw [List.mem_singleton.1 h]
      exact .inr rfl

theorem Entry.of_mem_tail_layout (h : piece ∈ (entry.layout keySeparator blanks).tail) :
    keySeparator = some piece.1 := by
  cases keySeparator with
  | none => cases h
  | some separator =>
    rw [List.mem_singleton.1 h]

theorem Entry.tail_layout_append (rest : List (List Char × Element)) :
    (entry.layout keySeparator blanks ++ rest).tail =
      (entry.layout keySeparator blanks).tail ++ rest := by
  cases keySeparator <;> rfl

end EntryLayout

/-- Separators consist of blanks, and there is at least one. -/
theorem CollectionKind.separator_blank (kind : CollectionKind) :
    (∀ c ∈ kind.separator, Cursor.isBlank c = true) ∧ kind.separator ≠ [] := by
  cases kind <;> rename_i kind <;> cases kind <;> exact ⟨List.all_eq_true.1 rfl, List.cons_ne_nil _ _⟩

theorem CollectionKind.keySeparator_blank {kind : CollectionKind} {separator : List Char}
    (h : kind.keySeparator? = some separator) :
    (∀ c ∈ separator, Cursor.isBlank c = true) ∧ separator ≠ [] := by
  cases kind <;> rename_i kind <;> cases kind <;> cases h
  exact ⟨List.all_eq_true.1 rfl, List.cons_ne_nil _ _⟩

/-- In front of an element there is nothing, or one of the two separators. -/
theorem Collection.of_mem_layout {c : Collection} {piece : List Char × Element}
    (h : piece ∈ c.layout) :
    piece.1 = [] ∨ piece.1 = c.kind.separator ∨ c.kind.keySeparator? = some piece.1 := by
  cases c with
  | ordered kind items => exact (of_mem_spread h).imp_right .inl
  | keyed kind entries =>
    obtain ⟨⟨blanks, entry⟩, hentry, hpiece⟩ := List.mem_flatMap.1 h
    rcases Entry.of_mem_layout hpiece with heq | heq
    · rw [heq]
      exact (of_mem_spread hentry).imp_right .inl
    · exact .inr (.inr heq)

/-- Blanks separate the elements of a layout. -/
theorem Collection.separated_layout (c : Collection) : Separated c.layout := by
  have hblanks : ∀ piece ∈ c.layout, ∀ d ∈ piece.1, Cursor.isBlank d = true := by
    intro piece hpiece d hd
    rcases of_mem_layout hpiece with heq | heq | heq
    · rw [heq] at hd
      cases hd
    · rw [heq] at hd
      exact c.kind.separator_blank.1 d hd
    · exact (CollectionKind.keySeparator_blank heq).1 d hd
  refine ⟨hblanks, ?_⟩
  cases c with
  | ordered kind items =>
    intro piece hpiece
    exact of_mem_tail_spread hpiece ▸ (CollectionKind.ordered kind).separator_blank.2
  | keyed kind entries =>
    have hne := (CollectionKind.keyed kind).separator_blank.2
    intro piece hpiece
    cases entries with
    | nil => cases hpiece
    | cons first rest =>
      rw [layout, spread, List.flatMap_cons, Entry.tail_layout_append, List.mem_append] at hpiece
      rcases hpiece with hpiece | hpiece
      · exact (CollectionKind.keySeparator_blank (Entry.of_mem_tail_layout hpiece)).2
      · obtain ⟨⟨blanks, entry⟩, hentry, hpiece⟩ := List.mem_flatMap.1 hpiece
        obtain ⟨item, -, hitem⟩ := List.mem_map.1 hentry
        cases hitem
        rcases Entry.of_mem_layout hpiece with heq | heq
        · exact heq ▸ hne
        · exact (CollectionKind.keySeparator_blank heq).2

end Edn
