import Edn.Element.Text

/-!
# The parts of an element

A collection consists of elements: the items of an ordered one, the keys and
the values of a keyed one.

* `Element.Everywhere` says that something holds of an element and, through
  its parts, of everything inside it.  Proofs about whole elements are
  inductions on it, or on the parts (`Element.induction_on_parts`).
* `Element.depth` is the greatest number of collections inside each other.
* `itemTexts_eq` and its neighbours say that what is defined along the lists
  inside a collection is defined item by item.
* `Element.Everywhere.isWritable`: only scalars keep the program from writing
  an element.
-/

namespace Edn

/-! ## Parts -/

/-- The elements that a collection consists of. -/
def Collection.parts : Collection → List Element
  | .ordered _ items => items
  | .keyed _ entries => entries.flatMap fun entry => [entry.key, entry.value]

/-- The parts of an element; only collections have any. -/
def Element.parts : Element → List Element
  | .collection _ value => value.parts
  | _ => []

theorem Collection.mem_parts_keyed_iff {kind : KeyedKind} {entries : List Entry} {part : Element} :
    part ∈ (keyed kind entries).parts ↔ ∃ entry ∈ entries, part = entry.key ∨ part = entry.value := by
  simp [parts, List.mem_flatMap]

theorem Collection.key_mem_parts {kind : KeyedKind} {entries : List Entry} {entry : Entry}
    (h : entry ∈ entries) : entry.key ∈ (keyed kind entries).parts :=
  List.mem_flatMap.2 ⟨entry, h, List.mem_cons_self⟩

theorem Collection.value_mem_parts {kind : KeyedKind} {entries : List Entry} {entry : Entry}
    (h : entry ∈ entries) : entry.value ∈ (keyed kind entries).parts :=
  List.mem_flatMap.2 ⟨entry, h, List.mem_cons_of_mem _ List.mem_cons_self⟩

theorem Collection.forall_mem_parts_keyed (kind : KeyedKind) {entries : List Entry}
    {p : Element → Prop} :
    (∀ part ∈ (keyed kind entries).parts, p part) ↔
      ∀ entry ∈ entries, p entry.key ∧ p entry.value := by
  constructor
  · exact fun h entry hentry =>
      ⟨h _ (key_mem_parts hentry), h _ (value_mem_parts hentry)⟩
  · intro h part hpart
    obtain ⟨entry, hentry, hpart⟩ := List.mem_flatMap.1 hpart
    simp only [List.mem_cons, List.not_mem_nil, or_false] at hpart
    rcases hpart with rfl | rfl
    · exact (h entry hentry).1
    · exact (h entry hentry).2

namespace Element

/-- Something holds of an element and of everything inside it. -/
inductive Everywhere (p : Element → Prop) : Element → Prop where
  | intro {e : Element} (here : p e) (parts : ∀ part ∈ e.parts, Everywhere p part) :
      Everywhere p e

section Everywhere

variable {p q : Element → Prop} {e : Element}

theorem Everywhere.here (h : e.Everywhere p) : p e := by
  obtain ⟨here, -⟩ := h
  exact here

theorem Everywhere.parts (h : e.Everywhere p) : ∀ part ∈ e.parts, part.Everywhere p := by
  obtain ⟨-, parts⟩ := h
  exact parts

theorem everywhere_iff : e.Everywhere p ↔ p e ∧ ∀ part ∈ e.parts, part.Everywhere p :=
  ⟨fun h => ⟨h.here, h.parts⟩, fun ⟨here, parts⟩ => .intro here parts⟩

theorem Everywhere.imp (himp : ∀ e, p e → q e) (h : e.Everywhere p) : e.Everywhere q := by
  induction h with
  | intro here _ ih => exact .intro (himp _ here) ih

theorem Everywhere.and (hp : e.Everywhere p) (hq : e.Everywhere q) :
    e.Everywhere fun e => p e ∧ q e := by
  induction hp with
  | intro here _ ih => exact .intro ⟨here, hq.here⟩ fun part hpart => ih part hpart (hq.parts part hpart)

variable {tag : String}

theorem everywhere_scalar {value : Scalar} :
    (Element.scalar tag value).Everywhere p ↔ p (.scalar tag value) := by
  rw [everywhere_iff]
  exact and_iff_left (List.forall_mem_nil _)

theorem everywhere_symbol {value : Symbol} :
    (Element.symbol tag value).Everywhere p ↔ p (.symbol tag value) := by
  rw [everywhere_iff]
  exact and_iff_left (List.forall_mem_nil _)

theorem everywhere_ordered {kind : OrderedKind} {items : List Element} :
    (Element.collection tag (.ordered kind items)).Everywhere p ↔
      p (.collection tag (.ordered kind items)) ∧ ∀ item ∈ items, item.Everywhere p :=
  everywhere_iff

theorem everywhere_keyed {kind : KeyedKind} {entries : List Entry} :
    (Element.collection tag (.keyed kind entries)).Everywhere p ↔
      p (.collection tag (.keyed kind entries)) ∧
        ∀ entry ∈ entries, entry.key.Everywhere p ∧ entry.value.Everywhere p := by
  rw [everywhere_iff, parts, Collection.forall_mem_parts_keyed]

/-- What holds of an element if it holds of its parts holds of all elements. -/
theorem induction_on_parts (h : ∀ e : Element, (∀ part ∈ e.parts, p part) → p e)
    (e : Element) : p e := by
  refine @Element.rec p (fun c => ∀ part ∈ c.parts, p part)
    (fun entry => p entry.key ∧ p entry.value) (fun items => ∀ item ∈ items, p item)
    (fun entries => ∀ entry ∈ entries, p entry.key ∧ p entry.value)
    ?scalar ?symbol ?collection ?ordered ?keyed ?entry ?noItem ?item ?noEntry ?moreEntries e
  case scalar => exact fun tag value => h _ (List.forall_mem_nil _)
  case symbol => exact fun tag value => h _ (List.forall_mem_nil _)
  case collection => exact fun tag value hparts => h _ hparts
  case ordered => exact fun kind items hitems => hitems
  case keyed => exact fun kind entries hentries => (Collection.forall_mem_parts_keyed kind).2 hentries
  case entry => exact fun storageKey key value hkey hvalue => ⟨hkey, hvalue⟩
  case noItem => exact List.forall_mem_nil _
  case item => exact fun item items hitem hitems => List.forall_mem_cons.2 ⟨hitem, hitems⟩
  case noEntry => exact List.forall_mem_nil _
  case moreEntries =>
    exact fun entry entries hentry hentries => List.forall_mem_cons.2 ⟨hentry, hentries⟩

end Everywhere

end Element

/-! ## Depth -/

mutual

/-- The greatest number of collections inside each other. -/
def Element.depth : Element → Nat
  | .scalar _ _ => 0
  | .symbol _ _ => 0
  | .collection _ value => value.depth

/-- The depth of a collection, itself included. -/
def Collection.depth : Collection → Nat
  | .ordered _ items => itemsDepth items + 1
  | .keyed _ entries => entriesDepth entries + 1

/-- The greatest depth of an item. -/
def itemsDepth : List Element → Nat
  | [] => 0
  | item :: rest => max item.depth (itemsDepth rest)

/-- The greatest depth of a key or a value. -/
def entriesDepth : List Entry → Nat
  | [] => 0
  | entry :: rest => max entry.depth (entriesDepth rest)

/-- The depth of a key and its value. -/
def Entry.depth : Entry → Nat
  | ⟨_, key, value⟩ => max key.depth value.depth

end

theorem itemsDepth_le_iff {items : List Element} {n : Nat} :
    itemsDepth items ≤ n ↔ ∀ item ∈ items, item.depth ≤ n := by
  induction items with
  | nil => simp [itemsDepth]
  | cons item rest ih => rw [itemsDepth, Nat.max_le, ih, List.forall_mem_cons]

theorem entriesDepth_le_iff {entries : List Entry} {n : Nat} :
    entriesDepth entries ≤ n ↔ ∀ entry ∈ entries, entry.key.depth ≤ n ∧ entry.value.depth ≤ n := by
  induction entries with
  | nil => simp [entriesDepth]
  | cons entry rest ih =>
    obtain ⟨storageKey, key, value⟩ := entry
    rw [entriesDepth, Nat.max_le, ih, List.forall_mem_cons, Entry.depth, Nat.max_le]
    rfl

/-- A collection is one deeper than its parts. -/
theorem Collection.depth_le_iff {c : Collection} {n : Nat} :
    c.depth ≤ n + 1 ↔ ∀ part ∈ c.parts, part.depth ≤ n := by
  cases c with
  | ordered kind items => simp [depth, parts, itemsDepth_le_iff]
  | keyed kind entries =>
    rw [forall_mem_parts_keyed, depth, Nat.add_le_add_iff_right, entriesDepth_le_iff]

theorem Collection.depth_pos (c : Collection) : 0 < c.depth := by
  cases c <;> exact Nat.succ_pos _

/-! ## Texts -/

theorem itemTexts_eq (items : List Element) : itemTexts items = items.map Element.chars := by
  induction items with
  | nil => rfl
  | cons item rest ih => rw [itemTexts, ih, List.map_cons]

theorem entryTexts_eq (keySeparator : Option (List Char)) (entries : List Entry) :
    entryTexts keySeparator entries = entries.map (entryText keySeparator) := by
  induction entries with
  | nil => rfl
  | cons entry rest ih => rw [entryTexts, ih, List.map_cons]

/-! ## What can be written -/

theorem areItemsWritable_iff {items : List Element} :
    areItemsWritable items = true ↔ ∀ item ∈ items, item.isWritable = true := by
  induction items with
  | nil => simp [areItemsWritable]
  | cons item rest ih => rw [areItemsWritable, Bool.and_eq_true, ih, List.forall_mem_cons]

theorem areEntriesWritable_of_forall {keySeparator : Option (List Char)} {entries : List Entry}
    (h : ∀ entry ∈ entries, entry.key.isWritable = true ∧ entry.value.isWritable = true) :
    areEntriesWritable keySeparator entries = true := by
  induction entries with
  | nil => rfl
  | cons entry rest ih =>
    obtain ⟨storageKey, key, value⟩ := entry
    obtain ⟨⟨hkey, hvalue⟩, hrest⟩ := List.forall_mem_cons.1 h
    dsimp only [Entry.key, Entry.value] at hkey hvalue
    rw [areEntriesWritable, isEntryWritable, hkey, hvalue, ih hrest, Bool.or_true]
    rfl

/-- An element can be written if all scalars inside it can. -/
theorem Element.Everywhere.isWritable {e : Element}
    (h : e.Everywhere fun part => ∀ value ∈ part.scalar?, value.isWritable = true) :
    e.isWritable = true := by
  induction h with
  | @intro e here parts ih =>
    cases e with
    | scalar tag value => exact here value rfl
    | symbol tag value => rfl
    | collection tag value =>
      cases value with
      | ordered kind items => exact areItemsWritable_iff.2 ih
      | keyed kind entries =>
        exact areEntriesWritable_of_forall ((Collection.forall_mem_parts_keyed kind).1 ih)

end Edn
