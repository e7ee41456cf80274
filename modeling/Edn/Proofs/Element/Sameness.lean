import Edn.Proofs.Element.Reread
import Edn.Proofs.Element.Validity
import Mathlib.Data.List.Sort

/-!
# What counts as the same

Two keyed collections are the same when their values are, storage key by
storage key.  So the equality of elements looks at the items, the members and
the values inside an element, but at the keys of maps only through their
storage keys.

* `Element.AmongValues` says that something holds wherever equality looks.
* `sameItems_iff` and `Collection.same_keyed_iff` compare collections piece by
  piece, and `Element.same_self` says that everything is the same as itself.
* `Element.same_reread_iff`: an element that is read back counts as the same
  if every float among the values is finite, and only then.
-/

namespace Edn

/-! ## Values -/

/-- The values of an element: its items, its members, or the values of its entries. -/
def Element.values : Element → List Element
  | .collection _ value => value.values
  | _ => []

/-- Something holds of an element and, through its values, of everything that equality compares. -/
inductive Element.AmongValues (p : Element → Prop) : Element → Prop where
  | intro {e : Element} (here : p e) (values : ∀ value ∈ e.values, AmongValues p value) :
      AmongValues p e

theorem Element.amongValues_iff {p : Element → Prop} {e : Element} :
    e.AmongValues p ↔ p e ∧ ∀ value ∈ e.values, value.AmongValues p :=
  ⟨fun ⟨here, values⟩ => ⟨here, values⟩, fun ⟨here, values⟩ => .intro here values⟩

theorem Element.mem_parts_of_mem_values {e value : Element} (h : value ∈ e.values) :
    value ∈ e.parts := by
  match e, h with
  | .collection _ (.ordered _ _), h => exact h
  | .collection _ (.keyed kind entries), h =>
    obtain ⟨entry, hentry, rfl⟩ := List.mem_map.1 h
    exact @Collection.value_mem_parts kind entries entry hentry

theorem Element.Everywhere.amongValues {p : Element → Prop} {e : Element} (h : e.Everywhere p) :
    e.AmongValues p := by
  induction h with
  | intro here _ ih => exact .intro here fun value hvalue => ih value (mem_parts_of_mem_values hvalue)

/-! ## Piece by piece -/

section Pieces

variable {α : Type} {R S : α → α → Prop} {items others : List α}

/-- A relation between the items of two lists is shown with the items at hand. -/
theorem forall₂_of_mem (h : List.Forall₂ R items others)
    (himp : ∀ a ∈ items, ∀ b ∈ others, R a b → S a b) : List.Forall₂ S items others :=
  List.forall₂_iff_zip.2 ⟨h.length_eq, fun hzip =>
    himp _ (List.of_mem_zip hzip).1 _ (List.of_mem_zip hzip).2 (List.forall₂_zip h hzip)⟩

theorem exists_mem_of_forall₂ (h : List.Forall₂ R items others) {a : α} (ha : a ∈ items) :
    ∃ b ∈ others, R a b := by
  induction h with
  | nil => cases ha
  | @cons first other rest others hfirst hrest ih =>
    rcases List.mem_cons.1 ha with rfl | ha
    · exact ⟨other, List.mem_cons_self, hfirst⟩
    · obtain ⟨b, hb, hab⟩ := ih ha
      exact ⟨b, List.mem_cons_of_mem _ hb, hab⟩

theorem forall₂_map_eq_iff {β : Type} {f : α → β} :
    List.Forall₂ (fun a b => f a = f b) items others ↔ items.map f = others.map f := by
  rw [← List.forall₂_eq_eq_eq, List.forall₂_map_left_iff, List.forall₂_map_right_iff]

end Pieces

attribute [local simp] Element.same Collection.same sameItems filedIn sameValueIn

/-- Items are compared one by one. -/
theorem sameItems_iff {items others : List Element} :
    sameItems items others = true ↔
      List.Forall₂ (fun item other => item.same other = true) items others := by
  induction items generalizing others with
  | nil => cases others <;> simp
  | cons item rest ih => cases others <;> simp [ih]

section Entries

variable {entries others : List Entry}

theorem filedIn_iff :
    filedIn others entries = true ↔ ∀ entry ∈ entries, sameValueIn others entry = true := by
  induction entries with
  | nil => simp
  | cons entry rest ih => rw [filedIn, Bool.and_eq_true, ih, List.forall_mem_cons]

/-- The value of an entry is compared with the one that is filed under the same storage key. -/
theorem sameValueIn_eq (h : Ascending others) {entry other : Entry} (hother : other ∈ others)
    (hkey : entry.storageKey = other.storageKey) :
    sameValueIn others entry = entry.value.same other.value := by
  obtain ⟨storageKey, key, value⟩ := entry
  rw [sameValueIn, show storageKey = other.storageKey from hkey, findEntry?_of_mem h hother]
  rfl

theorem exists_of_sameValueIn {entry : Entry} (h : sameValueIn others entry = true) :
    ∃ other ∈ others, entry.storageKey = other.storageKey := by
  obtain ⟨storageKey, key, value⟩ := entry
  rw [sameValueIn] at h
  split at h
  · next other hfind =>
    have hkey := List.find?_some hfind
    exact ⟨other, List.mem_of_find?_eq_some hfind, (beq_iff_eq.1 hkey).symm⟩
  · cases h

/-- As many entries under storage keys of the others are under the same storage keys, in the same
order. -/
theorem storageKeys_eq (h : Ascending entries) (hothers : Ascending others)
    (hlength : entries.length = others.length)
    (hfiled : ∀ entry ∈ entries, sameValueIn others entry = true) :
    entries.map Entry.storageKey = others.map Entry.storageKey := by
  have hkeys : (entries.map Entry.storageKey).Pairwise (· < ·) := List.pairwise_map.2 h
  have hotherKeys : (others.map Entry.storageKey).Pairwise (· < ·) := List.pairwise_map.2 hothers
  have hsub : entries.map Entry.storageKey ⊆ others.map Entry.storageKey := by
    intro key hkey
    obtain ⟨entry, hentry, rfl⟩ := List.mem_map.1 hkey
    obtain ⟨other, hother, heq⟩ := exists_of_sameValueIn (hfiled entry hentry)
    exact List.mem_map.2 ⟨other, hother, heq.symm⟩
  have hperm := (List.subperm_of_subset hkeys.nodup hsub).perm_of_length_le (by simp [hlength])
  exact hperm.eq_of_pairwise' hkeys hotherKeys

/-- Entries of keyed collections are compared one by one: both the storage keys and the values. -/
theorem Collection.same_keyed_iff {kind : KeyedKind} (h : Ascending entries)
    (hothers : Ascending others) :
    (keyed kind entries).same (keyed kind others) = true ↔
      List.Forall₂ (fun entry other => entry.storageKey = other.storageKey ∧
        entry.value.same other.value = true) entries others := by
  rw [Collection.same, decide_eq_true rfl, Bool.true_and, Bool.and_eq_true, beq_iff_eq, filedIn_iff]
  constructor
  · rintro ⟨hlength, hfiled⟩
    have hkeys := forall₂_map_eq_iff.2 (storageKeys_eq h hothers hlength hfiled)
    refine forall₂_of_mem hkeys fun entry hentry other hother hkey => ⟨hkey, ?_⟩
    rw [← sameValueIn_eq hothers hother hkey]
    exact hfiled entry hentry
  · intro hpairs
    refine ⟨hpairs.length_eq, fun entry hentry => ?_⟩
    obtain ⟨other, hother, hkey, hvalue⟩ := exists_mem_of_forall₂ hpairs hentry
    rw [sameValueIn_eq hothers hother hkey, hvalue]

end Entries

/-! ## What is the same -/

section Same

variable {tag : String} {b : Element} {d : Collection}

theorem Scalar.eq_of_same {value other : Scalar} (h : value.same other = true)
    (htype : value.type ≠ .instant) : other = value := by
  cases value with
  | instant t => exact absurd rfl htype
  | _ => exact (of_decide_eq_true h).symm

theorem Element.exists_of_same_scalar {value : Scalar} (h : (scalar tag value).same b = true) :
    ∃ other, b = .scalar tag other ∧ value.same other = true := by
  cases b with
  | scalar otherTag other =>
    rw [Element.same, Bool.and_eq_true, beq_iff_eq] at h
    exact ⟨other, by rw [h.1], h.2⟩
  | _ => cases h

theorem Element.eq_of_same_symbol {value : Symbol} (h : (symbol tag value).same b = true) :
    b = .symbol tag value := by
  cases b with
  | symbol otherTag other =>
    rw [Element.same, Bool.and_eq_true, beq_iff_eq, decide_eq_true_iff] at h
    rw [h.1, h.2]
  | _ => cases h

theorem Element.exists_of_same_collection {c : Collection} (h : (collection tag c).same b = true) :
    ∃ d, b = .collection tag d ∧ c.same d = true := by
  cases b with
  | collection otherTag d =>
    rw [Element.same, Bool.and_eq_true, beq_iff_eq] at h
    exact ⟨d, by rw [h.1], h.2⟩
  | _ => cases h

theorem Collection.exists_of_same_ordered {kind : OrderedKind} {items : List Element}
    (h : (ordered kind items).same d = true) :
    ∃ others, d = .ordered kind others ∧
      List.Forall₂ (fun item other => item.same other = true) items others := by
  cases d with
  | ordered otherKind others =>
    rw [Collection.same, Bool.and_eq_true, decide_eq_true_iff, sameItems_iff] at h
    exact ⟨others, by rw [h.1], h.2⟩
  | keyed otherKind entries => cases h

theorem Collection.exists_of_same_keyed {kind : KeyedKind} {entries : List Entry}
    (h : (keyed kind entries).same d = true) : ∃ others, d = .keyed kind others := by
  cases d with
  | ordered otherKind items => cases h
  | keyed otherKind others =>
    rw [Collection.same, Bool.and_assoc, Bool.and_eq_true, decide_eq_true_iff] at h
    exact ⟨others, by rw [h.1]⟩

end Same

theorem Scalar.same_self (value : Scalar) : value.same value = true := by
  cases value <;> simp [Scalar.same, Instant.sameMoment]

/-- Everything is the same as itself. -/
theorem Element.same_self {e : Element} (h : e.IsWellFormed) : e.same e = true := by
  induction h with
  | @intro e here parts ih =>
    cases e with
    | scalar tag value => rw [Element.same, beq_self_eq_true, value.same_self, Bool.and_self]
    | symbol tag value => rw [Element.same, beq_self_eq_true, decide_eq_true rfl, Bool.and_self]
    | collection tag value =>
      rw [Element.same, beq_self_eq_true, Bool.true_and]
      cases value with
      | ordered kind items =>
        rw [Collection.same, decide_eq_true rfl, Bool.true_and, sameItems_iff, List.forall₂_same]
        exact ih
      | keyed kind entries =>
        rw [Collection.same_keyed_iff here.2.1 here.2.1, List.forall₂_same]
        exact fun entry hentry => ⟨rfl, ih _ (@Collection.value_mem_parts kind _ _ hentry)⟩

/-! ## What is read back -/

theorem Scalar.same_reread (tag : String) (value : Scalar) :
    (value.reread tag).same (.scalar tag value) = value.isFinite := by
  unfold Scalar.reread
  split
  · next hfinite => rw [Element.same, beq_self_eq_true, value.same_self, hfinite, Bool.and_self]
  · next hfinite =>
    rw [Bool.eq_false_iff.2 hfinite]
    rfl

/-- A collection that is read back is the same if its values are. -/
theorem Collection.same_reread_iff {c : Collection} (h : c.IsFiled) :
    c.reread.same c = true ↔ ∀ value ∈ c.values, value.reread.same value = true := by
  cases c with
  | ordered kind items =>
    rw [reread, Collection.same, rereadItems_eq, decide_eq_true rfl, Bool.true_and, sameItems_iff,
      List.forall₂_map_left_iff, List.forall₂_same]
    rfl
  | keyed kind entries =>
    have hreread := h.reread
    rw [reread, rereadEntries_eq] at hreread ⊢
    rw [same_keyed_iff hreread.1 h.1, List.forall₂_map_left_iff, List.forall₂_same, values,
      List.forall_mem_map]
    exact forall₂_congr fun entry _ => by
      rw [entry.storageKey_reread, entry.value_reread, and_iff_right rfl]

/-- An element that is read back counts as the same if every float among its values is finite, and
only then. -/
theorem Element.same_reread_iff {e : Element} (h : e.IsWellFormed) :
    e.reread.same e = true ↔ e.AmongValues (·.isFinite = true) := by
  induction h with
  | @intro e here parts ih =>
    rw [amongValues_iff, ← forall₂_congr fun value hvalue => ih value (mem_parts_of_mem_values hvalue)]
    cases e with
    | scalar tag value =>
      have hvalues : ∀ part ∈ (scalar tag value).values, part.reread.same part = true :=
        List.forall_mem_nil _
      rw [and_iff_left hvalues]
      exact Bool.eq_iff_iff.1 (value.same_reread tag)
    | symbol tag value => simp [reread, isFinite, values]
    | collection tag value =>
      rw [reread, Element.same, beq_self_eq_true, Bool.true_and, Collection.same_reread_iff here.2]
      exact (and_iff_right rfl).symm

end Edn
