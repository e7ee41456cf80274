import Edn.Proofs.Element.Sameness
import Edn.Proofs.Representation

/-!
# Equal elements

Equality looks the entries of one keyed collection up in the other, and not
the other way round.  It is an equivalence relation nevertheless, because the
storage keys of a collection that is filed are all different.

* `Collection.same_iff`: collections are the same if their kinds and their
  storage keys are, and their values one by one.
* `Scalar.same_iff` compares scalars through a representative: an instant
  stands for its moment.
* `Element.same_symm` and `Element.same_trans` are inductions on the element,
  with the two lemmas above in each step.
* `same_equivalence` is the result.
-/

namespace Edn

/-! ## Scalars -/

/-- The scalar that stands for all that are the same: an instant is noted in UTC. -/
def Scalar.representative : Scalar → Scalar
  | .instant value => .instant value.toUtc
  | value => value

/-- Scalars are the same if they have one representative. -/
theorem Scalar.same_iff {a b : Scalar} :
    a.same b = true ↔ a.representative = b.representative := by
  cases a <;> cases b <;>
    simp [Scalar.same, Scalar.representative, Instant.sameMoment, Instant.toUtc]

/-! ## Collections -/

/-- Collections that are filed are the same if they have one kind and the same storage keys in the
same order, and their values are the same one by one. -/
theorem Collection.same_iff {c d : Collection} (hc : c.IsFiled) (hd : d.IsFiled) :
    c.same d = true ↔ c.kind = d.kind ∧
      c.entries.map Entry.storageKey = d.entries.map Entry.storageKey ∧
        List.Forall₂ (fun a b => a.same b = true) c.values d.values := by
  cases c with
  | ordered kind items =>
    cases d with
    | ordered otherKind others =>
      rw [Collection.same, Bool.and_eq_true, decide_eq_true_iff, sameItems_iff]
      simp [Collection.kind, entries, values]
    | keyed otherKind others => simp [Collection.same, Collection.kind]
  | keyed kind entries =>
    cases d with
    | ordered otherKind others => simp [Collection.same, Collection.kind]
    | keyed otherKind others =>
      by_cases hkind : kind = otherKind
      · subst hkind
        rw [same_keyed_iff hc.1 hd.1, values, values, List.forall₂_map_left_iff,
          List.forall₂_map_right_iff, ← forall₂_map_eq_iff]
        refine Iff.trans ?_ (and_iff_right rfl).symm
        constructor
        · exact fun h => ⟨h.imp fun _ _ h => h.1, h.imp fun _ _ h => h.2⟩
        · rintro ⟨hkeys, hvalues⟩
          exact List.Forall₂.mp (fun _ _ hkey hvalue => ⟨hkey, hvalue⟩) hkeys hvalues
      · simp [Collection.same, Collection.kind, hkind]

/-! ## Lists -/

section Lists

variable {α : Type} {R : α → α → Prop} {items others more : List α}

theorem forall₂_symm_of_mem (h : List.Forall₂ R items others)
    (hsymm : ∀ a ∈ items, ∀ b ∈ others, R a b → R b a) : List.Forall₂ R others items :=
  (forall₂_of_mem h hsymm).flip

theorem forall₂_trans_of_mem (h : List.Forall₂ R items others) (hmore : List.Forall₂ R others more)
    (htrans : ∀ a ∈ items, ∀ b ∈ others, ∀ c ∈ more, R a b → R b c → R a c) :
    List.Forall₂ R items more := by
  induction h generalizing more with
  | nil => exact hmore
  | cons hfirst hrest ih =>
    cases hmore with
    | cons hnext hmore =>
      have hhead := htrans _ List.mem_cons_self _ List.mem_cons_self _ List.mem_cons_self hfirst hnext
      refine .cons hhead (ih hmore fun a ha b hb c hc => ?_)
      exact htrans a (List.mem_cons_of_mem _ ha) b (List.mem_cons_of_mem _ hb) c
        (List.mem_cons_of_mem _ hc)

end Lists

/-! ## Elements -/

namespace Element

variable {a b c : Element}

theorem same_collection_iff {tag otherTag : String} {c d : Collection} :
    (collection tag c).same (collection otherTag d) = true ↔ tag = otherTag ∧ c.same d = true := by
  rw [Element.same, Bool.and_eq_true, beq_iff_eq]

theorem same_scalar_iff {tag otherTag : String} {value other : Scalar} :
    (scalar tag value).same (scalar otherTag other) = true ↔
      tag = otherTag ∧ value.representative = other.representative := by
  rw [Element.same, Bool.and_eq_true, beq_iff_eq, Scalar.same_iff]

/-- Equality does not depend on the order of the two elements. -/
theorem same_symm (ha : a.IsWellFormed) (hb : b.IsWellFormed) (h : a.same b = true) :
    b.same a = true := by
  induction ha generalizing b with
  | @intro a here parts ih =>
    cases a with
    | scalar tag value =>
      obtain ⟨other, rfl, -⟩ := exists_of_same_scalar h
      obtain ⟨-, hvalue⟩ := same_scalar_iff.1 h
      exact same_scalar_iff.2 ⟨rfl, hvalue.symm⟩
    | symbol tag value =>
      obtain rfl := eq_of_same_symbol h
      exact h
    | collection tag c =>
      obtain ⟨d, rfl, hsame⟩ := exists_of_same_collection h
      obtain ⟨hkind, hkeys, hvalues⟩ := (Collection.same_iff here.2 hb.here.2).1 hsame
      refine same_collection_iff.2 ⟨rfl, (Collection.same_iff hb.here.2 here.2).2
        ⟨hkind.symm, hkeys.symm, forall₂_symm_of_mem hvalues fun value hvalue other hother => ?_⟩⟩
      exact ih value (mem_parts_of_mem_values (e := .collection tag c) hvalue)
        (hb.parts other (mem_parts_of_mem_values (e := .collection tag d) hother))

/-- Equality carries over from one element to the next. -/
theorem same_trans (ha : a.IsWellFormed) (hb : b.IsWellFormed) (hc : c.IsWellFormed)
    (h : a.same b = true) (h' : b.same c = true) : a.same c = true := by
  induction ha generalizing b c with
  | @intro a here parts ih =>
    cases a with
    | scalar tag value =>
      obtain ⟨other, rfl, -⟩ := exists_of_same_scalar h
      obtain ⟨more, rfl, -⟩ := exists_of_same_scalar h'
      obtain ⟨-, hvalue⟩ := same_scalar_iff.1 h
      obtain ⟨-, hother⟩ := same_scalar_iff.1 h'
      exact same_scalar_iff.2 ⟨rfl, hvalue.trans hother⟩
    | symbol tag value =>
      obtain rfl := eq_of_same_symbol h
      exact h'
    | collection tag d =>
      obtain ⟨other, rfl, hsame⟩ := exists_of_same_collection h
      obtain ⟨more, rfl, hsame'⟩ := exists_of_same_collection h'
      obtain ⟨hkind, hkeys, hvalues⟩ := (Collection.same_iff here.2 hb.here.2).1 hsame
      obtain ⟨hkind', hkeys', hvalues'⟩ := (Collection.same_iff hb.here.2 hc.here.2).1 hsame'
      refine same_collection_iff.2 ⟨rfl, (Collection.same_iff here.2 hc.here.2).2
        ⟨hkind.trans hkind', hkeys.trans hkeys',
          forall₂_trans_of_mem hvalues hvalues' fun first hfirst second hsecond third hthird => ?_⟩⟩
      exact ih first (mem_parts_of_mem_values (e := .collection tag d) hfirst)
        (hb.parts second (mem_parts_of_mem_values (e := .collection tag other) hsecond))
        (hc.parts third (mem_parts_of_mem_values (e := .collection tag more) hthird))

end Element

/-- A collection is the same as itself. -/
theorem Collection.IsWellFormed.same_self {c : Collection} (h : c.IsWellFormed) :
    c.same c = true :=
  (Element.same_collection_iff.1 (Element.same_self (isWellFormed_iff.2 ⟨.inl rfl, h⟩))).2

/-- Equality is an equivalence relation on all elements that runs leave behind. -/
theorem same_equivalence :
    Equivalence fun a b : { e : Element // e.IsReachable } => a.val.same b.val = true where
  refl a := Element.same_self (Element.isReachable_iff.1 a.property)
  symm {a b} := Element.same_symm (Element.isReachable_iff.1 a.property)
    (Element.isReachable_iff.1 b.property)
  trans {a b c} := Element.same_trans (Element.isReachable_iff.1 a.property)
    (Element.isReachable_iff.1 b.property) (Element.isReachable_iff.1 c.property)

/-- One moment at two offsets. -/
example : (Element.instant ⟨0, 0, 0⟩).same (.instant ⟨0, 0, 3600⟩) = true := by decide

end Edn
