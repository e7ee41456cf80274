import Edn.Proofs.Collection
import Edn.Proofs.Instant.Timestamp
import Edn.Proofs.Symbol

/-!
# Well-formed elements

The type of elements has values that no operation makes: an entry under a
storage key that is not its own, or a symbol whose parts are no names.

* `Element.IsWellFormed` says that there are none of these in an element.
* `Element.IsMade` lists the operations that make elements, and
  `Element.IsMade.isWellFormed` is the invariant that they keep.
-/

namespace Edn

/-! ## Well-formed elements -/

/-- A tag that an element can have: none, or a symbol. -/
def IsTag (tag : String) : Prop :=
  tag = "" ∨ (Symbol.read tag).toBool = true

instance (tag : String) : Decidable (IsTag tag) :=
  inferInstanceAs (Decidable (_ ∨ _))

/-- A scalar that there is.  Only instants can be malformed. -/
def Scalar.IsRegular : Scalar → Prop
  | .instant value => value.IsValid
  | _ => True

namespace Element

/-- The tag and the payload are well formed, whatever the parts are. -/
def IsRegular : Element → Prop
  | .scalar tag value => IsTag tag ∧ value.IsRegular
  | .symbol tag value => IsTag tag ∧ value.IsValid
  | .collection tag value => IsTag tag ∧ value.IsFiled

/-- The element and everything inside it are well formed. -/
def IsWellFormed (e : Element) : Prop :=
  e.Everywhere IsRegular

theorem IsRegular.tag {e : Element} (h : e.IsRegular) : IsTag e.tag := by
  cases e <;> exact h.1

theorem IsRegular.retag {e : Element} (h : e.IsRegular) {tag : String} (htag : IsTag tag) :
    (e.retag tag).IsRegular := by
  cases e <;> exact ⟨htag, h.2⟩

theorem IsWellFormed.retag {e : Element} (h : e.IsWellFormed) {tag : String} (htag : IsTag tag) :
    (e.retag tag).IsWellFormed := by
  refine .intro (h.here.retag htag) fun part hpart => h.parts part ?_
  cases e <;> exact hpart

theorem IsWellFormed.ofSymbol {s : Symbol} (h : s.IsValid) : (Element.ofSymbol s).IsWellFormed :=
  .intro ⟨.inl rfl, h⟩ (List.forall_mem_nil _)

theorem IsWellFormed.ofScalar {value : Scalar} (h : value.IsRegular) :
    (Element.ofScalar value).IsWellFormed := by
  have htag : IsTag Element.instantTag ∧ IsTag Element.uuidTag :=
    ⟨.inr (by decide), .inr (by decide)⟩
  cases value with
  | instant value => exact .intro ⟨htag.1, h⟩ (List.forall_mem_nil _)
  | uuid value => exact .intro ⟨htag.2, h⟩ (List.forall_mem_nil _)
  | _ => exact .intro ⟨.inl rfl, h⟩ (List.forall_mem_nil _)

/-! ## Tags -/

theorem dropTagMark_of_head {tag : String} (h : tag.toList.head? ≠ some '#') :
    dropTagMark tag = tag := by
  unfold dropTagMark
  split
  · next rest heq =>
    rw [heq] at h
    exact absurd rfl h
  · rfl

/-- A tag that is attached is one that elements can have. -/
theorem withTag_spec {e tagged : Element} {tag : String} (h : e.withTag tag = .ok tagged) :
    ∃ attached, tagged = e.retag attached ∧ IsTag attached ∧
      (tag.toList.head? ≠ some '#' → attached = tag) := by
  rw [withTag] at h
  split at h
  · next hempty =>
    cases h
    exact ⟨"", rfl, .inl rfl, fun _ => (String.isEmpty_iff.1 hempty).symm⟩
  · cases hread : Symbol.read (dropTagMark tag) with
    | error error =>
      rw [hread] at h
      cases h
    | ok s =>
      rw [hread] at h
      cases h
      have htext := (Symbol.isValid_of_read hread).2.2
      refine ⟨s.text, rfl, .inr ?_, fun hhead => ?_⟩
      · rw [htext, hread]
        rfl
      · rw [htext, dropTagMark_of_head hhead]

/-- A tag that elements can have is attached as it is, if it does not start with a number sign. -/
theorem withTag_eq {e : Element} {tag : String} (htag : IsTag tag)
    (hhead : tag.toList.head? ≠ some '#') : e.withTag tag = .ok (e.retag tag) := by
  rw [withTag, dropTagMark_of_head hhead]
  split
  · next hempty => rw [String.isEmpty_iff.1 hempty]
  · next hempty =>
    have hsymbol := htag.resolve_left fun h => hempty (by rw [h]; rfl)
    obtain ⟨s, hread, -, htext⟩ := Symbol.exists_of_toBool_read hsymbol
    rw [hread, ← htext]
    rfl

end Element

/-! ## Collections -/

namespace Collection

/-- The collection is filed, and its parts are well formed. -/
structure IsWellFormed (c : Collection) : Prop where
  filed : c.IsFiled
  parts : ∀ part ∈ c.parts, part.IsWellFormed

variable {c other added : Collection} {children : List Element}

theorem isWellFormed_iff {tag : String} :
    (Element.collection tag c).IsWellFormed ↔ IsTag tag ∧ c.IsWellFormed :=
  ⟨fun h => ⟨h.here.1, h.here.2, h.parts⟩, fun h => .intro ⟨h.1, h.2.filed⟩ h.2.parts⟩

theorem IsWellFormed.appended (h : c.IsWellFormed)
    (hchildren : ∀ child ∈ children, child.IsWellFormed) (hadd : c.appended children = .ok added) :
    added.IsWellFormed := by
  obtain ⟨hfiled, hparts⟩ := appended_spec h.filed hadd
  exact ⟨hfiled, fun part hpart =>
    ((hparts part).1 hpart).elim (h.parts part) (hchildren part)⟩

theorem IsWellFormed.prepended (h : c.IsWellFormed)
    (hchildren : ∀ child ∈ children, child.IsWellFormed) (hadd : c.prepended children = .ok added) :
    added.IsWellFormed := by
  cases c with
  | ordered kind items =>
    cases hadd
    exact ⟨trivial, fun part hpart =>
      (List.mem_append.1 hpart).elim (hchildren part) (h.parts part)⟩
  | keyed kind entries => exact h.appended hchildren hadd

theorem IsWellFormed.append (h : c.IsWellFormed)
    (hchildren : ∀ child ∈ children, child.IsWellFormed) : (c.append children).1.IsWellFormed :=
  assign_fst_of h fun _ => h.appended hchildren

theorem IsWellFormed.prepend (h : c.IsWellFormed)
    (hchildren : ∀ child ∈ children, child.IsWellFormed) : (c.prepend children).1.IsWellFormed :=
  assign_fst_of h fun _ => h.prepended hchildren

theorem IsWellFormed.ofElements {kind : CollectionKind}
    (hchildren : ∀ child ∈ children, child.IsWellFormed)
    (hmake : ofElements kind children = .ok c) : c.IsWellFormed := by
  obtain ⟨hfiled, hparts⟩ := ofElements_spec hmake
  exact ⟨hfiled, fun part hpart => hchildren part ((hparts part).1 hpart)⟩

/-- The keys under which children are visited are well formed too. -/
theorem IsWellFormed.of_mem_children (h : c.IsWellFormed) :
    ∀ child ∈ c.children, child.1.IsWellFormed ∧ child.2.IsWellFormed := by
  intro child hchild
  cases c with
  | ordered kind items =>
    obtain ⟨index, hindex, rfl⟩ := List.mem_mapIdx.1 hchild
    exact ⟨@Element.IsWellFormed.ofScalar (.integer _) trivial, h.parts _ (List.getElem_mem hindex)⟩
  | keyed kind entries =>
    obtain ⟨entry, hentry, rfl⟩ := List.mem_map.1 hchild
    exact ⟨h.parts _ (key_mem_parts hentry), h.parts _ (value_mem_parts hentry)⟩

theorem IsWellFormed.mergeChildren {children : List (Element × Element)} (h : c.IsWellFormed)
    (hchildren : ∀ child ∈ children, child.1.IsWellFormed ∧ child.2.IsWellFormed) :
    (c.mergeChildren children).1.IsWellFormed := by
  induction children generalizing c with
  | nil => exact h
  | cons child rest ih =>
    obtain ⟨⟨hkey, hvalue⟩, hrest⟩ := List.forall_mem_cons.1 hchildren
    have htaken : ∀ part ∈ taken c.kind child.1 child.2, part.IsWellFormed := by
      unfold taken
      split <;> simp [hkey, hvalue]
    rw [Collection.mergeChildren]
    have hleft := h.append htaken
    split
    · next happend =>
      rw [happend] at hleft
      exact ih hleft hrest
    · next happend =>
      rw [happend] at hleft
      exact hleft

theorem IsWellFormed.merge (h : c.IsWellFormed) (hother : other.IsWellFormed) :
    (c.merge other).1.IsWellFormed :=
  h.mergeChildren hother.of_mem_children

end Collection

/-! ## Elements that are made -/

/-- An element that the operations make from scalars and texts. -/
inductive Element.IsMade : Element → Prop where
  | scalar {value : Scalar} (h : value.IsRegular) : IsMade (.ofScalar value)
  | symbol {text : String} {s : Symbol} (h : Symbol.read text = .ok s) : IsMade (.ofSymbol s)
  | keyword {text : String} {s : Symbol} (h : Symbol.readKeyword text = .ok s) :
      IsMade (.ofSymbol s)
  | qualified {qualifier name : String} {s : Symbol} (h : Symbol.qualified qualifier name = .ok s) :
      IsMade (.ofSymbol s)
  | qualifiedKeyword {qualifier name : String} {s : Symbol}
      (h : Symbol.qualifiedKeyword qualifier name = .ok s) : IsMade (.ofSymbol s)
  | withTag {e tagged : Element} {tag : String} (he : IsMade e) (h : e.withTag tag = .ok tagged) :
      IsMade tagged
  | ofElements {kind : CollectionKind} {children : List Element} {c : Collection}
      (hchildren : ∀ child ∈ children, IsMade child)
      (h : Collection.ofElements kind children = .ok c) : IsMade (.ofCollection c)
  | appended {tag : String} {c added : Collection} {children : List Element}
      (hc : IsMade (.collection tag c)) (hchildren : ∀ child ∈ children, IsMade child)
      (h : c.appended children = .ok added) : IsMade (.collection tag added)
  | prepended {tag : String} {c added : Collection} {children : List Element}
      (hc : IsMade (.collection tag c)) (hchildren : ∀ child ∈ children, IsMade child)
      (h : c.prepended children = .ok added) : IsMade (.collection tag added)
  | merge {tag otherTag : String} {c other : Collection} (hc : IsMade (.collection tag c))
      (hother : IsMade (.collection otherTag other)) : IsMade (.collection tag (c.merge other).1)
  | part {e part : Element} (he : IsMade e) (h : part ∈ e.parts) : IsMade part

/-- Every operation makes well-formed elements from well-formed ones. -/
theorem Element.IsMade.isWellFormed {e : Element} (h : e.IsMade) : e.IsWellFormed := by
  induction h with
  | scalar h => exact .ofScalar h
  | symbol h => exact .ofSymbol (Symbol.isValid_of_read h).1
  | keyword h => exact .ofSymbol (Symbol.isValid_of_readKeyword h).1
  | qualified h => exact .ofSymbol (Symbol.isValid_of_qualified h).1
  | qualifiedKeyword h => exact .ofSymbol (Symbol.isValid_of_qualifiedKeyword h).1
  | withTag he h ih =>
    obtain ⟨attached, rfl, htag, -⟩ := withTag_spec h
    exact ih.retag htag
  | ofElements hchildren h ih =>
    exact Collection.isWellFormed_iff.2 ⟨.inl rfl, .ofElements ih h⟩
  | appended hc hchildren h ihc ih =>
    obtain ⟨htag, hcollection⟩ := Collection.isWellFormed_iff.1 ihc
    exact Collection.isWellFormed_iff.2 ⟨htag, hcollection.appended ih h⟩
  | prepended hc hchildren h ihc ih =>
    obtain ⟨htag, hcollection⟩ := Collection.isWellFormed_iff.1 ihc
    exact Collection.isWellFormed_iff.2 ⟨htag, hcollection.prepended ih h⟩
  | merge hc hother ihc ihother =>
    obtain ⟨htag, hcollection⟩ := Collection.isWellFormed_iff.1 ihc
    exact Collection.isWellFormed_iff.2
      ⟨htag, hcollection.merge (Collection.isWellFormed_iff.1 ihother).2⟩
  | part he h ih => exact ih.parts _ h

end Edn
