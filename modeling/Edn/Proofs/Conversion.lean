import Edn.Native.Registry
import Edn.Proofs.Symbol
import Mathlib.Data.List.Forall2

/-!
# The conversion of native values

A native value is classified, and the factory of its type builds the element.
The classes, the table of factories and the values that each factory takes
fit together: nothing but an ill-formed keyword is refused.

* `Native.Becomes` says which element a native value turns into, without
  classes and factories.
* `Native.becomes_or_isBadKeyword`: every native value turns into an element,
  or is a string that starts with a colon and is no keyword.
* `Collection.ofNatives_of_converts` and `Collection.ofNatives_of_refuses`:
  children are converted from left to right, all of them before the
  collection is built, and the first one that is refused decides.
* `conversion_closed` puts both together.
* `TypeRegistry.newElement_of_registrations`: none of this changes when
  factories are added to the standard ones.
-/

namespace Edn

/-! ## Single values -/

namespace Native

/-- The element that a native value turns into. -/
inductive Becomes : Native → Element → Prop where
  | nil : Becomes .nil .nil
  | boolean (value : Bool) : Becomes (.boolean value) (.boolean value)
  | integer (value : Int64) : Becomes (.integer value) (.integer value)
  | float (value : Decimal.Double) : Becomes (.float value) (.float value)
  | character (value : Char) : Becomes (.character value) (.character value)
  | instant (value : Instant) : Becomes (.instant value) (.instant value)
  | uuid (value : Uuid) : Becomes (.uuid value) (.uuid value)
  | nilText : Becomes (.string Scalar.nilText) .nil
  | keyword {text : String} {s : Symbol} (hcolon : text.toList.head? = some ':')
      (hread : Symbol.readKeyword text = .ok s) : Becomes (.string text) (.ofSymbol s)
  | string {text : String} (hnil : text ≠ Scalar.nilText) (hcolon : text.toList.head? ≠ some ':') :
      Becomes (.string text) (.string text)

/-- A string that starts with a colon and is no keyword. -/
def IsBadKeyword : Native → Prop
  | .string text => text.toList.head? = some ':' ∧ ∃ error, Symbol.readKeyword text = .error error
  | _ => False

/-- A text that is refused as a keyword is refused as an invalid keyword. -/
theorem exists_of_readKeyword_eq_error {text : String} {error : Error}
    (h : Symbol.readKeyword text = .error error) :
    ∃ details, error = .ofCause (.invalidKeyword details) := by
  unfold Symbol.readKeyword Symbol.ofParts at h
  dsimp only at h
  split at h
  · cases h
    exact ⟨text, rfl⟩
  · split at h
    · cases h
    · next details _ =>
      cases h
      exact ⟨details, rfl⟩

section Strings

variable {text : String}

theorem ne_nilText_of_colon (hcolon : text.toList.head? = some ':') : text ≠ Scalar.nilText := by
  intro heq
  rw [heq] at hcolon
  cases hcolon

/-- A string that starts with a colon is classified as a keyword. -/
theorem stereotype_of_colon (hcolon : text.toList.head? = some ':') :
    stereotype (.string text) = .ok (.string text, .keyword) := by
  simp only [stereotype, if_neg (ne_nilText_of_colon hcolon), if_pos hcolon]

/-- A string that starts with a colon is read as a keyword. -/
theorem ofNative_of_colon (hcolon : text.toList.head? = some ':') :
    Element.ofNative (.string text) = Element.readKeyword text := by
  show TypeRegistry.standard.build (.string text) = _
  rw [TypeRegistry.build, stereotype_of_colon hcolon]
  rfl

end Strings

variable {v : Native} {e : Element}

/-- A native value is classified as the type of the element that it turns into. -/
theorem Becomes.exists_stereotype (h : v.Becomes e) :
    ∃ normalized, v.stereotype = .ok (normalized, e.type) := by
  cases h with
  | nilText => exact ⟨.nil, rfl⟩
  | @keyword text s hcolon hread =>
    refine ⟨.string text, ?_⟩
    have hkeyword := (Symbol.isValid_of_readKeyword hread).2
    rw [stereotype_of_colon hcolon, Element.ofSymbol, Element.type, if_pos hkeyword]
  | @string text hnil hcolon =>
    refine ⟨.string text, ?_⟩
    simp only [stereotype, if_neg hnil, if_neg hcolon]
    rfl
  | _ => exact ⟨_, rfl⟩

/-- The standard factories build the element that a native value turns into. -/
theorem Becomes.ofNative_eq (h : v.Becomes e) : Element.ofNative v = .ok e := by
  cases h with
  | keyword hcolon hread => rw [ofNative_of_colon hcolon, Element.readKeyword, hread]; rfl
  | @string text hnil hcolon =>
    show TypeRegistry.standard.build (.string text) = _
    simp only [TypeRegistry.build, stereotype, if_neg hnil, if_neg hcolon]
    rfl
  | _ => rfl

/-- A string that starts with a colon and is no keyword is refused as an invalid keyword. -/
theorem IsBadKeyword.exists_error (h : v.IsBadKeyword) :
    ∃ details, Element.ofNative v = .error (.ofCause (.invalidKeyword details)) ∧
      v.stereotype = .ok (v, .keyword) := by
  cases v with
  | string text =>
    obtain ⟨hcolon, error, hread⟩ := h
    obtain ⟨details, rfl⟩ := exists_of_readKeyword_eq_error hread
    refine ⟨details, ?_, stereotype_of_colon hcolon⟩
    rw [ofNative_of_colon hcolon, Element.readKeyword, hread]
    rfl
  | _ => exact h.elim

/-- Every native value but an element turns into an element, or is a bad keyword. -/
theorem becomes_or_isBadKeyword (h : ∀ e, v ≠ .element e) : (∃ e, v.Becomes e) ∨ v.IsBadKeyword := by
  cases v with
  | element e => exact absurd rfl (h e)
  | nil => exact .inl ⟨_, .nil⟩
  | boolean value => exact .inl ⟨_, .boolean value⟩
  | integer value => exact .inl ⟨_, .integer value⟩
  | float value => exact .inl ⟨_, .float value⟩
  | character value => exact .inl ⟨_, .character value⟩
  | instant value => exact .inl ⟨_, .instant value⟩
  | uuid value => exact .inl ⟨_, .uuid value⟩
  | string text =>
    by_cases hcolon : text.toList.head? = some ':'
    · cases hread : Symbol.readKeyword text with
      | ok s => exact .inl ⟨_, .keyword hcolon hread⟩
      | error error => exact .inr ⟨hcolon, error, hread⟩
    · by_cases hnil : text = Scalar.nilText
      · rw [hnil]
        exact .inl ⟨_, .nilText⟩
      · exact .inl ⟨_, .string hnil hcolon⟩

/-- No native value turns into an element and is refused. -/
theorem Becomes.not_isBadKeyword (h : v.Becomes e) : ¬v.IsBadKeyword := by
  intro hbad
  obtain ⟨details, herror, -⟩ := hbad.exists_error
  rw [h.ofNative_eq] at herror
  cases herror

end Native

/-! ## Children -/

/-- A native child is there, and is converted to an element. -/
inductive ConvertsTo : Option Native → Element → Prop where
  | intro {v : Native} {e : Element} (h : Element.ofNative v = .ok e) : ConvertsTo (some v) e

/-- A native child cannot be taken into a collection: the one numbered `index` is absent, or is
refused on its own. -/
inductive RefusesChild (kind : CollectionKind) (index : Nat) : Option Native → Error → Prop where
  | absent : RefusesChild kind index none
      (.invalidElement (kind.type.name ++ s!" child {index} is absent"))
  | refused {v : Native} {error : Error} (h : Element.ofNative v = .error error) :
      RefusesChild kind index (some v) error

namespace Collection

variable {kind : CollectionKind} {children before after : List (Option Native)}
  {elements : List Element} {bad : Option Native} {error : Error} {index : Nat}

theorem nativeChildren_of_converts (h : List.Forall₂ ConvertsTo children elements) :
    nativeChildren kind index children = .ok elements := by
  induction h generalizing index with
  | nil => rfl
  | cons hfirst _ ih =>
    obtain ⟨hfirst⟩ := hfirst
    rw [nativeChildren, hfirst, ih]
    rfl

/-- The first child that is refused decides.  The children behind it are not looked at. -/
theorem nativeChildren_of_refuses (hbefore : ∀ child ∈ before, ∃ e, ConvertsTo child e)
    (hbad : RefusesChild kind (index + before.length) bad error) :
    nativeChildren kind index (before ++ bad :: after) = .error error := by
  induction before generalizing index with
  | nil =>
    cases hbad with
    | absent => rfl
    | refused h =>
      rw [List.nil_append, nativeChildren, h]
      rfl
  | cons first before ih =>
    obtain ⟨⟨e, hfirst⟩, hothers⟩ := List.forall_mem_cons.1 hbefore
    obtain ⟨hfirst⟩ := hfirst
    have hrest : nativeChildren kind (index + 1) (before ++ bad :: after) = .error error := by
      apply ih hothers
      rwa [List.length_cons, Nat.add_comm before.length, ← Nat.add_assoc] at hbad
    rw [List.cons_append, nativeChildren, hfirst, hrest]
    rfl

/-- Children that are not all converted have a first one that is refused. -/
theorem exists_refuses (kind : CollectionKind) (children : List (Option Native)) :
    (∃ elements, List.Forall₂ ConvertsTo children elements) ∨
      ∃ before bad after error, children = before ++ bad :: after ∧
        (∀ child ∈ before, ∃ e, ConvertsTo child e) ∧ RefusesChild kind before.length bad error := by
  suffices hall : ∀ index, (∃ elements, List.Forall₂ ConvertsTo children elements) ∨
      ∃ before bad after error, children = before ++ bad :: after ∧
        (∀ child ∈ before, ∃ e, ConvertsTo child e) ∧
          RefusesChild kind (index + before.length) bad error by
    have hzero := hall 0
    simpa only [Nat.zero_add] using hzero
  induction children with
  | nil => exact fun _ => .inl ⟨[], .nil⟩
  | cons child rest ih =>
    intro index
    cases child with
    | none => exact .inr ⟨[], none, rest, _, rfl, List.forall_mem_nil _, .absent⟩
    | some v =>
      cases hfirst : Element.ofNative v with
      | error error => exact .inr ⟨[], some v, rest, error, rfl, List.forall_mem_nil _, .refused hfirst⟩
      | ok e =>
        have hchild : ConvertsTo (some v) e := .intro hfirst
        rcases ih (index + 1) with ⟨elements, hrest⟩ | ⟨before, bad, after, error, rfl, hbefore, hbad⟩
        · exact .inl ⟨e :: elements, .cons hchild hrest⟩
        · refine .inr ⟨some v :: before, bad, after, error, rfl,
            List.forall_mem_cons.2 ⟨⟨e, hchild⟩, hbefore⟩, ?_⟩
          rwa [List.length_cons, Nat.add_comm before.length, ← Nat.add_assoc]

/-- Children that can all be converted are, and then the collection is built. -/
theorem ofNatives_of_converts (h : List.Forall₂ ConvertsTo children elements) :
    ofNatives kind children = ofElements kind elements := by
  rw [ofNatives, nativeChildren_of_converts h]
  rfl

/-- The first child that is refused is the error, whatever the collection would say of the others. -/
theorem ofNatives_of_refuses (hbefore : ∀ child ∈ before, ∃ e, ConvertsTo child e)
    (hbad : RefusesChild kind before.length bad error) :
    ofNatives kind (before ++ bad :: after) = .error error := by
  have hchildren : nativeChildren kind 0 (before ++ bad :: after) = .error error :=
    nativeChildren_of_refuses hbefore (by rwa [Nat.zero_add])
  rw [ofNatives, hchildren]
  rfl

end Collection

/-! ## Factories that are added -/

namespace TypeRegistry

section Registrations

variable {r next : TypeRegistry} {known : ValueType}

/-- A factory that is added leaves those that are there. -/
theorem factory?_of_register {type : ValueType} {factory : Factory}
    (h : r.register type factory = .ok next) (hknown : r.contains known = true) :
    next.factory? known = r.factory? known := by
  unfold register at h
  split at h
  · cases h
  · next hnew =>
    cases h
    have hne : known ≠ type := fun heq => hnew (heq ▸ hknown)
    rw [factory?, List.lookup_cons, beq_false_of_ne hne]
    rfl

/-- Factories that are added one after the other leave those that were there at first. -/
theorem factory?_of_registrations {added : List (ValueType × Factory)}
    (h : added.foldlM (fun r (type, factory) => r.register type factory) r = .ok next)
    (hknown : r.contains known = true) : next.factory? known = r.factory? known := by
  induction added generalizing r with
  | nil =>
    cases h
    rfl
  | cons first added ih =>
    rw [List.foldlM_cons] at h
    obtain ⟨middle, hfirst, h⟩ := exists_of_bind h
    have hstep := factory?_of_register hfirst hknown
    rw [ih h (by rwa [contains, hstep]), hstep]

end Registrations

/-- The type of every native value has a standard factory. -/
theorem contains_standard_of_stereotype {v normalized : Native} {type : ValueType}
    (h : v.stereotype = .ok (normalized, type)) : standard.contains type = true := by
  cases v with
  | element e => cases h
  | string text =>
    unfold Native.stereotype at h
    dsimp only at h
    split at h
    · cases h
      rfl
    · split at h <;> (cases h; rfl)
  | _ =>
    cases h
    rfl

/-- Whichever factories are added to the standard ones, the same elements are built from native
values, or the same errors arise. -/
theorem newElement_of_registrations {added : List (ValueType × Factory)} {next : TypeRegistry}
    (h : added.foldlM (fun r (type, factory) => r.register type factory) standard = .ok next)
    (v : Native) : next.newElement v = Element.ofNative v := by
  have hbuild : next.build v = standard.build v := by
    unfold build
    cases hstereotype : v.stereotype with
    | error e => rfl
    | ok found =>
      have hfactory := factory?_of_registrations h (contains_standard_of_stereotype hstereotype)
      dsimp only [bind, Except.bind]
      rw [hfactory]
  cases v with
  | element e => rfl
  | _ => exact hbuild

end TypeRegistry

/-! ## The result -/

/-- **The conversion is closed.**  A native value that is no element is classified, and the standard
factories build an element of this type from it, unless it starts with a colon and is no keyword.
Then it is refused as an invalid keyword; no other error can arise.  The children of a collection
are converted before it is built: if all of them can be, the collection is that of the elements, and
otherwise the error is that of the first child that is absent or refused. -/
theorem conversion_closed :
    (∀ v : Native, (∀ e, v ≠ .element e) →
      ∃ normalized type, v.stereotype = .ok (normalized, type) ∧
        (¬v.IsBadKeyword → ∃ e, TypeRegistry.standard.newElement v = .ok e ∧ e.type = type ∧
          v.Becomes e) ∧
        (v.IsBadKeyword → ∃ details,
          TypeRegistry.standard.newElement v = .error (.ofCause (.invalidKeyword details))) ∧
        ∀ details, TypeRegistry.standard.newElement v ≠ .error (.invalidInput details) ∧
          TypeRegistry.standard.newElement v ≠ .error (.invalidElement details) ∧
          TypeRegistry.standard.newElement v ≠ .error (.unknownMimeType details)) ∧
    ∀ (kind : CollectionKind) (children : List (Option Native)),
      ((∃ elements, List.Forall₂ ConvertsTo children elements) ∨
        ∃ before bad after error, children = before ++ bad :: after ∧
          (∀ child ∈ before, ∃ e, ConvertsTo child e) ∧
            RefusesChild kind before.length bad error) ∧
      (∀ elements, List.Forall₂ ConvertsTo children elements →
        Collection.ofNatives kind children = Collection.ofElements kind elements) ∧
      ∀ before bad after error, children = before ++ bad :: after →
        (∀ child ∈ before, ∃ e, ConvertsTo child e) → RefusesChild kind before.length bad error →
          Collection.ofNatives kind children = .error error := by
  refine ⟨fun v hv => ?_, fun kind children => ⟨Collection.exists_refuses kind children, ?_, ?_⟩⟩
  · rcases Native.becomes_or_isBadKeyword hv with ⟨e, he⟩ | hbad
    · obtain ⟨normalized, htype⟩ := he.exists_stereotype
      have hmade : TypeRegistry.standard.newElement v = .ok e := he.ofNative_eq
      refine ⟨normalized, e.type, htype, fun _ => ⟨e, hmade, rfl, he⟩,
        fun hbad => absurd hbad he.not_isBadKeyword, fun details => ?_⟩
      simp [hmade]
    · obtain ⟨details, herror, htype⟩ := hbad.exists_error
      rw [Element.ofNative] at herror
      refine ⟨v, .keyword, htype, fun hgood => absurd hbad hgood, fun _ => ⟨details, herror⟩,
        fun other => ?_⟩
      simp [herror, Error.ofCause, Error.invalidInput, Error.invalidElement, Error.unknownMimeType]
  · intro elements h
    exact Collection.ofNatives_of_converts h
  · intro before bad after error hchildren hbefore hbad
    rw [hchildren]
    exact Collection.ofNatives_of_refuses hbefore hbad

/-- A set in which a member is repeated, the next one is no keyword, and the last one is absent: the
keyword decides. -/
theorem conversion_closed_set :
    let one : Option Native := some (.integer 1)
    let bad := Native.string ":/a"
    bad.IsBadKeyword ∧
      (∃ details, TypeRegistry.standard.newElement bad = .error (.ofCause (.invalidKeyword details))) ∧
      Collection.ofElements (.keyed .set) [.integer 1, .integer 1] = .error (.duplicateKey "1") ∧
      Collection.ofNatives (.keyed .set) [one, one, some bad, none] =
        .error (.ofCause (.invalidKeyword ":/a")) := by
  intro one bad
  have hbad : bad.IsBadKeyword := ⟨rfl, _, rfl⟩
  have hone : ConvertsTo one (.integer 1) := .intro rfl
  obtain ⟨hvalues, hchildren⟩ := conversion_closed
  obtain ⟨normalized, type, -, -, herror, -⟩ := hvalues bad (by simp [bad])
  have htwice : Collection.ofElements (.keyed .set) [.integer 1, .integer 1] =
      .error (.duplicateKey "1") := by
    let member := Entry.of (.integer 1) (.integer 1)
    have hkey : member.storageKey = "1" := by decide +kernel
    have hadd : addEntries [member] [member] = .error (.duplicateKey member.storageKey) := by
      simp [addEntries, addEntry, findEntry?]
    show (addEntries [member] [member] >>= fun entries => .ok (Collection.keyed .set entries)) = _
    rw [hadd, hkey]
    rfl
  refine ⟨hbad, herror hbad, htwice, ?_⟩
  refine (hchildren _ _).2.2 [one, one] (some bad) [none] _ rfl ?_ (.refused rfl)
  exact List.forall_mem_cons.2 ⟨⟨_, hone⟩, List.forall_mem_singleton.2 ⟨_, hone⟩⟩

end Edn
