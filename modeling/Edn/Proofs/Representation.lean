import Edn.Native.Registry
import Edn.Proofs.Reading.Limits

/-!
# Elements in a run

A program makes elements, changes them, and looks inside them.  In all of
its runs the elements represent what they should.

* `Element.IsRepresented` lists what holds of an element: of its tag, of a
  symbol, and of the store of a collection.
* `Leaves` is one call: what it leaves behind, given the elements that the
  program holds.  A call that fails leaves what it was called on.
* `Leaves.isWellFormed` is the step, and `IsRun.isWellFormed` carries it
  through a run.
* `isRepresented_of_run` is the result.
* `Element.isReachable_iff`: runs leave behind all that is well formed, and
  nothing else.
-/

namespace Edn

/-! ## Representation -/

/-- A tag is missing, or a text that is taken apart as a symbol and put together again unchanged. -/
def IsCanonicalTag (tag : String) : Prop :=
  tag = "" ∨ ∃ qualifier name, Symbol.splitParts tag = .ok (qualifier, name) ∧
    Symbol.joinParts qualifier name = tag

/-- A symbol has a name, with or without another name as its qualifier, or is the lone separator.  A
keyword has names only. -/
structure Symbol.IsRepresented (s : Symbol) : Prop where
  parts : (Name.isName s.name.toList = true ∧
      (s.qualifier = "" ∨ Name.isName s.qualifier.toList = true)) ∨
    s.qualifier = "" ∧ s.name = "/"
  keyword : s.isKeyword = true → s.name ≠ "/"

/-- The store of a collection is of the right form, and finds what it holds. -/
structure Collection.IsRepresented (c : Collection) : Prop where
  ordered : c.kind.type = .list ∨ c.kind.type = .vector → ∃ kind items, c = .ordered kind items
  keyed : c.kind.type = .map ∨ c.kind.type = .set → ∃ kind entries, c = .keyed kind entries
  filed : ∀ entry ∈ c.entries, entry.storageKey = entry.key.storageKey
  members : c.kind.type = .set → ∀ entry ∈ c.entries, entry.value = entry.key
  visited : c.kind.isKeyed = true →
    c.children = (c.entries.map fun entry => (entry.key, entry.value)) ∧
      c.values = c.entries.map Entry.value
  ascending : (c.entries.map Entry.storageKey).Pairwise (· < ·)
  size : c.kind.isKeyed = true → c.size = c.entries.length
  get : ∀ entry ∈ c.entries, c.get (.element entry.key) = .ok entry.value

/-- The tag and the payload are represented, whatever the parts are. -/
structure Element.IsRepresented (e : Element) : Prop where
  tag : IsCanonicalTag e.tag
  symbol : ∀ s ∈ e.symbol?, s.IsRepresented
  collection : ∀ c ∈ e.collection?, c.IsRepresented

theorem IsTag.isCanonicalTag {tag : String} (h : IsTag tag) : IsCanonicalTag tag := by
  refine h.imp_right fun hread => ?_
  cases hparts : Symbol.splitParts tag with
  | error details =>
    rw [Symbol.read, hparts] at hread
    cases hread
  | ok parts => exact ⟨parts.1, parts.2, rfl, (Symbol.joinParts_of_splitParts hparts).1⟩

theorem Symbol.IsValid.isRepresented {s : Symbol} (h : s.IsValid) : s.IsRepresented := by
  refine ⟨h.imp_right fun hslash => ⟨hslash.1, hslash.2.1⟩, fun hkeyword hname => ?_⟩
  rcases h with ⟨hparts, -⟩ | ⟨-, -, hsymbol⟩
  · rw [hname] at hparts
    cases hparts
  · rw [hkeyword] at hsymbol
    cases hsymbol

/-- An entry of a collection that is filed is found by its key. -/
theorem Collection.IsFiled.get_eq {kind : KeyedKind} {entries : List Entry}
    (h : (Collection.keyed kind entries).IsFiled) {entry : Entry} (hentry : entry ∈ entries) :
    (Collection.keyed kind entries).get (.element entry.key) = .ok entry.value := by
  have hfind := findEntry?_of_mem h.1 hentry
  rw [(h.2 entry hentry).1] at hfind
  simp only [Collection.get, Collection.Key.storageKey, hfind]

theorem Collection.IsFiled.isRepresented {c : Collection} (h : c.IsFiled) : c.IsRepresented := by
  cases c with
  | ordered kind items =>
    exact {
      ordered := fun _ => ⟨kind, items, rfl⟩
      keyed := fun hkind => by cases kind <;> simp [Collection.kind, CollectionKind.type] at hkind
      filed := List.forall_mem_nil _
      members := fun _ => List.forall_mem_nil _
      visited := fun hkind => by cases hkind
      ascending := .nil
      size := fun hkind => by cases hkind
      get := List.forall_mem_nil _ }
  | keyed kind entries =>
    exact {
      ordered := fun hkind => by cases kind <;> simp [Collection.kind, CollectionKind.type] at hkind
      keyed := fun _ => ⟨kind, entries, rfl⟩
      filed := fun entry hentry => (h.2 entry hentry).1
      members := fun hkind entry hentry => (h.2 entry hentry).2 (by cases kind <;> trivial)
      visited := fun _ => ⟨rfl, rfl⟩
      ascending := List.pairwise_map.2 h.1
      size := fun _ => rfl
      get := fun entry hentry => h.get_eq hentry }

/-- Whatever is well formed is represented. -/
theorem Element.IsRegular.isRepresented {e : Element} (h : e.IsRegular) : e.IsRepresented := by
  refine ⟨h.tag.isCanonicalTag, fun s hs => ?_, fun c hc => ?_⟩
  · cases e <;> cases hs
    exact h.2.isRepresented
  · cases e <;> cases hc
    exact h.2.isRepresented

/-! ## Calls -/

/-- A native value that a program can have: its instants are regular, and it holds its elements. -/
def Native.IsHeld (held : List Element) : Native → Prop
  | .element e => e ∈ held
  | .instant value => value.IsValid
  | _ => True

/-- One call leaves an element behind, made from those that the program holds.  A collection keeps its
tag, and after a merge the children that came before the first that was refused. -/
inductive Leaves (held : List Element) : Element → Prop where
  | scalar {value : Scalar} (h : value.IsRegular) : Leaves held (.ofScalar value)
  | symbol {text : String} {e : Element} (h : Element.readSymbol text = .ok e) : Leaves held e
  | keyword {text : String} {e : Element} (h : Element.readKeyword text = .ok e) : Leaves held e
  | qualified {qualifier name : String} {s : Symbol} (h : Symbol.qualified qualifier name = .ok s) :
      Leaves held (.ofSymbol s)
  | qualifiedKeyword {qualifier name : String} {s : Symbol}
      (h : Symbol.qualifiedKeyword qualifier name = .ok s) : Leaves held (.ofSymbol s)
  | list {items : List Element} (hitems : items ⊆ held) : Leaves held (.list items)
  | vector {items : List Element} (hitems : items ⊆ held) : Leaves held (.vector items)
  | set {members : List Element} {e : Element} (hmembers : members ⊆ held)
      (h : Element.set members = .ok e) : Leaves held e
  | map {pairs : List Pair} {e : Element} (hpairs : Pair.flatten pairs ⊆ held)
      (h : Element.map pairs = .ok e) : Leaves held e
  | ofElements {kind : CollectionKind} {children : List Element} {c : Collection}
      (hchildren : children ⊆ held) (h : Collection.ofElements kind children = .ok c) :
      Leaves held (.ofCollection c)
  | native {value : Native} {e : Element} (hvalue : value.IsHeld held)
      (h : Element.ofNative value = .ok e) : Leaves held e
  | ofNatives {kind : CollectionKind} {children : List (Option Native)} {c : Collection}
      (hchildren : ∀ value, some value ∈ children → value.IsHeld held)
      (h : Collection.ofNatives kind children = .ok c) : Leaves held (.ofCollection c)
  | setTag {e : Element} (he : e ∈ held) (tag : String) : Leaves held (e.setTag tag).1
  | append {tag : String} {c : Collection} {children : List Element}
      (hc : .collection tag c ∈ held) (hchildren : children ⊆ held) :
      Leaves held (.collection tag (c.append children).1)
  | prepend {tag : String} {c : Collection} {children : List Element}
      (hc : .collection tag c ∈ held) (hchildren : children ⊆ held) :
      Leaves held (.collection tag (c.prepend children).1)
  | merge {tag otherTag : String} {c other : Collection} (hc : .collection tag c ∈ held)
      (hother : .collection otherTag other ∈ held) : Leaves held (.collection tag (c.merge other).1)
  | parse {limits : Limits} {source : String} {e : Element}
      (h : (Reader.within limits).parse source = .ok e) : Leaves held e
  | part {e part : Element} (he : e ∈ held) (hpart : part ∈ e.parts) : Leaves held part

/-- A run of calls, and all elements that they have left behind, the last one first. -/
inductive IsRun : List Element → Prop where
  | start : IsRun []
  | call {held : List Element} {e : Element} (hrun : IsRun held) (h : Leaves held e) :
      IsRun (e :: held)

/-! ## Native values -/

section Natives

variable {held : List Element}

theorem isWellFormed_of_readSymbol {text : String} {e : Element}
    (h : Element.readSymbol text = .ok e) : e.IsWellFormed := by
  obtain ⟨s, hread, rfl⟩ := exists_of_map h
  exact .ofSymbol (Symbol.isValid_of_read hread).1

theorem isWellFormed_of_readKeyword {text : String} {e : Element}
    (h : Element.readKeyword text = .ok e) : e.IsWellFormed := by
  obtain ⟨s, hread, rfl⟩ := exists_of_map h
  exact .ofSymbol (Symbol.isValid_of_readKeyword hread).1

/-- What the standard factories build is well formed. -/
theorem isWellFormed_of_ofNative (hheld : ∀ e ∈ held, e.IsWellFormed) {value : Native} {e : Element}
    (hvalue : value.IsHeld held) (h : Element.ofNative value = .ok e) : e.IsWellFormed := by
  cases value with
  | element value =>
    cases h
    exact hheld _ hvalue
  | string text =>
    replace h : TypeRegistry.standard.build (.string text) = .ok e := h
    rw [TypeRegistry.build, Native.stereotype] at h
    split at h
    · cases h
      exact @Element.IsWellFormed.ofScalar .nil trivial
    · split at h
      · exact isWellFormed_of_readKeyword h
      · cases h
        exact @Element.IsWellFormed.ofScalar (.string text) trivial
  | nil =>
    cases h
    exact @Element.IsWellFormed.ofScalar .nil trivial
  | boolean value =>
    cases h
    exact @Element.IsWellFormed.ofScalar (.boolean value) trivial
  | integer value =>
    cases h
    exact @Element.IsWellFormed.ofScalar (.integer value) trivial
  | float value =>
    cases h
    exact @Element.IsWellFormed.ofScalar (.float value) trivial
  | character value =>
    cases h
    exact @Element.IsWellFormed.ofScalar (.character value) trivial
  | instant value =>
    cases h
    exact @Element.IsWellFormed.ofScalar (.instant value) hvalue
  | uuid value =>
    cases h
    exact @Element.IsWellFormed.ofScalar (.uuid value) trivial

theorem isWellFormed_of_nativeChildren (hheld : ∀ e ∈ held, e.IsWellFormed) {kind : CollectionKind}
    {children : List (Option Native)} {index : Nat} {elements : List Element}
    (hchildren : ∀ value, some value ∈ children → value.IsHeld held)
    (h : Collection.nativeChildren kind index children = .ok elements) :
    ∀ e ∈ elements, e.IsWellFormed := by
  induction children generalizing index elements with
  | nil =>
    cases h
    exact List.forall_mem_nil _
  | cons child rest ih =>
    cases child with
    | none => cases h
    | some value =>
      obtain ⟨first, hfirst, h⟩ := exists_of_bind h
      obtain ⟨others, hothers, h⟩ := exists_of_bind h
      cases h
      exact List.forall_mem_cons.2
        ⟨isWellFormed_of_ofNative hheld (hchildren value List.mem_cons_self) hfirst,
          ih (fun value hvalue => hchildren value (List.mem_cons_of_mem _ hvalue)) hothers⟩

end Natives

/-! ## Runs -/

theorem Element.IsWellFormed.setTag {e : Element} (h : e.IsWellFormed) (tag : String) :
    (e.setTag tag).1.IsWellFormed := by
  refine assign_fst_of h fun tagged hattach => ?_
  obtain ⟨attached, rfl, htag, -⟩ := Element.withTag_spec hattach
  exact h.retag htag

theorem isWellFormed_ofCollection {kind : CollectionKind} {children : List Element} {c : Collection}
    (hchildren : ∀ child ∈ children, child.IsWellFormed)
    (h : Collection.ofElements kind children = .ok c) : (Element.ofCollection c).IsWellFormed :=
  Collection.isWellFormed_iff.2 ⟨.inl rfl, .ofElements hchildren h⟩

/-- What a call leaves behind is well formed if everything is that the program holds. -/
theorem Leaves.isWellFormed {held : List Element} {e : Element} (h : Leaves held e)
    (hheld : ∀ e ∈ held, e.IsWellFormed) : e.IsWellFormed := by
  have among : ∀ {children : List Element}, children ⊆ held →
      ∀ child ∈ children, child.IsWellFormed := fun hsub child hchild => hheld _ (hsub hchild)
  cases h with
  | scalar h => exact .ofScalar h
  | symbol h => exact isWellFormed_of_readSymbol h
  | keyword h => exact isWellFormed_of_readKeyword h
  | qualified h => exact .ofSymbol (Symbol.isValid_of_qualified h).1
  | qualifiedKeyword h => exact .ofSymbol (Symbol.isValid_of_qualifiedKeyword h).1
  | list hitems => exact @isWellFormed_ofCollection (.ordered .list) _ _ (among hitems) rfl
  | vector hitems => exact @isWellFormed_ofCollection (.ordered .vector) _ _ (among hitems) rfl
  | set hmembers h =>
    obtain ⟨c, hmake, rfl⟩ := exists_of_map h
    exact isWellFormed_ofCollection (among hmembers) hmake
  | map hpairs h =>
    obtain ⟨c, hmake, rfl⟩ := exists_of_map h
    exact isWellFormed_ofCollection (among hpairs) hmake
  | ofElements hchildren h => exact isWellFormed_ofCollection (among hchildren) h
  | native hvalue h => exact isWellFormed_of_ofNative hheld hvalue h
  | ofNatives hchildren h =>
    obtain ⟨children, hnatives, hmake⟩ := exists_of_bind h
    exact isWellFormed_ofCollection (isWellFormed_of_nativeChildren hheld hchildren hnatives) hmake
  | setTag he tag => exact (hheld _ he).setTag tag
  | append hc hchildren =>
    obtain ⟨htag, hcollection⟩ := Collection.isWellFormed_iff.1 (hheld _ hc)
    exact Collection.isWellFormed_iff.2 ⟨htag, hcollection.append (among hchildren)⟩
  | prepend hc hchildren =>
    obtain ⟨htag, hcollection⟩ := Collection.isWellFormed_iff.1 (hheld _ hc)
    exact Collection.isWellFormed_iff.2 ⟨htag, hcollection.prepend (among hchildren)⟩
  | merge hc hother =>
    obtain ⟨htag, hcollection⟩ := Collection.isWellFormed_iff.1 (hheld _ hc)
    exact Collection.isWellFormed_iff.2
      ⟨htag, hcollection.merge (Collection.isWellFormed_iff.1 (hheld _ hother)).2⟩
  | parse h => exact (Reader.isPrintable_of_parse rfl h).1.imp fun _ h => h.1
  | part he hpart => exact (hheld _ he).parts _ hpart

/-- Everything is well formed that a run leaves behind. -/
theorem IsRun.isWellFormed {held : List Element} (h : IsRun held) : ∀ e ∈ held, e.IsWellFormed := by
  induction h with
  | start => exact List.forall_mem_nil _
  | call hrun h ih => exact List.forall_mem_cons.2 ⟨h.isWellFormed ih, ih⟩

/-- In every run, whatever calls failed on the way, every element that was left behind is represented,
and so is everything inside it. -/
theorem isRepresented_of_run {held : List Element} (h : IsRun held) :
    ∀ e ∈ held, e.Everywhere Element.IsRepresented :=
  fun e he => (h.isWellFormed e he).imp fun _ hregular => hregular.isRepresented

/-- A set of the string `a`, to which the symbol of the same letter is added in vain and then a tag that
is no symbol. -/
theorem isRepresented_of_run_refused :
    let text := Element.string "a"
    let letter := Element.symbol "" ⟨"", "a", false⟩
    let only := Collection.keyed .set [.of text text]
    let appended := Element.collection "" (only.append [letter]).1
    let held := [(appended.setTag "a/").1, appended, .ofCollection only, letter, text]
    IsRun held ∧ (appended.setTag "a/").1 = .ofCollection only ∧
      ∀ e ∈ held, e.Everywhere Element.IsRepresented := by
  intro text letter only appended held
  have hrun : IsRun held :=
    .call (.call (.call (.call (.call .start (@Leaves.scalar _ (.string "a") trivial))
      (@Leaves.symbol _ "a" _ rfl)) (@Leaves.set _ [text] _ (by simp [text, letter]) rfl))
      (@Leaves.append _ "" only [letter] (by simp [Element.ofCollection]) (by simp)))
      (.setTag List.mem_cons_self "a/")
  exact ⟨hrun, rfl, isRepresented_of_run hrun⟩

/-! ## What runs reach -/

/-- Some run leaves the element behind. -/
def Element.IsReachable (e : Element) : Prop :=
  ∃ held, IsRun held ∧ e ∈ held

section Reach

variable {held more : List Element} {e : Element}

theorem Native.IsHeld.mono (hsub : held ⊆ more) {value : Native} (h : value.IsHeld held) :
    value.IsHeld more := by
  cases value with
  | element e => exact hsub h
  | instant value => exact h
  | _ => trivial

/-- A call can be made in the same way if the program holds more. -/
theorem Leaves.mono (hsub : held ⊆ more) (h : Leaves held e) : Leaves more e := by
  cases h with
  | scalar h => exact .scalar h
  | symbol h => exact .symbol h
  | keyword h => exact .keyword h
  | qualified h => exact .qualified h
  | qualifiedKeyword h => exact .qualifiedKeyword h
  | list hitems => exact .list (List.Subset.trans hitems hsub)
  | vector hitems => exact .vector (List.Subset.trans hitems hsub)
  | set hmembers h => exact .set (List.Subset.trans hmembers hsub) h
  | map hpairs h => exact .map (List.Subset.trans hpairs hsub) h
  | ofElements hchildren h => exact .ofElements (List.Subset.trans hchildren hsub) h
  | native hvalue h => exact .native (hvalue.mono hsub) h
  | ofNatives hchildren h =>
    exact .ofNatives (fun value hvalue => (hchildren value hvalue).mono hsub) h
  | setTag he tag => exact .setTag (hsub he) tag
  | append hc hchildren => exact .append (hsub hc) (List.Subset.trans hchildren hsub)
  | prepend hc hchildren => exact .prepend (hsub hc) (List.Subset.trans hchildren hsub)
  | merge hc hother => exact .merge (hsub hc) (hsub hother)
  | parse h => exact .parse h
  | part he hpart => exact .part (hsub he) hpart

/-- A run can be made after another one. -/
theorem IsRun.append (h : IsRun held) (hmore : IsRun more) : IsRun (held ++ more) := by
  induction h with
  | start => exact hmore
  | call hrun h ih => exact .call ih (h.mono (List.subset_append_left _ _))

/-- Elements that are reachable one by one are reachable in one run. -/
theorem exists_run_of_forall {elements : List Element} (h : ∀ e ∈ elements, e.IsReachable) :
    ∃ held, IsRun held ∧ elements ⊆ held := by
  induction elements with
  | nil => exact ⟨[], .start, List.nil_subset _⟩
  | cons first rest ih =>
    obtain ⟨⟨held, hrun, hfirst⟩, hrest⟩ := List.forall_mem_cons.1 h
    obtain ⟨others, hothers, hsub⟩ := ih hrest
    refine ⟨held ++ others, hrun.append hothers, List.cons_subset.2 ⟨?_, ?_⟩⟩
    · exact List.mem_append_left _ hfirst
    · exact List.Subset.trans hsub (List.subset_append_right _ _)

/-- A call that needs reachable elements only leaves a reachable one behind. -/
theorem Leaves.isReachable (h : Leaves held e) (hheld : ∀ e ∈ held, e.IsReachable) :
    e.IsReachable := by
  obtain ⟨run, hrun, hsub⟩ := exists_run_of_forall hheld
  exact ⟨e :: run, .call hrun (h.mono hsub), List.mem_cons_self⟩

/-- Every tag that an element can have is set with a number sign in front of it. -/
theorem Element.setTag_tagMark {tag : String} (h : (Symbol.read tag).toBool = true) :
    (e.setTag ("#" ++ tag)).1 = e.retag tag := by
  have hdrop : dropTagMark ("#" ++ tag) = tag := by simp [dropTagMark]
  have hne : ("#" ++ tag).isEmpty = false := by simp [String.isEmpty_eq_false_iff]
  obtain ⟨s, hread, -, htext⟩ := Symbol.exists_of_toBool_read h
  have hattach : e.withTag ("#" ++ tag) = .ok (e.retag s.text) := by
    rw [withTag, hne, hdrop, hread]
    rfl
  rw [setTag, hattach, assign_ok, htext]

theorem Element.IsReachable.retag (h : e.IsReachable) {tag : String} (htag : IsTag tag) :
    (e.retag tag).IsReachable := by
  have hheld : ∀ held ∈ [e], held.IsReachable := List.forall_mem_singleton.2 h
  rcases htag with rfl | hread
  · exact (Leaves.setTag List.mem_cons_self "").isReachable hheld
  · rw [← setTag_tagMark hread]
    exact (Leaves.setTag List.mem_cons_self ("#" ++ tag)).isReachable hheld

/-- Whatever is well formed is left behind by some run: its parts are made first, then the payload,
and the tag is set last. -/
theorem Element.IsWellFormed.isReachable (h : e.IsWellFormed) : e.IsReachable := by
  induction h with
  | @intro e here parts ih =>
    cases e with
    | scalar tag value =>
      have hmade := (@Leaves.scalar [] value here.2).isReachable (List.forall_mem_nil _)
      have heq : (Element.ofScalar value).retag tag = .scalar tag value := by cases value <;> rfl
      rw [← heq]
      exact hmade.retag here.1
    | symbol tag value =>
      have hmade : Leaves [] (Element.ofSymbol value) := by
        cases hkeyword : value.isKeyword with
        | false => exact .symbol (congrArg (Except.map Element.ofSymbol) (Symbol.read_text here.2 hkeyword))
        | true =>
          exact .keyword (congrArg (Except.map Element.ofSymbol) (Symbol.readKeyword_text here.2 hkeyword))
      exact (hmade.isReachable (List.forall_mem_nil _)).retag here.1
    | collection tag value =>
      have hwritten : ∀ child ∈ value.written, child.IsReachable := fun child hchild =>
        ih child (((Collection.ofElements_spec (Collection.ofElements_written here.2)).2 child).2 hchild)
      exact ((Leaves.ofElements (List.Subset.refl _)
        (Collection.ofElements_written here.2)).isReachable hwritten).retag here.1

/-- The elements that runs leave behind are the well-formed ones. -/
theorem Element.isReachable_iff : e.IsReachable ↔ e.IsWellFormed :=
  ⟨fun ⟨_, hrun, he⟩ => hrun.isWellFormed e he, fun h => h.isReachable⟩

end Reach

end Edn
