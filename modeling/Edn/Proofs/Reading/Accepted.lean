import Edn.Proofs.Reading.ReadBack

/-!
# What the reader accepts

Whatever the reader makes of a text is well formed, and its text tells what it
is, except for floats that are not finite.

* `isPrintable_of_readLiteral`: the rules of the literals make no others.  A
  symbol is never written like `nil`, `true` or `false`, because the rules
  of these words stand first.
* `ReadsValue.isPrintable` carries this through collections, together with
  the depth, by induction on the recursion of the reader.
-/

namespace Edn

open Grammar (standard tagged symbolRule wordRules)

/-! ## Tags -/

/-- A tag that is read is one that the reader detaches. -/
theorem isPlainTag_of_readTag {g : Grammar} {k next : Cursor} {tag : String}
    (h : readTag g k = ⟨.ok tag, next⟩) : isPlainTag tag = true := by
  unfold readTag at h
  split at h
  · cases h
    rfl
  · next length hlength =>
    have htag : tag = String.ofList ((k.rest.take length).drop 1) := by
      dsimp only at h
      split at h <;> cases h
      rfl
    obtain ⟨c, rest, hrest, hc, rfl⟩ := exists_of_tagLength? hlength
    have htake : rest.take (rest.takeWhile isTagChar).length = rest.takeWhile isTagChar :=
      (List.prefix_iff_eq_take.1 (List.takeWhile_prefix _)).symm
    rw [htag, hrest, isPlainTag, String.toList_ofList, List.take_succ_cons, List.take_succ_cons,
      List.drop_one, List.tail_cons, htake]
    dsimp only
    rw [hc, List.all_takeWhile]
    rfl

/-- A tag is attached as it was read. -/
theorem eq_retag_of_tagged {e value : Element} {tag : String} (he : e.tag = "")
    (hplain : isPlainTag tag = true) (h : tagged e tag = .ok value) :
    value = e.retag tag ∧ IsTag tag := by
  rw [tagged] at h
  split at h
  · next hempty =>
    cases h
    rw [String.isEmpty_iff.1 hempty]
    exact ⟨by cases e <;> cases he <;> rfl, .inl rfl⟩
  · obtain ⟨attached, rfl, htag, heq⟩ := Element.withTag_spec h
    obtain rfl := heq (head_ne_of_isPlainTag hplain)
    exact ⟨rfl, htag⟩

/-! ## Literals -/

/-- The rule of symbols is not selected for a word. -/
theorem not_reserved_of_longestMatch? {input : List Char} {length : Nat}
    (h : standard.longestMatch? input = some (symbolRule, length)) :
    String.ofList (input.take length) ∉ reservedWords := by
  have hlength : length ≤ input.length := by
    have hend := Grammar.matchEnd?_of_longestMatch? h
    rw [Grammar.matchEnd?_symbol] at hend
    exact Nat.le_trans (Machine.longest?_le Grammar.reads_symbol hend)
      (List.takeWhile_prefix _).length_le
  -- The rule of a word takes the word, and with it as much as the rule of symbols.
  have hne : ∀ {rule : LiteralRule} {word : String}, rule ∈ wordRules →
      (∀ text, rule.matcher.matchEnd? text = Grammar.wordLength? word.toList text) →
        String.ofList (input.take length) ≠ word := by
    intro rule word hrule hmatch heq
    have htake : input.take length = word.toList := by rw [← heq, String.toList_ofList]
    have hinput : input = word.toList ++ input.drop length := by
      rw [← htake, List.take_append_drop]
    have hfront : rule ∈ standard.literals.takeWhile (·.written != symbolRule.written) := by
      rw [Grammar.takeWhile_symbolRule]
      exact List.mem_append_left _ hrule
    have hlt := Grammar.lt_of_longestMatch? h hfront word.toList.length (by
      rw [hmatch, hinput]
      exact Grammar.wordLength?_append _)
    rw [← htake, List.length_take, Nat.min_eq_left hlength] at hlt
    exact Nat.lt_irrefl _ hlt
  simp only [reservedWords, List.mem_cons, List.not_mem_nil, or_false, not_or]
  exact ⟨hne (.head _) (Grammar.matchEnd?_nil _), hne (.tail _ (.head _)) (Grammar.matchEnd?_true _),
    hne (.tail _ (.tail _ (.head _))) (Grammar.matchEnd?_false _)⟩

theorem not_reserved_of_isKeyword {s : Symbol} (h : s.isKeyword = true) :
    s.text ∉ reservedWords := by
  have htext : s.text.toList = ':' :: (Symbol.joinParts s.qualifier s.name).toList := by
    simp [Symbol.text, Symbol.marker, h]
  simp only [reservedWords, List.mem_cons, List.not_mem_nil, or_false, not_or]
  refine ⟨?_, ?_, ?_⟩ <;> (intro heq; rw [heq] at htext; cases htext)

section Literals

variable {tag token : String} {value : Element}

/-- A scalar that any tag may stand in front of is printable behind it. -/
theorem isPrintable_of_tagged {scalar : Scalar} (hplain : isPlainTag tag = true)
    (hregular : scalar.IsRegular) (hlegible : scalar.IsLegible tag)
    (h : tagged (.scalar "" scalar) tag = .ok value) :
    value.IsPrintable ∧ value.isCollection = false := by
  obtain ⟨rfl, htag⟩ := eq_retag_of_tagged rfl hplain h
  exact ⟨⟨⟨htag, hregular⟩, hplain, hlegible⟩, rfl⟩

/-- A symbol that is not written like a word is printable behind any tag. -/
theorem isPrintable_of_tagged_symbol {s : Symbol} (hplain : isPlainTag tag = true)
    (hvalid : s.IsValid) (hword : s.text ∉ reservedWords)
    (h : tagged (.symbol "" s) tag = .ok value) : value.IsPrintable ∧ value.isCollection = false := by
  obtain ⟨rfl, htag⟩ := eq_retag_of_tagged rfl hplain h
  exact ⟨⟨⟨htag, hvalid⟩, hplain, hword⟩, rfl⟩

/-- What is read between quotes is printable. -/
theorem isPrintable_of_readQuoted (hplain : isPlainTag tag = true)
    (h : Grammar.readQuoted tag token = .ok value) : value.IsPrintable ∧ value.isCollection = false := by
  unfold Grammar.readQuoted at h
  split at h
  · cases h
  · next body _ =>
    split at h
    · next hinst =>
      obtain ⟨t, hread, rfl⟩ := exists_of_map h
      have hread : Instant.read body = .ok t := by
        unfold Grammar.readInstant at hread
        split at hread <;> cases hread
        assumption
      obtain ⟨hvalid, hlegible⟩ := Instant.isLegible_of_read hread
      exact ⟨⟨⟨.inr (by decide), hvalid⟩, by decide, rfl, hlegible⟩, rfl⟩
    · split at h
      · obtain ⟨u, -, rfl⟩ := exists_of_map h
        exact ⟨⟨⟨.inr (by decide), trivial⟩, by decide, rfl⟩, rfl⟩
      · next hinst huuid =>
        obtain ⟨text, -, h⟩ := exists_of_bind h
        exact @isPrintable_of_tagged tag value (.string text) hplain trivial ⟨hinst, huuid⟩ h

/-- What the rule of a literal makes is printable. -/
theorem isPrintable_of_readLiteral {k next : Cursor} (hplain : isPlainTag tag = true)
    (h : readLiteral standard tag k = .ok value next) :
    value.IsPrintable ∧ value.isCollection = false := by
  obtain ⟨rule, length, hmatch, hprocess, -⟩ := readLiteral_eq_ok_iff.1 h
  obtain ⟨hrule, -⟩ := Grammar.literal_of_longestMatch? hmatch
  rcases Grammar.mem_literalRules_iff.1 hrule with rfl | rfl | rfl | rfl | rfl | rfl | rfl | rfl | rfl
  · exact @isPrintable_of_tagged tag value .nil hplain trivial trivial hprocess
  · exact @isPrintable_of_tagged tag value (.boolean true) hplain trivial trivial hprocess
  · exact @isPrintable_of_tagged tag value (.boolean false) hplain trivial trivial hprocess
  · obtain ⟨n, -, hprocess⟩ := exists_of_bind hprocess
    exact @isPrintable_of_tagged tag value (.integer n) hplain trivial trivial hprocess
  · obtain ⟨x, -, hprocess⟩ := exists_of_bind hprocess
    exact @isPrintable_of_tagged tag value (.float x) hplain trivial trivial hprocess
  · obtain ⟨c, -, hprocess⟩ := exists_of_bind hprocess
    exact @isPrintable_of_tagged tag value (.character c) hplain trivial trivial hprocess
  · obtain ⟨e, hread, hprocess⟩ := exists_of_bind hprocess
    obtain ⟨s, hsymbol, rfl⟩ := exists_of_map hread
    obtain ⟨hvalid, -, htext⟩ := Symbol.isValid_of_read hsymbol
    refine isPrintable_of_tagged_symbol hplain hvalid ?_ hprocess
    rw [htext]
    exact not_reserved_of_longestMatch? hmatch
  · obtain ⟨e, hread, hprocess⟩ := exists_of_bind hprocess
    obtain ⟨s, hsymbol, rfl⟩ := exists_of_map hread
    obtain ⟨hvalid, hkeyword⟩ := Symbol.isValid_of_readKeyword hsymbol
    exact isPrintable_of_tagged_symbol hplain hvalid (not_reserved_of_isKeyword hkeyword) hprocess
  · exact isPrintable_of_readQuoted hplain hprocess

end Literals

/-! ## Collections -/

/-- The collection that a rule builds is filed, and its parts are the children. -/
theorem build_spec {kind : CollectionKind} {children : List Element} {e : Element}
    (h : Grammar.build kind children = .ok e) :
    ∃ c, e = .ofCollection c ∧ c.IsFiled ∧ ∀ part, part ∈ c.parts ↔ part ∈ children := by
  have made : ∀ {kind : CollectionKind} {children : List Element},
      (Collection.ofElements kind children).map Element.ofCollection = .ok e →
        ∃ c, e = .ofCollection c ∧ c.IsFiled ∧ ∀ part, part ∈ c.parts ↔ part ∈ children := by
    intro kind children h
    obtain ⟨c, hmake, rfl⟩ := exists_of_map h
    exact ⟨c, rfl, Collection.ofElements_spec hmake⟩
  match kind, h with
  | .ordered .list, h => exact ⟨.list children, (Except.ok.inj h).symm, trivial, fun _ => .rfl⟩
  | .ordered .vector, h => exact ⟨.vector children, (Except.ok.inj h).symm, trivial, fun _ => .rfl⟩
  | .keyed .set, h => exact made h
  | .keyed .map, h =>
    obtain ⟨pairs, hpairs, h⟩ := exists_of_bind h
    rw [Pair.ofFlat] at hpairs
    split at hpairs
    · next flat hflat =>
      cases hpairs
      rw [Element.map, Collection.ofPairs, flatten_ofFlat hflat] at h
      exact made h
    · cases hpairs

/-- An opening delimiter is that of a kind of collections. -/
theorem exists_kind_of_opening? {text : List Char} {rule : DelimiterRule}
    (h : standard.opening? text = some rule) : ∃ kind, rule = Grammar.collectionRule kind := by
  have hrule := List.mem_of_find?_eq_some h
  rw [Grammar.standard_eq] at hrule
  simp only [Grammar.delimiterRules, List.mem_cons, List.not_mem_nil, or_false] at hrule
  rcases hrule with rfl | rfl | rfl | rfl <;> exact ⟨_, rfl⟩

/-! ## Values -/

/-- Whatever is read is printable, and no deeper than the limit allows. -/
theorem ReadsValue.isPrintable {maxDepth depth : Nat} {k next : Cursor} {value : Element}
    (h : ReadsValue standard maxDepth depth k (.ok value next)) (hdepth : depth ≤ maxDepth) :
    value.Everywhere Element.IsPrintable ∧ depth + value.depth ≤ maxDepth := by
  refine ReadsValue.induction_ok
    (p := fun depth _ value _ => depth ≤ maxDepth →
      value.Everywhere Element.IsPrintable ∧ depth + value.depth ≤ maxDepth)
    (q := fun depth _ _ items _ => depth ≤ maxDepth → ∀ item ∈ items,
      item.Everywhere Element.IsPrintable ∧ depth + item.depth ≤ maxDepth)
    ?literal ?collection ?close ?item h hdepth
  case literal =>
    intro depth k payload tag value next htag hopen hread hdepth
    obtain ⟨hvalue, hliteral⟩ := isPrintable_of_readLiteral (isPlainTag_of_readTag htag) hread
    cases value with
    | scalar | symbol => exact ⟨.intro hvalue (List.forall_mem_nil _), hdepth⟩
    | collection => cases hliteral
  case collection =>
    intro depth k payload tag rule children value next htag hopen hdepth hitems hprocess ih _
    obtain ⟨kind, rfl⟩ := exists_kind_of_opening? hopen
    obtain ⟨e, hbuild, hprocess⟩ := exists_of_bind hprocess
    obtain ⟨c, rfl, hfiled, hparts⟩ := build_spec hbuild
    have hplain := isPlainTag_of_readTag htag
    obtain ⟨rfl, htag⟩ := eq_retag_of_tagged rfl hplain hprocess
    have hchildren := ih hdepth
    refine ⟨.intro ⟨⟨htag, hfiled⟩, hplain⟩ fun part hpart =>
      (hchildren part ((hparts part).1 hpart)).1, ?_⟩
    have hdeep : c.depth ≤ maxDepth - (depth + 1) + 1 := Collection.depth_le_iff.2 fun part hpart => by
      have := (hchildren part ((hparts part).1 hpart)).2
      omega
    show depth + c.depth ≤ maxDepth
    omega
  case close =>
    intro depth k rule hclose _
    exact List.forall_mem_nil _
  case item =>
    intro depth closer start k middle value items next hrest hclose hvalue hitems ihv ihi hdepth
    exact List.forall_mem_cons.2 ⟨ihv hdepth, ihi hdepth⟩

end Edn
