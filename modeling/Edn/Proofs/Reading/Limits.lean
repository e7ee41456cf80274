import Edn.Proofs.Reading.Places
import Edn.Proofs.Reading.Values

/-!
# Limits only filter

Limits decide whether a text is read, and never what is read.

* `ReadsValue.limited` compares two greatest depths.  Where nothing is too
  deep for the one, the outcome under the other is the same, or the error of
  a value that is too deep.
* `ReadsValue.of_depth_le`: a value that is no deeper than allowed is read
  under every greatest depth.
* `scanValue_limited`, `nextToken_limited` and `Reader.valuesFrom_limited`
  put both together for values, tokens and texts.
* `Reader.parse_limited` is the result.
-/

namespace Edn

open Grammar (standard)

/-- The outcome is the error of collections that nest too deeply. -/
def Outcome.IsTooDeep {α : Type} (maxDepth : Nat) (o : Outcome α) : Prop :=
  ∃ place, o.result = .error ⟨place, .limitExceeded (.depth maxDepth)⟩

/-! ## Another greatest depth -/

section Depths

variable {g : Grammar} {free depth : Nat} {k : Cursor}

theorem Outcome.IsTooDeep.buildCollection {maxDepth : Nat} {rule : DelimiterRule} {tag : String}
    {start : Span} {items : Outcome (List Element)} (h : items.IsTooDeep maxDepth) :
    (buildCollection rule tag start items).IsTooDeep maxDepth := by
  obtain ⟨result, next⟩ := items
  obtain ⟨place, rfl⟩ := h
  exact ⟨place, rfl⟩

theorem Outcome.IsTooDeep.afterItems {maxDepth : Nat} {read : List Element}
    {items : Outcome (List Element)} (h : items.IsTooDeep maxDepth) :
    (afterItems read items).IsTooDeep maxDepth := by
  obtain ⟨result, next⟩ := items
  obtain ⟨place, rfl⟩ := h
  exact ⟨place, rfl⟩

/-- Every opening delimiter takes a character.  So nothing nests deeper than the text is long, and a
greatest depth beyond that length changes no outcome. -/
theorem ReadsValue.limited {o : Outcome Element} (h : ReadsValue g free depth k o)
    (hfree : depth + k.rest.length ≤ free) (maxDepth : Nat) :
    ∃ o', ReadsValue g maxDepth depth k o' ∧ (o' = o ∨ o'.IsTooDeep maxDepth) := by
  refine @ReadsValue.rec g free
    (fun depth k o _ => depth + k.rest.length ≤ free →
      ∃ o', ReadsValue g maxDepth depth k o' ∧ (o' = o ∨ o'.IsTooDeep maxDepth))
    (fun depth closer start k o _ => depth + k.rest.length ≤ free →
      ∃ o', ReadsItems g maxDepth depth closer start k o' ∧ (o' = o ∨ o'.IsTooDeep maxDepth))
    ?badTag ?literal ?tooDeep ?collection ?unterminated ?close ?mismatched ?badItem ?item
    depth k o h hfree
  case badTag =>
    intro depth k next m htag _
    exact ⟨_, .badTag htag, .inl rfl⟩
  case literal =>
    intro depth k next tag htag hopen _
    exact ⟨_, .literal htag hopen, .inl rfl⟩
  case tooDeep =>
    intro depth k next tag rule htag hopen hdepth hfree
    have hlt := rest_after_opener_lt htag hopen
    omega
  case collection =>
    intro depth k next tag rule items htag hopen hdepth hitems ih hfree
    by_cases hdeep : maxDepth ≤ depth
    · exact ⟨_, .tooDeep htag hopen hdeep, .inr ⟨_, rfl⟩⟩
    · have hlt := rest_after_opener_lt htag hopen
      obtain ⟨items', hitems', hsame⟩ := ih (by omega)
      refine ⟨_, .collection htag hopen (Nat.lt_of_not_le hdeep) hitems', ?_⟩
      rcases hsame with rfl | hdeep
      · exact .inl rfl
      · exact .inr hdeep.buildCollection
  case unterminated =>
    intro depth closer start k hrest _
    exact ⟨_, .unterminated hrest, .inl rfl⟩
  case close =>
    intro depth closer start k rule hclose hcloser _
    exact ⟨_, .close hclose hcloser, .inl rfl⟩
  case mismatched =>
    intro depth closer start k rule hclose hcloser _
    exact ⟨_, .mismatched hclose hcloser, .inl rfl⟩
  case badItem =>
    intro depth closer start k next m hrest hclose hvalue ih hfree
    have hskip : k.skipTrivia.rest.length ≤ k.rest.length := k.length_rest_advance_le _
    obtain ⟨o', hvalue', rfl | hdeep⟩ := ih (by omega)
    · exact ⟨_, .badItem hrest hclose hvalue', .inl rfl⟩
    · obtain ⟨result, next'⟩ := o'
      obtain ⟨place, rfl⟩ := hdeep
      exact ⟨_, .badItem hrest hclose hvalue', .inr ⟨place, rfl⟩⟩
  case item =>
    intro depth closer start k next value items hrest hclose hvalue hitems ihv ihi hfree
    have hskip : k.skipTrivia.rest.length ≤ k.rest.length := k.length_rest_advance_le _
    have hlt := hvalue.shortens
    obtain ⟨o', hvalue', rfl | hdeep⟩ := ihv (by omega)
    · obtain ⟨items', hitems', hsame⟩ := ihi (by omega)
      refine ⟨_, .item hrest hclose hvalue' hitems', ?_⟩
      rcases hsame with rfl | hdeep
      · exact .inl rfl
      · exact .inr hdeep.afterItems
    · obtain ⟨result, next'⟩ := o'
      obtain ⟨place, rfl⟩ := hdeep
      exact ⟨_, .badItem hrest hclose hvalue', .inr ⟨place, rfl⟩⟩

/-- The children of a collection that is built are less deep than it. -/
theorem depth_lt_of_process {kind : CollectionKind} {tag : String} {children : List Element}
    {value : Element} (hplain : isPlainTag tag = true)
    (h : (Grammar.collectionRule kind).process tag children = .ok value) :
    0 < value.depth ∧ ∀ child ∈ children, child.depth + 1 ≤ value.depth := by
  obtain ⟨e, hbuild, htagged⟩ := exists_of_bind h
  obtain ⟨c, rfl, -, hparts⟩ := build_spec hbuild
  obtain ⟨rfl, -⟩ := eq_retag_of_tagged rfl hplain htagged
  have hpos : 0 < c.depth := c.depth_pos
  refine ⟨hpos, fun child hchild => ?_⟩
  have hdepth := Collection.depth_le_iff.1 (show c.depth ≤ (c.depth - 1) + 1 by omega) child
    ((hparts child).2 hchild)
  show child.depth + 1 ≤ c.depth
  omega

/-- A value that is read is read under any greatest depth, and at any depth, that leaves room for its
own. -/
theorem ReadsValue.of_depth_le {value : Element} {next : Cursor} {maxDepth outer : Nat}
    (h : ReadsValue standard free depth k (.ok value next)) (hle : outer + value.depth ≤ maxDepth) :
    ReadsValue standard maxDepth outer k (.ok value next) := by
  refine ReadsValue.induction_ok
    (p := fun _ k value next => ∀ {outer : Nat}, outer + value.depth ≤ maxDepth →
      ReadsValue standard maxDepth outer k (.ok value next))
    (q := fun _ closer k items next => ∀ {outer : Nat},
      (∀ item ∈ items, outer + item.depth ≤ maxDepth) →
        ∀ start, ReadsItems standard maxDepth outer closer start k (.ok items next))
    ?literal ?collection ?close ?item h hle
  case literal =>
    intro depth k payload tag value next htag hopen hread outer _
    rw [← hread]
    exact .literal htag hopen
  case collection =>
    intro depth k payload tag rule children value next htag hopen hdepth hitems hprocess ih outer hle
    obtain ⟨kind, rfl⟩ := exists_kind_of_opening? hopen
    obtain ⟨hpos, hchildren⟩ := depth_lt_of_process (isPlainTag_of_readTag htag) hprocess
    have hroom : ∀ child ∈ children, (outer + 1) + child.depth ≤ maxDepth := by
      intro child hchild
      have := hchildren child hchild
      omega
    rw [← buildCollection_ok hprocess]
    exact .collection htag hopen (by omega) (ih hroom k.mark)
  case close =>
    intro depth k rule hclose outer _ start
    exact .close hclose rfl
  case item =>
    intro depth closer start k middle value items next hrest hclose hvalue hitems ihv ihi outer hle
      start
    obtain ⟨hvalueDepth, hrestDepth⟩ := List.forall_mem_cons.1 hle
    exact .item hrest hclose (ihv hvalueDepth) (ihi hrestDepth start)

end Depths

/-! ## Values and tokens -/

section Tokens

variable {limits free : Limits} {k : Cursor}

/-- Under another greatest depth, the scanner has the same outcome, or refuses a value that is too
deep. -/
theorem scanValue_limited {maxDepth free : Nat} (hfree : k.rest.length ≤ free) :
    scanValue standard maxDepth k = scanValue standard free k ∨
      (scanValue standard maxDepth k).IsTooDeep maxDepth ∧
        ∀ value next, scanValue standard free k = .ok value next → maxDepth < value.depth := by
  have hread := @readsValue_scanValue standard free k
  obtain ⟨o, ho, hsame⟩ := hread.limited (by rwa [Nat.zero_add]) maxDepth
  rw [ho.scanValue_eq]
  refine hsame.imp_right fun hdeep => ⟨hdeep, fun value next hvalue => ?_⟩
  by_contra hle
  rw [hvalue] at hread
  have hvalue' : ReadsValue standard maxDepth 0 k (.ok value next) := hread.of_depth_le (by omega)
  rw [← ho.scanValue_eq, hvalue'.scanValue_eq] at hdeep
  obtain ⟨place, hplace⟩ := hdeep
  cases hplace

theorem Outcome.IsTooDeep.valueToken {g : Grammar}
    (h : (scanValue g limits.maxDepth k).IsTooDeep limits.maxDepth) :
    (valueToken g limits k).IsTooDeep limits.maxDepth := by
  obtain ⟨place, hplace⟩ := h
  refine ⟨place, ?_⟩
  rw [Edn.valueToken]
  cases hscan : scanValue g limits.maxDepth k with
  | mk result next =>
    rw [hscan] at hplace
    cases hplace
    rfl

/-- So does the reader of tokens. -/
theorem nextToken_limited (hfree : k.rest.length ≤ free.maxDepth) :
    nextToken standard limits k = nextToken standard free k ∨
      (nextToken standard limits k).IsTooDeep limits.maxDepth ∧
        ∀ token next, nextToken standard free k = .ok token next →
          ∃ value, token.kind = .value value ∧ limits.maxDepth < value.depth := by
  have hskip : k.skipBlanks.rest.length ≤ free.maxDepth :=
    Nat.le_trans (k.length_rest_advance_le _) hfree
  unfold nextToken tokenAt
  split
  · exact .inl rfl
  · exact .inl rfl
  · split
    · exact .inl rfl
    · rcases @scanValue_limited k.skipBlanks limits.maxDepth free.maxDepth hskip with hsame | hdeep
      · left
        rw [valueToken, hsame, valueToken]
      · obtain ⟨hdeep, hvalue⟩ := hdeep
        refine .inr ⟨hdeep.valueToken, fun token next htoken => ?_⟩
        unfold valueToken at htoken
        split at htoken
        · cases htoken
        · next value after heq =>
          cases htoken
          exact ⟨value, rfl, hvalue value next heq⟩

end Tokens

/-! ## Texts -/

namespace Reader

/-- The reader of the notation with the given limits. -/
def within (limits : Limits) : Reader :=
  ⟨.standard, limits⟩

theorem grammar_within (limits : Limits) : (within limits).grammar = .standard := by
  rw [within]

variable {limits free : Limits} {k : Cursor}

/-- Under other limits, a text has the same values, or is refused because one of them is too deep. -/
theorem valuesFrom_limited (read : List (Element × Span))
    (hfree : k.rest.length ≤ free.maxDepth) :
    (within limits).valuesFrom read k = (within free).valuesFrom read k ∨
      (∃ place, (within limits).valuesFrom read k =
        .error ⟨place, .limitExceeded (.depth limits.maxDepth)⟩) ∧
          ∀ values stop, (within free).valuesFrom read k = .ok (values, stop) →
            ∃ item ∈ values, limits.maxDepth < item.1.depth := by
  induction hn : k.rest.length using Nat.strongRecOn generalizing k read with
  | ind n ih =>
    subst hn
    rw [valuesFrom_eq (within limits), valuesFrom_eq (within free)]
    dsimp only [within]
    rcases @nextToken_limited limits free k hfree with hsame | ⟨⟨place, hplace⟩, hdeep⟩
    · rw [hsame]
      cases htoken : nextToken .standard free k with
      | mk result next =>
        cases result with
        | error m => exact .inl rfl
        | ok token =>
          have hshorter : token.kind.isEnd = false → next.rest.length < k.rest.length :=
            nextToken_shortens htoken
          dsimp only
          cases hkind : token.kind with
          | endOfInput => exact .inl rfl
          | close closer => exact .inl rfl
          | comment text =>
            have hlt := hshorter (by rw [hkind]; rfl)
            exact ih _ hlt read (by omega) rfl
          | value value =>
            have hlt := hshorter (by rw [hkind]; rfl)
            exact ih _ hlt _ (by omega) rfl
    · refine .inr ⟨⟨place, ?_⟩, fun values stop h => ?_⟩
      · cases htoken : nextToken .standard limits k with
        | mk result next =>
          rw [htoken] at hplace
          cases hplace
          rfl
      · cases htoken : nextToken .standard free k with
        | mk result next =>
          rw [htoken] at h
          cases result with
          | error m => cases h
          | ok token =>
            obtain ⟨value, hkind, hvalue⟩ := hdeep token next htoken
            dsimp only at h
            rw [hkind] at h
            have hmem := (reverse_prefix_of_valuesFrom h).subset (List.mem_reverse.2 List.mem_cons_self)
            exact ⟨_, hmem, hvalue⟩

/-! ## The value of a text -/

/-- Under other limits, the same value is found in a text, or it is refused as too deep. -/
theorem readOne_limited {source : String} (hfree : source.toList.length ≤ free.maxDepth) :
    (within limits).readOne source = (within free).readOne source ∨
      (∃ place, (within limits).readOne source =
        .error ⟨place, .limitExceeded (.depth limits.maxDepth)⟩) ∧
          ∀ found, (within free).readOne source = .ok found → limits.maxDepth < found.1.depth := by
  unfold readOne
  rcases @valuesFrom_limited limits free (.start source.toList) [] hfree with
    hsame | ⟨⟨place, hplace⟩, hdeep⟩
  · exact .inl (by rw [hsame])
  · refine .inr ⟨⟨place, by rw [hplace]; rfl⟩, fun found h => ?_⟩
    obtain ⟨⟨values, stop⟩, hvalues, honly⟩ := exists_of_bind h
    obtain ⟨item, hitem, hdepth⟩ := hdeep values stop hvalues
    rw [eq_of_onlyValue honly, List.mem_singleton] at hitem
    rw [← hitem]
    exact hdepth

/-- The result is the error of collections that nest too deeply. -/
def IsDepthError (maxDepth : Nat) (result : Except Error Element) : Prop :=
  ∃ place, result = .error (.one ⟨.limitExceeded (.depth maxDepth), some place⟩)

/-- Under other limits, a text that is not too long has the same result, or is refused because its
value is too deep. -/
theorem parse_limited_of_length {source : String} (hfree : source.toList.length ≤ free.maxDepth)
    (hlength : (within limits).lengthError? source = none)
    (hlength' : (within free).lengthError? source = none) :
    (within limits).parse source = (within free).parse source ∨
      IsDepthError limits.maxDepth ((within limits).parse source) ∧
        ∀ e, (within free).parse source = .ok e → limits.maxDepth < e.depth := by
  rw [parse_eq hlength, parse_eq hlength']
  rcases @readOne_limited limits free source hfree with hsame | ⟨⟨place, hplace⟩, hdeep⟩
  · exact .inl (by rw [hsame])
  · refine .inr ⟨⟨_, by rw [hplace]; rfl⟩, fun e h => ?_⟩
    obtain ⟨found, hmap, rfl⟩ := exists_of_map h
    exact hdeep found (eq_ok_of_mapError hmap)

/-- Limits only filter: of the result that a text has where no limit is reached, they leave everything
as it is, or replace it by the error of the limit.  That is the length first, and then, for a text that
has a value, exactly whether the value is too deep.  So a value that is accepted stays the same under
all weaker limits. -/
theorem parse_limited (limits : Limits) (source : String) {depth : Nat}
    (hdepth : source.utf8ByteSize ≤ depth) :
    (∀ limit ∈ limits.maxLength, limit < source.utf8ByteSize →
      (within limits).parse source =
        .error (.limitExceeded (.length limit source.utf8ByteSize))) ∧
    ((∀ limit ∈ limits.maxLength, source.utf8ByteSize ≤ limit) →
      (∀ e, (within ⟨depth, none⟩).parse source = .ok e →
        (e.depth ≤ limits.maxDepth → (within limits).parse source = .ok e) ∧
          (limits.maxDepth < e.depth →
            IsDepthError limits.maxDepth ((within limits).parse source))) ∧
      ∀ error, (within ⟨depth, none⟩).parse source = .error error →
        (within limits).parse source = .error error ∨
          IsDepthError limits.maxDepth ((within limits).parse source)) ∧
    ∀ weaker : Limits, limits.maxDepth ≤ weaker.maxDepth →
      (∀ limit ∈ weaker.maxLength, ∃ stronger ∈ limits.maxLength, stronger ≤ limit) →
        ∀ e, (within limits).parse source = .ok e → (within weaker).parse source = .ok e := by
  have hfree : source.toList.length ≤ depth := by
    rw [Grammar.utf8ByteSize_eq] at hdepth
    exact Nat.le_trans (Grammar.length_le_byteLength _) hdepth
  have filters : ∀ other : Limits, (∀ limit ∈ other.maxLength, source.utf8ByteSize ≤ limit) →
      (within other).parse source = (within ⟨depth, none⟩).parse source ∨
        IsDepthError other.maxDepth ((within other).parse source) ∧
          ∀ e, (within ⟨depth, none⟩).parse source = .ok e → other.maxDepth < e.depth :=
    fun other hlength =>
      parse_limited_of_length hfree (lengthError?_eq_none_iff.2 hlength) rfl
  refine ⟨?_, ?_, ?_⟩
  · intro limit hlimit hlt
    have herror : (within limits).lengthError? source =
        some (.limitExceeded (.length limit source.utf8ByteSize)) := by
      rw [lengthError?, show (within limits).limits.maxLength = some limit from hlimit]
      exact if_pos hlt
    rw [parse, readWithin, herror]
    rfl
  · intro hlength
    rcases filters limits hlength with hsame | ⟨hdeep, hvalue⟩
    · refine ⟨fun e h => ⟨fun _ => hsame.trans h, fun hlt => ?_⟩, fun error h => .inl (hsame.trans h)⟩
      have hle := (isPrintable_of_parse rfl (hsame.trans h)).2
      exact absurd hlt (Nat.not_lt.2 hle)
    · refine ⟨fun e h => ⟨fun hle => ?_, fun _ => hdeep⟩, fun error _ => .inr hdeep⟩
      exact absurd (hvalue e h) (Nat.not_lt.2 hle)
  · intro weaker hle hweaker e h
    have hlength := lengthError?_eq_none_iff.1 (lengthError?_of_parse h)
    have hlength' : ∀ limit ∈ weaker.maxLength, source.utf8ByteSize ≤ limit := by
      intro limit hlimit
      obtain ⟨stronger, hstronger, hle⟩ := hweaker limit hlimit
      exact Nat.le_trans (hlength stronger hstronger) hle
    rcases filters limits hlength with hsame | ⟨⟨place, hdeep⟩, -⟩
    · rcases filters weaker hlength' with hsame' | ⟨-, hvalue⟩
      · rw [hsame', ← hsame, h]
      · have hlt := hvalue e (hsame.symm.trans h)
        have hdepth : e.depth ≤ limits.maxDepth := (isPrintable_of_parse rfl h).2
        omega
    · rw [h] at hdeep
      cases hdeep

/-- The element of `[[]]`. -/
def nested : Element :=
  .vector [.vector []]

theorem parse_nested : (within ⟨4, none⟩).parse "[[]]" = .ok nested := by
  have hprintable : nested.Everywhere Element.IsPrintable := by
    simp [nested, Element.vector, Collection.vector, Element.ofCollection,
      Element.everywhere_ordered, Element.IsPrintable, Element.IsRegular, Element.IsLegible,
      Collection.IsFiled]
    decide
  exact @parse_text (within ⟨4, none⟩) nested rfl hprintable (by decide) "[[]]" [] rfl
    (List.forall_mem_nil _) rfl

theorem parse_limited_nested :
    "[[]]".utf8ByteSize ≤ 4 ∧ (within ⟨2, some 4⟩).parse "[[]]" = .ok nested ∧
      IsDepthError 1 ((within ⟨1, some 4⟩).parse "[[]]") ∧
        (within ⟨2, some 3⟩).parse "[[]]" = .error (.limitExceeded (.length 3 4)) := by
  have hsize : "[[]]".utf8ByteSize ≤ 4 := by decide
  have hlength : ∀ limit ∈ some 4, "[[]]".utf8ByteSize ≤ limit := by simp [hsize]
  obtain ⟨-, haccepts, -⟩ := parse_limited ⟨2, some 4⟩ "[[]]" hsize
  obtain ⟨-, hrefuses, -⟩ := parse_limited ⟨1, some 4⟩ "[[]]" hsize
  obtain ⟨htooLong, -, -⟩ := parse_limited ⟨2, some 3⟩ "[[]]" hsize
  exact ⟨hsize, ((haccepts hlength).1 nested parse_nested).1 (by decide),
    ((hrefuses hlength).1 nested parse_nested).2 (by decide), htooLong 3 rfl (by decide)⟩

end Reader

end Edn
