import Edn.Proofs.Grammar.Literals

/-!
# First characters and delimiters

What a text starts with tells what stands there: a literal, a collection, or
the end of one.

* `contains_literalSet`: the characters that literals start with.  None of
  them starts a delimiter or a tag.
* `opening?_opener` and `closing?_closer`: the delimiters of the notation are
  found where they stand.
* `closing?_eq_none`: no closing delimiter stands where a value starts.
-/

namespace Edn.Grammar

/-- The characters that literals start with. -/
def literalSet : CharSet :=
  ⟨[(33, 34), (36, 38), (42, 43), (45, 58), (60, 63), (65, 90), (92, 92), (95, 95), (97, 122)]⟩

/-- The characters that values start with: those of literals, the number sign of tags and sets, and
the opening delimiters. -/
def valueSet : CharSet :=
  ⟨[(33, 38), (40, 40), (42, 43), (45, 58), (60, 63), (65, 92), (95, 95), (97, 123)]⟩

theorem contains_valueSet {c : Char} (hc : literalSet.contains c = true) :
    valueSet.contains c = true :=
  CharSet.contains_of_within (show literalSet.within valueSet = true by decide) (by decide) hc

/-! ## Literals -/

theorem isSome_next?_of_longest? {S : Type} {m : Machine S} {state : S} {c : Char}
    {input : List Char} {length : Nat} (haccepts : m.accepts state = false)
    (h : m.longest? state (c :: input) = some length) : ∃ next, m.next? state c = some next := by
  cases hnext : m.next? state c with
  | none =>
    rw [longest?_of_next?_eq_none haccepts hnext] at h
    cases h
  | some next => exact ⟨next, rfl⟩

theorem head_of_wordLength? {c d : Char} {word input : List Char} {length : Nat}
    (h : wordLength? (d :: word) (c :: input) = some length) : c = d := by
  by_contra hne
  rw [wordLength?_eq_none hne] at h
  cases h

/-- A literal starts with a character of its set. -/
theorem contains_literalSet {c : Char} {input : List Char} {rule : LiteralRule} {length : Nat}
    (h : standard.longestMatch? (c :: input) = some (rule, length)) :
    literalSet.contains c = true := by
  obtain ⟨hrule, hend⟩ := literal_of_longestMatch? h
  have starts : ∀ {S : Type} {m : Machine S} {state : S}, m.accepts state = false →
      (∀ exit ∈ m.exits state, exit.1.within literalSet = true) →
      m.longest? state (c :: input) = some length → literalSet.contains c = true := by
    intro S m state haccepts hexits hlongest
    obtain ⟨next, hnext⟩ := isSome_next?_of_longest? haccepts hlongest
    obtain ⟨exit, hexit, hc, -⟩ := m.exists_exit hnext
    exact CharSet.contains_of_within (hexits exit hexit) (by decide) hc
  rcases mem_literalRules_iff.1 hrule with rfl | rfl | rfl | rfl | rfl | rfl | rfl | rfl | rfl
  · rw [matchEnd?_nil] at hend
    rw [head_of_wordLength? hend]
    decide
  · rw [matchEnd?_true] at hend
    rw [head_of_wordLength? hend]
    decide
  · rw [matchEnd?_false] at hend
    rw [head_of_wordLength? hend]
    decide
  · exact starts rfl (by decide) ((matchEnd?_integer _).symm.trans hend)
  · exact starts rfl (by decide) ((matchEnd?_float _).symm.trans hend)
  · have hslash : c = '\\' := by
      by_contra hne
      rw [character_fails hne] at hend
      cases hend
    rw [hslash]
    decide
  · exact starts rfl (by decide) ((matchEnd?_symbol _).symm.trans hend)
  · exact starts rfl (by decide) ((matchEnd?_keyword _).symm.trans hend)
  · exact starts rfl (by decide) ((matchEnd?_string _).symm.trans hend)

/-! ## Delimiters -/

/-- An opening delimiter is found where it stands. -/
theorem opening?_opener (kind : CollectionKind) (rest : List Char) :
    standard.opening? (kind.opener ++ rest) = some (collectionRule kind) := by
  rw [standard_eq]
  cases kind <;> rename_i k <;> cases k <;> rfl

/-- A closing delimiter is found where it stands. -/
theorem closing?_closer (kind : CollectionKind) (rest : List Char) :
    ∃ rule, standard.closing? (kind.closer ++ rest) = some rule ∧ rule.closer = kind.closer := by
  rw [standard_eq]
  cases kind <;> rename_i k <;> cases k <;> exact ⟨_, rfl, rfl⟩

theorem opening?_eq_none {c : Char} {rest : List Char} (hc : literalSet.contains c = true) :
    standard.opening? (c :: rest) = none := by
  have hne : ∀ {d : Char}, literalSet.contains d = false → d ≠ c := by
    rintro d hd rfl
    rw [hc] at hd
    cases hd
  rw [standard_eq]
  simp [opening?, delimiterRules, collectionRule, delimiterRule, CollectionKind.opener,
    @hne '#' rfl, @hne '(' rfl, @hne '[' rfl, @hne '\x7b' rfl]

theorem closing?_eq_none {c : Char} {rest : List Char} (hc : valueSet.contains c = true) :
    standard.closing? (c :: rest) = none := by
  have hne : ∀ {d : Char}, valueSet.contains d = false → d ≠ c := by
    rintro d hd rfl
    rw [hc] at hd
    cases hd
  rw [standard_eq]
  simp [closing?, delimiterRules, collectionRule, delimiterRule, CollectionKind.closer,
    @hne ')' rfl, @hne ']' rfl, @hne '\x7d' rfl]

end Edn.Grammar
