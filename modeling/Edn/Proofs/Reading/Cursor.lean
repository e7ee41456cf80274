import Edn.Reading.Cursor

/-!
# Moving a cursor

A cursor moves forward over characters, and all that it leaves behind is what
it has moved over.

* `Cursor.Reaches` says that a cursor moves to another one.  The characters
  between them determine the way (`Cursor.Reaches.exists_taken`).
* `Cursor.skipWhile_eq` and `Cursor.skipTrivia_eq` say where a cursor stops
  that skips what stands in front of a value.
* `IsTrivia` is the text that is skipped between the values of a collection.
-/

namespace Edn

namespace Cursor

/-! ## Advancing -/

theorem advance_advance (k : Cursor) (m n : Nat) : (k.advance m).advance n = k.advance (m + n) := by
  induction m generalizing k with
  | zero => rw [Nat.zero_add, advance]
  | succ m ih => rw [Nat.succ_add, advance, advance, ih]

theorem rest_advance_of_eq {k : Cursor} {before after : List Char} (hk : k.rest = before ++ after) :
    (k.advance before.length).rest = after := by
  rw [rest_advance, hk, List.drop_left]

/-- At the end of the text a cursor does not move. -/
theorem advance_of_rest_eq_nil {k : Cursor} (hk : k.rest = []) (n : Nat) : k.advance n = k := by
  have hnext : k.next = k := by
    unfold next
    rw [hk]
  induction n with
  | zero => rfl
  | succ n ih => rw [advance, hnext, ih]

theorem position_le_next (k : Cursor) : k.position ≤ k.next.position := by
  unfold next
  split
  · exact Nat.le_refl _
  · split <;> exact Nat.le_add_right _ _

theorem position_next_lt {k : Cursor} (hk : k.rest ≠ []) : k.position < k.next.position := by
  unfold next
  split
  · contradiction
  · next c rest _ =>
    have := c.utf8Size_pos
    split <;> exact Nat.lt_add_of_pos_right this

/-! ## Reaching -/

/-- The cursor moves to another one. -/
def Reaches (k next : Cursor) : Prop :=
  ∃ n, next = k.advance n

theorem Reaches.refl (k : Cursor) : k.Reaches k :=
  ⟨0, rfl⟩

theorem Reaches.trans {k next last : Cursor} (h : k.Reaches next) (h' : next.Reaches last) :
    k.Reaches last := by
  obtain ⟨m, rfl⟩ := h
  obtain ⟨n, rfl⟩ := h'
  exact ⟨m + n, advance_advance k m n⟩

theorem reaches_advance (k : Cursor) (n : Nat) : k.Reaches (k.advance n) :=
  ⟨n, rfl⟩

/-- A cursor that moves leaves some characters behind, and moves over exactly these. -/
theorem Reaches.exists_taken {k next : Cursor} (h : k.Reaches next) :
    ∃ taken, k.rest = taken ++ next.rest ∧ next = k.advance taken.length := by
  obtain ⟨n, rfl⟩ := h
  refine ⟨k.rest.take n, by rw [rest_advance, List.take_append_drop], ?_⟩
  by_cases hn : n ≤ k.rest.length
  · rw [List.length_take, Nat.min_eq_left hn]
  · have hall : (k.advance k.rest.length).rest = [] := by
      rw [rest_advance, List.drop_length]
    have hlength : k.rest.length ≤ n := by omega
    obtain ⟨more, rfl⟩ := Nat.exists_eq_add_of_le hlength
    rw [List.take_of_length_le hlength, ← advance_advance, advance_of_rest_eq_nil hall]

/-- The characters between two cursors determine the way from one to the other. -/
theorem Reaches.eq_advance {k next : Cursor} {taken : List Char} (h : k.Reaches next)
    (hrest : k.rest = taken ++ next.rest) : next = k.advance taken.length := by
  obtain ⟨way, hway, hnext⟩ := h.exists_taken
  rw [hrest] at hway
  rw [List.append_cancel_right hway]
  exact hnext

/-- A cursor does not move back. -/
theorem Reaches.position_le {k next : Cursor} (h : k.Reaches next) : k.position ≤ next.position := by
  obtain ⟨n, rfl⟩ := h
  induction n generalizing k with
  | zero => exact Nat.le_refl _
  | succ n ih => exact Nat.le_trans k.position_le_next ih

/-! ## Skipping -/

theorem reaches_skipWhile (p : Char → Bool) (k : Cursor) : k.Reaches (k.skipWhile p) :=
  k.reaches_advance _

theorem reaches_skipTrivia (k : Cursor) : k.Reaches k.skipTrivia :=
  k.reaches_advance _

/-- Characters that satisfy `p` are skipped up to the first that does not. -/
theorem skipWhile_eq {p : Char → Bool} {k : Cursor} {before after : List Char}
    (hk : k.rest = before ++ after) (hbefore : ∀ c ∈ before, p c = true)
    (hafter : ∀ c ∈ after.head?, p c = false) : k.skipWhile p = k.advance before.length := by
  have htake : after.takeWhile p = [] := by
    cases after with
    | nil => rfl
    | cons c after => simp [hafter c rfl]
  rw [skipWhile, hk, List.takeWhile_append_of_pos hbefore, htake, List.append_nil]

/-- What is skipped are the characters in front of the first that does not satisfy `p`. -/
theorem rest_skipWhile (p : Char → Bool) (k : Cursor) :
    (k.skipWhile p).rest = k.rest.dropWhile p := by
  have hsplit : k.rest = k.rest.takeWhile p ++ k.rest.dropWhile p :=
    List.takeWhile_append_dropWhile.symm
  exact rest_advance_of_eq hsplit

end Cursor

/-! ## Trivia -/

/-- Blanks and comments, each of which ends with its line. -/
inductive IsTrivia : List Char → Prop where
  | nil : IsTrivia []
  | blank {c : Char} {rest : List Char} (hc : Cursor.isBlank c = true) (hrest : IsTrivia rest) :
      IsTrivia (c :: rest)
  | comment {text rest : List Char} (htext : ∀ c ∈ text, Span.inLine c = true)
      (hrest : IsTrivia rest) : IsTrivia (';' :: text ++ '\n' :: rest)

theorem IsTrivia.of_blank {text : List Char} (h : ∀ c ∈ text, Cursor.isBlank c = true) :
    IsTrivia text := by
  induction text with
  | nil => exact .nil
  | cons c rest ih =>
    obtain ⟨hc, hrest⟩ := List.forall_mem_cons.1 h
    exact .blank hc (ih hrest)

namespace Cursor

/-- Inside a comment, everything up to the end of the line is skipped. -/
theorem triviaLength_comment {text rest : List Char} (htext : ∀ c ∈ text, Span.inLine c = true)
    (taken : Nat) : triviaLength true taken (text ++ '\n' :: rest) =
      triviaLength false (taken + text.length + 1) rest := by
  induction text generalizing taken with
  | nil => rfl
  | cons c text ih =>
    obtain ⟨hc, htext⟩ := List.forall_mem_cons.1 htext
    have hlength : taken + 1 + text.length = taken + (text.length + 1) := by omega
    rw [List.cons_append, triviaLength, if_pos rfl, hc, ih htext, List.length_cons, hlength]

theorem triviaLength_eq {before after : List Char} (hbefore : IsTrivia before)
    (hafter : ∀ c ∈ after.head?, isBlank c = false ∧ c ≠ ';') (taken : Nat) :
    triviaLength false taken (before ++ after) = taken + before.length := by
  induction hbefore generalizing taken with
  | nil =>
    cases after with
    | nil => rfl
    | cons c after =>
      obtain ⟨hblank, hcomment⟩ := hafter c rfl
      simp [triviaLength, hblank, hcomment]
  | @blank c rest hc hrest ih =>
    rw [List.cons_append, triviaLength, if_neg Bool.false_ne_true, if_pos hc, ih,
      List.length_cons]
    omega
  | @comment text rest htext hrest ih =>
    have hsemicolon : isBlank ';' = false := by decide
    rw [List.append_assoc, List.cons_append, List.cons_append, triviaLength,
      if_neg Bool.false_ne_true, hsemicolon, if_neg Bool.false_ne_true, if_pos rfl,
      triviaLength_comment htext, ih]
    simp only [List.cons_append, List.length_cons, List.length_append]
    omega

/-- Trivia are skipped up to the first character that starts neither a blank nor a comment. -/
theorem skipTrivia_eq {k : Cursor} {before after : List Char} (hk : k.rest = before ++ after)
    (hbefore : IsTrivia before) (hafter : ∀ c ∈ after.head?, isBlank c = false ∧ c ≠ ';') :
    k.skipTrivia = k.advance before.length := by
  rw [skipTrivia, hk, triviaLength_eq hbefore hafter, Nat.zero_add]

end Cursor

end Edn
