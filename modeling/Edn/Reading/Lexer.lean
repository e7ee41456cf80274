import Edn.Reading.Scanner
import Edn.Reading.Token

/-!
# Reading tokens

`nextToken` reads the token after the blanks at a cursor.  A token that is
not the end of the text shortens the rest (`nextToken_shortens`), so a text
has finitely many tokens.

A token may be asked for after an error as well; reading goes on where the
cursor was left.  `tokensFrom` goes on in this way after a given number of
errors, and `tokens` stops at the first.
-/

namespace Edn

/-! ## One token -/

/-- Reads a value as a token. -/
def valueToken (g : Grammar) (limits : Limits) (k : Cursor) : Outcome Token :=
  match scanValue g limits.maxDepth k with
  | ⟨.error m, next⟩ => .error m next
  | ⟨.ok value, next⟩ => .ok ⟨.value value, next.spanFrom k.mark⟩ next

/-- Reads the token at a cursor. -/
def tokenAt (g : Grammar) (limits : Limits) (k : Cursor) : Outcome Token :=
  match k.rest with
  | [] => .ok ⟨.endOfInput, k.mark⟩ k
  | ';' :: _ =>
    let next := k.skipWhile Span.inLine
    .ok ⟨.comment (k.rest.takeWhile Span.inLine), next.spanFrom k.mark⟩ next
  | _ =>
    match g.closing? k.rest with
    | some rule =>
      let next := k.advance rule.closer.length
      .ok ⟨.close rule.closer, next.spanFrom k.mark⟩ next
    | none => valueToken g limits k

/-- Reads the token after the blanks at a cursor. -/
def nextToken (g : Grammar) (limits : Limits) (k : Cursor) : Outcome Token :=
  tokenAt g limits k.skipBlanks

/-! ## Progress -/

/-- Scanning ends at the cursor behind the value that ends it. -/
theorem settle_finished {frames : List Frame} {value : Element} {next : Cursor}
    {o : Outcome Element} (h : settle frames value next = .finished o) : o.next = next := by
  unfold settle at h
  split at h <;> cases h
  rfl

/-- A literal that ends scanning shortens the rest of the text. -/
theorem literalTurn_takes {g : Grammar} {frames : List Frame} {tag : String} {k next : Cursor}
    {value : Element} (h : literalTurn g frames tag k = .finished ⟨.ok value, next⟩) :
    next.rest.length < k.rest.length := by
  unfold literalTurn at h
  split at h
  · cases h
  · next rule length hmatch =>
    split at h
    · cases h
    · have hnext := settle_finished h
      simp only at hnext
      rw [hnext]
      refine Cursor.length_rest_advance_lt (Grammar.longestMatch?_pos hmatch) fun hnil => ?_
      rw [hnil, Grammar.longestMatch?_nil] at hmatch
      cases hmatch

/-- A literal after its tag that ends scanning shortens the rest of the text. -/
theorem valueTurn_takes {g : Grammar} {maxDepth : Nat} {frames : List Frame} {k next : Cursor}
    {value : Element} (h : valueTurn g maxDepth frames k = .finished ⟨.ok value, next⟩) :
    next.rest.length < k.rest.length := by
  have hle := next_readTag_le g k
  unfold valueTurn at h
  split at h
  · cases h
  · next tag after heq =>
    rw [heq] at hle
    split at h
    · unfold openTurn at h
      split at h <;> cases h
    · exact Nat.lt_of_lt_of_le (literalTurn_takes h) hle

/-- A step that completes the outermost value shortens the rest of the text. -/
theorem turn_takes {g : Grammar} {maxDepth : Nat} {frames : List Frame} {k next : Cursor}
    {value : Element} (h : turn g maxDepth frames k = .finished ⟨.ok value, next⟩) :
    next.rest.length < k.rest.length := by
  unfold turn at h
  split at h
  · exact valueTurn_takes h
  · next frame outer =>
    have hle : k.skipTrivia.rest.length ≤ k.rest.length := Cursor.length_rest_advance_le _ _
    dsimp only at h
    split at h
    · cases h
    · split at h
      · next rule hclose =>
        split at h
        · unfold closeTurn at h
          split at h
          · cases h
          · have hnext := settle_finished h
            simp only at hnext
            rw [hnext]
            exact Nat.lt_of_lt_of_le (Cursor.length_rest_advance_lt
              (List.length_pos_iff.2 rule.closer_ne_nil) (closing_rest_ne_nil hclose)) hle
        · cases h
      · exact Nat.lt_of_lt_of_le (valueTurn_takes h) hle

/-- A value takes at least one character. -/
theorem scanFrom_takes {g : Grammar} {maxDepth : Nat} {frames : List Frame} {k next : Cursor}
    {value : Element} (h : scanFrom g maxDepth frames k = ⟨.ok value, next⟩) :
    next.rest.length < k.rest.length := by
  fun_induction scanFrom g maxDepth frames k with
  | case1 frames k outcome hturn => exact turn_takes (h ▸ hturn)
  | case2 frames k rest after hturn ih => exact Nat.lt_trans (ih h) (turn_shortens hturn)

/-- A token behind the blanks that is not the end of the text shortens the rest. -/
theorem tokenAt_takes {g : Grammar} {limits : Limits} {k next : Cursor} {token : Token}
    (h : tokenAt g limits k = ⟨.ok token, next⟩) (hend : token.kind.isEnd = false) :
    next.rest.length < k.rest.length := by
  unfold tokenAt at h
  split at h
  · cases h
    simp [TokenKind.isEnd] at hend
  · next rest hrest =>
    cases h
    refine Cursor.length_rest_advance_lt ?_ (by simp [hrest])
    rw [hrest, List.takeWhile_cons_of_pos (by decide)]
    exact Nat.zero_lt_succ _
  · split at h
    · next rule hclose =>
      cases h
      exact Cursor.length_rest_advance_lt (List.length_pos_iff.2 rule.closer_ne_nil)
        (closing_rest_ne_nil hclose)
    · unfold valueToken at h
      split at h
      · cases h
      · next value after hscan =>
        cases h
        exact scanFrom_takes hscan

/-- A token that is not the end of the text shortens the rest. -/
theorem nextToken_shortens {g : Grammar} {limits : Limits} {k next : Cursor} {token : Token}
    (h : nextToken g limits k = ⟨.ok token, next⟩) (hend : token.kind.isEnd = false) :
    next.rest.length < k.rest.length :=
  Nat.lt_of_lt_of_le (tokenAt_takes h hend) (Cursor.length_rest_advance_le _ _)

/-! ## All tokens -/

/-- Reads tokens up to the end of the text, or until reading has failed `faults + 1` times. -/
def tokensFrom (g : Grammar) (limits : Limits) (faults : Nat) (k : Cursor) :
    List (Except Misread Token) :=
  match _h : nextToken g limits k with
  | ⟨.ok token, next⟩ =>
    if _hend : token.kind.isEnd then [.ok token] else .ok token :: tokensFrom g limits faults next
  | ⟨.error m, next⟩ =>
    match faults with
    | 0 => [.error m]
    | faults + 1 => .error m :: tokensFrom g limits faults next
termination_by (faults, k.rest.length)
decreasing_by
  · exact .right _ (nextToken_shortens _h (by simpa using _hend))
  · exact .left _ _ (Nat.lt_succ_self _)

/-- The tokens of a text, or the first error. -/
def tokens (g : Grammar) (limits : Limits) (source : String) : Except Misread (List Token) :=
  (tokensFrom g limits 0 (.start source.toList)).mapM id

end Edn
