import Edn.Proofs.Pattern.Ways

/-!
# Moves of a pattern

What a pattern can do next: stop, or take a character of a set and go on as
another pattern.

* `Pattern.moves` lists the moves, the preferred ones first.
* `ways_eq_moves`: the ways of a plain pattern are those of its moves, in
  their order.
* `Pattern.along` goes along the moves of a pattern with a text.
-/

namespace Edn.Pattern

/-! ## Moves -/

/-- What a pattern can do next: stop, or take a character of a set and go on as another pattern. -/
inductive Move where
  | stop
  | step (set : CharSet) (next : Pattern)
deriving DecidableEq, Repr

/-- A pattern with a second one behind it.  An empty pattern is left out, so that a repetition comes
back to itself behind a round. -/
def followedBy (first second : Pattern) : Pattern :=
  if first = empty then second else sequence first second

/-- The moves behind one move of a pattern, with a second pattern behind that one.  `after` are the
moves of the second. -/
def Move.andThen (second : Pattern) (after : List Move) : Move → List Move
  | stop => after
  | step set next => [step set (next.followedBy second)]

/-- What a pattern can do next, in the order of preference.  A round of a repetition takes something
before it ends. -/
def moves : Pattern → List Move
  | empty => [.stop]
  | one set => [.step set empty]
  | assertion _ => []
  | sequence first second => first.moves.flatMap (Move.andThen second second.moves)
  | choice first second => first.moves ++ second.moves
  | repeated least most eager body =>
    let more :=
      if most = some 0 then []
      else body.moves.flatMap (Move.andThen (repeated (least - 1) (most.map (· - 1)) eager body) [])
    if 0 < least then more else if eager then more ++ [.stop] else .stop :: more
  | group _ body => body.moves

/-- The points that a move leads to. -/
def Move.ways (x : Point) : Move → List Point
  | stop => [x]
  | step set next => (x.past set).flatMap next.ways

/-- The pattern behind the first move that takes a character. -/
def behind (p : Pattern) (c : Char) : Pattern :=
  (p.moves.findSome? fun
    | .step set next => if set.contains c then some next else none
    | .stop => none).getD empty

/-- The pattern behind a text, taken along the first moves that there are. -/
def along (p : Pattern) (text : List Char) : Pattern :=
  text.foldl behind p

/-! ## Ways by moves -/

section Moves

variable {first body : Pattern} {x : Point}

theorem ways_followedBy (first second : Pattern) (x : Point) :
    (first.followedBy second).ways x = (first.ways x).flatMap second.ways := by
  unfold followedBy
  split
  · next hfirst =>
    rw [hfirst, ways, List.flatMap_singleton]
  · rfl

/-- What comes behind a move is tried behind its ways. -/
theorem Move.ways_andThen (move : Move) (second : Pattern) {after : List Move}
    (hafter : move = .stop → second.ways x = after.flatMap (Move.ways x)) :
    (move.andThen second after).flatMap (Move.ways x) = (move.ways x).flatMap second.ways := by
  cases move with
  | stop => simp [andThen, Move.ways, hafter]
  | step set next =>
    have hnext : (next.followedBy second).ways = fun y => (next.ways y).flatMap second.ways :=
      funext (ways_followedBy next second)
    rw [andThen, List.flatMap_singleton, Move.ways, Move.ways, hnext, List.flatMap_assoc]

/-- The moves of two patterns in a row. -/
theorem flatMap_andThen (second : Pattern) {after : List Move}
    (hfirst : first.ways x = first.moves.flatMap (Move.ways x))
    (hafter : .stop ∈ first.moves → second.ways x = after.flatMap (Move.ways x)) :
    (first.moves.flatMap (Move.andThen second after)).flatMap (Move.ways x) =
      (first.ways x).flatMap second.ways := by
  rw [hfirst, List.flatMap_assoc, List.flatMap_assoc]
  apply List.flatMap_congr
  intro move hmove
  apply Move.ways_andThen
  rintro rfl
  exact hafter hmove

/-- What takes at least one character cannot stop. -/
theorem stop_notMem_moves (hbody : body.takesSome = true)
    (h : ∀ x, body.ways x = body.moves.flatMap (Move.ways x)) : .stop ∉ body.moves := by
  intro hstop
  have hmem : (⟨none, []⟩ : Point) ∈ body.ways ⟨none, []⟩ := by
    rw [h]
    exact List.mem_flatMap.2 ⟨.stop, hstop, List.mem_singleton.2 rfl⟩
  exact Nat.lt_irrefl _ (length_lt_of_takesSome hbody hmem)

/-- The ways of a plain pattern are those of its moves, in their order. -/
theorem ways_eq_moves {p : Pattern} (hp : p.isPlain = true) (x : Point) :
    p.ways x = p.moves.flatMap (Move.ways x) := by
  induction p generalizing x with
  | empty => simp [moves, Move.ways, ways]
  | one set => simp [moves, Move.ways, ways, List.flatMap_singleton']
  | assertion condition => cases hp
  | sequence first second hfirst hsecond =>
    obtain ⟨hp, hp'⟩ := Bool.and_eq_true_iff.1 hp
    exact (flatMap_andThen second (hfirst hp x) fun _ => hsecond hp' x).symm
  | choice first second hfirst hsecond =>
    obtain ⟨hp, hp'⟩ := Bool.and_eq_true_iff.1 hp
    rw [ways, moves, List.flatMap_append, hfirst hp x, hsecond hp' x]
  | repeated least most eager body ih =>
    obtain ⟨hp, hmost⟩ := Bool.and_eq_true_iff.1 hp
    obtain ⟨hbody, hsome⟩ := Bool.and_eq_true_iff.1 hp
    have hmore : (body.moves.flatMap (Move.andThen
          (repeated (least - 1) (most.map (· - 1)) eager body) [])).flatMap (Move.ways x) =
        (body.ways x).flatMap (waysInRounds body.ways eager (least - 1) (most.map (· - 1))) := by
      apply flatMap_andThen _ (ih hbody x)
      intro hstop
      exact absurd hstop (stop_notMem_moves hsome (ih hbody))
    rw [ways, moves]
    cases least with
    | succ least =>
      have hne : most ≠ some 0 := by
        rintro rfl
        cases hmost
      rw [if_pos (Nat.succ_pos least), if_neg hne, hmore, waysInRounds]
      rfl
    | zero =>
      rw [if_neg (Nat.lt_irrefl 0), waysInRounds_zero fun y hy => length_lt_of_takesSome hsome hy]
      by_cases hzero : most = some 0
      · cases eager <;> simp [hzero, Move.ways]
      · cases eager
        · simpa [hzero, Move.ways] using hmore.symm
        · simpa [hzero, Move.ways] using hmore.symm
  | group number body ih => exact ih hp x

end Moves

end Edn.Pattern
