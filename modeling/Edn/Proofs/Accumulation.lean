import Edn.Error

/-!
# Batches of batches

Independent errors are collected in a batch, and the error of a batch may be
collected again, in a larger one.  How the errors were grouped on the way
leaves no trace.

* `BatchTree` is a tree of batches with faults as its leaves, and
  `BatchTree.total?` is what is left of it when the batches are turned into
  errors from the leaves up.
* `Error.accumulate_eq`: one batch.  Nothing but the faults of the errors
  matters.
* `BatchTree.total?_eq`: the whole tree.  Every part of it is worth its
  leaves.
* `BatchTree.total_flattens` is the result.
-/

namespace Edn

/-! ## Trees of batches -/

/-- A fault, or a batch of such trees.  A batch may be empty. -/
inductive BatchTree where
  | leaf (fault : Fault)
  | batch (members : List BatchTree)

namespace BatchTree

mutual

/-- The faults of a tree, from left to right. -/
def leaves : BatchTree → List Fault
  | .leaf fault => [fault]
  | .batch members => leavesOfAll members

/-- The faults of several trees, from left to right. -/
def leavesOfAll : List BatchTree → List Fault
  | [] => []
  | first :: rest => first.leaves ++ leavesOfAll rest

end

mutual

/-- The error of a tree: each batch is turned into an error after its members have been.  A member
that is worth no error adds nothing to its batch. -/
def total? : BatchTree → Option Error
  | .leaf fault => some (.one fault)
  | .batch members => Error.accumulate (totals members)

/-- The errors of several trees, in order. -/
def totals : List BatchTree → List Error
  | [] => []
  | first :: rest => first.total?.toList ++ totals rest

end

end BatchTree

/-! ## One batch -/

/-- What is collected is what was there before, and then the faults of the errors. -/
theorem Batch.foldl_append (batch : Batch) (errors : List Error) :
    errors.foldl append batch = ⟨batch.faults ++ errors.flatMap Error.faults⟩ := by
  induction errors generalizing batch with
  | nil => simp
  | cons error rest ih =>
    rw [List.foldl_cons, ih, append, List.flatMap_cons, List.append_assoc]

/-- Only the faults of errors matter where the errors are turned into one. -/
theorem Error.accumulate_eq (errors : List Error) :
    accumulate errors = (Batch.mk (errors.flatMap faults)).toError? := by
  rw [accumulate, Batch.foldl_append, Batch.empty, List.nil_append]

/-- No fault is lost or added on the way into an error and out of it. -/
theorem Batch.flatMap_faults_toError? (batch : Batch) :
    batch.toError?.toList.flatMap Error.faults = batch.faults := by
  obtain ⟨faults⟩ := batch
  unfold toError?
  split
  · next hnone =>
    rw [hnone]
    rfl
  · next fault hone =>
    rw [hone]
    rfl
  · simp [Error.faults]

/-! ## The whole tree -/

-- The two statements follow the two functions.  What a batch needs of its members is not their
-- errors, which change their shape from level to level, but the faults of these.
mutual

/-- A tree is worth the batch of its leaves. -/
theorem BatchTree.total?_eq (t : BatchTree) : t.total? = (Batch.mk t.leaves).toError? := by
  cases t with
  | leaf fault => rw [total?, leaves, Batch.toError?]
  | batch members => rw [total?, leaves, Error.accumulate_eq, flatMap_faults_totals]

/-- The errors of several trees have the faults of the trees. -/
theorem BatchTree.flatMap_faults_totals (members : List BatchTree) :
    (totals members).flatMap Error.faults = leavesOfAll members := by
  cases members with
  | nil => rfl
  | cons first rest =>
    rw [totals, leavesOfAll, List.flatMap_append, first.total?_eq, Batch.flatMap_faults_toError?,
      flatMap_faults_totals rest]

end

/-! ## Lines -/

/-- The kind of a fault is never that of a batch. -/
theorem Error.summary_one_ne (fault : Fault) : (Error.one fault).summary ≠ "Multiple errors" := by
  obtain ⟨cause, place⟩ := fault
  cases cause <;> simp [summary, Cause.summary]

/-- One line for each fault: the number of the fault, counted from zero, and its wording. -/
structure AreLinesOf (words : Wordings) (faults : List Fault) (lines : List String) : Prop where
  length : lines.length = faults.length
  line : ∀ (index : Nat) (fault : Fault), faults[index]? = some fault →
    lines[index]? = some (toString index ++ ": " ++ fault.message words ++ "\n")

/-- A batch is written in numbered lines. -/
theorem Error.exists_lines (words : Wordings) (faults : List Fault) :
    ∃ lines, numbered words faults = String.join lines ∧ AreLinesOf words faults lines := by
  refine ⟨_, rfl, List.length_mapIdx, fun index fault hfault => ?_⟩
  rw [List.getElem?_mapIdx, hfault]
  rfl

/-! ## Results -/

namespace BatchTree

/-- **Batches of batches are flat.**  A tree of batches without leaves is worth no error, and a tree
with one leaf is worth this fault at its place.  Every other tree is worth a batch: its faults are
the leaves in their order, at their places, none of them is a batch, and it is written in lines that
are numbered from zero, whatever the words for reasons are.  So two trees with the same leaves are
worth the same. -/
theorem total_flattens (words : Wordings) (t : BatchTree) :
    (t.leaves = [] → t.total? = none) ∧
    (∀ fault, t.leaves = [fault] → t.total? = some (.one fault)) ∧
    (2 ≤ t.leaves.length → ∃ error lines,
      t.total? = some error ∧ error = .many t.leaves none ∧ error.summary = "Multiple errors" ∧
      (∀ fault ∈ error.faults, (Error.one fault).summary ≠ "Multiple errors") ∧
      error.message words = String.join lines ∧ AreLinesOf words t.leaves lines) ∧
    ∀ other : BatchTree, other.leaves = t.leaves → other.total? = t.total? := by
  have htotal := t.total?_eq
  refine ⟨fun hleaves => ?_, fun fault hleaves => ?_, fun hlength => ?_, fun other hleaves => ?_⟩
  · rw [htotal, hleaves]
    rfl
  · rw [htotal, hleaves]
    rfl
  · obtain ⟨lines, hlines, hnumbered⟩ := Error.exists_lines words t.leaves
    refine ⟨.many t.leaves none, lines, ?_, rfl, rfl, fun fault _ => Error.summary_one_ne fault,
      hlines, hnumbered⟩
    match hleaves : t.leaves with
    | [] => simp [hleaves] at hlength
    | [_] => simp [hleaves] at hlength
    | _ :: _ :: _ =>
      rw [htotal, hleaves]
      rfl
  · rw [htotal, other.total?_eq, hleaves]

/-- Two faults, one of them with a place: inside a batch that shrinks to its only member, between
empty batches, they are the same two faults as side by side. -/
theorem total_flattens_nested :
    let missing : Fault := ⟨.noValue "a", some ⟨some "\x7b:a 1\x7d", some 1, some 2⟩⟩
    let unpaired : Fault := ⟨.invalidPair "c", none⟩
    let nested : BatchTree := .batch [.batch [], .batch [.batch [.leaf missing]],
      .batch [.batch [.batch []], .leaf unpaired]]
    nested.leaves = [missing, unpaired] ∧
      nested.total? = (BatchTree.batch [.leaf missing, .leaf unpaired]).total? ∧
      ∃ error, nested.total? = some error ∧ error = .many [missing, unpaired] none := by
  intro missing unpaired nested
  obtain ⟨-, -, hmany, hsame⟩ := total_flattens (fun _ => "") nested
  obtain ⟨error, -, htotal, herror, -⟩ := hmany (by decide)
  exact ⟨rfl, (hsame (.batch [.leaf missing, .leaf unpaired]) rfl).symm, error, htotal, herror⟩

end BatchTree

end Edn
