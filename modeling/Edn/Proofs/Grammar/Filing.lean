import Mathlib.Data.List.Induction
import Mathlib.Data.List.Sort

/-!
# Filing by rank

A list of rules is kept in the order of a rank, and a rule is put into it
unless one with its key is there.  What is offered first counts, whatever is
offered between.

* `IsFirst` are the rules that are the first of their keys among the rules that
  some calls bring.
* `exists_split_orderedInsert` says where a list is split to put a rule into it.
* `file` puts a rule into a list, and `fileAll` files the rules of some calls.
  `mem_fileAll_iff` and `pairwise_fileAll` are the invariants of a run: what is
  filed are the first rules, by their ranks and then in the order of their calls.
* `fileAll_eq_of_filter_eq`: the order of calls matters within a rank only.
-/

namespace Edn.Filing

variable {Call Rule Key Rank : Type}

section First

/-- The call with the given number brings the rule, and no call before it brings one with its
key. -/
structure IsFirst (offer? : Call → Option Rule) (key : Rule → Key) (calls : List Call) (n : Nat)
    (rule : Rule) : Prop where
  brought : calls[n]?.bind offer? = some rule
  new : ∀ call ∈ calls.take n, ∀ other ∈ offer? call, key other ≠ key rule

namespace IsFirst

variable {offer? : Call → Option Rule} {key : Rule → Key} {calls : List Call} {n m : Nat}
  {rule other : Rule}

theorem exists_call (h : IsFirst offer? key calls n rule) :
    ∃ call, calls[n]? = some call ∧ offer? call = some rule :=
  Option.bind_eq_some_iff.1 h.brought

theorem lt_length (h : IsFirst offer? key calls n rule) : n < calls.length := by
  obtain ⟨call, hcall, -⟩ := h.exists_call
  exact (List.getElem?_eq_some_iff.1 hcall).1

/-- Each key has one first call. -/
theorem number_eq (h : IsFirst offer? key calls n rule) (h' : IsFirst offer? key calls m other)
    (hkey : key rule = key other) : n = m := by
  have earlier : ∀ {n m : Nat} {rule other : Rule}, IsFirst offer? key calls n rule →
      IsFirst offer? key calls m other → n < m → key rule ≠ key other := by
    intro n m rule other h h' hlt
    obtain ⟨call, hcall, hoffer⟩ := h.exists_call
    refine h'.new call (List.mem_of_getElem? (i := n) ?_) rule hoffer
    rwa [List.getElem?_take_of_lt hlt]
  rcases Nat.lt_trichotomy n m with hlt | heq | hgt
  · exact absurd hkey (earlier h h' hlt)
  · exact heq
  · exact absurd hkey.symm (earlier h' h hgt)

/-- Each call brings one rule. -/
theorem rule_eq (h : IsFirst offer? key calls n rule) (h' : IsFirst offer? key calls n other) :
    rule = other :=
  Option.some.inj (h.brought.symm.trans h'.brought)

end IsFirst

variable {offer? : Call → Option Rule} {key : Rule → Key} {calls : List Call} {call : Call}
  {n : Nat} {rule : Rule}

/-- A last call is the first of its key, or brings nothing new. -/
theorem isFirst_append_singleton :
    IsFirst offer? key (calls ++ [call]) n rule ↔
      IsFirst offer? key calls n rule ∨ (n = calls.length ∧ offer? call = some rule ∧
        ∀ earlier ∈ calls, ∀ other ∈ offer? earlier, key other ≠ key rule) := by
  constructor
  · intro ⟨hbrought, hnew⟩
    rcases Nat.lt_trichotomy n calls.length with hlt | rfl | hgt
    · rw [List.getElem?_append_left hlt] at hbrought
      rw [List.take_append_of_le_length (Nat.le_of_lt hlt)] at hnew
      exact .inl ⟨hbrought, hnew⟩
    · rw [List.getElem?_concat_length, Option.bind_some] at hbrought
      rw [List.take_left] at hnew
      exact .inr ⟨rfl, hbrought, hnew⟩
    · have hnone : (calls ++ [call])[n]? = none := by
        rw [List.getElem?_eq_none_iff, List.length_append, List.length_singleton]
        exact hgt
      rw [hnone] at hbrought
      cases hbrought
  · rintro (h | ⟨rfl, hoffer, hnew⟩)
    · refine ⟨?_, ?_⟩
      · rw [List.getElem?_append_left h.lt_length]
        exact h.brought
      · rw [List.take_append_of_le_length (Nat.le_of_lt h.lt_length)]
        exact h.new
    · exact ⟨by rwa [List.getElem?_concat_length], by rwa [List.take_left]⟩

/-- Where a rule is brought, a first one of its key is. -/
theorem exists_isFirst (hcall : call ∈ calls) (hoffer : offer? call = some rule) :
    ∃ n first, IsFirst offer? key calls n first ∧ key first = key rule := by
  induction calls using List.reverseRecOn generalizing call rule with
  | nil => cases hcall
  | append_singleton calls last ih =>
    by_cases hknown : ∃ earlier ∈ calls, ∃ other ∈ offer? earlier, key other = key rule
    · obtain ⟨earlier, hearlier, other, hother, hkey⟩ := hknown
      obtain ⟨n, first, hfirst, hfirstKey⟩ := ih hearlier hother
      exact ⟨n, first, isFirst_append_singleton.2 (.inl hfirst), hfirstKey.trans hkey⟩
    · push Not at hknown
      rcases List.mem_append.1 hcall with hcall | hcall
      · exact absurd rfl (hknown call hcall rule hoffer)
      · rw [List.mem_singleton.1 hcall] at hoffer
        exact ⟨_, rule, isFirst_append_singleton.2 (.inr ⟨rfl, hoffer, hknown⟩), rfl⟩

end First

section Order

variable [LinearOrder Rank]

/-- Both rules are the first of their keys, and the one of the smaller rank, or of the earlier call,
is named first. -/
def Precedes (offer? : Call → Option Rule) (key : Rule → Key) (rank : Rule → Rank)
    (calls : List Call) (rule other : Rule) : Prop :=
  ∃ n m, IsFirst offer? key calls n rule ∧ IsFirst offer? key calls m other ∧
    (rank rule < rank other ∨ rank rule = rank other ∧ n < m)

namespace Precedes

variable {offer? : Call → Option Rule} {key : Rule → Key} {rank : Rule → Rank}
  {calls : List Call} {rule other : Rule}

theorem rank_le (h : Precedes offer? key rank calls rule other) :
    rank rule ≤ rank other := by
  obtain ⟨n, m, -, -, hlt | ⟨heq, -⟩⟩ := h
  · exact le_of_lt hlt
  · exact le_of_eq heq

theorem append (h : Precedes offer? key rank calls rule other) (call : Call) :
    Precedes offer? key rank (calls ++ [call]) rule other := by
  obtain ⟨n, m, hrule, hother, horder⟩ := h
  exact ⟨n, m, isFirst_append_singleton.2 (.inl hrule), isFirst_append_singleton.2 (.inl hother),
    horder⟩

end Precedes

end Order

section Insertion

variable [LinearOrder Rank] {rank : Rule → Rank} {rules : List Rule}

/-- A rule is put behind some rules of no greater rank, and the next one has a greater rank.  In the
order of ranks, so have all that stand behind it. -/
theorem exists_split_orderedInsert (new : Rule) (rules : List Rule) :
    ∃ before after, rules = before ++ after ∧
      rules.orderedInsert (fun a b => rank a < rank b) new = before ++ new :: after ∧
        (∀ rule ∈ before, rank rule ≤ rank new) ∧
          (rules.Pairwise (fun a b => rank a ≤ rank b) → ∀ rule ∈ after, rank new < rank rule) := by
  induction rules with
  | nil => exact ⟨[], [], rfl, rfl, by simp, by simp⟩
  | cons first rest ih =>
    by_cases hlt : rank new < rank first
    · refine ⟨[], first :: rest, rfl, by rw [List.orderedInsert_cons, if_pos hlt]; rfl,
        by simp, fun hrules => ?_⟩
      have hfirst := (List.pairwise_cons.1 hrules).1
      exact List.forall_mem_cons.2 ⟨hlt, fun rule hrule => lt_of_lt_of_le hlt (hfirst rule hrule)⟩
    · obtain ⟨before, after, hsplit, hinsert, hbefore, hafter⟩ := ih
      refine ⟨first :: before, after, by rw [hsplit, List.cons_append], ?_, ?_,
        fun hrules => hafter hrules.of_cons⟩
      · rw [List.orderedInsert_cons, if_neg hlt, hinsert, List.cons_append]
      · exact List.forall_mem_cons.2 ⟨not_lt.1 hlt, hbefore⟩

/-- The order of ranks is kept. -/
theorem pairwise_orderedInsert (h : rules.Pairwise fun a b => rank a ≤ rank b) (new : Rule) :
    (rules.orderedInsert (fun a b => rank a < rank b) new).Pairwise
      fun a b => rank a ≤ rank b := by
  obtain ⟨before, after, hsplit, hinsert, hbefore, hafter⟩ :=
    @exists_split_orderedInsert _ _ _ rank new rules
  replace hafter := hafter h
  rw [hsplit, List.pairwise_append] at h
  obtain ⟨hfirst, hlast, hacross⟩ := h
  rw [hinsert]
  refine List.pairwise_append.2 ⟨hfirst, List.pairwise_cons.2 ⟨?_, hlast⟩, ?_⟩
  · exact fun rule hrule => le_of_lt (hafter rule hrule)
  · intro rule hrule other hother
    rcases List.mem_cons.1 hother with rfl | hother
    · exact hbefore rule hrule
    · exact hacross rule hrule other hother

end Insertion

variable [DecidableEq Key] [LinearOrder Rank]

/-- Puts a rule in front of the first one of a greater rank, unless there is one with its key. -/
def file (key : Rule → Key) (rank : Rule → Rank) (rules : List Rule) (new : Rule) : List Rule :=
  if rules.any fun rule => key rule = key new then rules
  else rules.orderedInsert (fun a b => rank a < rank b) new

/-- Files the rules that some calls bring. -/
def fileAll (offer? : Call → Option Rule) (key : Rule → Key) (rank : Rule → Rank)
    (calls : List Call) : List Rule :=
  (calls.filterMap offer?).foldl (file key rank) []

variable {offer? : Call → Option Rule} {key : Rule → Key} {rank : Rule → Rank}
  {calls others : List Call} {call : Call} {n : Nat} {rule new : Rule} {rules : List Rule}

theorem fileAll_append_of_none (h : offer? call = none) :
    fileAll offer? key rank (calls ++ [call]) = fileAll offer? key rank calls := by
  rw [fileAll, List.filterMap_append, List.filterMap_cons_none h, List.filterMap_nil,
    List.append_nil, fileAll]

theorem fileAll_append_of_some (h : offer? call = some new) :
    fileAll offer? key rank (calls ++ [call]) =
      file key rank (fileAll offer? key rank calls) new := by
  rw [fileAll, List.filterMap_append, List.filterMap_cons_some h, List.filterMap_nil,
    List.foldl_append]
  rfl

theorem file_of_known (h : ∃ rule ∈ rules, key rule = key new) :
    file key rank rules new = rules := by
  rw [file, if_pos (by simpa using h)]

theorem file_of_new (h : ¬ ∃ rule ∈ rules, key rule = key new) :
    file key rank rules new = rules.orderedInsert (fun a b => rank a < rank b) new := by
  rw [file, if_neg (by simpa using h)]

/-! ### The rules that are filed -/

/-- The first rules of their keys are filed. -/
theorem mem_fileAll_iff :
    rule ∈ fileAll offer? key rank calls ↔ ∃ n, IsFirst offer? key calls n rule := by
  induction calls using List.reverseRecOn generalizing rule with
  | nil => simpa [fileAll] using fun n h => Nat.not_lt_zero n (IsFirst.lt_length h)
  | append_singleton calls call ih =>
    simp only [isFirst_append_singleton, exists_or, exists_eq_left, ← ih]
    cases hoffer : offer? call with
    | none => simp [fileAll_append_of_none hoffer]
    | some new =>
      -- a rule with a key is filed exactly if one has been brought
      have hknown : (∃ filed ∈ fileAll offer? key rank calls, key filed = key new) ↔
          ∃ earlier ∈ calls, ∃ other ∈ offer? earlier, key other = key new := by
        constructor
        · rintro ⟨filed, hfiled, hkey⟩
          obtain ⟨n, hfirst⟩ := ih.1 hfiled
          obtain ⟨earlier, hearlier, hbrought⟩ := hfirst.exists_call
          exact ⟨earlier, List.mem_of_getElem? hearlier, filed, hbrought, hkey⟩
        · rintro ⟨earlier, hearlier, other, hother, hkey⟩
          obtain ⟨n, first, hfirst, hfirstKey⟩ :
              ∃ n first, IsFirst offer? key calls n first ∧ key first = key other :=
            exists_isFirst hearlier hother
          exact ⟨first, ih.2 ⟨n, hfirst⟩, hfirstKey.trans hkey⟩
      rw [fileAll_append_of_some hoffer]
      by_cases hnew : ∃ filed ∈ fileAll offer? key rank calls, key filed = key new
      · rw [file_of_known hnew]
        refine ⟨.inl, ?_⟩
        rintro (hrule | ⟨hrule, hfirst⟩)
        · exact hrule
        · cases hrule
          obtain ⟨earlier, hearlier, other, hother, hkey⟩ := hknown.1 hnew
          exact absurd hkey (hfirst earlier hearlier other hother)
      · rw [file_of_new hnew, List.mem_orderedInsert]
        rw [hknown] at hnew
        push Not at hnew
        constructor
        · rintro (rfl | hrule)
          · exact .inr ⟨rfl, hnew⟩
          · exact .inl hrule
        · rintro (hrule | ⟨hrule, -⟩)
          · exact .inr hrule
          · exact .inl (Option.some.inj hrule).symm

/-! ### Their order -/

/-- The rules stand by their ranks, and those of one rank in the order of their calls. -/
theorem pairwise_fileAll :
    (fileAll offer? key rank calls).Pairwise (Precedes offer? key rank calls) := by
  induction calls using List.reverseRecOn with
  | nil => exact List.Pairwise.nil
  | append_singleton calls call ih =>
    have happend := ih.imp fun h => h.append call
    cases hoffer : offer? call with
    | none => rwa [fileAll_append_of_none hoffer]
    | some new =>
      have hmem : ∀ {rule}, rule ∈ fileAll offer? key rank (calls ++ [call]) →
          ∃ n, IsFirst offer? key (calls ++ [call]) n rule := mem_fileAll_iff.1
      rw [fileAll_append_of_some hoffer] at hmem ⊢
      by_cases hknown : ∃ filed ∈ fileAll offer? key rank calls, key filed = key new
      · rwa [file_of_known hknown]
      · rw [file_of_new hknown] at hmem ⊢
        obtain ⟨before, after, hsplit, hinsert, hbefore, hafter⟩ :=
          @exists_split_orderedInsert _ _ _ rank new (fileAll offer? key rank calls)
        replace hafter := hafter (ih.imp fun h => h.rank_le)
        rw [hinsert] at hmem ⊢
        rw [hsplit, List.pairwise_append] at happend
        obtain ⟨hfirst, hlast, hacross⟩ := happend
        obtain ⟨m, hm⟩ := hmem (List.mem_append_right before List.mem_cons_self)
        -- the call of the new rule is the last one
        have hlater : ∀ rule ∈ before,
            ∃ n, IsFirst offer? key (calls ++ [call]) n rule ∧ n < m := by
          intro rule hrule
          have hfiled : rule ∈ fileAll offer? key rank calls :=
            hsplit ▸ List.mem_append_left after hrule
          obtain ⟨n, hn⟩ := mem_fileAll_iff.1 hfiled
          refine ⟨n, isFirst_append_singleton.2 (.inl hn), ?_⟩
          rcases isFirst_append_singleton.1 hm with hold | ⟨rfl, -, -⟩
          · exact absurd ⟨new, mem_fileAll_iff.2 ⟨m, hold⟩, rfl⟩ hknown
          · exact hn.lt_length
        refine List.pairwise_append.2 ⟨hfirst, List.pairwise_cons.2 ⟨?_, hlast⟩, ?_⟩
        · intro rule hrule
          obtain ⟨n, hn⟩ := hmem (List.mem_append_right before (List.mem_cons_of_mem new hrule))
          exact ⟨m, n, hm, hn, .inl (hafter rule hrule)⟩
        · intro rule hrule other hother
          rcases List.mem_cons.1 hother with rfl | hother
          · obtain ⟨n, hn, hlt⟩ := hlater rule hrule
            exact ⟨n, m, hn, hm, (lt_or_eq_of_le (hbefore rule hrule)).imp_right (⟨·, hlt⟩)⟩
          · exact hacross rule hrule other hother

/-! ### One rank -/

theorem filter_orderedInsert_of_neg {p : Rule → Bool} (h : p new = false) :
    (rules.orderedInsert (fun a b => rank a < rank b) new).filter p = rules.filter p := by
  induction rules with
  | nil => simp [h]
  | cons first rest ih =>
    rw [List.orderedInsert_cons]
    split
    · rw [List.filter_cons_of_neg (by simp [h])]
    · rw [List.filter_cons, List.filter_cons, ih]

theorem filter_orderedInsert_of_pos (hrules : rules.Pairwise fun a b => rank a ≤ rank b)
    {p : Rule → Bool} (h : p new = true) :
    (rules.orderedInsert (fun a b => rank a < rank b) new).filter p =
      (rules.filter p).orderedInsert (fun a b => rank a < rank b) new := by
  obtain ⟨before, after, hsplit, hinsert, hbefore, hafter⟩ :=
    @exists_split_orderedInsert _ _ _ rank new rules
  replace hafter := hafter hrules
  rw [hinsert, hsplit, List.filter_append, List.filter_append, List.filter_cons_of_pos h]
  clear hsplit hinsert
  induction before with
  | nil =>
    rw [List.filter_nil, List.nil_append, List.nil_append]
    cases hfilter : after.filter p with
    | nil => rfl
    | cons first rest =>
      have hfirst : first ∈ after := (List.mem_filter.1 (hfilter ▸ List.mem_cons_self)).1
      rw [List.orderedInsert_cons, if_pos (hafter first hfirst)]
  | cons first before ih =>
    obtain ⟨hfirst, hbefore⟩ := List.forall_mem_cons.1 hbefore
    rw [List.filter_cons]
    split
    · rw [List.cons_append, List.cons_append, List.orderedInsert_cons, if_neg (not_lt.2 hfirst),
        ih hbefore]
    · exact ih hbefore

/-- The rules of one rank are filed as if there were no others. -/
theorem filter_fileAll (hkey : ∀ a b, key a = key b → rank a = rank b) (r : Rank) :
    (fileAll offer? key rank calls).filter (rank · = r) =
      fileAll offer? key rank (calls.filter fun call => (offer? call).any (rank · = r)) := by
  induction calls using List.reverseRecOn with
  | nil => rfl
  | append_singleton calls call ih =>
    rw [List.filter_append]
    cases hoffer : offer? call with
    | none =>
      rw [fileAll_append_of_none hoffer, ih, List.filter_cons_of_neg (by simp [hoffer]),
        List.filter_nil, List.append_nil]
    | some new =>
      have hsorted : (fileAll offer? key rank calls).Pairwise fun a b => rank a ≤ rank b :=
        pairwise_fileAll.imp fun h => h.rank_le
      rw [fileAll_append_of_some hoffer]
      by_cases hrank : rank new = r
      · rw [List.filter_cons_of_pos (by simp [hoffer, hrank]), List.filter_nil,
          fileAll_append_of_some hoffer, ← ih]
        by_cases hknown : ∃ filed ∈ fileAll offer? key rank calls, key filed = key new
        · obtain ⟨filed, hfiled, hfiledKey⟩ := hknown
          have hfiledRank : rank filed = r := (hkey _ _ hfiledKey).trans hrank
          rw [file_of_known ⟨filed, hfiled, hfiledKey⟩,
            file_of_known ⟨filed, List.mem_filter.2 ⟨hfiled, by simpa⟩, hfiledKey⟩]
        · have hnew : ¬ ∃ filed ∈ (fileAll offer? key rank calls).filter (rank · = r),
              key filed = key new :=
            fun ⟨filed, hfiled, hfiledKey⟩ =>
              hknown ⟨filed, (List.mem_filter.1 hfiled).1, hfiledKey⟩
          rw [file_of_new hknown, file_of_new hnew,
            filter_orderedInsert_of_pos hsorted (by simpa using hrank)]
      · rw [List.filter_cons_of_neg (by simp [hoffer, hrank]), List.filter_nil, List.append_nil,
          ← ih, file]
        split
        · rfl
        · exact filter_orderedInsert_of_neg (by simpa using hrank)

/-- Lists that are ordered by rank are equal if they have the same rules of every rank. -/
theorem eq_of_filter_rank_eq {xs ys : List Rule} (hxs : xs.Pairwise fun a b => rank a ≤ rank b)
    (hys : ys.Pairwise fun a b => rank a ≤ rank b)
    (h : ∀ rule, xs.filter (rank · = rank rule) = ys.filter (rank · = rank rule)) : xs = ys := by
  -- what is in one list is in the other
  have hmem : ∀ rule, rule ∈ xs ↔ rule ∈ ys := by
    intro rule
    have := congrArg (rule ∈ ·) (h rule)
    simpa using this
  induction xs generalizing ys with
  | nil =>
    symm
    exact List.eq_nil_iff_forall_not_mem.2 fun rule hrule => List.not_mem_nil ((hmem rule).2 hrule)
  | cons x xs ih =>
    cases ys with
    | nil => exact absurd ((hmem x).1 List.mem_cons_self) List.not_mem_nil
    | cons y ys =>
      obtain ⟨hx, hxsTail⟩ := List.pairwise_cons.1 hxs
      obtain ⟨hy, hysTail⟩ := List.pairwise_cons.1 hys
      have hrank : rank x = rank y := by
        refine le_antisymm ?_ ?_
        · rcases List.mem_cons.1 ((hmem y).2 List.mem_cons_self) with heq | hmem
          · exact le_of_eq (heq ▸ rfl)
          · exact hx y hmem
        · rcases List.mem_cons.1 ((hmem x).1 List.mem_cons_self) with heq | hmem
          · exact le_of_eq (heq ▸ rfl)
          · exact hy x hmem
      obtain ⟨rfl, -⟩ : x = y ∧ xs.filter (rank · = rank x) = ys.filter (rank · = rank x) := by
        have := h x
        rw [List.filter_cons_of_pos (by simp), List.filter_cons_of_pos (by simp [hrank])] at this
        exact List.cons.inj this
      have hrests : ∀ rule, xs.filter (rank · = rank rule) = ys.filter (rank · = rank rule) := by
        intro rule
        have := h rule
        rw [List.filter_cons, List.filter_cons] at this
        split at this
        · exact (List.cons.inj this).2
        · exact this
      congr 1
      refine ih hxsTail hysTail hrests fun rule => ?_
      have := congrArg (rule ∈ ·) (hrests rule)
      simpa using this

/-- Calls that are the same within each rank file the same rules. -/
theorem fileAll_eq_of_filter_eq (hkey : ∀ a b, key a = key b → rank a = rank b)
    (h : ∀ rule, (calls.filter fun call => (offer? call).any (rank · = rank rule)) =
      others.filter fun call => (offer? call).any (rank · = rank rule)) :
    fileAll offer? key rank calls = fileAll offer? key rank others :=
  eq_of_filter_rank_eq (pairwise_fileAll.imp fun h => h.rank_le)
    (pairwise_fileAll.imp fun h => h.rank_le) fun rule => by
      rw [filter_fileAll hkey, filter_fileAll hkey, h rule]

end Edn.Filing
