import Edn.Pattern
import Mathlib.Computability.Language

/-!
# Ways through a text

What a pattern means, apart from any automaton.

* `Pattern.ways` lists the points that a pattern leads to, the preferred ones
  first.  This is the meaning of preference: a choice tries its first part
  before the second, an eager repetition tries one more round before it
  stops, and what follows is tried behind each point in turn.
* `Pattern.leftmostEnd?` is the end of the leftmost match, and of the
  preferred one among those that start there.
* `Pattern.language` is the set of the texts of a pattern, without any
  preference.
* `leads_ways`: the ways of a plain pattern lead behind the texts of its
  language and nowhere else.
-/

namespace Edn

/-- A point in a text: the character in front of it, if there is one, and the text behind it. -/
structure Point where
  before : Option Char
  rest : List Char
deriving DecidableEq, Repr

/-- The point behind the next character, if a set holds it. -/
def Point.past (set : CharSet) : Point → List Point
  | ⟨_, []⟩ => []
  | ⟨_, c :: rest⟩ => if set.contains c then [⟨some c, rest⟩] else []

namespace Pattern

/-! ## Ways -/

/-- The ways of a repetition.  A round that takes nothing is the last one, unless more are needed. -/
def waysInRounds (round : Point → List Point) (eager : Bool) :
    (least : Nat) → (most : Option Nat) → Point → List Point
  | least + 1, most, x => (round x).flatMap (waysInRounds round eager least (most.map (· - 1)))
  | 0, most, x =>
    let more :=
      if most = some 0 then []
      else
        (round x).flatMap fun y =>
          if y.rest.length < x.rest.length then
            waysInRounds round eager 0 (most.map (· - 1)) y
          else [y]
    if eager then more ++ [x] else x :: more
termination_by least _ x => (least, x.rest.length)

/-- The points that a pattern leads to, the preferred ones first. -/
def ways : Pattern → Point → List Point
  | empty, x => [x]
  | one set, x => x.past set
  | assertion condition, x => if condition.holds x.before x.rest.head? then [x] else []
  | sequence first second, x => (first.ways x).flatMap second.ways
  | choice first second, x => first.ways x ++ second.ways x
  | repeated least most eager body, x => waysInRounds body.ways eager least most x
  | group _ body, x => body.ways x

/-- The number of characters on the preferred way from a point. -/
def preferredLength? (p : Pattern) (x : Point) : Option Nat :=
  (p.ways x).head?.map fun y => x.rest.length - y.rest.length

/-- The preferred way need not be the longest one. -/
example : (choice (one (.single 'a')) (sequence (one (.single 'a')) (one (.single 'b')))).preferredLength?
    ⟨none, ['a', 'b']⟩ = some 1 := by decide

/-- What the ways of a pattern leave of a text, the preferred ones first. -/
def rests (p : Pattern) (x : Point) : List (List Char) :=
  (p.ways x).map Point.rest

theorem preferredLength?_eq_rests (p : Pattern) (x : Point) :
    p.preferredLength? x = (p.rests x).head?.map fun rest => x.rest.length - rest.length := by
  rw [preferredLength?, rests, List.head?_map, Option.map_map]
  rfl

/-- The end of the leftmost match in a text: of the ways from the first point that has any, the
preferred one.  `skipped` characters lie before the text. -/
def leftmostEnd? (p : Pattern) (before : Option Char) (skipped : Nat) (text : List Char) :
    Option Nat :=
  match p.preferredLength? ⟨before, text⟩ with
  | some length => some (skipped + length)
  | none =>
    match text with
    | [] => none
    | c :: rest => p.leftmostEnd? (some c) (skipped + 1) rest

/-- A pattern that asserts the start of the text has its match there. -/
theorem leftmostEnd?_textStart (p : Pattern) (text : List Char) :
    (sequence (assertion .textStart) p).leftmostEnd? none 0 text =
      p.preferredLength? ⟨none, text⟩ := by
  have hlater : ∀ text c, (sequence (assertion .textStart) p).preferredLength? ⟨some c, text⟩ =
      none := by
    intro text c
    simp [preferredLength?, ways, Assertion.holds]
  have hnone : ∀ text c skipped,
      (sequence (assertion .textStart) p).leftmostEnd? (some c) skipped text = none := by
    intro text
    induction text with
    | nil =>
      intro c skipped
      simp only [leftmostEnd?, hlater]
    | cons d text ih =>
      intro c skipped
      simp only [leftmostEnd?, hlater]
      exact ih d (skipped + 1)
  have hstart : (sequence (assertion .textStart) p).preferredLength? ⟨none, text⟩ =
      p.preferredLength? ⟨none, text⟩ := by
    simp [preferredLength?, ways, Assertion.holds]
  unfold leftmostEnd?
  rw [hstart]
  cases p.preferredLength? ⟨none, text⟩ with
  | some length => simp
  | none =>
    cases text with
    | nil => rfl
    | cons c rest => exact hnone rest c 1

/-! ## Rounds -/

section Rounds

variable {x y : Point} {round : Point → List Point} {eager : Bool} {least k : Nat}
  {most : Option Nat}

theorem mem_waysInRounds_succ :
    y ∈ waysInRounds round eager (least + 1) most x ↔
      ∃ z ∈ round x, y ∈ waysInRounds round eager least (most.map (· - 1)) z := by
  rw [waysInRounds, List.mem_flatMap]

/-- A repetition that may stop does so, or goes on behind a round. -/
theorem mem_waysInRounds_zero :
    y ∈ waysInRounds round eager 0 most x ↔
      y = x ∨ most ≠ some 0 ∧ ∃ z ∈ round x,
        y ∈ if z.rest.length < x.rest.length then waysInRounds round eager 0 (most.map (· - 1)) z
          else [z] := by
  rw [waysInRounds]
  by_cases hmost : most = some 0
  · cases eager <;> simp [hmost]
  · cases eager <;> simp [hmost, or_comm]

/-- Rounds that take something take it as often as they have to be taken. -/
theorem length_of_mem_waysInRounds
    (hround : ∀ x, ∀ y ∈ round x, k + y.rest.length ≤ x.rest.length)
    (h : y ∈ waysInRounds round eager least most x) :
    least * k + y.rest.length ≤ x.rest.length := by
  have hzero : ∀ size x most, x.rest.length < size → y ∈ waysInRounds round eager 0 most x →
      y.rest.length ≤ x.rest.length := by
    intro size
    induction size with
    | zero =>
      intro x most hsize
      exact absurd hsize (Nat.not_lt_zero _)
    | succ size ih =>
      intro x most hsize hy
      rcases mem_waysInRounds_zero.1 hy with rfl | ⟨-, z, hz, hy⟩
      · exact Nat.le_refl _
      · have hle := hround x z hz
        split at hy
        · have hrest := ih z _ (by omega) hy
          omega
        · rw [List.mem_singleton.1 hy]
          omega
  induction least generalizing x most with
  | zero =>
    have hle := hzero _ x most (Nat.lt_succ_self _) h
    omega
  | succ least ih =>
    obtain ⟨z, hz, hy⟩ := mem_waysInRounds_succ.1 h
    have hle := hround x z hz
    have hrest := ih hy
    rw [Nat.succ_mul]
    omega

end Rounds

/-! ## Lengths -/

theorem length_of_mem_past {set : CharSet} {x y : Point} (h : y ∈ x.past set) :
    1 + y.rest.length ≤ x.rest.length := by
  obtain ⟨before, rest⟩ := x
  cases rest with
  | nil => cases h
  | cons c rest =>
    simp only [Point.past] at h
    split at h
    · rw [List.mem_singleton.1 h, List.length_cons]
      exact (Nat.add_comm _ _).le
    · cases h

/-- No way of a pattern is shorter than its least length. -/
theorem length_of_mem_ways {p : Pattern} {n : Nat} (hn : p.minLength? = some n) {x y : Point}
    (h : y ∈ p.ways x) : n + y.rest.length ≤ x.rest.length := by
  induction p generalizing n x y with
  | empty =>
    cases hn
    rw [List.mem_singleton.1 h]
    omega
  | one set =>
    simp only [minLength?] at hn
    split at hn
    · cases hn
    · cases hn
      exact length_of_mem_past h
  | assertion condition =>
    cases hn
    simp only [ways] at h
    split at h
    · rw [List.mem_singleton.1 h]
      omega
    · cases h
  | sequence first second hfirst hsecond =>
    obtain ⟨z, hz, hy⟩ := List.mem_flatMap.1 h
    simp only [minLength?, addLengths] at hn
    split at hn
    · next a b ha hb =>
      cases hn
      have hle := hfirst ha hz
      have hle' := hsecond hb hy
      omega
    · cases hn
  | choice first second hfirst hsecond =>
    simp only [minLength?, minLengths] at hn
    split at hn
    · next a b ha hb =>
      cases hn
      rcases List.mem_append.1 h with hy | hy
      · have hle := hfirst ha hy
        omega
      · have hle := hsecond hb hy
        omega
    · cases hn
  | repeated least most eager body ih =>
    obtain ⟨k, hk, rfl⟩ := Option.map_eq_some_iff.1 hn
    exact length_of_mem_waysInRounds (fun x y hy => ih hk hy) h
  | group number body ih => exact ih hn h

/-- What takes at least one character goes on to a point with less text. -/
theorem length_lt_of_takesSome {p : Pattern} (hp : p.takesSome = true) {x y : Point}
    (h : y ∈ p.ways x) : y.rest.length < x.rest.length := by
  obtain ⟨n, hn, hpos⟩ := (Option.any_eq_true _ _).1 hp
  have hle := length_of_mem_ways hn h
  have hpos := of_decide_eq_true hpos
  omega

/-! ## Languages -/

/-- The texts of a language repeated between two bounds. -/
def inRounds (least : Nat) (most : Option Nat) (round : Language Char) : Language Char :=
  {text | ∃ n, least ≤ n ∧ (∀ m ∈ most, n ≤ m) ∧ text ∈ round ^ n}

/-- The texts of a pattern.  An assertion takes no character. -/
def language : Pattern → Language Char
  | empty => 1
  | one set => {text | ∃ c, set.contains c = true ∧ text = [c]}
  | assertion _ => 1
  | sequence first second => first.language * second.language
  | choice first second => first.language + second.language
  | repeated least most _ body => inRounds least most body.language
  | group _ body => body.language

theorem mem_language_one {set : CharSet} {text : List Char} :
    text ∈ (one set).language ↔ ∃ c, set.contains c = true ∧ text = [c] :=
  Iff.rfl

/-- A pattern without assertions, and with repetitions that have sensible bounds and take at least
one character in every round. -/
def isPlain : Pattern → Bool
  | empty => true
  | one _ => true
  | assertion _ => false
  | sequence first second => first.isPlain && second.isPlain
  | choice first second => first.isPlain && second.isPlain
  | repeated least most _ body => body.isPlain && body.takesSome && most.all (least ≤ ·)
  | group _ body => body.isPlain

section Languages

variable {round : Language Char} {least : Nat} {most : Option Nat}

theorem inRounds_succ (hmost : ∀ m ∈ most, least + 1 ≤ m) :
    inRounds (least + 1) most round = round * inRounds least (most.map (· - 1)) round := by
  ext text
  rw [Language.mem_mul]
  constructor
  · rintro ⟨n, hleast, hn, htext⟩
    obtain ⟨n, rfl⟩ := Nat.exists_eq_add_of_le' (Nat.le_trans (Nat.le_add_left 1 least) hleast)
    rw [pow_succ', Language.mem_mul] at htext
    obtain ⟨first, hfirst, others, hothers, rfl⟩ := htext
    refine ⟨first, hfirst, others, ⟨n, Nat.le_of_succ_le_succ hleast, ?_, hothers⟩, rfl⟩
    intro k hk
    obtain ⟨m, hm, rfl⟩ := Option.mem_map.1 hk
    exact Nat.le_sub_one_of_lt (hn m hm)
  · rintro ⟨first, hfirst, others, ⟨n, hleast, hn, hothers⟩, rfl⟩
    refine ⟨n + 1, Nat.succ_le_succ hleast, ?_, ?_⟩
    · intro m hm
      have hle := hn (m - 1) (Option.mem_map_of_mem _ hm)
      have hpos := hmost m hm
      omega
    · rw [pow_succ']
      exact Language.append_mem_mul hfirst hothers

theorem inRounds_zero :
    inRounds 0 most round =
      1 + if most = some 0 then 0 else round * inRounds 0 (most.map (· - 1)) round := by
  by_cases hmost : most = some 0
  · ext text
    rw [if_pos hmost, add_zero, Language.mem_one]
    constructor
    · rintro ⟨n, -, hn, htext⟩
      obtain rfl := Nat.le_zero.1 (hn 0 hmost)
      rwa [pow_zero] at htext
    · rintro rfl
      exact ⟨0, Nat.le_refl 0, fun m _ => Nat.zero_le m, Language.nil_mem_one⟩
  · have hpos : ∀ m ∈ most, 1 ≤ m := by
      rintro m hm
      by_contra hzero
      obtain rfl : m = 0 := by omega
      exact hmost hm
    rw [if_neg hmost, ← inRounds_succ hpos]
    ext text
    rw [Language.mem_add, Language.mem_one]
    constructor
    · rintro ⟨n, -, hn, htext⟩
      cases n with
      | zero => exact .inl (by rwa [pow_zero] at htext)
      | succ n => exact .inr ⟨n + 1, Nat.le_add_left 1 n, hn, htext⟩
    · rintro (rfl | ⟨n, -, hn, htext⟩)
      · exact ⟨0, Nat.le_refl 0, fun m _ => Nat.zero_le m, Language.nil_mem_one⟩
      · exact ⟨n, Nat.zero_le n, hn, htext⟩

end Languages

/-! ## Where the ways lead -/

/-- Some ways from a point lead behind the texts of a language and nowhere else. -/
def Leads (x : Point) (ways : List Point) (language : Language Char) : Prop :=
  ∀ rest, (∃ y ∈ ways, y.rest = rest) ↔ ∃ text ∈ language, x.rest = text ++ rest

section Leads

variable {x : Point} {ways others : List Point} {first second : Language Char}

theorem leads_nil (x : Point) : Leads x [] 0 := by
  intro rest
  simp [Language.notMem_zero]

theorem leads_self (x : Point) : Leads x [x] 1 := by
  intro rest
  simp [Language.mem_one]

theorem leads_past (x : Point) (set : CharSet) :
    Leads x (x.past set) (language (one set)) := by
  intro rest
  simp only [mem_language_one]
  obtain ⟨before, text⟩ := x
  cases text with
  | nil => simp [Point.past]
  | cons c text =>
    constructor
    · rintro ⟨y, hy, rfl⟩
      simp only [Point.past] at hy
      split at hy
      · next hc =>
        rw [List.mem_singleton.1 hy]
        exact ⟨[c], ⟨c, hc, rfl⟩, rfl⟩
      · cases hy
    · rintro ⟨_, ⟨d, hd, rfl⟩, heq⟩
      obtain ⟨rfl, rfl⟩ := List.cons.inj heq
      rw [Point.past, if_pos hd]
      exact ⟨_, List.mem_singleton.2 rfl, rfl⟩

theorem Leads.append (hfirst : Leads x ways first) (hsecond : Leads x others second) :
    Leads x (ways ++ others) (first + second) := by
  intro rest
  simp only [List.mem_append, Language.mem_add, or_and_right, exists_or, hfirst rest, hsecond rest]

/-- Ways that go on behind others lead behind the texts of both languages in a row. -/
theorem Leads.flatMap {next : Point → List Point} (hfirst : Leads x ways first)
    (hsecond : ∀ y ∈ ways, Leads y (next y) second) :
    Leads x (ways.flatMap next) (first * second) := by
  intro rest
  constructor
  · rintro ⟨z, hz, rfl⟩
    obtain ⟨y, hy, hz⟩ := List.mem_flatMap.1 hz
    obtain ⟨others, hothers, hrest⟩ := (hsecond y hy z.rest).1 ⟨z, hz, rfl⟩
    obtain ⟨text, htext, heq⟩ := (hfirst (others ++ z.rest)).1 ⟨y, hy, hrest⟩
    exact ⟨text ++ others, Language.append_mem_mul htext hothers, by rw [heq, List.append_assoc]⟩
  · rintro ⟨both, hboth, heq⟩
    obtain ⟨text, htext, others, hothers, rfl⟩ := Language.mem_mul.1 hboth
    rw [List.append_assoc] at heq
    obtain ⟨y, hy, hrest⟩ := (hfirst (others ++ rest)).2 ⟨text, htext, heq⟩
    obtain ⟨z, hz, hrest⟩ := (hsecond y hy rest).2 ⟨others, hothers, hrest⟩
    exact ⟨z, List.mem_flatMap.2 ⟨y, hy, hz⟩, hrest⟩

/-- The ways of a repetition that may stop, if every round takes something. -/
theorem waysInRounds_zero {round : Point → List Point} {eager : Bool} {most : Option Nat}
    (hround : ∀ y ∈ round x, y.rest.length < x.rest.length) :
    waysInRounds round eager 0 most x =
      if eager then
        (if most = some 0 then []
          else (round x).flatMap (waysInRounds round eager 0 (most.map (· - 1)))) ++ [x]
      else
        x :: if most = some 0 then []
          else (round x).flatMap (waysInRounds round eager 0 (most.map (· - 1))) := by
  have hmore : ((round x).flatMap fun y =>
      if y.rest.length < x.rest.length then waysInRounds round eager 0 (most.map (· - 1)) y
      else [y]) = (round x).flatMap (waysInRounds round eager 0 (most.map (· - 1))) := by
    apply List.flatMap_congr
    intro y hy
    rw [if_pos (hround y hy)]
  rw [waysInRounds, hmore]

/-- The rounds of a repetition lead behind the texts of its language. -/
theorem leads_waysInRounds {round : Point → List Point} {eager : Bool} {least : Nat}
    {most : Option Nat} (hmost : ∀ m ∈ most, least ≤ m)
    (hround : ∀ x, ∀ y ∈ round x, y.rest.length < x.rest.length)
    (h : ∀ x, Leads x (round x) first) (x : Point) :
    Leads x (waysInRounds round eager least most x) (inRounds least most first) := by
  -- the induction is on the text that is left, and every round takes some of it
  have hzero : ∀ size x most, x.rest.length < size →
      Leads x (waysInRounds round eager 0 most x) (inRounds 0 most first) := by
    intro size
    induction size with
    | zero =>
      intro x most hsize
      exact absurd hsize (Nat.not_lt_zero _)
    | succ size ih =>
      intro x most hsize
      have hmore : Leads x
          (if most = some 0 then []
            else (round x).flatMap (waysInRounds round eager 0 (most.map (· - 1))))
          (if most = some 0 then 0 else first * inRounds 0 (most.map (· - 1)) first) := by
        split
        · exact leads_nil x
        · apply (h x).flatMap
          intro y hy
          apply ih
          exact Nat.lt_of_lt_of_le (hround x y hy) (Nat.le_of_lt_succ hsize)
      rw [waysInRounds_zero (hround x), inRounds_zero]
      split
      · rw [add_comm]
        exact hmore.append (leads_self x)
      · exact (leads_self x).append hmore
  induction least generalizing x most with
  | zero => exact hzero _ x most (Nat.lt_succ_self _)
  | succ least ih =>
    rw [waysInRounds, inRounds_succ hmost]
    apply (h x).flatMap
    intro y _
    apply ih
    intro k hk
    obtain ⟨m, hm, rfl⟩ := Option.mem_map.1 hk
    exact Nat.le_sub_one_of_lt (hmost m hm)

/-- The ways of a plain pattern lead behind the texts of its language. -/
theorem leads_ways {p : Pattern} (hp : p.isPlain = true) (x : Point) :
    Leads x (p.ways x) p.language := by
  induction p generalizing x with
  | empty => exact leads_self x
  | one set => exact leads_past x set
  | assertion condition => cases hp
  | sequence first second hfirst hsecond =>
    obtain ⟨hp, hp'⟩ := Bool.and_eq_true_iff.1 hp
    exact (hfirst hp x).flatMap fun y _ => hsecond hp' y
  | choice first second hfirst hsecond =>
    obtain ⟨hp, hp'⟩ := Bool.and_eq_true_iff.1 hp
    exact (hfirst hp x).append (hsecond hp' x)
  | repeated least most eager body ih =>
    obtain ⟨hp, hmost⟩ := Bool.and_eq_true_iff.1 hp
    obtain ⟨hbody, hsome⟩ := Bool.and_eq_true_iff.1 hp
    apply leads_waysInRounds
    · intro m hm
      exact of_decide_eq_true ((Option.all_eq_true _ _).1 hmost m hm)
    · intro y z hz
      exact length_lt_of_takesSome hsome hz
    · exact ih hbody
  | group number body ih => exact ih hp x

theorem length_le_of_mem_ways {p : Pattern} (hp : p.isPlain = true) {y : Point}
    (h : y ∈ p.ways x) : y.rest.length ≤ x.rest.length := by
  obtain ⟨text, -, heq⟩ := (leads_ways hp x y.rest).1 ⟨y, h, rfl⟩
  rw [heq, List.length_append]
  exact Nat.le_add_left _ _

/-- A text belongs to the language of a plain pattern if one of the ways leaves nothing of it. -/
theorem mem_language_iff {p : Pattern} (hp : p.isPlain = true) (before : Option Char)
    {text : List Char} : text ∈ p.language ↔ [] ∈ p.rests ⟨before, text⟩ := by
  rw [rests, List.mem_map, leads_ways hp ⟨before, text⟩ []]
  simp

end Leads

end Pattern

end Edn
