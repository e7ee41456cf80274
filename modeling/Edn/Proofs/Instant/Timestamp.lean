import Edn.Proofs.Instant.Spelling
import Edn.Proofs.Text.Escaped

/-!
# Timestamps read back

* `Instant.IsValid` says what an instant can be, and `Instant.IsLegible` when
  its timestamp tells it: a local date, whole minutes of offset, and no leap
  second but at the end of a minute.
* `Instant.Spells` says which instant a year and the text after it stand for.
  `read?_eq_some_iff` and `readSigned_eq_ok_iff` are the two readers in these
  terms.
* `Instant.read_written`: the timestamp of a legible instant is read as that
  instant, offset and leap second included.
* `Instant.isLegible_of_read`: every instant that is read is one of these.
-/

namespace Edn

open Text (isDigit padded signedValue)

/-! ## Times of day -/

/-- The clock shows the time at some moment of a day.  Only the last second of a minute is followed
by a leap second. -/
structure TimeOfDay.IsValid (t : TimeOfDay) : Prop where
  hour_lt : t.hour < 24
  minute_lt : t.minute < 60
  second_lt : t.second < 60
  nanos_lt : t.nanos < 2 * nanosOfSecond
  leap : nanosOfSecond ≤ t.nanos → t.second = 59

namespace Timestamp

theorem SpellsFraction.lt {text : List Char} {nanos : Nat} (h : SpellsFraction text nanos) :
    nanos < nanosOfSecond := by
  cases h with
  | absent => decide
  | digits hne hdigits hnanos =>
    have hlt := Text.lt_of_digits? hnanos
    simpa [nanosOfSecond] using hlt

/-- A time that is spelled is one that a clock shows. -/
theorem SpellsTime.isValid {text : List Char} {t : TimeOfDay} (h : SpellsTime text t) :
    t.IsValid := by
  cases h with
  | plain hhour hminute hsecond hfraction =>
    have := hfraction.lt
    exact ⟨hhour, hminute, hsecond, by dsimp only; omega, by dsimp only; omega⟩
  | leap hhour hminute hfraction =>
    have := hfraction.lt
    exact ⟨hhour, hminute, by simp, by dsimp only; omega, fun _ => rfl⟩

theorem spellsFraction_padded {width n : Nat} (hwidth : 0 < width) (hwidth' : width ≤ 9)
    (hn : n < 10 ^ width) : SpellsFraction ('.' :: padded width n) (n * 10 ^ (9 - width)) := by
  have hlength := Text.length_padded_of_lt hwidth hn
  refine .digits (Text.padded_ne_nil hwidth) Text.isDigit_of_mem_padded ?_
  rw [← nanosOf?_eq_some_iff (Text.padded_ne_nil hwidth) Text.isDigit_of_mem_padded, nanosOf?,
    List.take_of_length_le (by omega), Text.digits?_padded, hlength]
  rfl

/-- A fraction is written with all its digits. -/
theorem spellsFraction_fractionText {nanos : Nat} (h : nanos < nanosOfSecond) :
    SpellsFraction (TimeOfDay.fractionText nanos) nanos := by
  unfold nanosOfSecond at h
  unfold TimeOfDay.fractionText
  split
  · next hzero =>
    rw [hzero]
    exact .absent
  · split
    · have hspells := @spellsFraction_padded 3 (nanos / 1000000) (by decide) (by decide) (by omega)
      rwa [show nanos / 1000000 * 10 ^ (9 - 3) = nanos by norm_num; omega] at hspells
    · split
      · have hspells := @spellsFraction_padded 6 (nanos / 1000) (by decide) (by decide) (by omega)
        rwa [show nanos / 1000 * 10 ^ (9 - 6) = nanos by norm_num; omega] at hspells
      · have hspells := @spellsFraction_padded 9 nanos (by decide) (by decide) (by omega)
        rwa [Nat.sub_self, pow_zero, Nat.mul_one] at hspells

/-- A time that a clock shows is spelled by its text. -/
theorem spellsTime_text {t : TimeOfDay} (h : t.IsValid) : SpellsTime t.text t := by
  obtain ⟨hhour, hminute, hsecond, hnanos, hleap⟩ := h
  obtain ⟨hour, minute, second, nanos⟩ := t
  dsimp only at *
  unfold TimeOfDay.text
  dsimp only
  by_cases hlarge : nanosOfSecond ≤ nanos
  · have hsixty := hleap hlarge
    subst hsixty
    simp only [hlarge, decide_true, if_true, List.append_assoc, List.cons_append]
    have hspells := SpellsTime.leap hhour hminute (spellsFraction_fractionText
      (show nanos - nanosOfSecond < nanosOfSecond by omega))
    rwa [Nat.sub_add_cancel hlarge] at hspells
  · simp only [hlarge, decide_false, Bool.false_eq_true, if_false, List.append_assoc,
      List.cons_append]
    exact .plain hhour hminute hsecond (spellsFraction_fractionText (by omega))

/-! ## Offsets -/

/-- An offset that is spelled has whole minutes, and less than a day of them. -/
theorem SpellsOffset.bounds {text : List Char} {offset : Int} (h : SpellsOffset text offset) :
    offset % 60 = 0 ∧ offset.natAbs < 86400 := by
  cases h <;> omega

/-- An offset of whole minutes is spelled by its text. -/
theorem spellsOffset_offsetText {offset : Int} (hminutes : offset % 60 = 0)
    (hsize : offset.natAbs < 86400) : SpellsOffset (Instant.offsetText offset) offset := by
  unfold Instant.offsetText
  split
  · next hzero =>
    rw [hzero]
    exact .utc (.inl rfl)
  · next hne =>
    dsimp only
    generalize hm : (offset.natAbs + 30) / 60 = minutes
    have habs : offset.natAbs = minutes * 60 := by omega
    have hhours : minutes / 60 < 24 := by omega
    have hrest : minutes % 60 < 60 := by omega
    unfold Instant.offsetSign
    split
    · next hneg =>
      rw [show offset = -((minutes / 60 : Nat) * 3600 + (minutes % 60 : Nat) * 60) by omega]
      exact .west (.inl rfl) hhours hrest
    · next hpos =>
      rw [show offset = (minutes / 60 : Nat) * 3600 + (minutes % 60 : Nat) * 60 by omega]
      exact .east hhours hrest

/-! ## After the year -/

theorem SpellsRest.isValid {text : List Char} {month day : Nat} {time : TimeOfDay} {offset : Int}
    (h : SpellsRest text month day time offset) : time.IsValid := by
  cases h with
  | rest hday hseparator htime hoffset => exact htime.isValid

theorem SpellsRest.bounds {text : List Char} {month day : Nat} {time : TimeOfDay} {offset : Int}
    (h : SpellsRest text month day time offset) : offset % 60 = 0 ∧ offset.natAbs < 86400 := by
  cases h with
  | rest hday hseparator htime hoffset => exact hoffset.bounds

theorem SpellsRest.head?_eq {text : List Char} {month day : Nat} {time : TimeOfDay} {offset : Int}
    (h : SpellsRest text month day time offset) : text.head? = some '-' := by
  cases h
  rfl

end Timestamp

/-! ## Instants -/

namespace Instant

open Timestamp (SpellsRest)

/-- An instant that there is: in the range of instants, with an offset of less than a day.  Any second
can be noted as a leap second. -/
structure IsValid (t : Instant) : Prop where
  inRange : t.InRange
  nanos_lt : t.nanos < 2 * nanosOfSecond
  offset_lt : t.offset.natAbs < 86400

/-- A timestamp can tell the instant: the program writes one, the offset has whole minutes, and a leap
second follows the last second of a minute. -/
structure IsLegible (t : Instant) : Prop where
  localDate : t.HasLocalDate
  minutes : t.offset % 60 = 0
  leap : nanosOfSecond ≤ t.nanos → t.seconds % 60 = 59

instance (t : Instant) : Decidable t.IsLegible :=
  decidable_of_iff
    (t.HasLocalDate ∧ t.offset % 60 = 0 ∧ (nanosOfSecond ≤ t.nanos → t.seconds % 60 = 59))
    ⟨fun ⟨h, h', h''⟩ => ⟨h, h', h''⟩, fun ⟨h, h', h''⟩ => ⟨h, h', h''⟩⟩

/-! ## Local date and time -/

theorem toLocal_eq (t : Instant) :
    t.toLocal = (Date.ofDays ((t.seconds + t.offset) / 86400),
      TimeOfDay.ofSeconds ((t.seconds + t.offset) % 86400).toNat t.nanos) := by
  unfold toLocal secondsOfDay
  dsimp only
  rw [Int.fdiv_eq_ediv_of_nonneg _ (by decide), Int.fmod_eq_emod_of_nonneg _ (by decide)]

/-- The local date of an instant exists. -/
theorem isReal_toLocal (t : Instant) : t.toLocal.1.IsReal :=
  Date.isReal_ofDays _

/-- The local time of an instant is a time of day, at the nanosecond of the moment. -/
theorem toLocal_bounds (t : Instant) :
    t.toLocal.2.hour < 24 ∧ t.toLocal.2.minute < 60 ∧ t.toLocal.2.second < 60 ∧
      t.toLocal.2.nanos = t.nanos := by
  rw [toLocal_eq]
  unfold TimeOfDay.ofSeconds
  dsimp only
  omega

/-- The local time of a legible instant is one that a clock shows. -/
theorem isValid_toLocal {t : Instant} (h : t.IsValid) (hlegible : t.IsLegible) :
    t.toLocal.2.IsValid := by
  obtain ⟨hhour, hminute, hsecond, hnanos⟩ := toLocal_bounds t
  refine ⟨hhour, hminute, hsecond, hnanos ▸ h.nanos_lt, fun hlarge => ?_⟩
  have hleap := hlegible.leap (hnanos ▸ hlarge)
  have hminutes := hlegible.minutes
  rw [toLocal_eq]
  unfold TimeOfDay.ofSeconds
  dsimp only
  omega

/-- An instant is made of its local date and time. -/
theorem ofLocal_toLocal (t : Instant) : ofLocal t.toLocal.1 t.toLocal.2 t.offset = t := by
  obtain ⟨seconds, nanos, offset⟩ := t
  rw [toLocal_eq]
  simp only [ofLocal, Date.toDays_ofDays, TimeOfDay.toSeconds, TimeOfDay.ofSeconds, secondsOfDay,
    Instant.mk.injEq, and_true]
  omega

/-- The local date and time of an instant are those of which it was made. -/
theorem toLocal_ofLocal {date : Date} {time : TimeOfDay} (hdate : date.IsReal)
    (htime : time.IsValid) (offset : Int) : (ofLocal date time offset).toLocal = (date, time) := by
  obtain ⟨hour, minute, second, nanos⟩ := time
  obtain ⟨hhour, hminute, hsecond, -, -⟩ := htime
  dsimp only at hhour hminute hsecond
  rw [toLocal_eq]
  unfold ofLocal TimeOfDay.toSeconds TimeOfDay.ofSeconds secondsOfDay
  dsimp only
  rw [show (date.toDays * 86400 + (hour * 3600 + minute * 60 + second : Int) - offset + offset) /
    86400 = date.toDays by omega, Date.ofDays_toDays hdate]
  simp only [Prod.mk.injEq, TimeOfDay.mk.injEq, and_true, true_and]
  omega

/-- The date exists, in a year that an instant can have, and the moment is in the range of
instants. -/
structure IsMoment (date : Date) (time : TimeOfDay) (offset : Int) : Prop where
  firstYear_le : firstYear ≤ date.year
  le_lastYear : date.year ≤ lastYear
  isReal : date.IsReal
  inRange : (ofLocal date time offset).InRange

/-- The years of four digits are far from the ends of the range. -/
theorem inRange_ofLocal {date : Date} {time : TimeOfDay} {offset : Int} (hdate : date.IsReal)
    (htime : time.IsValid) (hsize : offset.natAbs < 86400) (hyear : 0 ≤ date.year)
    (hyear' : date.year ≤ 9999) : (ofLocal date time offset).InRange := by
  have hmonth := hdate.month_bounds
  have hday := hdate.day_le
  obtain ⟨hhour, hminute, hsecond, -, -⟩ := htime
  have hdays : -1000000 ≤ date.toDays ∧ date.toDays ≤ 4000000 := by
    unfold Date.toDays Date.daysOfEra Date.daysToEpoch
    dsimp only
    rw [Int.fdiv_eq_ediv_of_nonneg _ (by decide), Int.fmod_eq_emod_of_nonneg _ (by decide)]
    split <;> omega
  have hfirst : Date.toDays ⟨firstYear, 1, 1⟩ = -96465292 := by decide
  have hlast : Date.toDays ⟨lastYear, 12, 31⟩ = 95026236 := by decide
  unfold InRange
  rw [hfirst, hlast]
  unfold ofLocal TimeOfDay.toSeconds secondsOfDay
  dsimp only
  omega

/-- Real dates of years of four digits are those of instants. -/
theorem isMoment_of_fourDigits {date : Date} {time : TimeOfDay} {offset : Int} (hdate : date.IsReal)
    (htime : time.IsValid) (hsize : offset.natAbs < 86400) (hyear : 0 ≤ date.year)
    (hyear' : date.year ≤ 9999) : IsMoment date time offset :=
  ⟨by unfold firstYear; omega, by unfold lastYear; omega, hdate,
    inRange_ofLocal hdate htime hsize hyear hyear'⟩

/-! ## Readers -/

/-- A year and the text after it stand for an instant. -/
inductive Spells (year : Int) (rest : List Char) : Instant → Prop where
  | parts {date : Date} {time : TimeOfDay} {offset : Int} (hyear : date.year = year)
      (hrest : SpellsRest rest date.month date.day time offset)
      (hmoment : IsMoment date time offset) :
      Spells year rest (ofLocal date time offset)

/-- The sign in front of a year. -/
def yearSign (negative : Bool) : Char :=
  if negative then '-' else '+'

@[simp] theorem read_yearSign (negative : Bool) (text : List Char) :
    read (yearSign negative :: text) = readSigned negative text := by
  cases negative <;> rfl

/-- A year is read if it has four digits or more, and 32 bits hold it. -/
theorem readYear_eq_ok_iff {negative : Bool} {digits : List Char} {year : Int} :
    readYear negative digits = .ok year ↔
      ∃ n, 4 ≤ digits.length ∧ Text.digits? digits = some n ∧ year = signedValue negative n ∧
        if negative then n ≤ yearBound else n < yearBound := by
  unfold readYear
  cases hdigits : Text.digits? digits with
  | none => simp
  | some n =>
    dsimp only
    by_cases hshort : digits.length < 4
    · rw [if_pos hshort]
      simp
      omega
    · rw [if_neg hshort]
      cases negative with
      | true =>
        by_cases hle : n ≤ yearBound
        · simp [hle, signedValue]
          omega
        · simp [hle]
      | false =>
        by_cases hlt : n < yearBound
        · simp [hlt, signedValue]
          omega
        · simp [hlt]

/-- A text with a signed year is read as the instant that it spells. -/
theorem readSigned_eq_ok_iff {negative : Bool} {text : List Char} {t : Instant} :
    readSigned negative text = .ok t ↔
      ∃ n, 4 ≤ (text.takeWhile (· != '-')).length ∧
        Text.digits? (text.takeWhile (· != '-')) = some n ∧
          Spells (signedValue negative n) (text.dropWhile (· != '-')) t := by
  constructor
  · intro h
    simp only [readSigned, bind, Except.bind] at h
    split at h
    · cases h
    · next year hyear =>
      obtain ⟨n, hlength, hdigits, rfl, -⟩ := readYear_eq_ok_iff.1 hyear
      split at h
      · cases h
      · next date time offset hparts =>
        obtain ⟨-, -, hrest⟩ := Timestamp.afterYear?_eq_some_iff.1 hparts
        split at h
        · next hchecks =>
          cases h
          obtain ⟨hfirst, hlast, hreal, hrange⟩ := hchecks
          exact ⟨n, hlength, hdigits, .parts rfl hrest ⟨hfirst, hlast, hreal, hrange⟩⟩
        · cases h
  · intro ⟨n, hlength, hdigits, hspells⟩
    cases hspells with
    | @parts date time offset hvalue hrest hmoment =>
      obtain ⟨hfirst, hlast, hreal, hrange⟩ := hmoment
      obtain ⟨_, month, day⟩ := date
      dsimp only at hvalue hfirst hlast
      subst hvalue
      have hyear :
          readYear negative (text.takeWhile (· != '-')) = .ok (signedValue negative n) := by
        refine readYear_eq_ok_iff.2 ⟨n, hlength, hdigits, rfl, ?_⟩
        -- the years of instants are far from the ends of 32 bits
        unfold firstYear at hfirst
        unfold lastYear at hlast
        unfold signedValue at hfirst hlast
        unfold yearBound
        split at hfirst <;> simp_all <;> omega
      have hparts : Timestamp.afterYear? 2000 (text.dropWhile (· != '-')) =
          some (⟨2000, month, day⟩, time, offset) :=
        Timestamp.afterYear?_eq_some_iff.2 ⟨rfl, hreal.of_leapYear, hrest⟩
      simp only [readSigned, hyear, hparts, bind, Except.bind]
      rw [if_pos ⟨hfirst, hlast, hreal, hrange⟩]

theorem bne_of_mem_year {year : List Char} (hyear : '-' ∉ year) :
    ∀ c ∈ year, (c != '-') = true := by
  intro c hc
  rw [bne_iff_ne]
  intro heq
  exact hyear (heq ▸ hc)

/-- A signed year ends at the first hyphen behind it. -/
theorem takeWhile_year {year rest : List Char} (hyear : '-' ∉ year)
    (hrest : ∀ c ∈ rest.head?, c = '-') :
    (year ++ rest).takeWhile (· != '-') = year ∧ (year ++ rest).dropWhile (· != '-') = rest := by
  rw [List.takeWhile_append_of_pos (bne_of_mem_year hyear),
    List.dropWhile_append_of_pos (bne_of_mem_year hyear)]
  cases rest with
  | nil => simp
  | cons c rest => simp [hrest c rfl]

/-- A signed year and what follows its first hyphen are read as the instant that they spell. -/
theorem readSigned_append_iff {negative : Bool} {year rest : List Char} {t : Instant}
    (hyear : '-' ∉ year) (hrest : ∀ c ∈ rest.head?, c = '-') :
    readSigned negative (year ++ rest) = .ok t ↔
      ∃ n, 4 ≤ year.length ∧ Text.digits? year = some n ∧
        Spells (signedValue negative n) rest t := by
  obtain ⟨htake, hdrop⟩ := takeWhile_year hyear hrest
  rw [readSigned_eq_ok_iff, htake, hdrop]

/-- A text with a year of four digits is read as the instant that it spells. -/
theorem read?_eq_some_iff {text : List Char} {t : Instant} :
    Timestamp.read? text = some t ↔
      ∃ digits rest n, text = digits ++ rest ∧ digits.length = 4 ∧ Text.digits? digits = some n ∧
        Spells n rest t := by
  simp only [Timestamp.read?, bind, Option.bind_eq_some_iff, pure]
  constructor
  · intro ⟨⟨n, rest⟩, hyear, ⟨⟨year, month, day⟩, time, offset⟩, hparts, heq⟩
    cases heq
    obtain ⟨digits, rfl, hlength, hdigits⟩ := Timestamp.fourDigits?_eq_some_iff.1 hyear
    obtain ⟨rfl, hreal, hrest⟩ := Timestamp.afterYear?_eq_some_iff.1 hparts
    have hlt := Text.lt_of_digits? hdigits
    rw [hlength] at hlt
    exact ⟨digits, rest, n, rfl, hlength, hdigits, .parts rfl hrest
      (isMoment_of_fourDigits hreal hrest.isValid hrest.bounds.2 (by dsimp only; omega)
        (by dsimp only; omega))⟩
  · rintro ⟨digits, rest, n, rfl, hlength, hdigits, hspells⟩
    cases hspells with
    | @parts date time offset hyear hrest hmoment =>
      exact ⟨(n, rest), Timestamp.fourDigits?_eq_some_iff.2 ⟨digits, rfl, hlength, hdigits⟩,
        (date, time, offset),
        Timestamp.afterYear?_eq_some_iff.2 ⟨hyear, hmoment.isReal, hrest⟩, rfl⟩

theorem read_eq_ok_iff_of_isDigit {c : Char} {rest : List Char} {t : Instant}
    (hc : isDigit c = true) :
    read (c :: rest) = .ok t ↔ Timestamp.read? (c :: rest) = some t := by
  have hplus : c ≠ '+' := by
    intro heq
    rw [heq] at hc
    cases hc
  have hminus : c ≠ '-' := by
    intro heq
    rw [heq] at hc
    cases hc
  rw [read]
  · cases Timestamp.read? (c :: rest) <;> simp
  · simpa using hplus
  · simpa using hminus

/-- A year of four digits and what follows it are read as the instant that they spell. -/
theorem read_append_iff {year rest : List Char} {t : Instant} (hlength : year.length = 4)
    (hdigits : ∀ c ∈ year, isDigit c = true) :
    read (year ++ rest) = .ok t ↔ ∃ n : Nat, Text.digits? year = some n ∧ Spells n rest t := by
  have hread : Timestamp.read? (year ++ rest) = some t ↔
      ∃ n : Nat, Text.digits? year = some n ∧ Spells n rest t := by
    rw [read?_eq_some_iff]
    constructor
    · intro ⟨year', rest', n, heq, hlength', hvalue, hspells⟩
      obtain ⟨rfl, rfl⟩ := List.append_inj heq (hlength.trans hlength'.symm)
      exact ⟨n, hvalue, hspells⟩
    · intro ⟨n, hvalue, hspells⟩
      exact ⟨year, rest, n, rfl, hlength, hvalue, hspells⟩
  rw [← hread]
  cases year with
  | nil => cases hlength
  | cons c year => exact read_eq_ok_iff_of_isDigit (hdigits c List.mem_cons_self)

/-- What follows a year that spells an instant is the rest of a timestamp of the year 2000. -/
theorem Spells.exists_rest {year : Int} {rest : List Char} {t : Instant} (h : Spells year rest t) :
    ∃ month day time, SpellsRest rest month day time t.offset ∧
      IsMoment ⟨year, month, day⟩ time t.offset ∧ t = ofLocal ⟨year, month, day⟩ time t.offset := by
  cases h with
  | @parts date time offset hyear hrest hmoment =>
    obtain ⟨_, month, day⟩ := date
    subst hyear
    exact ⟨month, day, time, hrest, hmoment, rfl⟩

/-- An instant that is spelled is one that there is, and its timestamp tells it. -/
theorem Spells.isLegible {year : Int} {rest : List Char} {t : Instant} (h : Spells year rest t) :
    t.IsValid ∧ t.IsLegible := by
  cases h with
  | parts hyear hrest hmoment =>
    have htime := hrest.isValid
    obtain ⟨hminutes, hsize⟩ := hrest.bounds
    refine ⟨⟨hmoment.inRange, htime.nanos_lt, hsize⟩, ⟨?_, hminutes, fun hleap => ?_⟩⟩
    · rw [HasLocalDate, toLocal_ofLocal hmoment.isReal htime]
      exact ⟨hmoment.firstYear_le, hmoment.le_lastYear⟩
    · have := htime.leap hleap
      unfold ofLocal TimeOfDay.toSeconds secondsOfDay
      dsimp only
      omega

/-- An instant that is read is one that there is, and its timestamp tells it. -/
theorem isLegible_of_read {text : List Char} {t : Instant} (h : read text = .ok t) :
    t.IsValid ∧ t.IsLegible := by
  unfold read at h
  split at h
  · obtain ⟨n, -, -, hspells⟩ := readSigned_eq_ok_iff.1 h
    exact hspells.isLegible
  · obtain ⟨n, -, -, hspells⟩ := readSigned_eq_ok_iff.1 h
    exact hspells.isLegible
  · split at h
    · next hread =>
      cases h
      obtain ⟨digits, rest, n, -, -, -, hspells⟩ := read?_eq_some_iff.1 hread
      exact hspells.isLegible
    · cases h

/-! ## Round trip -/

/-- What is written after the year. -/
def restText (t : Instant) : List Char :=
  '-' :: (padded 2 t.toLocal.1.month ++ '-' :: (padded 2 t.toLocal.1.day ++
    'T' :: (t.toLocal.2.text ++ offsetText t.offset)))

theorem written_eq (t : Instant) :
    t.written = Date.yearText t.toLocal.1.year ++ t.restText := by
  simp [written, localText, Date.text, restText]

/-- A year is written in such a way that it is read with the text after it. -/
theorem read_yearText_append_iff {year : Int} {rest : List Char} {t : Instant}
    (hrest : ∀ c ∈ rest.head?, c = '-') :
    read (Date.yearText year ++ rest) = .ok t ↔ Spells year rest t := by
  unfold Date.yearText
  split
  · next hyear =>
    have hlength := Text.length_padded_of_lt (show 0 < 4 by decide)
      (show year.toNat < 10 ^ 4 by omega)
    rw [read_append_iff hlength Text.isDigit_of_mem_padded]
    simp [Text.digits?_padded, Int.toNat_of_nonneg hyear.1]
  · have hhyphen : '-' ∉ padded 4 year.natAbs := fun hmem =>
      absurd (Text.isDigit_of_mem_padded '-' hmem) (by decide)
    have hlength := Text.length_padded 4 year.natAbs
    have hsign : (if year < 0 then '-' else '+') = yearSign (decide (year < 0)) := by
      simp [yearSign]
    have hvalue : signedValue (decide (year < 0)) year.natAbs = year := by
      simp only [signedValue, decide_eq_true_eq]
      split <;> omega
    rw [hsign, List.cons_append, read_yearSign, readSigned_append_iff hhyphen hrest]
    simp [Text.digits?_padded, hvalue, hlength]

/-- A timestamp is read as the instant that it spells. -/
theorem read_written_iff {t back : Instant} :
    read t.written = .ok back ↔ Spells t.toLocal.1.year t.restText back := by
  rw [written_eq]
  exact read_yearText_append_iff (by simp [restText])

/-- The timestamp of a legible instant is read as that instant. -/
theorem read_written {t : Instant} (h : t.IsValid) (hlegible : t.IsLegible) :
    read t.written = .ok t := by
  have hdate := isReal_toLocal t
  have hrest : SpellsRest t.restText t.toLocal.1.month t.toLocal.1.day t.toLocal.2 t.offset :=
    .rest hdate.of_leapYear rfl (Timestamp.spellsTime_text (isValid_toLocal h hlegible))
      (Timestamp.spellsOffset_offsetText hlegible.minutes h.offset_lt)
  have hmoment : IsMoment t.toLocal.1 t.toLocal.2 t.offset :=
    ⟨hlegible.localDate.1, hlegible.localDate.2, hdate, by rw [ofLocal_toLocal]; exact h.inRange⟩
  rw [read_written_iff]
  have hspells := Spells.parts rfl hrest hmoment
  rwa [ofLocal_toLocal] at hspells

/-! ## Characters -/

/-- A timestamp needs no escapes between quotes. -/
theorem isBare_of_mem_written (t : Instant) : ∀ c ∈ t.written, Text.isBare c = true := by
  have hpadded : ∀ width n, ∀ c ∈ padded width n, Text.isBare c = true :=
    fun width n c hc => Text.isBare_of_isDigit (Text.isDigit_of_mem_padded c hc)
  have hyear : ∀ c ∈ Date.yearText t.toLocal.1.year, Text.isBare c = true := by
    unfold Date.yearText
    split
    · exact hpadded _ _
    · exact List.forall_mem_cons.2 ⟨by split <;> decide, hpadded _ _⟩
  have hfraction : ∀ nanos, ∀ c ∈ TimeOfDay.fractionText nanos, Text.isBare c = true := by
    intro nanos
    unfold TimeOfDay.fractionText
    split
    · exact List.forall_mem_nil _
    · split
      · exact List.forall_mem_cons.2 ⟨by decide, hpadded _ _⟩
      · split <;> exact List.forall_mem_cons.2 ⟨by decide, hpadded _ _⟩
  have hoffset : ∀ c ∈ offsetText t.offset, Text.isBare c = true := by
    unfold offsetText offsetSign
    split
    · exact List.all_eq_true.1 rfl
    · simp only [List.forall_mem_append, List.forall_mem_cons]
      exact ⟨⟨by split <;> decide, hpadded _ _⟩, by decide, hpadded _ _⟩
  rw [written_eq]
  unfold restText TimeOfDay.text
  simp only [List.forall_mem_append, List.forall_mem_cons]
  exact ⟨hyear, by decide, hpadded _ _, by decide, hpadded _ _, by decide,
    ⟨⟨⟨hpadded _ _, by decide, hpadded _ _⟩, by decide, hpadded _ _⟩, hfraction _⟩, hoffset⟩

end Instant

end Edn
