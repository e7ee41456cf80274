import Edn.Proofs.Instant.Timestamp

/-!
# Signed years

A timestamp with a signed year is read as one of the year 2000, and the result
is moved to its year.  This is as good as reading it in its year.

* `Instant.readSigned_append_iff_of_spellsRest`: a signed year and the rest of
  a timestamp are read as the instant that they spell together.
* `Instant.read_yearSign_iff`: a year of four digits may have a sign.
* `Instant.exists_spellsRest_iff` says what such a rest is, by the reader of
  years of four digits.
* `Instant.exists_parts_of_read`: the result has the year, the day, the time
  and the offset that are written.
* `Instant.read_signedYear` is the summary, and says what is refused.
-/

namespace Edn.Instant

open Text (isDigit signedValue)
open Timestamp (SpellsRest)

variable {negative : Bool} {year rest : List Char} {t : Instant}

/-! ## Years of any length -/

/-- In front of the rest of a timestamp, only digits are read as a year. -/
theorem readSigned_append_iff_of_spellsRest {month day : Nat} {time : TimeOfDay} {offset : Int}
    (hrest : SpellsRest rest month day time offset) :
    readSigned negative (year ++ rest) = .ok t ↔
      ∃ n, 4 ≤ year.length ∧ Text.digits? year = some n ∧
        Spells (signedValue negative n) rest t := by
  by_cases hyear : '-' ∈ year
  · constructor
    · intro h
      obtain ⟨front, back, rfl, hfront⟩ := List.eq_append_cons_of_mem hyear
      rw [List.append_assoc, List.cons_append, readSigned_append_iff hfront (by simp)] at h
      obtain ⟨n, -, -, hspells⟩ := h
      -- what follows the first hyphen is the rest of a timestamp, and ends with another one
      obtain ⟨month', day', time', hrest', -⟩ := hspells.exists_rest
      rw [← List.cons_append] at hrest'
      exact absurd (hrest'.eq_nil_of_append hrest) (List.cons_ne_nil _ _)
    · intro ⟨n, _, hdigits, _⟩
      exact absurd (Text.isDigit_of_digits? hdigits '-' hyear) (by decide)
  · refine readSigned_append_iff hyear fun c hc => ?_
    rw [hrest.head?_eq] at hc
    exact (Option.some.inj hc).symm

/-! ## Years of four digits -/

/-- A sign in front of a year of four digits changes nothing, unless it changes the number. -/
theorem read_yearSign_iff {n : Nat} (hlength : year.length = 4) (hyear : Text.digits? year = some n)
    (hvalue : signedValue negative n = n) (hrest : ∀ c ∈ rest.head?, isDigit c = false) :
    read (yearSign negative :: (year ++ rest)) = .ok t ↔ read (year ++ rest) = .ok t := by
  have hdigits := Text.isDigit_of_digits? hyear
  have hhyphen : '-' ∉ year := fun hmem => absurd (hdigits '-' hmem) (by decide)
  rw [read_yearSign, read_append_iff hlength hdigits]
  by_cases hhead : ∀ c ∈ rest.head?, c = '-'
  · rw [readSigned_append_iff hhyphen hhead]
    constructor
    · intro ⟨m, _, hm, hspells⟩
      obtain rfl : n = m := Option.some.inj (hyear.symm.trans hm)
      exact ⟨n, hyear, hvalue ▸ hspells⟩
    · intro ⟨m, hm, hspells⟩
      obtain rfl : n = m := Option.some.inj (hyear.symm.trans hm)
      exact ⟨n, by omega, hyear, hvalue.symm ▸ hspells⟩
  · -- something that is neither a digit nor a hyphen ends the year
    cases rest with
    | nil => exact absurd (fun c hc => by cases hc) hhead
    | cons c rest =>
      have hc : isDigit c = false := hrest c rfl
      have hne : c ≠ '-' := fun heq => hhead fun d hd => Option.some.inj hd ▸ heq
      constructor
      · intro h
        obtain ⟨m, -, hm, -⟩ := readSigned_eq_ok_iff.1 h
        have hmem : c ∈ (year ++ c :: rest).takeWhile (· != '-') := by
          rw [List.takeWhile_append_of_pos (bne_of_mem_year hhyphen)]
          simp [hne]
        rw [Text.isDigit_of_digits? hm c hmem] at hc
        cases hc
      · intro ⟨m, _, hspells⟩
        obtain ⟨month, day, time, hspellsRest, -⟩ := hspells.exists_rest
        exact absurd (Option.some.inj hspellsRest.head?_eq) hne

/-- The rest of a timestamp of the year 2000 is what is read behind that year. -/
theorem exists_spellsRest_iff :
    (∃ month day time offset, SpellsRest rest month day time offset) ↔
      ∃ t, read ("2000".toList ++ rest) = .ok t := by
  have hread : ∀ t, read ("2000".toList ++ rest) = .ok t ↔
      ∃ n : Nat, Text.digits? "2000".toList = some n ∧ Spells n rest t :=
    fun t => read_append_iff rfl (List.all_eq_true.1 rfl)
  simp only [hread]
  constructor
  · intro ⟨month, day, time, offset, hrest⟩
    have hmoment : IsMoment ⟨2000, month, day⟩ time offset :=
      isMoment_of_fourDigits hrest.isReal hrest.isValid hrest.bounds.2 (by simp) (by simp)
    exact ⟨_, 2000, rfl, .parts rfl hrest hmoment⟩
  · intro ⟨t, n, _, hspells⟩
    obtain ⟨month, day, time, hrest, -⟩ := hspells.exists_rest
    exact ⟨month, day, time, t.offset, hrest⟩

/-! ## Parts -/

/-- A signed text that is read is digits and the rest of a timestamp.  The result has their year,
day, time and offset. -/
theorem exists_parts_of_read {text : List Char} (h : readSigned negative text = .ok t) :
    ∃ year rest n month day time, text = year ++ rest ∧ 4 ≤ year.length ∧
      Text.digits? year = some n ∧ SpellsRest rest month day time t.offset ∧
        t.toLocal = (⟨signedValue negative n, month, day⟩, time) := by
  obtain ⟨n, hlength, hdigits, hspells⟩ := readSigned_eq_ok_iff.1 h
  obtain ⟨month, day, time, hrest, hmoment, heq⟩ := hspells.exists_rest
  refine ⟨_, _, n, month, day, time, (List.takeWhile_append_dropWhile).symm, hlength, hdigits,
    hrest, ?_⟩
  rw [heq]
  exact toLocal_ofLocal hmoment.isReal hrest.isValid t.offset

theorem not_isMoment_iff {date : Date} {time : TimeOfDay} {offset : Int} :
    ¬ IsMoment date time offset ↔ date.year < firstYear ∨ lastYear < date.year ∨ ¬ date.IsReal ∨
      ¬ (ofLocal date time offset).InRange := by
  have hparts : IsMoment date time offset ↔ firstYear ≤ date.year ∧ date.year ≤ lastYear ∧
      date.IsReal ∧ (ofLocal date time offset).InRange :=
    ⟨fun ⟨hfirst, hlast, hreal, hrange⟩ => ⟨hfirst, hlast, hreal, hrange⟩,
      fun ⟨hfirst, hlast, hreal, hrange⟩ => ⟨hfirst, hlast, hreal, hrange⟩⟩
  rw [hparts, not_and_or, not_and_or, not_and_or, not_le, not_le]

/-- A signed year in front of the rest of a timestamp is read if it has four digits or more, and
there is such an instant. -/
theorem exists_ok_iff {month day : Nat} {time : TimeOfDay} {offset : Int}
    (hrest : SpellsRest rest month day time offset) :
    (∃ t, readSigned negative (year ++ rest) = .ok t) ↔
      ∃ n, 4 ≤ year.length ∧ Text.digits? year = some n ∧
        IsMoment ⟨signedValue negative n, month, day⟩ time offset := by
  constructor
  · intro ⟨t, h⟩
    obtain ⟨n, hlength, hdigits, hspells⟩ := (readSigned_append_iff_of_spellsRest hrest).1 h
    obtain ⟨month', day', time', hrest', hmoment, -⟩ := hspells.exists_rest
    obtain ⟨rfl, rfl, rfl, rfl⟩ := hrest.unique hrest'
    exact ⟨n, hlength, hdigits, hmoment⟩
  · intro ⟨n, hlength, hdigits, hmoment⟩
    have hspells := Spells.parts rfl hrest hmoment
    exact ⟨_, (readSigned_append_iff_of_spellsRest hrest).2 ⟨n, hlength, hdigits, hspells⟩⟩

/-- It is refused if it is not written with digits, or if there is no such instant. -/
theorem exists_error_iff {month day : Nat} {time : TimeOfDay} {offset : Int}
    (hrest : SpellsRest rest month day time offset) :
    (∃ fault, readSigned negative (year ++ rest) = .error fault) ↔
      ¬ (4 ≤ year.length ∧ ∀ c ∈ year, isDigit c = true) ∨
        ∃ n, Text.digits? year = some n ∧
          ¬ IsMoment ⟨signedValue negative n, month, day⟩ time offset := by
  have herror : (∃ fault, readSigned negative (year ++ rest) = .error fault) ↔
      ¬ ∃ t, readSigned negative (year ++ rest) = .ok t := by
    cases readSigned negative (year ++ rest) <;> simp
  rw [herror, exists_ok_iff hrest]
  constructor
  · intro h
    by_cases hyear : 4 ≤ year.length ∧ ∀ c ∈ year, isDigit c = true
    · have hne : year ≠ [] := List.length_pos_iff.1 (by omega)
      obtain ⟨n, hn⟩ := Text.exists_digits? hne hyear.2
      exact .inr ⟨n, hn, fun hmoment => h ⟨n, hyear.1, hn, hmoment⟩⟩
    · exact .inl hyear
  · intro h ⟨n, hlength, hn, hmoment⟩
    rcases h with hyear | ⟨m, hm, hnot⟩
    · exact hyear ⟨hlength, Text.isDigit_of_digits? hn⟩
    · obtain rfl : n = m := Option.some.inj (hn.symm.trans hm)
      exact hnot hmoment

/-! ## Summary -/

/-- A timestamp with a signed year is read as if the year had been read with the rest of it.  A sign
in front of four digits changes nothing, and what is read has the year, the day, the time and the
offset that are written.  The rest of a timestamp of the year 2000 is refused behind a signed year
exactly if the year is not four digits or more, no instant has this year, the day does not exist in
it, or the moment is out of range. -/
theorem read_signedYear :
    (∀ (year rest : List Char) (t : Instant), year.length = 4 → (∀ c ∈ year, isDigit c = true) →
      (∀ c ∈ rest.head?, isDigit c = false) →
        (read ('+' :: (year ++ rest)) = .ok t ↔ read (year ++ rest) = .ok t)) ∧
    (∀ (rest : List Char) (t : Instant), (∀ c ∈ rest.head?, isDigit c = false) →
      (read ("-0000".toList ++ rest) = .ok t ↔ read ("0000".toList ++ rest) = .ok t)) ∧
    (∀ (negative : Bool) (text : List Char) (t : Instant),
      read (yearSign negative :: text) = .ok t →
        ∃ year rest n month day time, text = year ++ rest ∧ 4 ≤ year.length ∧
          Text.digits? year = some n ∧ SpellsRest rest month day time t.offset ∧
            t.toLocal = (⟨signedValue negative n, month, day⟩, time)) ∧
    (∀ rest, (∃ month day time offset, SpellsRest rest month day time offset) ↔
      ∃ t, read ("2000".toList ++ rest) = .ok t) ∧
    (∀ (negative : Bool) (year rest : List Char) (month day : Nat) (time : TimeOfDay)
      (offset : Int), SpellsRest rest month day time offset →
        ((∃ fault, read (yearSign negative :: (year ++ rest)) = .error fault) ↔
          ¬ (4 ≤ year.length ∧ ∀ c ∈ year, isDigit c = true) ∨
            ∃ n, Text.digits? year = some n ∧
              (signedValue negative n < firstYear ∨ lastYear < signedValue negative n ∨
                ¬ Date.IsReal ⟨signedValue negative n, month, day⟩ ∨
                  ¬ (ofLocal ⟨signedValue negative n, month, day⟩ time offset).InRange))) := by
  refine ⟨?_, ?_, ?_, fun rest => exists_spellsRest_iff, ?_⟩
  · intro year rest t hlength hdigits hrest
    have hne : year ≠ [] := List.length_pos_iff.1 (by omega)
    obtain ⟨n, hn⟩ := Text.exists_digits? hne hdigits
    exact @read_yearSign_iff false year rest t n hlength hn rfl hrest
  · intro rest t hrest
    exact @read_yearSign_iff true "0000".toList rest t 0 rfl rfl rfl hrest
  · intro negative text t h
    rw [read_yearSign] at h
    exact exists_parts_of_read h
  · intro negative year rest month day time offset hrest
    rw [read_yearSign, exists_error_iff hrest]
    simp only [not_isMoment_iff]

end Edn.Instant
