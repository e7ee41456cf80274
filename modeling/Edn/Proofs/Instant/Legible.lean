import Edn.Proofs.Instant.Timestamp
import Edn.Scalar

/-!
# Which timestamps are read back

A timestamp has the date at the offset of the instant, the offset in minutes,
and a leap second at the end of a minute only.  The local date may lie outside
the calendar, where there is no timestamp; an offset may have seconds; and any
second may be noted as a leap second.

* `Instant.eq_of_read_written`: if the timestamp of an instant is read as an
  instant at the same moment, it is that instant.
* `Instant.readsBack_timestamp_iff`: this is so for the legible instants, and
  for no others.
-/

namespace Edn

open Text (padded)

/-! ## Times of day -/

/-- The text of a time is that of a time that a clock shows.  If this is another one, it has other
nanoseconds. -/
theorem TimeOfDay.exists_shown {t : TimeOfDay} (hhour : t.hour < 24) (hminute : t.minute < 60)
    (hsecond : t.second < 60) (hnanos : t.nanos < 2 * nanosOfSecond) :
    ∃ shown : TimeOfDay, shown.IsValid ∧ shown.text = t.text ∧
      (shown.nanos = t.nanos → shown = t) := by
  by_cases hother : nanosOfSecond ≤ t.nanos ∧ t.second ≠ 59
  · -- the second after it is shown, which is not a leap second
    obtain ⟨hlarge, hnotLast⟩ := hother
    refine ⟨⟨t.hour, t.minute, t.second + 1, t.nanos - nanosOfSecond⟩,
      ⟨hhour, hminute, ?_, ?_, ?_⟩, ?_, ?_⟩
    · dsimp only
      omega
    · dsimp only
      omega
    · dsimp only
      omega
    · have hsmall : ¬ nanosOfSecond ≤ t.nanos - nanosOfSecond := by omega
      simp [TimeOfDay.text, hlarge, hsmall]
    · intro heq
      have hpos : 0 < nanosOfSecond := by decide
      dsimp only at heq
      omega
  · exact ⟨t, ⟨hhour, hminute, hsecond, hnanos, by omega⟩, rfl, fun _ => rfl⟩

/-! ## Parts of a timestamp -/

namespace Timestamp

theorem endsFraction_offsetText (offset : Int) : EndsFraction (Instant.offsetText offset) := by
  unfold EndsFraction Instant.offsetText Instant.offsetSign
  intro c hc
  split at hc
  · cases hc
    decide
  · split at hc <;> cases hc <;> decide

/-- The date and the time in the rest of a timestamp are those of which it was written. -/
theorem SpellsRest.eq_written {month month' day day' : Nat} {clock zone : List Char}
    {time time' : TimeOfDay} {offset : Int} (hmonth : month < 100) (hday : day < 100)
    (hclock : SpellsTime clock time) (hzone : EndsFraction zone)
    (h : SpellsRest ('-' :: (padded 2 month ++ '-' :: (padded 2 day ++ 'T' :: (clock ++ zone))))
      month' day' time' offset) :
    month = month' ∧ day = day' ∧ time = time' := by
  have hread := (@afterYear?_eq_some_iff 2000 _ ⟨2000, month', day'⟩ _ _).2 ⟨rfl, h.isReal, h⟩
  simp only [afterYear?, monthAndDay?, after?_cons, bind, Option.bind_some, pure,
    twoDigits?_padded hmonth, twoDigits?_padded hday, time?_of_spells hclock hzone] at hread
  rw [if_pos (by decide)] at hread
  obtain ⟨offset', -, hread⟩ := Option.bind_eq_some_iff.1 hread
  split at hread
  · cases hread
    exact ⟨rfl, rfl, rfl⟩
  · cases hread

end Timestamp

namespace Instant

/-! ## Reading back -/

/-- An instant at the same moment that the timestamp of an instant is read as is that instant. -/
theorem eq_of_read_written {t back : Instant} (h : read t.written = .ok back)
    (hsame : t.sameMoment back = true) : back = t := by
  obtain ⟨hseconds, hnanos⟩ : t.seconds = back.seconds ∧ t.nanos = back.nanos := by
    simpa [sameMoment] using hsame
  obtain ⟨hvalid, -⟩ := isLegible_of_read h
  have hlt := hvalid.nanos_lt
  obtain ⟨month, day, time, hrest, -, heq⟩ := (read_written_iff.1 h).exists_rest
  obtain ⟨hhour, hminute, hsecond, hnanosLocal⟩ := toLocal_bounds t
  obtain ⟨shown, hshown, htext, hshownEq⟩ :=
    TimeOfDay.exists_shown hhour hminute hsecond (by omega)
  have hdate := isReal_toLocal t
  have hmonth := hdate.month_bounds
  have hday := hdate.day_le
  rw [restText, ← htext] at hrest
  obtain ⟨rfl, rfl, rfl⟩ := Timestamp.SpellsRest.eq_written (by omega) (by omega)
    (Timestamp.spellsTime_text hshown) (Timestamp.endsFraction_offsetText _) hrest
  -- the time is the local time, as its nanoseconds are those of the moment
  have hnanosShown : shown.nanos = back.nanos := by rw [heq]; rfl
  have hlocal : back = ofLocal t.toLocal.1 t.toLocal.2 back.offset := by
    rw [← hshownEq (by omega)]
    exact heq
  -- so the seconds differ by the offsets only
  have hoffset : back.offset = t.offset := by
    have hback := congrArg Instant.seconds hlocal
    have hself := congrArg Instant.seconds (ofLocal_toLocal t)
    unfold ofLocal at hback hself
    dsimp only at hback hself
    omega
  rw [hlocal, hoffset]
  exact ofLocal_toLocal t

/-- The program writes a timestamp if there is a local date. -/
theorem timestamp_eq_some_iff {t : Instant} {text : List Char} :
    t.timestamp = some text ↔ t.HasLocalDate ∧ text = t.written := by
  by_cases h : t.HasLocalDate <;> simp [timestamp, h, eq_comm]

/-- An instant is written as its timestamp in quotes, if it has one.  There is a timestamp, and it is
read as an instant at the same moment, exactly if the instant is one that there is, with a local
date, with whole minutes of offset, and not in a leap second but at the end of a minute.  Then the
instant itself is read, offset and leap second included. -/
theorem readsBack_timestamp_iff (t : Instant) :
    (Scalar.instant t).display = t.timestamp.map (fun text => '"' :: (text ++ ['"'])) ∧
      ((∃ text back, t.timestamp = some text ∧ read text = .ok back ∧ t.sameMoment back = true) ↔
        t.IsValid ∧ t.IsLegible) ∧
      ((∃ text, t.timestamp = some text ∧ read text = .ok t) ↔ t.IsValid ∧ t.IsLegible) := by
  have hquote : ∀ text, t.timestamp = some text → Text.quote text = '"' :: (text ++ ['"']) := by
    intro text htext
    rw [(timestamp_eq_some_iff.1 htext).2, Text.quote,
      Text.escapeAll_of_isBare t.isBare_of_mem_written]
    rfl
  have hself : (∃ text, t.timestamp = some text ∧ read text = .ok t) ↔ t.IsValid ∧ t.IsLegible := by
    constructor
    · intro ⟨_, _, hread⟩
      exact isLegible_of_read hread
    · intro ⟨hvalid, hlegible⟩
      exact ⟨t.written, timestamp_eq_some_iff.2 ⟨hlegible.localDate, rfl⟩,
        read_written hvalid hlegible⟩
  refine ⟨Option.map_congr hquote, ?_, hself⟩
  rw [← hself]
  constructor
  · intro ⟨text, back, htext, hread, hsame⟩
    rw [(timestamp_eq_some_iff.1 htext).2] at hread
    rw [eq_of_read_written hread hsame] at hread
    exact ⟨t.written, timestamp_eq_some_iff.2 ⟨(timestamp_eq_some_iff.1 htext).1, rfl⟩, hread⟩
  · intro ⟨text, htext, hread⟩
    exact ⟨text, t, htext, hread, by simp [sameMoment]⟩

/-- The program stops at the last second of all, if it is noted an hour east of UTC.  An offset of one
second is written as no offset, and a leap second in the middle of a minute as the second after it;
another moment is read. -/
theorem not_readsBack_timestamp :
    (IsValid ⟨8210266876799, 0, 3600⟩ ∧ timestamp ⟨8210266876799, 0, 3600⟩ = none) ∧
    (IsValid ⟨0, 0, 1⟩ ∧ (timestamp ⟨0, 0, 1⟩).map read = some (.ok ⟨1, 0, 0⟩) ∧
      sameMoment ⟨0, 0, 1⟩ ⟨1, 0, 0⟩ = false) ∧
    (IsValid ⟨58, 1000000000, 0⟩ ∧
      (timestamp ⟨58, 1000000000, 0⟩).map read = some (.ok ⟨59, 0, 0⟩) ∧
      sameMoment ⟨58, 1000000000, 0⟩ ⟨59, 0, 0⟩ = false) := by
  refine ⟨⟨⟨by decide, by decide, by decide⟩, by decide +kernel⟩, ⟨?_, ?_, by decide⟩,
    ?_, ?_, by decide⟩
  · exact ⟨by decide, by decide, by decide⟩
  · decide +kernel
  · exact ⟨by decide, by decide, by decide⟩
  · decide +kernel

end Instant

end Edn
