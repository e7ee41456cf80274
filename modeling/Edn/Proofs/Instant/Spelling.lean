import Edn.Instant.Timestamp
import Edn.Proofs.Instant.Calendar
import Edn.Proofs.Text.Numeral

/-!
# What stands after a year

The part of a timestamp behind its year is the same for years of four digits
and for signed years.

* `Timestamp.SpellsRest` says which texts spell it, without a reader.  Its
  parts are `SpellsFraction`, `SpellsTime` and `SpellsOffset`.
* `Timestamp.afterYear?_eq_some_iff`: these texts are read, and no others.
* `Timestamp.SpellsRest.eq_nil_of_append`: such a text does not end another one.
-/

namespace Edn.Timestamp

open Text (isDigit padded)

/-! ## Texts -/

/-- A fraction of a second: nothing, or a point and digits.  With zeros behind them, the first nine
digits are those of the nanoseconds. -/
inductive SpellsFraction : List Char → (nanos : Nat) → Prop where
  | absent : SpellsFraction [] 0
  | digits {digits : List Char} {nanos : Nat} (hne : digits ≠ [])
      (hdigits : ∀ c ∈ digits, isDigit c = true)
      (hnanos : Text.digits? ((digits ++ List.replicate 9 '0').take 9) = some nanos) :
      SpellsFraction ('.' :: digits) nanos

/-- A time of day.  Second 60 of any minute is a leap second. -/
inductive SpellsTime : List Char → TimeOfDay → Prop where
  | plain {hour minute second nanos : Nat} {fraction : List Char} (hhour : hour < 24)
      (hminute : minute < 60) (hsecond : second < 60) (hfraction : SpellsFraction fraction nanos) :
      SpellsTime (padded 2 hour ++ ':' :: (padded 2 minute ++ ':' :: (padded 2 second ++ fraction)))
        ⟨hour, minute, second, nanos⟩
  | leap {hour minute nanos : Nat} {fraction : List Char} (hhour : hour < 24)
      (hminute : minute < 60) (hfraction : SpellsFraction fraction nanos) :
      SpellsTime (padded 2 hour ++ ':' :: (padded 2 minute ++ ':' :: (padded 2 60 ++ fraction)))
        ⟨hour, minute, 59, nanos + nanosOfSecond⟩

/-- An offset: `Z`, or a sign with hours and minutes.  U+2212 is a minus sign too. -/
inductive SpellsOffset : List Char → (offset : Int) → Prop where
  | utc {mark : Char} (hmark : mark = 'Z' ∨ mark = 'z') : SpellsOffset [mark] 0
  | east {hours minutes : Nat} (hhours : hours < 24) (hminutes : minutes < 60) :
      SpellsOffset ('+' :: (padded 2 hours ++ ':' :: padded 2 minutes))
        (hours * 3600 + minutes * 60)
  | west {sign : Char} {hours minutes : Nat} (hsign : sign = '-' ∨ sign = '\u2212')
      (hhours : hours < 24) (hminutes : minutes < 60) :
      SpellsOffset (sign :: (padded 2 hours ++ ':' :: padded 2 minutes))
        (-(hours * 3600 + minutes * 60))

/-- The rest of a timestamp of the year 2000, which has every day of the calendar. -/
inductive SpellsRest : List Char → (month day : Nat) → TimeOfDay → (offset : Int) → Prop where
  | rest {month day : Nat} {separator : Char} {clock zone : List Char} {time : TimeOfDay}
      {offset : Int} (hday : Date.IsReal ⟨2000, month, day⟩)
      (hseparator : isSeparator separator = true) (htime : SpellsTime clock time)
      (hoffset : SpellsOffset zone offset) :
      SpellsRest ('-' :: (padded 2 month ++ '-' :: (padded 2 day ++ separator :: (clock ++ zone))))
        month day time offset

/-! ## Digits -/

theorem twoDigits?_padded {n : Nat} (h : n < 100) (rest : List Char) :
    twoDigits? (padded 2 n ++ rest) = some (n, rest) := by
  have hread := Text.digits?_padded 2 n
  have hlength := Text.length_padded_of_lt (show 0 < 2 by decide) (show n < 10 ^ 2 from h)
  match hab : padded 2 n, hlength with
  | [a, b], _ =>
    rw [hab] at hread
    simp [twoDigits?, hread]

/-- Two digits are the padded decimal of their number. -/
theorem eq_padded_of_twoDigits? {text rest : List Char} {n : Nat}
    (h : twoDigits? text = some (n, rest)) : n < 100 ∧ text = padded 2 n ++ rest := by
  unfold twoDigits? at h
  split at h
  · next a b rest =>
    obtain ⟨m, hm, heq⟩ := Option.map_eq_some_iff.1 h
    cases heq
    have hlt := Text.lt_of_digits? hm
    have hpadded := Text.eq_padded_of_digits? hm
    simp only [List.length_cons, List.length_nil] at hlt hpadded
    exact ⟨hlt, by rw [← hpadded]; rfl⟩
  · cases h

/-- The first four characters are read, if they are digits. -/
theorem fourDigits?_eq_some_iff {text rest : List Char} {n : Nat} :
    fourDigits? text = some (n, rest) ↔
      ∃ year, text = year ++ rest ∧ year.length = 4 ∧ Text.digits? year = some n := by
  constructor
  · intro h
    unfold fourDigits? at h
    split at h
    · next a b c d rest =>
      obtain ⟨m, hm, heq⟩ := Option.map_eq_some_iff.1 h
      cases heq
      exact ⟨[a, b, c, d], rfl, rfl, hm⟩
    · cases h
  · rintro ⟨year, rfl, hlength, hyear⟩
    match year, hlength with
    | [a, b, c, d], _ => simp [fourDigits?, hyear]

theorem after?_cons (c : Char) (rest : List Char) : after? c (c :: rest) = some rest := by
  simp [after?]

theorem eq_cons_of_after? {c : Char} {text rest : List Char} (h : after? c text = some rest) :
    text = c :: rest := by
  unfold after? at h
  split at h
  · cases h
  · next head tail =>
    split at h
    · next heq =>
      cases h
      rw [heq]
    · cases h

/-! ## Fractions -/

/-- A text that goes on with neither a digit nor a point ends a fraction. -/
def EndsFraction (rest : List Char) : Prop :=
  ∀ c ∈ rest.head?, isDigit c = false ∧ c ≠ '.'

/-- The digits that count are the first nine, with zeros behind them if there are fewer. -/
theorem nanosOf?_eq_some_iff {digits : List Char} {nanos : Nat} (hne : digits ≠ [])
    (hdigits : ∀ c ∈ digits, isDigit c = true) :
    nanosOf? digits = some nanos ↔
      Text.digits? ((digits ++ List.replicate 9 '0').take 9) = some nanos := by
  have hkept : digits.take 9 ≠ [] := by simpa using hne
  obtain ⟨n, hn⟩ := Text.exists_digits? hkept fun c hc => hdigits c (List.mem_of_mem_take hc)
  have htake : (digits ++ List.replicate 9 '0').take 9 =
      digits.take 9 ++ List.replicate (9 - (digits.take 9).length) '0' := by
    rw [List.take_append, List.take_replicate]
    congr 2
    rw [List.length_take]
    omega
  have hfilled : Text.digits? ((digits ++ List.replicate 9 '0').take 9) =
      some (n * 10 ^ (9 - (digits.take 9).length)) := by
    rw [htake]
    generalize digits.take 9 = kept at *
    cases kept with
    | nil => contradiction
    | cons c kept =>
      rw [Text.digits?] at hn
      · rw [List.cons_append, Text.digits?, ← List.cons_append, Text.digitsFrom?_append, hn,
          Option.bind_some, Text.digitsFrom?_replicate]
        exact List.cons_ne_nil _ _
      · exact List.cons_ne_nil _ _
  rw [nanosOf?, hn, hfilled]
  rfl

theorem fraction?_of_spells {written rest : List Char} {nanos : Nat}
    (h : SpellsFraction written nanos) (hrest : EndsFraction rest) :
    fraction? (written ++ rest) = some (nanos, rest) := by
  cases h with
  | absent =>
    unfold fraction?
    split
    · next digits heq =>
      rw [List.nil_append] at heq
      rw [heq] at hrest
      exact absurd rfl (hrest '.' rfl).2
    · rfl
  | @digits digits _ hne hdigits hnanos =>
    obtain ⟨htake, hdrop⟩ := Text.takeWhile_isDigit_append hdigits fun c hc => (hrest c hc).1
    simp only [List.cons_append, fraction?, htake, hdrop,
      (nanosOf?_eq_some_iff hne hdigits).2 hnanos]
    rfl

theorem spells_of_fraction? {text rest : List Char} {nanos : Nat}
    (h : fraction? text = some (nanos, rest)) :
    ∃ written, text = written ++ rest ∧ SpellsFraction written nanos := by
  unfold fraction? at h
  split at h
  · next digits =>
    obtain ⟨n, hn, heq⟩ := Option.map_eq_some_iff.1 h
    cases heq
    have hne : digits.takeWhile isDigit ≠ [] := by
      intro hnil
      rw [hnil] at hn
      cases hn
    have hdigits : ∀ c ∈ digits.takeWhile isDigit, isDigit c = true := by
      intro c hc
      exact List.mem_takeWhile_imp hc
    refine ⟨'.' :: digits.takeWhile isDigit, ?_,
      .digits hne hdigits ((nanosOf?_eq_some_iff hne hdigits).1 hn)⟩
    rw [List.cons_append, List.takeWhile_append_dropWhile]
  · cases h
    exact ⟨[], rfl, .absent⟩

/-! ## Times of day -/

theorem time?_of_spells {written rest : List Char} {t : TimeOfDay} (h : SpellsTime written t)
    (hrest : EndsFraction rest) : time? (written ++ rest) = some (t, rest) := by
  cases h with
  | plain hhour hminute hsecond hfraction =>
    simp only [time?, List.append_assoc, List.cons_append, bind, Option.bind_some, after?_cons,
      twoDigits?_padded (Nat.lt_trans hhour (by decide : 24 < 100)),
      twoDigits?_padded (Nat.lt_trans hminute (by decide : 60 < 100)),
      twoDigits?_padded (Nat.lt_trans hsecond (by decide : 60 < 100)),
      fraction?_of_spells hfraction hrest]
    rw [if_neg (by omega), if_neg (by omega)]
  | leap hhour hminute hfraction =>
    simp only [time?, List.append_assoc, List.cons_append, bind, Option.bind_some, after?_cons,
      twoDigits?_padded (Nat.lt_trans hhour (by decide : 24 < 100)),
      twoDigits?_padded (Nat.lt_trans hminute (by decide : 60 < 100)),
      twoDigits?_padded (by decide : 60 < 100), fraction?_of_spells hfraction hrest]
    rw [if_neg (by omega), if_pos trivial]

theorem spells_of_time? {text rest : List Char} {t : TimeOfDay} (h : time? text = some (t, rest)) :
    ∃ written, text = written ++ rest ∧ SpellsTime written t := by
  simp only [time?, bind, Option.bind_eq_some_iff] at h
  obtain ⟨⟨hour, _⟩, hhour, _, hcolon, ⟨minute, _⟩, hminute, _, hcolon', ⟨second, _⟩, hsecond,
    ⟨nanos, _⟩, hnanos, h⟩ := h
  obtain ⟨-, rfl⟩ := eq_padded_of_twoDigits? hhour
  cases eq_cons_of_after? hcolon
  obtain ⟨-, rfl⟩ := eq_padded_of_twoDigits? hminute
  cases eq_cons_of_after? hcolon'
  obtain ⟨-, rfl⟩ := eq_padded_of_twoDigits? hsecond
  obtain ⟨fraction, rfl, hfraction⟩ := spells_of_fraction? hnanos
  dsimp only at h
  split at h
  · cases h
  · next hbounds =>
    split at h
    · next hsixty =>
      cases h
      cases hsixty
      exact ⟨_, by simp, .leap (by omega) (by omega) hfraction⟩
    · next hother =>
      cases h
      exact ⟨_, by simp, .plain (by omega) (by omega) (by omega) hfraction⟩

/-! ## Offsets -/

theorem offsetSize?_eq_some_iff {text : List Char} {size : Int} :
    offsetSize? text = some size ↔ ∃ hours minutes, hours < 24 ∧ minutes < 60 ∧
      text = padded 2 hours ++ ':' :: padded 2 minutes ∧
        size = (hours * 3600 + minutes * 60 : Int) := by
  constructor
  · intro h
    simp only [offsetSize?, bind, Option.bind_eq_some_iff] at h
    obtain ⟨⟨hours, _⟩, hhours, _, hcolon, ⟨minutes, rest⟩, hminutes, h⟩ := h
    obtain ⟨-, rfl⟩ := eq_padded_of_twoDigits? hhours
    cases eq_cons_of_after? hcolon
    obtain ⟨-, rfl⟩ := eq_padded_of_twoDigits? hminutes
    dsimp only at h
    split at h
    · cases h
    · next hbounds =>
      cases h
      have hend : rest = [] := by
        by_contra hne
        exact hbounds (.inr (.inr hne))
      exact ⟨hours, minutes, by omega, by omega, by rw [hend, List.append_nil], rfl⟩
  · rintro ⟨hours, minutes, hhours, hminutes, rfl, rfl⟩
    have hlast := twoDigits?_padded (Nat.lt_trans hminutes (by decide : 60 < 100)) []
    rw [List.append_nil] at hlast
    simp only [offsetSize?, twoDigits?_padded (Nat.lt_trans hhours (by decide : 24 < 100)),
      after?_cons, hlast, bind, Option.bind_some]
    rw [if_neg (by simp; omega)]

theorem offset?_eq_some_iff {text : List Char} {offset : Int} :
    offset? text = some offset ↔ SpellsOffset text offset := by
  constructor
  · intro h
    unfold offset? at h
    split at h
    · cases h
      exact .utc (.inl rfl)
    · cases h
      exact .utc (.inr rfl)
    · obtain ⟨hours, minutes, hhours, hminutes, rfl, rfl⟩ := offsetSize?_eq_some_iff.1 h
      exact .east hhours hminutes
    · obtain ⟨size, hsize, rfl⟩ := Option.map_eq_some_iff.1 h
      obtain ⟨hours, minutes, hhours, hminutes, rfl, rfl⟩ := offsetSize?_eq_some_iff.1 hsize
      exact .west (.inl rfl) hhours hminutes
    · obtain ⟨size, hsize, rfl⟩ := Option.map_eq_some_iff.1 h
      obtain ⟨hours, minutes, hhours, hminutes, rfl, rfl⟩ := offsetSize?_eq_some_iff.1 hsize
      exact .west (.inr rfl) hhours hminutes
    · cases h
  · intro h
    cases h with
    | utc hmark => rcases hmark with rfl | rfl <;> rfl
    | east hhours hminutes =>
      exact offsetSize?_eq_some_iff.2 ⟨_, _, hhours, hminutes, rfl, rfl⟩
    | west hsign hhours hminutes =>
      have hsize := offsetSize?_eq_some_iff.2 ⟨_, _, hhours, hminutes, rfl, rfl⟩
      rcases hsign with rfl | rfl <;> rw [offset?, hsize] <;> rfl

/-- An offset starts with none of the characters that a fraction goes on with. -/
theorem SpellsOffset.endsFraction {text : List Char} {offset : Int} (h : SpellsOffset text offset) :
    EndsFraction text := by
  intro c hc
  cases h with
  | utc hmark => rcases hmark with rfl | rfl <;> cases hc <;> decide
  | east => cases hc; decide
  | west hsign => rcases hsign with rfl | rfl <;> cases hc <;> decide

/-! ## After the year -/

theorem SpellsRest.isReal {text : List Char} {month day : Nat} {time : TimeOfDay} {offset : Int}
    (h : SpellsRest text month day time offset) : Date.IsReal ⟨2000, month, day⟩ := by
  cases h with
  | rest hday hseparator htime hoffset => exact hday

/-- A text after a year is read exactly if it spells a day of the year, a time and an offset. -/
theorem afterYear?_eq_some_iff {year : Int} {text : List Char} {date : Date} {time : TimeOfDay}
    {offset : Int} :
    afterYear? year text = some (date, time, offset) ↔
      date.year = year ∧ date.IsReal ∧ SpellsRest text date.month date.day time offset := by
  constructor
  · intro h
    simp only [afterYear?, monthAndDay?, bind, Option.bind_eq_some_iff] at h
    obtain ⟨⟨month, day, text⟩, hdate, h⟩ := h
    obtain ⟨_, hhyphen, ⟨_, _⟩, hmonth, _, hhyphen', ⟨_, _⟩, hday, heq⟩ := hdate
    cases heq
    cases eq_cons_of_after? hhyphen
    obtain ⟨-, rfl⟩ := eq_padded_of_twoDigits? hmonth
    cases eq_cons_of_after? hhyphen'
    obtain ⟨-, rfl⟩ := eq_padded_of_twoDigits? hday
    dsimp only at h
    split at h
    · cases h
    · split at h
      · next hseparator =>
        obtain ⟨⟨time', _⟩, htime, h⟩ := Option.bind_eq_some_iff.1 h
        obtain ⟨offset', hoffset, h⟩ := Option.bind_eq_some_iff.1 h
        obtain ⟨clock, rfl, hclock⟩ := spells_of_time? htime
        split at h
        · next hreal =>
          cases h
          exact ⟨rfl, hreal, .rest hreal.of_leapYear hseparator hclock
            (offset?_eq_some_iff.1 hoffset)⟩
        · cases h
      · cases h
  · obtain ⟨_, month, day⟩ := date
    rintro ⟨rfl, hreal, hrest⟩
    dsimp only at hrest
    cases hrest with
    | rest hday hseparator htime hoffset =>
      have hmonth : month ≤ 12 := hday.month_bounds.2
      have hlast : day ≤ 31 := hday.day_le
      simp only [afterYear?, monthAndDay?, after?_cons, bind, Option.bind_some, pure,
        twoDigits?_padded (show month < 100 by omega), twoDigits?_padded (show day < 100 by omega),
        time?_of_spells htime hoffset.endsFraction, offset?_eq_some_iff.2 hoffset]
      rw [if_pos hseparator, if_pos hreal]

/-- A text is the rest of at most one date, time and offset. -/
theorem SpellsRest.unique {text : List Char} {month month' day day' : Nat} {time time' : TimeOfDay}
    {offset offset' : Int} (h : SpellsRest text month day time offset)
    (h' : SpellsRest text month' day' time' offset') :
    month = month' ∧ day = day' ∧ time = time' ∧ offset = offset' := by
  have hread := (@afterYear?_eq_some_iff 2000 text ⟨2000, month, day⟩ _ _).2 ⟨rfl, h.isReal, h⟩
  have hread' := (@afterYear?_eq_some_iff 2000 text ⟨2000, month', day'⟩ _ _).2 ⟨rfl, h'.isReal, h'⟩
  rw [hread] at hread'
  cases hread'
  exact ⟨rfl, rfl, rfl, rfl⟩

/-! ## Separators -/

theorem isSeparator_of_isDigit {c : Char} (hc : isDigit c = true) : isSeparator c = false := by
  have hne : ∀ d, isDigit d = false → c ≠ d := by
    intro d hd heq
    rw [heq, hd] at hc
    cases hc
  simp [isSeparator, hne 'T' rfl, hne 't' rfl, hne ' ' rfl]

theorem isSeparator_of_mem_padded {width n : Nat} :
    ∀ c ∈ padded width n, isSeparator c = false :=
  fun c hc => isSeparator_of_isDigit (Text.isDigit_of_mem_padded c hc)

theorem SpellsTime.not_isSeparator {text : List Char} {t : TimeOfDay} (h : SpellsTime text t) :
    ∀ c ∈ text, isSeparator c = false := by
  have hfraction : ∀ {text : List Char} {nanos : Nat}, SpellsFraction text nanos →
      ∀ c ∈ text, isSeparator c = false := by
    intro text nanos h
    cases h with
    | absent => exact List.forall_mem_nil _
    | digits hne hdigits hnanos =>
      exact List.forall_mem_cons.2 ⟨rfl, fun c hc => isSeparator_of_isDigit (hdigits c hc)⟩
  cases h with
  | plain hhour hminute hsecond hspells | leap hhour hminute hspells =>
    simp only [List.forall_mem_append, List.forall_mem_cons]
    exact ⟨isSeparator_of_mem_padded, rfl, isSeparator_of_mem_padded, rfl,
      isSeparator_of_mem_padded, hfraction hspells⟩

theorem SpellsOffset.not_isSeparator {text : List Char} {offset : Int}
    (h : SpellsOffset text offset) : ∀ c ∈ text, isSeparator c = false := by
  cases h with
  | utc hmark => rcases hmark with rfl | rfl <;> exact List.forall_mem_singleton.2 rfl
  | east =>
    simp only [List.forall_mem_append, List.forall_mem_cons]
    exact ⟨rfl, isSeparator_of_mem_padded, rfl, isSeparator_of_mem_padded⟩
  | west hsign =>
    simp only [List.forall_mem_append, List.forall_mem_cons]
    exact ⟨by rcases hsign with rfl | rfl <;> rfl, isSeparator_of_mem_padded, rfl,
      isSeparator_of_mem_padded⟩

/-- The date is separated from the time at the same place in all texts, and no character behind it
is one that separates them. -/
theorem SpellsRest.exists_separator {text : List Char} {month day : Nat} {time : TimeOfDay}
    {offset : Int} (h : SpellsRest text month day time offset) :
    ∃ date separator rest, text = date ++ separator :: rest ∧ date.length = 6 ∧
      isSeparator separator = true ∧ ∀ c ∈ rest, isSeparator c = false := by
  cases h with
  | @rest month day separator clock zone _ _ hday hseparator htime hoffset =>
    have hmonth : month ≤ 12 := hday.month_bounds.2
    have hlast : day ≤ 31 := hday.day_le
    refine ⟨'-' :: (padded 2 month ++ '-' :: padded 2 day), separator, clock ++ zone, by simp, ?_,
      hseparator, List.forall_mem_append.2 ⟨htime.not_isSeparator, hoffset.not_isSeparator⟩⟩
    simp [Text.length_padded_of_lt (show 0 < 2 by decide) (show month < 10 ^ 2 by omega),
      Text.length_padded_of_lt (show 0 < 2 by decide) (show day < 10 ^ 2 by omega)]

/-- No rest of a timestamp ends another one. -/
theorem SpellsRest.eq_nil_of_append {front text : List Char} {month month' day day' : Nat}
    {time time' : TimeOfDay} {offset offset' : Int}
    (h : SpellsRest (front ++ text) month day time offset)
    (h' : SpellsRest text month' day' time' offset') : front = [] := by
  obtain ⟨date, separator, rest, htext, hlength, -, hrest⟩ := h.exists_separator
  obtain ⟨date', separator', rest', rfl, hlength', hseparator', -⟩ := h'.exists_separator
  by_contra hne
  have hpos := List.length_pos_iff.2 hne
  -- the separator of the shorter text stands behind that of the longer one
  have hmem : separator' ∈ (front ++ (date' ++ separator' :: rest')).drop 7 := by
    rw [← List.append_assoc, List.drop_append_of_le_length (by simp; omega)]
    simp
  rw [htext, List.drop_append, hlength, List.drop_of_length_le (by omega)] at hmem
  rw [hrest separator' hmem] at hseparator'
  cases hseparator'

end Edn.Timestamp
