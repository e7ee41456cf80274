import Edn.Proofs.Text.Escaped
import Edn.Uuid

/-!
# UUIDs read back

`Uuid.read?_text`: the text of a UUID is read as that UUID.  The text has the
spelling with hyphens, so the digits are put together from five parts.  It
consists of characters that stand between quotes as they are
(`Uuid.isBare_of_mem_text`).
-/

namespace Edn.Uuid

/-- The digits on both sides of the hyphens are put together. -/
theorem readHyphenated?_append {a b c d e : List Char} (ha : a.length = 8) (hb : b.length = 4)
    (hc : c.length = 4) (hd : d.length = 4) (he : e.length = 12) :
    readHyphenated? (a ++ '-' :: b ++ '-' :: c ++ '-' :: d ++ '-' :: e) =
      readDigits? (a ++ b ++ c ++ d ++ e) := by
  have hhyphens : [8, 13, 18, 23].all (fun i =>
      (a ++ '-' :: b ++ '-' :: c ++ '-' :: d ++ '-' :: e)[i]? == some '-') = true := by
    simp [List.getElem?_append, ha, hb, hc, hd]
  have hlength : (a ++ '-' :: b ++ '-' :: c ++ '-' :: d ++ '-' :: e).length = 36 := by
    simp [ha, hb, hc, hd, he]
  rw [readHyphenated?, if_pos ⟨hlength, hhyphens⟩]
  simp [List.drop_append, ha, hb, hc, hd, he, List.take_of_length_le, List.drop_of_length_le]

/-- The digits of a UUID stand for it. -/
theorem readDigits?_hex (u : Uuid) : readDigits? (Text.hex 32 u.value.toNat) = some u := by
  have hhex : Text.ofHex? (Text.hex 32 u.value.toNat) = some u.value.toNat := by
    refine Text.ofHex?_hex (Nat.lt_of_lt_of_eq u.value.isLt ?_)
    norm_num
  simp [readDigits?, Text.length_hex, hhex]

/-- Thirty-two digits consist of their five parts. -/
theorem parts_append {digits : List Char} (h : digits.length = 32) :
    (digits.drop 0).take 8 ++ (digits.drop 8).take 4 ++ (digits.drop 12).take 4 ++
      (digits.drop 16).take 4 ++ (digits.drop 20).take 12 = digits := by
  rw [List.drop_zero, ← List.take_add, ← List.take_add, ← List.take_add, ← List.take_add,
    List.take_of_length_le (by omega)]

/-- A UUID reads back. -/
theorem read?_text (u : Uuid) : read? u.text = some u := by
  have hdigits := Text.length_hex 32 u.value.toNat
  have hread := readDigits?_hex u
  unfold text
  generalize Text.hex 32 u.value.toNat = digits at hdigits hread
  rw [← parts_append hdigits] at hread
  dsimp only
  rw [read?]
  split
  case h_2 =>
    rw [readHyphenated?_append (by simp [hdigits]) (by simp [hdigits]) (by simp [hdigits])
      (by simp [hdigits]) (by simp [hdigits]), hread]
  all_goals simp_all

/-- The text of a UUID needs no escapes. -/
theorem isBare_of_mem_text (u : Uuid) : ∀ c ∈ u.text, Text.isBare c = true := by
  have hdigits : ∀ c ∈ Text.hex 32 u.value.toNat, Text.isBare c = true :=
    Text.forall_mem_hex (by decide) _ _
  have hpart : ∀ start length, ∀ c ∈ ((Text.hex 32 u.value.toNat).drop start).take length,
      Text.isBare c = true :=
    fun start length c hc => hdigits c (List.mem_of_mem_drop (List.mem_of_mem_take hc))
  have hhyphen : Text.isBare '-' = true := by decide
  unfold text
  simp only [List.forall_mem_append, List.forall_mem_cons]
  exact ⟨⟨⟨⟨hpart _ _, hhyphen, hpart _ _⟩, hhyphen, hpart _ _⟩, hhyphen, hpart _ _⟩, hhyphen,
    hpart _ _⟩

end Edn.Uuid
