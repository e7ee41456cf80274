import Edn.Output.Format

/-!
# Options of a format

A format is written as a MIME type, a semicolon, and options with commas and
semicolons between them.  What was written is recovered from the text, and
it has no part in what is encoded.  An element that cannot be written is not
encoded: the program stops.

* `Setting` is an option as it is written: a bare name, or a name with a
  value, which may hold equals signs of its own.
* `pieces_written`: the pieces of a written list are its options, whatever
  stands between them.
* `option?_written`: the first option of a name counts.
* `get_eq_ok_iff`: the MIME type alone selects the serializer.
* `options_recovered` is the result.
-/

namespace Edn.Format

/-! ## Written options -/

/-- Tells whether a character separates options. -/
def isSeparator (c : Char) : Bool :=
  c == ',' || c == ';'

/-- What stands between two options. -/
inductive Separator where
  | comma
  | semicolon
deriving DecidableEq, Repr

/-- The character of a separator. -/
def Separator.char : Separator → Char
  | comma => ','
  | semicolon => ';'

/-- An option as it is written. -/
structure Setting where
  name : String
  value? : Option String
  name_bare : ∀ c ∈ name.toList, isSeparator c = false ∧ c ≠ '='
  value_bare : ∀ value ∈ value?, ∀ c ∈ value.toList, isSeparator c = false

namespace Setting

/-- The value of an option.  That of a bare name is empty. -/
def value (s : Setting) : String :=
  s.value?.getD ""

/-- The characters of an option. -/
def chars (s : Setting) : List Char :=
  s.name.toList ++ s.value?.toList.flatMap ('=' :: ·.toList)

end Setting

/-- The characters of options, each behind its separator. -/
def others (settings : List (Separator × Setting)) : List Char :=
  settings.flatMap fun (separator, setting) => separator.char :: setting.chars

/-- A MIME type with options. -/
def ofSettings (mimeType : String) (first : Setting) (rest : List (Separator × Setting)) : Format :=
  ⟨mimeType ++ String.ofList (';' :: (first.chars ++ others rest))⟩

/-! ## Cutting -/

section Cutting

variable {isMark : Char → Bool} {piece : List Char}

theorem pieces_of_bare (h : ∀ c ∈ piece, isMark c = false) : pieces isMark piece = [piece] := by
  induction piece with
  | nil => rfl
  | cons c piece ih =>
    obtain ⟨hc, hpiece⟩ := List.forall_mem_cons.1 h
    simp [pieces, hc, ih hpiece]

/-- A piece ends at the first separator. -/
theorem pieces_append (h : ∀ c ∈ piece, isMark c = false) {mark : Char} (hmark : isMark mark = true)
    (rest : List Char) : pieces isMark (piece ++ mark :: rest) = piece :: pieces isMark rest := by
  induction piece with
  | nil => simp [pieces, hmark]
  | cons c piece ih =>
    obtain ⟨hc, hpiece⟩ := List.forall_mem_cons.1 h
    simp [pieces, hc, ih hpiece]

/-- A text is cut at the first place of a character, or at its end. -/
theorem cut_append {c : Char} {before rest : List Char} (h : c ∉ before)
    (hrest : ∀ d ∈ rest.head?, d = c) :
    (before ++ rest).takeWhile (· != c) = before ∧
      (before ++ rest).dropWhile (· != c) = rest := by
  induction before with
  | nil =>
    cases rest with
    | nil => simp
    | cons d rest => simp [hrest d rfl]
  | cons d before ih =>
    rw [List.mem_cons, not_or] at h
    simp [Ne.symm h.1, ih h.2]

end Cutting

section Settings

variable (s first : Setting) (rest : List (Separator × Setting))

theorem Setting.chars_bare : ∀ c ∈ s.chars, isSeparator c = false := by
  intro c hc
  rcases List.mem_append.1 hc with hname | hvalue
  · exact (s.name_bare c hname).1
  · obtain ⟨value, hmem, hvalue⟩ := List.mem_flatMap.1 hvalue
    rcases List.mem_cons.1 hvalue with heq | hvalue
    · rw [heq]
      rfl
    · exact s.value_bare value (Option.mem_toList.1 hmem) c hvalue

theorem Separator.isSeparator_char (separator : Separator) : isSeparator separator.char = true := by
  cases separator <;> rfl

/-- The pieces of written options are the options. -/
theorem pieces_written :
    pieces isSeparator (first.chars ++ others rest) =
      (first :: rest.map Prod.snd).map Setting.chars := by
  induction rest generalizing first with
  | nil => simpa [others] using pieces_of_bare first.chars_bare
  | cons next rest ih =>
    obtain ⟨separator, second⟩ := next
    have hstep : others ((separator, second) :: rest) =
        separator.char :: (second.chars ++ others rest) := rfl
    rw [hstep, pieces_append first.chars_bare separator.isSeparator_char, ih second]
    rfl

/-- The first equals sign separates the name from the value. -/
theorem Setting.cut_chars :
    s.chars.takeWhile (· != '=') = s.name.toList ∧
      s.chars.dropWhile (· != '=') = s.value?.toList.flatMap ('=' :: ·.toList) := by
  apply cut_append
  · exact fun h => (s.name_bare '=' h).2 rfl
  · cases s.value? <;> simp

theorem optionName_chars : optionName s.chars = s.name.toList :=
  s.cut_chars.1

theorem optionValue_chars : optionValue s.chars = s.value.toList := by
  rw [optionValue, s.cut_chars.2, Setting.value]
  cases s.value? <;> simp

end Settings

/-! ## What is recovered -/

section Recovered

variable {mimeType : String} (first : Setting) (rest : List (Separator × Setting))

theorem toList_ofSettings :
    (ofSettings mimeType first rest).text.toList =
      mimeType.toList ++ ';' :: (first.chars ++ others rest) := by
  simp [ofSettings]

theorem mimeType_ofSettings (h : ';' ∉ mimeType.toList) :
    (ofSettings mimeType first rest).mimeType = mimeType := by
  rw [Format.mimeType, toList_ofSettings, (cut_append h (by simp)).1, String.ofList_toList]

theorem options_ofSettings (h : ';' ∉ mimeType.toList) :
    (ofSettings mimeType first rest).options =
      (first :: rest.map Prod.snd).map Setting.chars := by
  rw [options, toList_ofSettings, (cut_append h (by simp)).2]
  exact pieces_written first rest

/-- The value of a name is that of the first option with this name. -/
theorem option?_ofSettings (h : ';' ∉ mimeType.toList) (name : String) :
    (ofSettings mimeType first rest).option? name =
      ((first :: rest.map Prod.snd).find? (·.name == name)).map Setting.value := by
  have hname : (fun option => optionName option == name.toList) ∘ Setting.chars =
      fun s : Setting => s.name == name := by
    funext s
    rw [Function.comp_apply, optionName_chars, Bool.eq_iff_iff, beq_iff_eq, beq_iff_eq]
    exact String.toList_inj
  have hvalue : (fun option => String.ofList (optionValue option)) ∘ Setting.chars =
      Setting.value := by
    funext s
    rw [Function.comp_apply, optionValue_chars, String.ofList_toList]
  rw [option?, options_ofSettings first rest h, List.find?_map, Option.map_map, hname, hvalue]

end Recovered

end Format

namespace SerializerRegistry

/-- Only the notation has a serializer from the start, and this one keeps the whole format. -/
theorem get_eq_ok_iff {format : String} {serializer : Serializer} :
    standard.get format = .ok serializer ↔
      Format.mimeType ⟨format⟩ = Format.edn.text ∧ serializer = .canonical ⟨format⟩ := by
  have hedn : Format.edn.mimeType = Format.edn.text := by decide
  rw [get, standard, List.lookup_cons, List.lookup_nil, hedn]
  by_cases h : Format.mimeType ⟨format⟩ = Format.edn.text
  · simp [h, eq_comm]
  · simp [beq_false_of_ne h, h]

end SerializerRegistry

section Serialize

variable {e : Element} {format : String}

/-- In the notation, an element is encoded as what the program writes of it. -/
theorem Element.serialize_of_mimeType (h : Format.mimeType ⟨format⟩ = Format.edn.text) :
    e.serialize .standard format =
      match e.display with
      | some text => .ok text
      | none => .error .stop := by
  rw [serialize, SerializerRegistry.get_eq_ok_iff.2 ⟨h, rfl⟩]
  rfl

/-- No element is encoded in any other format. -/
theorem Element.serialize_of_mimeType_ne (h : Format.mimeType ⟨format⟩ ≠ Format.edn.text) :
    e.serialize .standard format = .error (.error (.unknownMimeType format)) := by
  have hedn : Format.edn.mimeType = Format.edn.text := by decide
  rw [serialize, SerializerRegistry.get, SerializerRegistry.standard, List.lookup_cons, hedn,
    beq_false_of_ne h]
  rfl

/-- What is encoded is the canonical text. -/
theorem Element.serialize_eq_ok_iff {text : String} :
    e.serialize .standard format = .ok text ↔
      Format.mimeType ⟨format⟩ = Format.edn.text ∧ e.isWritable = true ∧ text = e.text := by
  by_cases hmime : Format.mimeType ⟨format⟩ = Format.edn.text
  · rw [serialize_of_mimeType hmime, display]
    cases e.isWritable <;> simp [hmime, eq_comm]
  · simp [serialize_of_mimeType_ne hmime, hmime]

/-- The program stops at an element that it cannot write. -/
theorem Element.serialize_eq_stop_iff :
    e.serialize .standard format = .error .stop ↔
      Format.mimeType ⟨format⟩ = Format.edn.text ∧ e.isWritable = false := by
  by_cases hmime : Format.mimeType ⟨format⟩ = Format.edn.text
  · rw [serialize_of_mimeType hmime, display]
    cases e.isWritable <;> simp [hmime]
  · simp [serialize_of_mimeType_ne hmime, hmime]

end Serialize

namespace Format

/-- The MIME type and the options of a written format are recovered, and the serializer keeps what was
written.  Elements are encoded in the notation alone, always as their canonical texts, if the program
can write them; if it cannot, it stops. -/
theorem options_recovered {mimeType : String} (hmime : ';' ∉ mimeType.toList) (first : Setting)
    (rest : List (Separator × Setting)) :
    (ofSettings mimeType first rest).mimeType = mimeType ∧
      (∀ name, (ofSettings mimeType first rest).option? name =
        ((first :: rest.map Prod.snd).find? (·.name == name)).map Setting.value) ∧
      (∀ (e : Element) (text : String),
        e.serialize .standard (ofSettings mimeType first rest).text = .ok text ↔
          mimeType = Format.edn.text ∧ e.isWritable = true ∧ text = e.text) ∧
      (∀ e : Element, e.serialize .standard (ofSettings mimeType first rest).text = .error .stop ↔
        mimeType = Format.edn.text ∧ e.isWritable = false) ∧
      (∀ serializer, SerializerRegistry.standard.get (ofSettings mimeType first rest).text =
          .ok serializer ↔
        mimeType = Format.edn.text ∧
          serializer = .canonical (ofSettings mimeType first rest)) := by
  have hrecovered := mimeType_ofSettings first rest hmime
  refine ⟨hrecovered, option?_ofSettings first rest hmime, fun e text => ?_, fun e => ?_,
    fun serializer => ?_⟩
  · rw [Element.serialize_eq_ok_iff, hrecovered]
  · rw [Element.serialize_eq_stop_iff, hrecovered]
  · rw [SerializerRegistry.get_eq_ok_iff, hrecovered]

/-- An option that is given twice, with an equals sign in its first value, and a bare name between. -/
def repeatedSettings : Setting × List (Separator × Setting) :=
  (⟨"a", some "1=2", by simp [isSeparator], by simp [isSeparator]⟩,
    [(.comma, ⟨"b", none, by simp [isSeparator], by simp⟩),
      (.semicolon, ⟨"a", some "3", by simp [isSeparator], by simp [isSeparator]⟩)])

theorem options_recovered_repeated :
    ';' ∉ Format.edn.text.toList ∧
      (ofSettings Format.edn.text repeatedSettings.1 repeatedSettings.2).text =
        "application/vnd.eva+edn;a=1=2,b;a=3" ∧
      (ofSettings Format.edn.text repeatedSettings.1 repeatedSettings.2).option? "a" =
        some "1=2" ∧
      (ofSettings Format.edn.text repeatedSettings.1 repeatedSettings.2).option? "b" = some "" ∧
      (ofSettings Format.edn.text repeatedSettings.1 repeatedSettings.2).option? "c" = none ∧
      Element.nil.serialize .standard "application/vnd.eva+edn;a=1=2,b;a=3" = .ok "nil" := by
  have hmime : ';' ∉ Format.edn.text.toList := by decide
  have htext : (ofSettings Format.edn.text repeatedSettings.1 repeatedSettings.2).text =
      "application/vnd.eva+edn;a=1=2,b;a=3" := by decide
  obtain ⟨-, hoption, hserialize, -⟩ :=
    options_recovered hmime repeatedSettings.1 repeatedSettings.2
  rw [htext] at hserialize
  exact ⟨hmime, htext, (hoption "a").trans rfl, (hoption "b").trans rfl, (hoption "c").trans rfl,
    (hserialize .nil "nil").2 ⟨rfl, rfl, rfl⟩⟩

/-- The notation is asked for, and the program stops: the last second of all has no local date an hour
east of UTC. -/
theorem not_serialize_last :
    let last := Element.instant ⟨8210266876799, 0, 3600⟩
    (ofSettings Format.edn.text repeatedSettings.1 repeatedSettings.2).mimeType = Format.edn.text ∧
      last.serialize .standard
        (ofSettings Format.edn.text repeatedSettings.1 repeatedSettings.2).text = .error .stop := by
  intro last
  have hmime := mimeType_ofSettings repeatedSettings.1 repeatedSettings.2
    (show ';' ∉ Format.edn.text.toList by decide)
  exact ⟨hmime, Element.serialize_eq_stop_iff.2 ⟨hmime, by decide +kernel⟩⟩

end Format

end Edn
