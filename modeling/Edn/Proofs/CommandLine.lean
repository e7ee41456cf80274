import Edn.CommandLine
import Edn.Proofs.Output.Format
import Edn.Proofs.RoundTrip

/-!
# Canonical forms

What `fmt` prints is a canonical form: printed again, it stays as it is.

* `Options.IsPlain` says that the arguments leave the limits and the format
  as they are and ask for a run on an input.
* `reportText_check` and `reportText_fmt` say what is reported for a text.
* `reportText_ne_stopped`: whatever the input is, the program does not stop.
* `reportText_output` is the fixed point.
-/

namespace Edn.CommandLine

/-! ## Plain options -/

/-- The limits and the format are the default ones, and the input is read. -/
structure Options.IsPlain (o : Options) : Prop where
  strict : o.strict = false
  format : o.format.getD Format.edn.text = Format.edn.text
  help : o.help = false
  version : o.version = false

instance (o : Options) : Decidable o.IsPlain :=
  decidable_of_iff
    (o.strict = false ∧ o.format.getD Format.edn.text = Format.edn.text ∧ o.help = false ∧
      o.version = false)
    ⟨fun ⟨h, h', h'', h'''⟩ => ⟨h, h', h'', h'''⟩, fun ⟨h, h', h'', h'''⟩ => ⟨h, h', h'', h'''⟩⟩

/-- The report of a run whose input is the given text. -/
def runOn (words : Wordings) (arguments : List String) (text : String) : Report :=
  run (m := Id) words arguments fun _ => .ok text

variable {words : Wordings} {o : Options} {arguments : List String} {text : String} {e : Element}

/-- A run that is not asked for help prints the version or reports its input. -/
theorem run_eq (hread : readArguments arguments = .ok o) (hhelp : o.help = false)
    (input : Option String → Input) :
    run (m := Id) words arguments input =
      if o.version then .success versionText else o.report words (input o.file) := by
  rw [run, hread]
  dsimp only
  rw [hhelp, if_neg Bool.false_ne_true]
  by_cases hversion : o.version = true
  · rw [if_pos hversion, if_pos hversion]
    rfl
  · rw [if_neg hversion, if_neg hversion]
    rfl

theorem runOn_eq (hread : readArguments arguments = .ok o) (h : o.IsPlain) (text : String) :
    runOn words arguments text = o.reportText words text := by
  rw [runOn, run_eq hread h.help, h.version]
  rfl

/-! ## Reports -/

theorem Options.IsPlain.reader_eq (h : o.IsPlain) : o.reader = .standard := by
  rw [Options.reader, h.strict]
  rfl

/-- A text that cannot be read is reported in the same way by both commands. -/
theorem reportText_of_error (h : o.IsPlain) {error : Error} (hparse : parse text = .error error) :
    o.reportText words text = .failure (error.message words) := by
  rw [Options.reportText, h.reader_eq, show Reader.standard.parse text = _ from hparse]
  rfl

/-- An element that is read is reported as it is written. -/
theorem reportText_of_written (h : o.IsPlain) (hparse : parse text = .ok e) {output : String}
    (hwritten : o.written e = .ok output) : o.reportText words text = .success output := by
  have hbind : ((o.reader.parse text).mapError Failure.error >>= o.written) = .ok output := by
    rw [h.reader_eq, show Reader.standard.parse text = _ from hparse]
    exact hwritten
  rw [Options.reportText, hbind]

theorem reportText_check (h : o.IsPlain) (hcommand : o.command = .check)
    (hparse : parse text = .ok e) : o.reportText words text = .success "" := by
  refine reportText_of_written h hparse ?_
  rw [Options.written, hcommand]

theorem reportText_fmt (h : o.IsPlain) (hcommand : o.command = .fmt) (hparse : parse text = .ok e) :
    o.reportText words text = .success (e.text ++ "\n") := by
  have hwritable : e.isWritable = true :=
    Element.isWritable_of_isPrintable (Reader.isPrintable_of_parse rfl hparse).1
  have hserialize : e.serialize .standard Format.edn.text = .ok e.text :=
    Element.serialize_eq_ok_iff.2 ⟨by decide, hwritable, rfl⟩
  refine reportText_of_written h hparse ?_
  rw [Options.written, hcommand]
  dsimp only
  rw [h.format, hserialize]
  rfl

/-- The program does not stop at an element that it can write, whatever the format is. -/
theorem Options.written_ne_stop (o : Options) (h : e.isWritable = true) :
    o.written e ≠ .error .stop := by
  rw [Options.written]
  cases o.command with
  | check => exact nofun
  | fmt =>
    dsimp only
    cases hserialize : e.serialize .standard (o.format.getD Format.edn.text) with
    | ok output => exact nofun
    | error failure =>
      intro hstop
      cases hstop
      cases h.symm.trans (Element.serialize_eq_stop_iff.1 hserialize).2

/-- The program can write whatever it has read, so that no input stops it. -/
theorem reportText_ne_stopped (o : Options) (words : Wordings) (text : String) :
    o.reportText words text ≠ .stopped := by
  have hresult : ((o.reader.parse text).mapError Failure.error >>= o.written) ≠ .error .stop := by
    cases hparse : o.reader.parse text with
    | error error => exact nofun
    | ok e =>
      have hprintable := (Reader.isPrintable_of_parse rfl hparse).1
      exact o.written_ne_stop (Element.isWritable_of_isPrintable hprintable)
  rw [Options.reportText]
  split
  · simp [Report.success, Report.stopped]
  · simp [Report.failure, Report.stopped]
  · next hstop => exact absurd hstop hresult

/-! ## The fixed point -/

/-- The text of an element that was read is read again in its line, with the same text. -/
theorem exists_parse_line (hparse : parse text = .ok e) :
    ∃ e', parse (e.text ++ "\n") = .ok e' ∧ e'.text = e.text := by
  obtain ⟨hprintable, hdepth⟩ := Reader.isPrintable_of_parse rfl hparse
  refine ⟨e.reread, ?_, e.text_reread⟩
  exact @Reader.parse_text .standard e Reader.standard_grammar hprintable hdepth (e.text ++ "\n")
    ['\n'] (by rw [String.toList_append, Element.text, String.toList_ofList]; rfl)
    (List.all_eq_true.1 rfl) rfl

/-- What is printed for a text is printed for itself. -/
theorem reportText_output (h : o.IsPlain) (hcommand : o.command = .fmt)
    (hcode : (o.reportText words text).code = 0) :
    o.reportText words (o.reportText words text).output = o.reportText words text := by
  cases hparse : parse text with
  | error error =>
    rw [reportText_of_error h hparse] at hcode
    cases hcode
  | ok e =>
    obtain ⟨e', hline, htext⟩ := exists_parse_line hparse
    rw [reportText_fmt h hcommand hparse]
    show o.reportText words (e.text ++ "\n") = .success (e.text ++ "\n")
    rw [reportText_fmt h hcommand hline, htext]

/-- Both commands succeed on the same texts and report the same errors, and the formatter prints
what it has printed once more. -/
theorem fmt_canonical {fmtArguments checkArguments : List String} {fmt check : Options}
    (hfmt : readArguments fmtArguments = .ok fmt) (hfmtCommand : fmt.command = .fmt)
    (hfmtPlain : fmt.IsPlain) (hcheck : readArguments checkArguments = .ok check)
    (hcheckCommand : check.command = .check) (hcheckPlain : check.IsPlain) (words : Wordings)
    (text : String) :
    ((runOn words checkArguments text).code = 0 ↔ (runOn words fmtArguments text).code = 0) ∧
      ((runOn words fmtArguments text).code ≠ 0 →
        runOn words checkArguments text = runOn words fmtArguments text) ∧
      ((runOn words fmtArguments text).code = 0 →
        runOn words fmtArguments (runOn words fmtArguments text).output =
          runOn words fmtArguments text) := by
  simp only [runOn_eq hfmt hfmtPlain, runOn_eq hcheck hcheckPlain]
  refine ⟨?_, ?_, reportText_output hfmtPlain hfmtCommand⟩
  all_goals
    cases hparse : parse text with
    | error error =>
      simp [reportText_of_error hfmtPlain hparse, reportText_of_error hcheckPlain hparse]
    | ok e =>
      simp [reportText_fmt hfmtPlain hfmtCommand hparse, Report.success,
        reportText_check hcheckPlain hcheckCommand hparse]

theorem fmt_canonical_infinite :
    runOn wordings ["fmt"] "1e999" = .success "+Inf\n" ∧
      runOn wordings ["fmt"] "+Inf\n" = .success "+Inf\n" := by
  have hread : readArguments ["fmt"] = .ok ⟨.fmt, none, false, none, false, false⟩ := by decide
  have hfirst : runOn wordings ["fmt"] "1e999" = .success "+Inf\n" := by
    rw [runOn_eq hread (by decide), reportText_fmt (by decide) rfl parse_infinite, text_infinite]
    rfl
  have hcanonical := @fmt_canonical ["fmt"] ["check"] _ ⟨.check, none, false, none, false, false⟩
    hread rfl (by decide) (by decide) rfl (by decide) wordings "1e999"
  rw [hfirst] at hcanonical
  exact ⟨hfirst, hcanonical.2.2 rfl⟩

end Edn.CommandLine
