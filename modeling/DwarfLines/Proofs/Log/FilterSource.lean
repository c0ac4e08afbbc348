import Mathlib
import DwarfLines.Command.Program
import DwarfLines.Proofs.Bytes.Gives

/-!
# Where the filter of the log comes from

Which events are logged is told by the level that the arguments name, otherwise by the filter of the
environment, and otherwise only warnings and errors are. Neither the format nor the file of the log
has a part in that. The settings keep to this rule but for one case: arguments that name a format
and neither a level nor a file take the default level as if it had been named, and the filter of the
environment is lost.
-/

namespace DwarfLines

variable {Filter : Type} {language : FilterLanguage Filter}

variable (language) in
/-- The filter that is due: the one of the level that the arguments name, otherwise the one that the
environment holds, if it can be read, and otherwise the one of warnings. -/
def FilterLanguage.due (level : Option LogLevel) (text : Option String) : Filter :=
  match level with
  | some level => language.ofLevel level
  | none =>
    match text.bind language.parse? with
    | some filter => filter
    | none => language.ofLevel .warn

theorem LogEnvironment.chosenFilter_eq_due (environment : LogEnvironment) :
    environment.chosenFilter language = language.due none environment.filter := by
  unfold chosenFilter FilterLanguage.due
  cases environment.filter.bind language.parse? <;> rfl

namespace LogOptions

variable {options : LogOptions} {environment : LogEnvironment} {settings : LogSettings Filter}

/-- Whether arguments name a format, and neither a level nor a file. -/
def NamesFormatAlone (options : LogOptions) : Prop :=
  options.level = none ∧ options.format ≠ none ∧ options.file = none

theorem filter_of_format_alone (hformat : options.NamesFormatAlone)
    (h : options.settings language environment = .ok settings) :
    settings.filter = language.ofLevel .warn := by
  obtain ⟨level, format, file⟩ := options
  obtain ⟨rfl, hformat, rfl⟩ := hformat
  cases format with
  | none => exact absurd rfl hformat
  | some format =>
    cases h
    rfl

theorem filter_eq_due (hother : ¬ options.NamesFormatAlone)
    (h : options.settings language environment = .ok settings) :
    settings.filter = language.due options.level environment.filter := by
  obtain ⟨level, format, file⟩ := options
  rcases file with _ | path <;> rcases level with _ | level
  case some.some =>
    cases h
    rfl
  case some.none =>
    cases h
    exact environment.chosenFilter_eq_due
  case none.some =>
    cases h
    rfl
  case none.none =>
    -- Here the format decides: without one the environment is asked, with one it is not.
    cases format with
    | none =>
      obtain ⟨format, -, h⟩ := exists_of_bind_eq_ok h
      cases h
      exact environment.chosenFilter_eq_due
    | some format => exact absurd ⟨rfl, nofun, rfl⟩ hother

/-- What holds of the filter of some settings and of the one that is due holds exactly if it holds
of the one of warnings, where a format alone is named. -/
theorem iff_of_format_alone {P : Filter → Filter → Prop} (hrefl : ∀ filter, P filter filter)
    (h : options.settings language environment = .ok settings) :
    P settings.filter (language.due options.level environment.filter) ↔
      (options.NamesFormatAlone →
        P (language.ofLevel .warn) (language.due none environment.filter)) := by
  by_cases hformat : options.NamesFormatAlone
  · rw [filter_of_format_alone hformat h, hformat.1]
    exact ⟨fun hdue _ => hdue, fun hwarn => hwarn hformat⟩
  · rw [filter_eq_due hformat h]
    exact ⟨fun _ hformat' => absurd hformat' hformat, fun _ => hrefl _⟩

/-- With whatever settings logging starts, and in whatever language filters are written, the filter
is the one that is due, unless a format alone is named and warnings are not what is due. The same
events are logged as are due, unless a format alone is named and what is due are other events than
warnings and errors. A format that is named alone brings the filter of warnings, whatever the
environment holds. A level that is named logs the events up to it. -/
theorem filter_comes_from_level (language : FilterLanguage Filter)
    (h : options.settings language environment = .ok settings) :
    (settings.filter = language.due options.level environment.filter ↔
      (options.NamesFormatAlone →
        language.ofLevel .warn = language.due none environment.filter)) ∧
    ((∀ event, language.accepts settings.filter event =
        language.accepts (language.due options.level environment.filter) event) ↔
      (options.NamesFormatAlone → ∀ event,
        decide (event.level.verbosity ≤ LogLevel.warn.verbosity) =
          language.accepts (language.due none environment.filter) event)) ∧
    (options.NamesFormatAlone → settings.filter = language.ofLevel .warn) ∧
    ∀ level, options.level = some level → ∀ event,
      language.accepts settings.filter event =
        decide (event.level.verbosity ≤ level.verbosity) := by
  refine ⟨iff_of_format_alone Eq.refl h, ?_, fun hformat => filter_of_format_alone hformat h, ?_⟩
  · have hevents := iff_of_format_alone
      (P := fun filter due => ∀ event, language.accepts filter event = language.accepts due event)
      (fun _ _ => rfl) h
    simpa only [language.accepts_ofLevel] using hevents
  · intro level hlevel event
    have hother : ¬ options.NamesFormatAlone := by
      rintro ⟨hnone, -⟩
      rw [hlevel] at hnone
      cases hnone
    rw [filter_eq_due hother h, hlevel]
    exact language.accepts_ofLevel level event

theorem due_off : LogFilter.language.due none (some "off") =
    ⟨[{ target := "", level := none }]⟩ := by
  have hparse : LogFilter.language.parse? "off" = some ⟨[{ target := "", level := none }]⟩ := by
    cbv
  simp only [FilterLanguage.due, Option.bind_some, hparse]

/-- A log that goes to a file keeps the filter of the environment, here one that lets nothing
through. -/
theorem filter_comes_from_environment :
    let options : LogOptions := { file := some "x.log" }
    let environment : LogEnvironment := { filter := some "off", format := some "json" }
    ∃ settings, options.settings LogFilter.language environment = .ok settings ∧
      settings.filter = LogFilter.language.due options.level environment.filter ∧
      settings.filter.rules = [{ target := "", level := none }] := by
  intro options environment
  obtain ⟨settings, hsettings⟩ :
    ∃ settings, options.settings LogFilter.language environment = .ok settings := ⟨_, rfl⟩
  obtain ⟨hiff, -⟩ := filter_comes_from_level LogFilter.language hsettings
  have hfilter := hiff.mpr fun hformat => absurd rfl hformat.2.1
  exact ⟨settings, hsettings, hfilter, congrArg LogFilter.rules (hfilter.trans due_off)⟩

/-- A file without sections. -/
def bareImage : List UInt8 :=
  [0x7f, 0x45, 0x4c, 0x46, 2, 1, 1] ++ List.replicate 45 0 ++ [64] ++ List.replicate 11 0

/-- The environment says that nothing is logged, and the arguments name a format. The filter that is
due lets no event through, and a warning is logged all the same. -/
theorem format_alone_loses_filter :
    let invocation : Invocation :=
      { command := .list .header "b" none, logging := { format := some .json } }
    let environment : LogEnvironment := { filter := some "off" }
    let due := LogFilter.language.due invocation.logging.level environment.filter
    Invocation.parse? ["--log-format", "json", "header", "b"] = some invocation ∧
    (∀ event, due.accepts event = false) ∧
    (∃ settings, invocation.logging.settings LogFilter.language environment = .ok settings ∧
      settings.filter ≠ due) ∧
    (invocation.run environment { files := [(["b"], bareImage)] }).1.log =
      some (.json, [.noLineSection "b"]) := by
  intro invocation environment due
  have hdue : due = _ := due_off
  have hread : ({ files := [(["b"], bareImage)] } : Storage).read "b" = .ok bareImage := by cbv
  refine ⟨by decide +kernel, ?_, ⟨_, rfl, ?_⟩, ?_⟩
  · intro event
    rw [hdue]
    rfl
  · rw [hdue]
    decide
  · change (Ending.ofResult _ _ (Command.run (Storage.read _ "b") _).perform).log = _
    rw [hread]
    decide +kernel

end LogOptions
end DwarfLines
