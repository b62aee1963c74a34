import ChatHistory.Proofs.Settings.Environment
import ChatHistory.Proofs.Settings.Layers

/-!
# Mistakes in settings

Settings that cannot be used should be answered by a mistake that tells the user what to change.
`ofLayers_answers_iff` says when this is so.  Three things stand in the way.  A section may be used
that a file replaced by a value of another kind; a limit may be infinite, or hold a number too long
to be quoted; and the directory of projects may be no text, or begin with a home directory that is
unknown.  No check looks at these, so they stop the program with a fault of its own.
-/

namespace ChatHistory

open Toml

namespace Settings

/-- Settings that hold what was checked: a limit of at least one, and a text for the projects. -/
structure Sound (settings : Settings) : Prop where
  limit : 1 ≤ settings.limit
  keptLimit : valueIn settings.sections processingSection limitKey = .ok (.integer settings.limit)
  keptProjects :
    valueIn settings.sections pathsSection projectsKey = .ok (.string settings.projects)

/-- The result tells what the user needs to know: sound settings, or a mistake in them. -/
def Answers (result : Except Fault Settings) : Prop :=
  (∃ settings, result = .ok settings ∧ settings.Sound) ∨
    ∃ mistake, result = .error (.settings mistake)

/-- A limit that can be told about: it is not infinite, and it is an integer or has a literal. -/
def Quotable (value : Value) : Prop :=
  (∀ negative, value ≠ .float (.infinite negative)) ∧
    ((∃ limit, value.toInteger = .ok limit) ∨ ∃ literal, value.literal? = some literal)

/-- Layers whose mistakes are found. -/
structure Checkable (environment : Environment) (arguments : SettingsArguments) (file : Table) :
    Prop where
  /-- The file leaves all sections open that the layers above give something in. -/
  sections : ∀ name key, (upperLayer environment arguments name key).isSome →
    LeavesOpen file name
  /-- It leaves the section of the limit open, which is always read. -/
  processing : LeavesOpen file processingSection
  quotable : ∀ value,
    layers environment arguments file processingSection limitKey = some value → Quotable value
  /-- If the limit is accepted, the directory of projects is a text without an unknown home;
  `Environment.exists_expand_ofString_iff` says which texts these are. -/
  projects : ∀ value limit,
    layers environment arguments file processingSection limitKey = some value →
      value.toInteger = .ok limit → 1 ≤ limit →
        LeavesOpen file pathsSection ∧ ∃ text path,
          layers environment arguments file pathsSection projectsKey = some (.string text) ∧
          environment.expand (Path.ofString text) = .ok path

/-! ## The limit -/

/-- Only an infinite number has no integer for this reason. -/
lemma toInteger_eq_infinite_iff (value : Value) :
    value.toInteger = .error .infinite ↔ ∃ negative, value = .float (.infinite negative) := by
  unfold Value.toInteger
  split <;> (try split) <;> simp_all

/-- A limit is accepted, or answered by a mistake, or it cannot be told about. -/
lemma limitOf_cases (value : Value) :
    (Quotable value ∧ ∃ limit, value.toInteger = .ok limit ∧ 1 ≤ limit ∧
      limitOf value = .ok limit) ∨
    (Quotable value ∧ (∀ limit, value.toInteger = .ok limit → limit < 1) ∧
      ∃ mistake, limitOf value = .error (.settings mistake)) ∨
    (¬Quotable value ∧ ∃ fault, limitOf value = .error fault ∧
      ∀ mistake, fault ≠ .settings mistake) := by
  have hinfinite := toInteger_eq_infinite_iff value
  cases hvalue : value.toInteger with
  | ok limit =>
    have quotable : Quotable value := by
      refine ⟨fun negative infinite => ?_, .inl ⟨limit, hvalue⟩⟩
      rw [hinfinite.2 ⟨negative, infinite⟩] at hvalue
      cases hvalue
    by_cases small : limit < 1
    · refine .inr (.inl ⟨quotable, ?_, .limitTooSmall limit, by simp [limitOf, hvalue, small]⟩)
      rintro other ⟨⟩
      exact small
    · exact .inl ⟨quotable, limit, rfl, by omega, by simp [limitOf, hvalue, small]⟩
  | error why =>
    by_cases infinite : why = .infinite
    · subst infinite
      obtain ⟨negative, hnegative⟩ := hinfinite.1 hvalue
      exact .inr (.inr ⟨fun quotable => quotable.1 negative hnegative,
        .notInteger .infinite, by simp only [limitOf, hvalue], by simp⟩)
    · have finite : ∀ negative, value ≠ .float (.infinite negative) := by
        intro negative hnegative
        rw [hinfinite.2 ⟨negative, hnegative⟩] at hvalue
        exact infinite (Except.error.inj hvalue).symm
      have hlimit : limitOf value = .error (limitFault value) := by
        cases why <;> simp_all [limitOf]
      cases hliteral : value.literal? with
      | some literal =>
        refine .inr (.inl ⟨⟨finite, .inr ⟨literal, hliteral⟩⟩, by simp, ?_⟩)
        exact ⟨.limitNotInteger literal, by rw [hlimit, limitFault, hliteral]⟩
      | none =>
        refine .inr (.inr ⟨?_, .tooManyDigits, by rw [hlimit, limitFault, hliteral], by simp⟩)
        rintro ⟨-, ⟨limit, hlimit⟩ | ⟨literal, hsome⟩⟩
        · rw [hvalue] at hlimit
          cases hlimit
        · rw [hliteral] at hsome
          cases hsome

/-! ## The directory of projects -/

/-- An unknown home directory is no mistake in the settings. -/
lemma ne_settings_of_expand {environment : Environment} {path : Path} {fault : Fault}
    (h : environment.expand path = .error fault) (mistake : SettingsFault) :
    fault ≠ .settings mistake := by
  rintro rfl
  unfold Environment.expand at h
  repeat' split at h
  all_goals cases h

/-- A directory of projects is a text whose home directory is known. -/
lemma projectsOf_cases (environment : Environment) (value : Value) :
    (∃ text path, value = .string text ∧ environment.expand (Path.ofString text) = .ok path ∧
      projectsOf environment value = .ok path.text) ∨
    ((∀ text path, value = .string text → environment.expand (Path.ofString text) ≠ .ok path) ∧
      ∃ fault, projectsOf environment value = .error fault ∧
        ∀ mistake, fault ≠ .settings mistake) := by
  cases value with
  | string text =>
    cases hexpand : environment.expand (Path.ofString text) with
    | ok path => exact .inl ⟨text, path, rfl, hexpand, by simp [projectsOf, hexpand]⟩
    | error fault =>
      refine .inr ⟨?_, fault, by simp [projectsOf, hexpand], ne_settings_of_expand hexpand⟩
      rintro other path ⟨⟩
      simp [hexpand]
  | _ => exact .inr ⟨by simp, .pathNotText, rfl, by simp⟩

/-! ## All checks -/

/-- The sections can be checked: what they hold is sound or answered by a mistake. -/
structure CheckableSections (environment : Environment) (sections : Table) : Prop where
  quotable : ∃ value, tableLayer sections processingSection limitKey = some value ∧ Quotable value
  projects : ∀ value limit, tableLayer sections processingSection limitKey = some value →
    value.toInteger = .ok limit → 1 ≤ limit → ∃ text path,
      tableLayer sections pathsSection projectsKey = some (.string text) ∧
      environment.expand (Path.ofString text) = .ok path

lemma not_answers_error {fault : Fault} (h : ∀ mistake, fault ≠ .settings mistake) :
    ¬Answers (.error fault) := by
  rintro (⟨settings, hsettings, -⟩ | ⟨mistake, hmistake⟩)
  · cases hsettings
  · exact h mistake (Except.error.inj hmistake)

/-- Once a limit is accepted, the directory of projects decides. -/
lemma answers_accepted_iff {environment : Environment} {sections : Table} {limit : Int}
    (large : 1 ≤ limit) (tabled : IsSection sections processingSection) :
    (Answers do
      let sections ← setIn sections processingSection limitKey (.integer limit)
      let projects ← projectsOf environment (← valueIn sections pathsSection projectsKey)
      let sections ← setIn sections pathsSection projectsKey (.string projects)
      return ⟨sections, projects, limit⟩) ↔
    ∃ text path, tableLayer sections pathsSection projectsKey = some (.string text) ∧
      environment.expand (Path.ofString text) = .ok path := by
  obtain ⟨limited, hlimited, puts⟩ := exists_setIn tabled limitKey (.integer limit)
  have apart : pathsSection ≠ processingSection := by decide
  have hprojects : tableLayer limited pathsSection projectsKey =
      tableLayer sections pathsSection projectsKey := by
    simp [puts.entry, single, apart]
  rw [hlimited, ok_bind, valueIn_eq, hprojects]
  cases hvalue : tableLayer sections pathsSection projectsKey with
  | none => simpa using not_answers_error (by simp)
  | some value =>
    rw [ok_bind]
    rcases projectsOf_cases environment value with ⟨text, path, rfl, known, hexpanded⟩ |
      ⟨unknown, fault, hfault, noMistake⟩
    · rw [hexpanded, ok_bind]
      obtain ⟨settled, hsettled, putsProjects⟩ := exists_setIn
        (isSection_of_tableLayer (hprojects.trans hvalue)) projectsKey (.string path.text)
      rw [hsettled]
      refine iff_of_true (.inl ⟨_, rfl, large, ?_, ?_⟩) ⟨text, path, rfl, known⟩
      · simp [valueIn_eq, putsProjects.entry, puts.entry, single, apart.symm]
      · simp [valueIn_eq, putsProjects.entry, single]
    · rw [hfault]
      refine iff_of_false (not_answers_error noMistake) ?_
      rintro ⟨text, path, htext, known⟩
      exact unknown text path (Option.some.inj htext) known

lemma answers_check_iff (environment : Environment) (sections : Table) :
    Answers (check environment sections) ↔ CheckableSections environment sections := by
  unfold check
  rw [valueIn_eq]
  cases hlimit : tableLayer sections processingSection limitKey with
  | none =>
    simp only [error_bind]
    refine iff_of_false (not_answers_error (by simp)) fun checkable => ?_
    obtain ⟨value, hvalue, -⟩ := checkable.quotable
    simp [hlimit] at hvalue
  | some value =>
    simp only [ok_bind]
    rcases limitOf_cases value with ⟨quotable, limit, hinteger, large, haccepted⟩ |
      ⟨quotable, small, mistake, hmistake⟩ | ⟨unquotable, fault, hfault, noMistake⟩
    · rw [haccepted, ok_bind, answers_accepted_iff large (isSection_of_tableLayer hlimit)]
      constructor
      · rintro hprojects
        exact ⟨⟨value, hlimit, quotable⟩, fun _ _ _ _ _ => hprojects⟩
      · exact fun checkable => checkable.projects value limit hlimit hinteger large
    · rw [hmistake]
      refine iff_of_true (.inr ⟨mistake, rfl⟩) ⟨⟨value, hlimit, quotable⟩, ?_⟩
      intro other limit hother hinteger large
      obtain rfl : value = other := by simpa [hlimit] using hother
      exact absurd (small limit hinteger) (by omega)
    · rw [hfault]
      refine iff_of_false (not_answers_error noMistake) fun checkable => ?_
      obtain ⟨other, hother, quotable⟩ := checkable.quotable
      obtain rfl : value = other := by simpa [hlimit] using hother
      exact unquotable quotable

/-- Some layer gives a limit, at the latest the defaults. -/
lemma exists_limit (environment : Environment) (arguments : SettingsArguments) (file : Table) :
    ∃ value, layers environment arguments file processingSection limitKey = some value := by
  have hdefault : tableLayer defaults processingSection limitKey = some (.integer 32) := rfl
  rw [← Option.isSome_iff_exists]
  simp [layers, Layer.above, hdefault]

/-- Settings are put together, or the user is told what is wrong with them, if and only if the
layers can be checked. -/
theorem ofLayers_answers_iff (environment : Environment) (arguments : SettingsArguments)
    {file : Table} (distinct : DistinctKeys file) :
    Answers (ofLayers environment arguments file) ↔ Checkable environment arguments file := by
  have hfits := fits_overlay_iff environment arguments distinct
  rw [ofLayers_eq]
  rcases lays_upperLayer environment arguments (overlay defaults file) with
    ⟨fits, after, hafter, puts⟩ | ⟨unfit, hafter⟩
  · rw [hafter, ok_bind, answers_check_iff]
    have hentry {name : String} (named : name ∈ sectionNames) (leftOpen : LeavesOpen file name)
        (key : String) : tableLayer after name key = layers environment arguments file name key :=
      tableLayer_eq_layers distinct puts named leftOpen key
    have hsection {name : String} (named : name ∈ sectionNames) :
        IsSection after name ↔ LeavesOpen file name :=
      (puts.isSection name).trans (isSection_overlay_iff (isSection_defaults named) distinct)
    have processingNamed : processingSection ∈ sectionNames := by decide
    have pathsNamed : pathsSection ∈ sectionNames := by decide
    constructor
    · rintro ⟨⟨value, hvalue, quotable⟩, projects⟩
      have processing := (hsection processingNamed).1 (isSection_of_tableLayer hvalue)
      rw [hentry processingNamed processing] at hvalue
      refine ⟨hfits.1 fits, processing, ?_, ?_⟩
      · intro other hother
        obtain rfl : value = other := by simpa [hvalue] using hother
        exact quotable
      · intro other limit hother hinteger large
        obtain ⟨text, path, htext, known⟩ := projects other limit
          (by rwa [hentry processingNamed processing]) hinteger large
        have paths := (hsection pathsNamed).1 (isSection_of_tableLayer htext)
        rw [hentry pathsNamed paths] at htext
        exact ⟨paths, text, path, htext, known⟩
    · rintro ⟨-, processing, quotable, projects⟩
      obtain ⟨value, hvalue⟩ := exists_limit environment arguments file
      refine ⟨⟨value, ?_, quotable value hvalue⟩, ?_⟩
      · rwa [hentry processingNamed processing]
      · intro other limit hother hinteger large
        rw [hentry processingNamed processing] at hother
        obtain ⟨paths, text, path, htext, known⟩ := projects other limit hother hinteger large
        exact ⟨text, path, by rwa [hentry pathsNamed paths], known⟩
  · rw [hafter, error_bind]
    exact iff_of_false (not_answers_error (by simp)) fun checkable =>
      unfit (hfits.2 checkable.sections)

/-- A file that replaced the section of paths, which is not looked at behind a limit of zero; and a
file with its logs in the home directory, which is known, and a limit that the environment gives. -/
theorem ofLayers_answers_iff_mistake_and_settings :
    (let document := "paths = 5\n[processing]\nmax_continuation_files = 0\n"
      let file : Table := [(pathsSection, .integer 5),
        (processingSection, .table [(limitKey, .integer 0)])]
      let environment : Environment := ⟨[("HOME", "/home/u")], []⟩
      let arguments : SettingsArguments := ⟨none, none, true, some "claude"⟩
      Toml.read document.toList = some file ∧ DistinctKeys file ∧
        ofLayers environment arguments file = .error (.settings (.limitTooSmall 0)) ∧
        Checkable environment arguments file) ∧
    (let document := "[paths]\nprojects_dir = \"~/logs\"\n"
      let file : Table := [(pathsSection, .table [(projectsKey, .string "~/logs")])]
      let environment : Environment :=
        ⟨[("HOME", "/home/u"), ("CCREPLAY_MAX_CONTINUATION_FILES", " 7")], []⟩
      let arguments : SettingsArguments := ⟨none, none, false, none⟩
      Toml.read document.toList = some file ∧ DistinctKeys file ∧
        Checkable environment arguments file ∧
        ∃ settings, ofLayers environment arguments file = .ok settings ∧ settings.Sound ∧
          settings.limit = 7 ∧ settings.projects = "/home/u/logs") := by
  constructor
  · intro document file environment arguments
    have hread : Toml.read document.toList = some file := by decide +kernel
    have distinct := distinctKeys_read hread
    have hmistake : ofLayers environment arguments file =
        .error (.settings (.limitTooSmall 0)) := by rfl
    exact ⟨hread, distinct, hmistake,
      (ofLayers_answers_iff environment arguments distinct).1 (.inr ⟨_, hmistake⟩)⟩
  · intro document file environment arguments
    have hread : Toml.read document.toList = some file := by decide +kernel
    have distinct := distinctKeys_read hread
    have isHome : environment.IsHome [] "/home/u" := ⟨by simp, by rfl, by simp⟩
    have known : environment.expand (Path.ofString "~/logs") =
        .ok ⟨"/", ["home", "u", "logs"]⟩ := Environment.expand_home isHome ["logs"]
    have leftOpen (name : String) : LeavesOpen file name := by
      intro value hvalue
      by_cases named : pathsSection = name
      · exact ⟨_, by simpa [file, Assoc.get?, named] using hvalue.symm⟩
      · simp [file, Assoc.get?, named] at hvalue
    have checkable : Checkable environment arguments file := by
      refine ⟨fun name _ _ => leftOpen name, leftOpen _, ?_, ?_⟩
      · intro value hvalue
        obtain rfl : .string " 7" = value := Option.some.inj hvalue
        exact ⟨by simp, .inl ⟨7, by rfl⟩⟩
      · exact fun _ _ _ _ _ => ⟨leftOpen _, "~/logs", _, rfl, known⟩
    have hmade : ofLayers environment arguments file =
        (projectsOf environment (.string "~/logs")).bind fun projects =>
          .ok ⟨[(pathsSection, .table [(projectsKey, .string projects)]),
            (processingSection, .table [(limitKey, .integer 7), (adapterKey, .string "claude")]),
            (debugSection, .table [(verboseKey, .boolean false)])], projects, 7⟩ := by rfl
    rw [projectsOf, known] at hmade
    rcases (ofLayers_answers_iff environment arguments distinct).2 checkable with
      ⟨settings, hsettings, sound⟩ | ⟨mistake, hmistake⟩
    · obtain rfl := Except.ok.inj (hmade.symm.trans hsettings)
      exact ⟨hread, distinct, checkable, _, hsettings, sound, rfl, rfl⟩
    · cases hmade.symm.trans hmistake

/-- An infinite limit is neither accepted nor answered by a mistake. -/
theorem ofLayers_infinite_limit :
    let document := "[processing]\nmax_continuation_files = inf\n"
    let file : Table := [(processingSection, .table [(limitKey, .float (.infinite false))])]
    let environment : Environment := ⟨[("HOME", "home")], []⟩
    let arguments : SettingsArguments := ⟨none, none, false, none⟩
    Toml.read document.toList = some file ∧
      ofLayers environment arguments file = .error (.notInteger .infinite) ∧
      ¬Answers (ofLayers environment arguments file) := by
  intro document file environment arguments
  have hfault : ofLayers environment arguments file = .error (.notInteger .infinite) := by rfl
  refine ⟨by decide +kernel, hfault, ?_⟩
  rw [hfault]
  exact not_answers_error (by simp)

end Settings

end ChatHistory
