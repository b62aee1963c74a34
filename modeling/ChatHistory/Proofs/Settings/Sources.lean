import ChatHistory.Proofs.Settings.Layers
import ChatHistory.Proofs.Text.Pieces

/-!
# Where settings come from

When settings could be put together, each of them has the value of the first source that gives one:
an argument, a variable of the environment, the settings file, or else the default
(`ofLayers_sources`).  All else that the file holds can be looked up by the keys that lead to it.
Only what lies behind a setting is lost if an argument or a variable gives the setting, since the
table that the file has there is replaced as a whole (`get?_behind_setting`).

Settings are followed through three steps (`Made`): the file is merged with the defaults, the
environment and the arguments are put over the result, and the checked values are put over that.
What is found behind a path is found behind it after each step, unless the step sets a value on the
way (`lookup_overlay`, `Puts.lookup_eq`).
-/

namespace ChatHistory

open Toml

namespace Settings

/-! ## Looking up a path -/

lemma lookup_singleton (table : Table) (name : String) :
    lookup (.table table) [name] = Assoc.get? table name := by
  simp only [lookup]
  cases Assoc.get? table name <;> rfl

/-- Behind two names lies what the second one stands for in the section of the first. -/
lemma lookup_cons_cons (table : Table) (name key : String) (path : List String) :
    lookup (.table table) (name :: key :: path) =
      (tableLayer table name key).bind (lookup · path) := by
  unfold tableLayer
  rw [lookup]
  cases Assoc.get? table name with
  | none => rfl
  | some value =>
    cases value with
    | table entries =>
      simp only [lookup]
      cases Assoc.get? entries key <;> rfl
    | _ => rfl

/-- What leads further is a table. -/
lemma exists_table_of_lookup {table : Table} {name key : String} {path : List String}
    {value : Value} (h : lookup (.table table) path = some value) (behind : [name, key] <+: path)
    (further : path ≠ [name, key]) :
    ∃ entries, tableLayer table name key = some (.table entries) := by
  obtain ⟨rest, rfl⟩ := behind
  rw [List.cons_append, List.cons_append, lookup_cons_cons, Option.bind_eq_some_iff] at h
  obtain ⟨found, hfound, hrest⟩ := h
  cases rest with
  | nil => simp at further
  | cons next rest =>
    cases found with
    | table entries => exact ⟨entries, hfound⟩
    | _ => simp [lookup] at hrest

/-- A value counts over another one, unless both are tables, which are merged. -/
lemma overlayValue_cases (below value : Value) :
    (∃ lower upper, value = .table upper ∧
      overlayValue below value = .table (overlay lower upper)) ∨
      overlayValue below value = value := by
  cases value with
  | table upper =>
    cases below with
    | table lower => exact .inl ⟨lower, upper, rfl, by rw [overlayValue]⟩
    | _ => exact .inr (by simp [overlayValue])
  | _ => exact .inr (by cases below <;> simp [overlayValue])

/-- What the upper table holds behind a path is there in the merged tables, if it is no table. -/
lemma lookup_overlay {lower upper : Table} (distinct : DistinctKeys upper) {path : List String}
    {value : Value} (h : lookup (.table upper) path = some value)
    (single : ∀ entries, value ≠ .table entries) :
    lookup (.table (overlay lower upper)) path = some value := by
  induction path generalizing lower upper with
  | nil => exact absurd (Option.some.inj h).symm (single upper)
  | cons name path ih =>
    rw [lookup, get?_overlay lower distinct.keys]
    rw [lookup] at h
    cases hupper : Assoc.get? upper name with
    | none => simp [hupper] at h
    | some found =>
      simp only [hupper] at h ⊢
      cases Assoc.get? lower name with
      | none => exact h
      | some below =>
        rcases overlayValue_cases below found with ⟨inner, outer, rfl, hmerged⟩ | hfound
        · simpa only [hmerged] using ih (distinct.inner hupper) h
        · simpa only [hfound] using h

/-- Putting a layer over sections keeps what lies behind a path, if it is no table and the layer
gives nothing on the way. -/
lemma Puts.lookup_eq {layer : Layer} {before after : Table} (puts : Puts layer before after)
    {path : List String} {value : Value} (h : lookup (.table before) path = some value)
    (single : ∀ entries, value ≠ .table entries)
    (apart : ∀ name key, (layer name key).isSome → ¬[name, key] <+: path) :
    lookup (.table after) path = some value := by
  match path with
  | [] => exact absurd (Option.some.inj h).symm (single before)
  | [name] =>
    rw [lookup_singleton] at h ⊢
    have noSection : ¬IsSection before name := by
      rintro ⟨entries, hentries⟩
      rw [h, Option.some.injEq] at hentries
      exact single entries hentries
    rw [puts.other name noSection, h]
  | name :: key :: rest =>
    have hlayer : layer name key = none := by
      rw [← Option.not_isSome_iff_eq_none]
      exact fun gives => apart name key gives ⟨rest, rfl⟩
    rw [lookup_cons_cons] at h ⊢
    rw [puts.entry, hlayer, Option.none_or, h]

/-! ## How settings are made -/

/-- The layer of the checked values. -/
def checkedLayer (settings : Settings) : Layer :=
  (single pathsSection projectsKey (some (.string settings.projects))).above
    (single processingSection limitKey (some (.integer settings.limit)))

lemma checkedLayer_eq_none {settings : Settings} {name key : String}
    (projects : ¬(name = pathsSection ∧ key = projectsKey))
    (limit : ¬(name = processingSection ∧ key = limitKey)) :
    checkedLayer settings name key = none := by
  simp [checkedLayer, Layer.above, single, projects, limit]

/-- Settings are made of the sections of all layers, with the checked values put over them. -/
structure Made (environment : Environment) (arguments : SettingsArguments) (file between : Table)
    (settings : Settings) : Prop where
  layered : Puts (upperLayer environment arguments) (overlay defaults file) between
  limit : ∃ value, tableLayer between processingSection limitKey = some value ∧
    value.toInteger = .ok settings.limit
  projects : ∃ text path, tableLayer between pathsSection projectsKey = some (.string text) ∧
    environment.expand (Path.ofString text) = .ok path ∧ settings.projects = path.text
  checked : Puts (checkedLayer settings) between settings.sections

/-- A limit is the integer that a value stands for. -/
lemma toInteger_of_limitOf {value : Value} {limit : Int} (h : limitOf value = .ok limit) :
    value.toInteger = .ok limit := by
  unfold limitOf at h
  split at h
  · rename_i other hother
    split at h
    · cases h
    · rw [hother, Except.ok.inj h]
  all_goals cases h

/-- A directory of projects is a text with its home directory put in. -/
lemma exists_path_of_projectsOf {environment : Environment} {value : Value} {projects : String}
    (h : projectsOf environment value = .ok projects) :
    ∃ text path, value = .string text ∧ environment.expand (Path.ofString text) = .ok path ∧
      projects = path.text := by
  unfold projectsOf at h
  split at h
  · rename_i text
    obtain ⟨path, hpath, htext⟩ := bind_eq_ok_iff.1 h
    exact ⟨text, path, rfl, hpath, (Except.ok.inj htext).symm⟩
  · cases h

/-- A value that is read is there. -/
lemma tableLayer_of_valueIn {sections : Table} {name key : String} {value : Value}
    (h : valueIn sections name key = .ok value) : tableLayer sections name key = some value := by
  rw [valueIn_eq] at h
  split at h
  · rename_i other hother
    rw [hother, Except.ok.inj h]
  · cases h

lemma exists_made {environment : Environment} {arguments : SettingsArguments} {file : Table}
    {settings : Settings} (h : ofLayers environment arguments file = .ok settings) :
    ∃ between, Made environment arguments file between settings := by
  rw [ofLayers_eq] at h
  obtain ⟨between, hbetween, hcheck⟩ := bind_eq_ok_iff.1 h
  have layered := (lays_upperLayer environment arguments (overlay defaults file)).puts hbetween
  obtain ⟨limitValue, hlimitValue, hcheck⟩ := bind_eq_ok_iff.1 hcheck
  obtain ⟨limit, hlimit, hcheck⟩ := bind_eq_ok_iff.1 hcheck
  obtain ⟨limited, hlimited, hcheck⟩ := bind_eq_ok_iff.1 hcheck
  obtain ⟨projectsValue, hprojectsValue, hcheck⟩ := bind_eq_ok_iff.1 hcheck
  obtain ⟨projects, hprojects, hcheck⟩ := bind_eq_ok_iff.1 hcheck
  obtain ⟨sections, hsections, hcheck⟩ := bind_eq_ok_iff.1 hcheck
  obtain rfl := Except.ok.inj hcheck
  have putsLimit := (lays_setIn between processingSection limitKey (.integer limit)).puts hlimited
  have putsProjects := (lays_setIn limited pathsSection projectsKey _).puts hsections
  refine ⟨between, layered, ?_, ?_, putsLimit.trans putsProjects⟩
  · exact ⟨limitValue, tableLayer_of_valueIn hlimitValue, toInteger_of_limitOf hlimit⟩
  · obtain ⟨text, path, rfl, hpath, htext⟩ := exists_path_of_projectsOf hprojects
    have hread := tableLayer_of_valueIn hprojectsValue
    have apart : pathsSection ≠ processingSection := by decide
    rw [putsLimit.entry, single, if_neg fun same => apart same.1, Option.none_or] at hread
    exact ⟨text, path, hread, hpath, htext⟩

/-! ## The sources -/

/-- The value that the first source of a setting gives: the argument, or else the environment, or
else the file, or else the default. -/
def firstSource (argument fromEnvironment : Option String) (entry : Option Value)
    (default : Value) : Value :=
  match argument, fromEnvironment with
  | some text, _ => .string text
  | none, some text => .string text
  | none, none => entry.getD default

/-- The settings that have several sources, as sections and keys. -/
def sourcedPaths : List (List String) :=
  [[pathsSection, projectsKey], [processingSection, limitKey], [processingSection, adapterKey],
    [debugSection, verboseKey]]

lemma layers_eq_firstSource {environment : Environment} {arguments : SettingsArguments}
    {name key : String} {argument fromEnvironment : Option String} {default : Value}
    (hargument : argumentLayer arguments name key = argument.map .string)
    (henvironment : environmentLayer environment name key = fromEnvironment.map .string)
    (hdefault : tableLayer defaults name key = some default) (file : Table) :
    layers environment arguments file name key =
      some (firstSource argument fromEnvironment (tableLayer file name key) default) := by
  simp only [layers, upperLayer, Layer.above, hargument, henvironment, hdefault]
  cases argument with
  | some text => rfl
  | none =>
    cases fromEnvironment with
    | some text => rfl
    | none => cases tableLayer file name key <;> rfl

/-- What all layers together give for the settings that take a text from above. -/
lemma layers_sourced (environment : Environment) (arguments : SettingsArguments) (file : Table) :
    layers environment arguments file pathsSection projectsKey =
        some (firstSource (given arguments.projects) (environment.value? "CLAUDE_PROJECTS_DIR")
          (tableLayer file pathsSection projectsKey) (.string "~/.claude/projects")) ∧
      layers environment arguments file processingSection adapterKey =
        some (firstSource (given arguments.adapter) (environment.value? "CCREPLAY_ADAPTER")
          (tableLayer file processingSection adapterKey) (.string "claude")) ∧
      layers environment arguments file processingSection limitKey =
        some (firstSource none (environment.value? "CCREPLAY_MAX_CONTINUATION_FILES")
          (tableLayer file processingSection limitKey) (.integer 32)) := by
  refine ⟨layers_eq_firstSource ?_ ?_ rfl file, layers_eq_firstSource ?_ ?_ rfl file,
    layers_eq_firstSource ?_ ?_ rfl file⟩
  all_goals
    simp [argumentLayer, environmentLayer, Layer.above, single, pathsSection, processingSection,
      debugSection, projectsKey, limitKey, adapterKey]

/-- What all layers together give for diagnostics. -/
lemma layers_verbose (environment : Environment) (arguments : SettingsArguments) (file : Table) :
    ∃ value, layers environment arguments file debugSection verboseKey = some value ∧
      value.isTruthy = (arguments.verbose ||
        ((tableLayer file debugSection verboseKey).map Value.isTruthy).getD false) := by
  have hargument : argumentLayer arguments debugSection verboseKey =
      if arguments.verbose then some (.boolean true) else none := by
    simp [argumentLayer, Layer.above, single, pathsSection, processingSection, debugSection]
  have henvironment : environmentLayer environment debugSection verboseKey = none := by
    simp [environmentLayer, Layer.above, single, pathsSection, processingSection, debugSection]
  have hdefault : tableLayer defaults debugSection verboseKey = some (.boolean false) := rfl
  simp only [layers, upperLayer, Layer.above, hargument, henvironment, hdefault]
  cases arguments.verbose with
  | true => exact ⟨_, rfl, rfl⟩
  | false => cases tableLayer file debugSection verboseKey <;> exact ⟨_, rfl, rfl⟩

/-! ## Made settings -/

namespace Made

variable {environment : Environment} {arguments : SettingsArguments} {file between : Table}
  {settings : Settings}

/-- What is checked is what all layers together give. -/
lemma tableLayer_between (made : Made environment arguments file between settings)
    (distinct : DistinctKeys file) (tables : ∀ name ∈ sectionNames, LeavesOpen file name)
    {name : String} (named : name ∈ sectionNames) (key : String) :
    tableLayer between name key = layers environment arguments file name key :=
  tableLayer_eq_layers distinct made.layered named (tables name named) key

/-- What is not checked stays as all layers together give it. -/
lemma valueIn_sections (made : Made environment arguments file between settings)
    (distinct : DistinctKeys file) (tables : ∀ name ∈ sectionNames, LeavesOpen file name)
    {name key : String} (named : name ∈ sectionNames)
    (unchecked : checkedLayer settings name key = none) {value : Value}
    (h : layers environment arguments file name key = some value) :
    valueIn settings.sections name key = .ok value := by
  rw [valueIn_eq, made.checked.entry, unchecked, Option.none_or,
    made.tableLayer_between distinct tables named, h]

/-- No path of the file leads through a value that was checked. -/
lemma not_prefix_of_lookup (made : Made environment arguments file between settings)
    {path : List String} {value : Value} (h : lookup (.table between) path = some value)
    (other : path ∉ sourcedPaths) {name key : String}
    (checked : (checkedLayer settings name key).isSome) : ¬[name, key] <+: path := by
  intro behind
  have hcases : name = pathsSection ∧ key = projectsKey ∨
      name = processingSection ∧ key = limitKey := by
    by_contra neither
    rw [not_or] at neither
    simp [checkedLayer_eq_none neither.1 neither.2] at checked
  rcases hcases with ⟨rfl, rfl⟩ | ⟨rfl, rfl⟩
  · have further : path ≠ [pathsSection, projectsKey] := by
      rintro rfl
      exact other (by simp [sourcedPaths])
    obtain ⟨entries, hentries⟩ := exists_table_of_lookup h behind further
    obtain ⟨text, -, htext, -⟩ := made.projects
    simp [hentries] at htext
  · have further : path ≠ [processingSection, limitKey] := by
      rintro rfl
      exact other (by simp [sourcedPaths])
    obtain ⟨entries, hentries⟩ := exists_table_of_lookup h behind further
    obtain ⟨limit, hlimit, hinteger⟩ := made.limit
    obtain rfl : .table entries = limit := by simpa [hentries] using hlimit
    simp [Value.toInteger] at hinteger

/-- What the file holds is found behind its path, unless a layer above the file gives something on
the way. -/
lemma lookup_sections (made : Made environment arguments file between settings)
    (distinct : DistinctKeys file) {path : List String} {value : Value}
    (h : lookup (.table file) path = some value) (single : ∀ entries, value ≠ .table entries)
    (other : path ∉ sourcedPaths)
    (apart : ∀ name key, (upperLayer environment arguments name key).isSome →
      ¬[name, key] <+: path) :
    lookup (.table settings.sections) path = some value := by
  have hbetween : lookup (.table between) path = some value :=
    made.layered.lookup_eq (lookup_overlay distinct h single) single apart
  exact made.checked.lookup_eq hbetween single fun _ _ =>
    made.not_prefix_of_lookup hbetween other

end Made

/-- A key with points between its parts is looked up part by part. -/
lemma get?_intercalate (settings : Settings) {path : List String} (filled : path ≠ [])
    (plain : ∀ name ∈ path, '.' ∉ name.toList) :
    settings.get? (".".intercalate path) = lookup (.table settings.sections) path := by
  have hpieces : Text.splitAtChar '.' (".".intercalate path).toList = path.map String.toList := by
    rw [String.toList_intercalate]
    refine Text.splitAtChar_intercalate (by simpa using filled) fun piece hpiece => ?_
    obtain ⟨name, hname, rfl⟩ := List.mem_map.1 hpiece
    exact plain name hname
  have hnames : (path.map String.toList).map String.ofList = path := by
    simp [Function.comp_def]
  rw [get?, hpieces, hnames]

/-- Each setting has the value of its first source: the directory of projects, in which a home
directory is still to be put in, and the adapter have an argument, a variable, an entry of the file
and a default; the limit has all but an argument; and diagnostics are asked for by the argument or
the file.  All else that the file holds, no tables, can be looked up by its key, unless the key
leads through a setting that an argument or a variable gives. -/
theorem ofLayers_sources {environment : Environment} {arguments : SettingsArguments} {file : Table}
    {settings : Settings} (distinct : DistinctKeys file)
    (tables : ∀ name ∈ sectionNames, LeavesOpen file name)
    (h : ofLayers environment arguments file = .ok settings) :
    (∃ text path, firstSource (given arguments.projects)
        (environment.value? "CLAUDE_PROJECTS_DIR") (tableLayer file pathsSection projectsKey)
        (.string "~/.claude/projects") = .string text ∧
      environment.expand (Path.ofString text) = .ok path ∧ settings.projects = path.text) ∧
    settings.adapter = .ok (firstSource (given arguments.adapter)
      (environment.value? "CCREPLAY_ADAPTER") (tableLayer file processingSection adapterKey)
      (.string "claude")) ∧
    (firstSource none (environment.value? "CCREPLAY_MAX_CONTINUATION_FILES")
      (tableLayer file processingSection limitKey) (.integer 32)).toInteger =
        .ok settings.limit ∧
    settings.verbose = .ok (arguments.verbose ||
      ((tableLayer file debugSection verboseKey).map Value.isTruthy).getD false) ∧
    ∀ path value, lookup (.table file) path = some value → (∀ entries, value ≠ .table entries) →
      (∀ name ∈ path, '.' ∉ name.toList) → path ∉ sourcedPaths →
      (∀ name key, (upperLayer environment arguments name key).isSome → ¬[name, key] <+: path) →
        settings.get? (".".intercalate path) = some value := by
  obtain ⟨between, made⟩ := exists_made h
  obtain ⟨hprojects, hadapter, hlimit⟩ := layers_sourced environment arguments file
  obtain ⟨verbose, hverbose, hflag⟩ := layers_verbose environment arguments file
  have hbetween {name : String} (named : name ∈ sectionNames) (key : String) :=
    made.tableLayer_between distinct tables named key
  refine ⟨?_, ?_, ?_, ?_, fun path value hvalue single plain other apart => ?_⟩
  · obtain ⟨text, path, htext, hpath⟩ := made.projects
    rw [hbetween (by decide), hprojects] at htext
    exact ⟨text, path, Option.some.inj htext, hpath⟩
  · exact made.valueIn_sections distinct tables (by decide)
      (checkedLayer_eq_none (by decide) (by decide)) hadapter
  · obtain ⟨value, hvalue, hinteger⟩ := made.limit
    rw [hbetween (by decide), hlimit] at hvalue
    rwa [Option.some.inj hvalue]
  · have hread := made.valueIn_sections distinct tables (by decide)
      (checkedLayer_eq_none (by decide) (by decide)) hverbose
    rw [Settings.verbose, hread, ok_bind, pure_eq_ok, hflag]
  · have filled : path ≠ [] := by
      rintro rfl
      exact single file (Option.some.inj hvalue).symm
    rw [get?_intercalate settings filled plain]
    exact made.lookup_sections distinct hvalue single other apart

/-- Empty texts give nothing, and the default of a setting stays when its section has other keys. -/
theorem ofLayers_sources_mixed :
    let document := "[debug]\nlevel = 3\n[processing]\nadapter = 5\n"
    let file : Table := [(debugSection, .table [("level", .integer 3)]),
      (processingSection, .table [(adapterKey, .integer 5)])]
    let environment : Environment :=
      ⟨[("CLAUDE_PROJECTS_DIR", "/logs"), ("CCREPLAY_ADAPTER", "")], []⟩
    let arguments : SettingsArguments := ⟨none, some "", false, none⟩
    Toml.read document.toList = some file ∧ ∃ settings,
      ofLayers environment arguments file = .ok settings ∧ settings.projects = "/logs" ∧
        settings.adapter = .ok (.integer 5) ∧ settings.limit = 32 ∧ settings.verbose = .ok false ∧
        settings.get? "debug.level" = some (.integer 3) := by
  intro document file environment arguments
  have hread : Toml.read document.toList = some file := by decide +kernel
  have tables : ∀ name ∈ sectionNames, LeavesOpen file name := by
    simp [file, LeavesOpen, sectionNames, Assoc.get?, pathsSection, processingSection,
      debugSection]
  obtain ⟨settings, h⟩ : ∃ settings, ofLayers environment arguments file = .ok settings := ⟨_, rfl⟩
  obtain ⟨⟨text, path, htext, hpath, hprojects⟩, hadapter, hlimit, hverbose, hkept⟩ :=
    ofLayers_sources (distinctKeys_read hread) tables h
  refine ⟨hread, settings, h, ?_, hadapter, (Except.ok.inj hlimit).symm, hverbose, ?_⟩
  · obtain rfl : "/logs" = text := Value.string.inj htext
    rw [hprojects, ← Except.ok.inj hpath]
    rfl
  · refine hkept [debugSection, "level"] _ rfl (by simp) (by decide) (by decide) ?_
    rintro name key gives ⟨rest, hrest⟩
    obtain ⟨rfl, rfl⟩ : name = debugSection ∧ key = "level" := by simp_all
    cases gives

/-- What the file holds behind the directory of projects cannot be looked up if an argument gives
this directory. -/
theorem get?_behind_setting :
    let document := "[paths.projects_dir]\nx = 1\n"
    let file : Table := [(pathsSection, .table [(projectsKey, .table [("x", .integer 1)])])]
    let environment : Environment := ⟨[("HOME", "home")], []⟩
    let arguments : SettingsArguments := ⟨none, some "/a", false, none⟩
    let path := [pathsSection, projectsKey, "x"]
    Toml.read document.toList = some file ∧ (∀ name ∈ sectionNames, LeavesOpen file name) ∧
      lookup (.table file) path = some (.integer 1) ∧ (∀ name ∈ path, '.' ∉ name.toList) ∧
      path ∉ sourcedPaths ∧ ∃ settings, ofLayers environment arguments file = .ok settings ∧
        settings.get? (".".intercalate path) = none := by
  intro document file environment arguments path
  have tables : ∀ name ∈ sectionNames, LeavesOpen file name := by
    simp [file, LeavesOpen, sectionNames, Assoc.get?, pathsSection, processingSection,
      debugSection]
  refine ⟨by decide +kernel, tables, rfl, by decide, by decide, _, rfl, ?_⟩
  rw [get?_intercalate _ (by simp) (by decide)]
  rfl

end Settings

end ChatHistory
