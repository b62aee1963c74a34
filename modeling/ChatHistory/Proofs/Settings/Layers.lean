import ChatHistory.Proofs.Fault
import ChatHistory.Proofs.Toml.Keys
import ChatHistory.Settings.Basic

/-!
# Layers of settings

A layer of settings gives values to keys in sections (`Layer`).  It fits on sections if all sections
that it gives something in are tables, and exactly then it can be put over them (`Lays`).  What a
key stands for afterwards is what the uppermost layer gives that gives anything (`Puts`).

The two lowest layers are tables, the defaults and a settings file.  They are merged without any
check, so a file may replace a section by a value that is no table; `get?_overlay` says what merging
does to one name.
-/

namespace ChatHistory

open Toml

namespace Settings

/-! ## Merged tables -/

/-- What a name stands for in merged tables. -/
lemma get?_overlay (lower : Table) {upper : Table} (keys : (upper.map Prod.fst).Nodup)
    (name : String) :
    Assoc.get? (overlay lower upper) name =
      match Assoc.get? upper name with
      | none => Assoc.get? lower name
      | some value =>
        match Assoc.get? lower name with
        | some below => some (overlayValue below value)
        | none => some value := by
  induction upper generalizing lower with
  | nil => simp [overlay, Assoc.get?]
  | cons entry upper ih =>
    obtain ⟨key, value⟩ := entry
    obtain ⟨fresh, keys⟩ := List.nodup_cons.1 keys
    rw [overlay, ih _ keys, Assoc.get?_set]
    by_cases h : key = name
    · subst h
      rw [Assoc.get?_eq_none_iff.2 fresh]
      cases Assoc.get? lower key <;> simp [Assoc.get?]
    · simp [Assoc.get?, h]

/-! ## Sections -/

/-- A section of the settings is a table. -/
def IsSection (sections : Table) (name : String) : Prop :=
  ∃ entries, Assoc.get? sections name = some (.table entries)

/-- A layer of settings: the values that it gives to keys in sections. -/
abbrev Layer := String → String → Option Value

/-- The layer that a table of sections is. -/
def tableLayer (sections : Table) : Layer := fun name key =>
  match Assoc.get? sections name with
  | some (.table entries) => Assoc.get? entries key
  | _ => none

/-- A section that holds something is a table. -/
lemma isSection_of_tableLayer {sections : Table} {name key : String} {value : Value}
    (h : tableLayer sections name key = some value) : IsSection sections name := by
  unfold tableLayer at h
  split at h
  · rename_i entries hentries
    exact ⟨entries, hentries⟩
  · cases h

/-- A layer that gives at most one value. -/
def single (name key : String) (value : Option Value) : Layer := fun other otherKey =>
  if other = name ∧ otherKey = key then value else none

namespace Layer

/-- A layer over another one. -/
def above (upper lower : Layer) : Layer := fun name key =>
  (upper name key).or (lower name key)

/-- All sections that the layer gives something in are tables. -/
def Fits (layer : Layer) (sections : Table) : Prop :=
  ∀ name key, (layer name key).isSome → IsSection sections name

lemma fits_above {upper lower : Layer} {sections : Table} :
    (upper.above lower).Fits sections ↔ lower.Fits sections ∧ upper.Fits sections := by
  simp only [Fits, above, Option.isSome_or, Bool.or_eq_true]
  constructor
  · exact fun h => ⟨fun name key gives => h name key (.inr gives),
      fun name key gives => h name key (.inl gives)⟩
  · rintro ⟨hlower, hupper⟩ name key (gives | gives)
    · exact hupper name key gives
    · exact hlower name key gives

lemma fits_single {name key : String} {value : Option Value} {sections : Table} :
    (single name key value).Fits sections ↔ (value.isSome → IsSection sections name) := by
  constructor
  · intro h gives
    exact h name key (by simpa [single] using gives)
  · intro h other otherKey gives
    unfold single at gives
    split at gives
    · rename_i same
      exact same.1 ▸ h gives
    · simp at gives

end Layer

/-- Sections after a layer is put over them: the layer's values first, in the same sections. -/
structure Puts (layer : Layer) (before after : Table) : Prop where
  isSection : ∀ name, IsSection after name ↔ IsSection before name
  entry : ∀ name key, tableLayer after name key = (layer name key).or (tableLayer before name key)
  other : ∀ name, ¬IsSection before name → Assoc.get? after name = Assoc.get? before name

lemma Puts.trans {lower upper : Layer} {before between after : Table}
    (first : Puts lower before between) (second : Puts upper between after) :
    Puts (upper.above lower) before after where
  isSection name := (second.isSection name).trans (first.isSection name)
  entry name key := by rw [second.entry, first.entry, Layer.above, Option.or_assoc]
  other name h := by rw [second.other name ((first.isSection name).not.2 h), first.other name h]

lemma Puts.fits_iff {lower upper : Layer} {before after : Table} (h : Puts lower before after) :
    upper.Fits after ↔ upper.Fits before := by
  simp only [Layer.Fits, h.isSection]

/-- Putting a layer over sections succeeds if it fits on them. -/
def Lays (layer : Layer) (before : Table) (result : Except Fault Table) : Prop :=
  (layer.Fits before ∧ ∃ after, result = .ok after ∧ Puts layer before after) ∨
    (¬layer.Fits before ∧ result = .error .sectionNotTable)

/-- Layers are put over sections one after the other. -/
lemma Lays.bind {lower upper : Layer} {before : Table} {result : Except Fault Table}
    {next : Table → Except Fault Table} (first : Lays lower before result)
    (second : ∀ between, Lays upper between (next between)) :
    Lays (upper.above lower) before (result >>= next) := by
  simp only [Lays, Layer.fits_above]
  rcases first with ⟨fits, between, rfl, puts⟩ | ⟨unfit, rfl⟩
  · rw [ok_bind]
    rcases second between with ⟨fitsUpper, after, hafter, putsUpper⟩ | ⟨unfit, hafter⟩
    · exact .inl ⟨⟨fits, puts.fits_iff.1 fitsUpper⟩, after, hafter, puts.trans putsUpper⟩
    · exact .inr ⟨fun h => unfit (puts.fits_iff.2 h.2), hafter⟩
  · exact .inr ⟨fun h => unfit h.1, rfl⟩

/-- What succeeds puts the layer over the sections. -/
lemma Lays.puts {layer : Layer} {before after : Table} {result : Except Fault Table}
    (lays : Lays layer before result) (h : result = .ok after) : Puts layer before after := by
  rcases lays with ⟨-, other, rfl, puts⟩ | ⟨-, rfl⟩
  · rwa [← Except.ok.inj h]
  · cases h

/-- Setting one value puts a layer of one value over the sections. -/
lemma lays_setIn (sections : Table) (name key : String) (value : Value) :
    Lays (single name key (some value)) sections (setIn sections name key value) := by
  rw [Lays, Layer.fits_single]
  unfold setIn
  split
  · rename_i entries hentries
    refine .inl ⟨fun _ => ⟨entries, hentries⟩, _, rfl, fun other => ?_, fun other otherKey => ?_,
      fun other single => ?_⟩
    · simp only [IsSection, Assoc.get?_set]
      split
      · rename_i same
        simp [← same, hentries]
      · rfl
    · simp only [tableLayer, single, Assoc.get?_set]
      by_cases same : name = other
      · subst same
        by_cases sameKey : key = otherKey
        · subst sameKey
          simp [Assoc.get?_set]
        · simp [Assoc.get?_set, sameKey, Ne.symm sameKey, hentries]
      · simp [same, Ne.symm same]
    · have differs : name ≠ other := by
        rintro rfl
        exact single ⟨entries, hentries⟩
      simp [Assoc.get?_set, differs]
  · rename_i noTable
    exact .inr ⟨fun h => (h rfl).elim fun entries hentries => noTable entries hentries, rfl⟩

/-- A value is set in a section that holds one already. -/
lemma exists_setIn {sections : Table} {name : String} (h : IsSection sections name) (key : String)
    (value : Value) : ∃ after, setIn sections name key value = .ok after ∧
      Puts (single name key (some value)) sections after := by
  rcases lays_setIn sections name key value with ⟨-, hafter⟩ | ⟨unfit, -⟩
  · exact hafter
  · exact absurd (Layer.fits_single.2 fun _ => h) unfit

/-- A layer that gives nothing fits on all sections. -/
lemma lays_nothing (sections : Table) (name key : String) :
    Lays (single name key none) sections (.ok sections) := by
  have fits : (single name key none).Fits sections := by simp [Layer.fits_single]
  exact .inl ⟨fits, sections, rfl, fun _ => Iff.rfl, fun other otherKey => by simp [single],
    fun _ _ => rfl⟩

/-- Setting a text, if there is one, puts a layer of at most one text over the sections. -/
lemma lays_setText (sections : Table) (name key : String) (text : Option String) :
    Lays (single name key (text.map .string)) sections (setText sections name key text) := by
  cases text with
  | none => exact lays_nothing sections name key
  | some text => exact lays_setIn sections name key (.string text)

/-- Reading a value fails only where there is none. -/
lemma valueIn_eq (sections : Table) (name key : String) :
    valueIn sections name key =
      match tableLayer sections name key with
      | some value => .ok value
      | none => .error .sectionNotTable := by
  unfold valueIn tableLayer
  cases Assoc.get? sections name with
  | none => rfl
  | some value => cases value <;> rfl

/-! ## The environment and the arguments -/

/-- The layer of the environment. -/
def environmentLayer (environment : Environment) : Layer :=
  ((single processingSection adapterKey
      ((environment.value? "CCREPLAY_ADAPTER").map .string)).above
    (single processingSection limitKey
      ((environment.value? "CCREPLAY_MAX_CONTINUATION_FILES").map .string))).above
    (single pathsSection projectsKey ((environment.value? "CLAUDE_PROJECTS_DIR").map .string))

lemma lays_withEnvironment (environment : Environment) (sections : Table) :
    Lays (environmentLayer environment) sections (withEnvironment environment sections) := by
  refine (lays_setText sections pathsSection projectsKey _).bind fun sections => ?_
  refine (lays_setText sections processingSection limitKey _).bind fun sections => ?_
  exact lays_setText sections processingSection adapterKey _

/-- The layer of the arguments. -/
def argumentLayer (arguments : SettingsArguments) : Layer :=
  ((single processingSection adapterKey ((given arguments.adapter).map .string)).above
    (single debugSection verboseKey
      (if arguments.verbose then some (.boolean true) else none))).above
    (single pathsSection projectsKey ((given arguments.projects).map .string))

lemma lays_withArguments (arguments : SettingsArguments) (sections : Table) :
    Lays (argumentLayer arguments) sections (withArguments arguments sections) := by
  unfold withArguments argumentLayer
  refine (lays_setText sections pathsSection projectsKey _).bind fun sections => ?_
  cases arguments.verbose with
  | true =>
    refine (lays_setIn sections debugSection verboseKey (.boolean true)).bind fun sections => ?_
    exact lays_setText sections processingSection adapterKey _
  | false =>
    refine (lays_nothing sections debugSection verboseKey).bind fun sections => ?_
    exact lays_setText sections processingSection adapterKey _

/-- The layers above the tables. -/
def upperLayer (environment : Environment) (arguments : SettingsArguments) : Layer :=
  (argumentLayer arguments).above (environmentLayer environment)

lemma lays_upperLayer (environment : Environment) (arguments : SettingsArguments)
    (sections : Table) :
    Lays (upperLayer environment arguments) sections
      (withEnvironment environment sections >>= withArguments arguments) :=
  (lays_withEnvironment environment sections).bind fun between =>
    lays_withArguments arguments between

/-! ## The file and the defaults -/

/-- A file leaves a section open: it says nothing of the section, or gives it as a table. -/
def LeavesOpen (file : Table) (name : String) : Prop :=
  ∀ value, Assoc.get? file name = some value → ∃ entries, value = .table entries

/-- A section stays a table under a file that leaves it open. -/
lemma isSection_overlay_iff {lower upper : Table} {name : String} (h : IsSection lower name)
    (distinct : DistinctKeys upper) :
    IsSection (overlay lower upper) name ↔ LeavesOpen upper name := by
  obtain ⟨entries, hentries⟩ := h
  have keys := distinct.keys
  rw [IsSection, LeavesOpen, get?_overlay lower keys, hentries]
  cases hupper : Assoc.get? upper name with
  | none => simp
  | some value => cases value <;> simp [overlayValue]

/-- In a section that is left open, a file is a layer over the one below. -/
lemma tableLayer_overlay {lower upper : Table} {name key : String} (h : IsSection lower name)
    (single : ∀ entries, tableLayer lower name key ≠ some (.table entries))
    (distinct : DistinctKeys upper) (leftOpen : LeavesOpen upper name) :
    tableLayer (overlay lower upper) name key =
      ((tableLayer upper).above (tableLayer lower)) name key := by
  obtain ⟨below, hbelow⟩ := h
  have keys := distinct.keys
  simp only [tableLayer, hbelow] at single
  simp only [tableLayer, Layer.above, get?_overlay lower keys, hbelow]
  cases hupper : Assoc.get? upper name with
  | none => simp
  | some value =>
    obtain ⟨entries, rfl⟩ := leftOpen value hupper
    have keys := (distinct.inner hupper).keys
    simp only [overlayValue, get?_overlay below keys]
    cases Assoc.get? entries key with
    | none => simp
    | some value =>
      cases hvalue : Assoc.get? below key with
      | none => simp
      | some lowest =>
        cases lowest with
        | table entries => exact absurd hvalue (single entries)
        | _ => simp [overlayValue]

/-- The sections that have defaults. -/
def sectionNames : List String :=
  [pathsSection, processingSection, debugSection]

lemma isSection_defaults {name : String} (h : name ∈ sectionNames) : IsSection defaults name := by
  simp only [sectionNames, List.mem_cons, List.not_mem_nil, or_false] at h
  rcases h with rfl | rfl | rfl <;> exact ⟨_, rfl⟩

/-- No default is a table. -/
lemma tableLayer_defaults_ne_table (name key : String) (entries : Table) :
    tableLayer defaults name key ≠ some (.table entries) := by
  intro h
  unfold tableLayer at h
  split at h
  · rename_i inner hinner
    have hmem := Assoc.mem_of_get? hinner
    have hvalue := Assoc.mem_of_get? h
    simp only [defaults, List.mem_cons, List.not_mem_nil, or_false, Prod.mk.injEq,
      Value.table.injEq] at hmem
    rcases hmem with ⟨-, rfl⟩ | ⟨-, rfl⟩ | ⟨-, rfl⟩ <;> simp at hvalue
  · cases h

/-- The environment and the arguments give values only in sections that have defaults. -/
lemma mem_sectionNames_of_upperLayer {environment : Environment} {arguments : SettingsArguments}
    {name key : String} (h : (upperLayer environment arguments name key).isSome) :
    name ∈ sectionNames := by
  by_contra other
  simp only [sectionNames, List.mem_cons, List.not_mem_nil, or_false, not_or] at other
  simp [upperLayer, argumentLayer, environmentLayer, Layer.above, single, other] at h

/-- What a key stands for in all layers together. -/
def layers (environment : Environment) (arguments : SettingsArguments) (file : Table) : Layer :=
  (upperLayer environment arguments).above ((tableLayer file).above (tableLayer defaults))

/-- The layers above fit on a file and the defaults if the file leaves open what they give
something in. -/
lemma fits_overlay_iff (environment : Environment) (arguments : SettingsArguments) {file : Table}
    (distinct : DistinctKeys file) :
    (upperLayer environment arguments).Fits (overlay defaults file) ↔
      ∀ name key, (upperLayer environment arguments name key).isSome → LeavesOpen file name := by
  refine forall_congr' fun name => forall_congr' fun key => forall_congr' fun gives => ?_
  exact isSection_overlay_iff (isSection_defaults (mem_sectionNames_of_upperLayer gives)) distinct

/-- In a section that is left open, the layers put over the file are all layers together. -/
lemma tableLayer_eq_layers {environment : Environment} {arguments : SettingsArguments}
    {file after : Table} (distinct : DistinctKeys file)
    (puts : Puts (upperLayer environment arguments) (overlay defaults file) after) {name : String}
    (named : name ∈ sectionNames) (leftOpen : LeavesOpen file name) (key : String) :
    tableLayer after name key = layers environment arguments file name key := by
  rw [puts.entry, tableLayer_overlay (isSection_defaults named)
    (tableLayer_defaults_ne_table name key) distinct leftOpen]
  rfl

/-! ## The checks behind the layers -/

/-- What is checked once the layers are put together. -/
def check (environment : Environment) (sections : Table) : Except Fault Settings := do
  let limit ← limitOf (← valueIn sections processingSection limitKey)
  let sections ← setIn sections processingSection limitKey (.integer limit)
  let projects ← projectsOf environment (← valueIn sections pathsSection projectsKey)
  let sections ← setIn sections pathsSection projectsKey (.string projects)
  return ⟨sections, projects, limit⟩

/-- First the layers are put over each other, then the result is checked. -/
lemma ofLayers_eq (environment : Environment) (arguments : SettingsArguments) (file : Table) :
    ofLayers environment arguments file =
      (withEnvironment environment (overlay defaults file) >>= withArguments arguments) >>=
        check environment := by
  rw [bind_assoc]
  rfl

end Settings

end ChatHistory
