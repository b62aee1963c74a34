import ChatHistory.Proofs.Part.Arrangement
import Mathlib.Data.List.SplitBy

/-!
# Folding in two phases

`foldCalls` decides about a part when it comes to it: explorations wait for the end of their run,
and the place of the progress entry may wait with them.  `foldInPhases` says what comes of that
without a state.  First the reports of progress are taken out and the other parts are cut into
units, as long as possible; then each unit is displayed, and the progress entry is put behind the
unit that holds the last part in front of the first report.  Both give the same parts
(`foldCalls_eq_foldInPhases`).

A pass keeps the explorations that may still be continued apart from the parts in front of them
(`Folding.Splits`), so that the units of both together are those of each (`Splits.units_eq`).
`Folding.Groups` says what the state is before the first report, and `Folding.Tracks` what it is
from then on: the place of the progress entry is either behind the open run or fixed already.
-/

namespace ChatHistory

namespace Part

/-! ## The two phases -/

/-- The call of a tool that reads or searches. -/
def isExploration (vocabulary : ToolVocabulary) : Part → Bool
  | .call made => vocabulary.explores made.name
  | _ => false

/-- The call that a part is, if it is one. -/
def call? : Part → Option Call
  | .call made => some made
  | _ => none

/-- Some parts cut into units: explorations that follow one another are one unit, as many of them as
possible, and any other part is a unit of its own. -/
def units (vocabulary : ToolVocabulary) (parts : List Part) : List (List Part) :=
  parts.splitBy fun part next => part.isExploration vocabulary && next.isExploration vocabulary

/-- What is displayed of a unit: two or more calls as a group with the identifier of the first, and
any other unit as it is. -/
def unitParts (unit : List Part) : List Part :=
  match unit.filterMap call? with
  | first :: second :: more => [.toolGroup first.id (first :: second :: more)]
  | _ => unit

/-- How many units there are up to the one that holds the last of the first `count` parts; none if
`count` is zero. -/
def unitsHolding : ℕ → List (List Part) → ℕ
  | 0, _ => 0
  | _, [] => 0
  | count + 1, unit :: units => unitsHolding (count + 1 - unit.length) units + 1

/-- The entry of the reports of progress, with the identifier of the first, if there are any. -/
def reportEntry : List Call → List Part
  | [] => []
  | first :: more => [.taskProgress first.id (first :: more)]

end Part

open ChatHistory.Part (units unitParts unitsHolding reportEntry)

/-- The parts of a message with explorations grouped and progress reports gathered, in two
phases. -/
def foldInPhases (vocabulary : ToolVocabulary) (parts : List Part) : List Part :=
  let front := parts.takeWhile fun part => (part.report? vocabulary).isNone
  let others := parts.filter fun part => (part.report? vocabulary).isNone
  let place := unitsHolding front.length (units vocabulary others)
  ((units vocabulary others).take place).flatMap unitParts ++
    reportEntry (parts.filterMap (Part.report? vocabulary)) ++
    ((units vocabulary others).drop place).flatMap unitParts

namespace Part

variable {vocabulary : ToolVocabulary} {parts : List Part} {part : Part}

/-! ## Units -/

/-- The units of some parts make up these parts. -/
lemma flatten_units (vocabulary : ToolVocabulary) (parts : List Part) :
    (units vocabulary parts).flatten = parts :=
  List.flatten_splitBy _ parts

/-- No unit goes on behind a part that is no exploration. -/
lemma units_append (more : List Part)
    (ended : ∀ last ∈ parts.getLast?, ¬last.isExploration vocabulary) :
    units vocabulary (parts ++ more) = units vocabulary parts ++ units vocabulary more := by
  apply List.splitBy_append
  intro last hlast next _
  simp [ended last hlast]

/-- A part that is no exploration is a unit of its own. -/
lemma units_concat (h : ¬part.isExploration vocabulary) :
    units vocabulary (parts ++ [part]) = units vocabulary parts ++ [[part]] := by
  apply List.splitBy_append_cons
  intro last _
  simp [h]

/-- Explorations that follow one another are one unit. -/
lemma units_run {run : List Call} (filled : run ≠ [])
    (explores : ∀ made ∈ run, vocabulary.explores made.name) :
    units vocabulary (run.map .call) = [run.map .call] := by
  apply List.splitBy_of_isChain
  · simpa using filled
  rw [List.isChain_map]
  apply List.Pairwise.isChain
  rw [List.pairwise_iff_forall_sublist]
  intro made next hsublist
  have hmade := explores made (hsublist.subset List.mem_cons_self)
  have hnext := explores next (hsublist.subset (List.mem_cons_of_mem _ List.mem_cons_self))
  simp [isExploration, hmade, hnext]

/-- A run of calls is displayed as the pass displays it. -/
lemma unitParts_run (run : List Call) : unitParts (run.map .call) = Folding.runParts run := by
  have hcalls : (run.map Part.call).filterMap call? = run := by
    simp [List.filterMap_map, Function.comp_def, call?]
  unfold unitParts
  rw [hcalls]
  match run with
  | [] => rfl
  | [alone] => rfl
  | first :: second :: more => rfl

/-- A part alone is displayed as it is. -/
lemma unitParts_singleton (part : Part) : unitParts [part] = [part] := by
  cases part <;> rfl

/-- The pass gathers reports in the same entry. -/
lemma progressParts_eq_reportEntry (reports : List Call) :
    Folding.progressParts reports = reportEntry reports := by
  cases reports <;> rfl

/-! ## Units and the parts that they hold -/

/-- Where enough units stand in front, those behind do not count. -/
lemma unitsHolding_append_of_le {count : ℕ} {before : List (List Part)}
    (reached : count ≤ before.flatten.length) (after : List (List Part)) :
    unitsHolding count (before ++ after) = unitsHolding count before := by
  induction before generalizing count with
  | nil =>
    obtain rfl : count = 0 := by simpa using reached
    simp [unitsHolding]
  | cons unit before ih =>
    cases count with
    | zero => simp [unitsHolding]
    | succ count =>
      rw [List.flatten_cons, List.length_append] at reached
      rw [List.cons_append, unitsHolding, unitsHolding, ih (by omega)]

/-- If the last part lies behind some units, all these count, and the next one at least. -/
lemma unitsHolding_concat {count : ℕ} {before : List (List Part)} (unit : List Part)
    (passed : before.flatten.length < count) :
    unitsHolding count (before ++ [unit]) = before.length + 1 := by
  induction before generalizing count with
  | nil =>
    obtain ⟨count, rfl⟩ := Nat.exists_eq_succ_of_ne_zero (Nat.ne_zero_of_lt passed)
    rw [List.nil_append, unitsHolding]
    cases count + 1 - unit.length <;> rfl
  | cons first before ih =>
    obtain ⟨count, rfl⟩ := Nat.exists_eq_succ_of_ne_zero (Nat.ne_zero_of_lt passed)
    rw [List.flatten_cons, List.length_append] at passed
    rw [List.cons_append, unitsHolding, ih (by omega), List.length_cons]

/-- All units together hold all their parts, and no fewer units do. -/
lemma unitsHolding_units (vocabulary : ToolVocabulary) (parts : List Part) :
    unitsHolding parts.length (units vocabulary parts) = (units vocabulary parts).length := by
  have hflatten := flatten_units vocabulary parts
  have filled : [] ∉ units vocabulary parts := List.nil_notMem_splitBy _ parts
  generalize units vocabulary parts = cut at hflatten filled
  subst hflatten
  induction cut using List.reverseRecOn with
  | nil => rfl
  | append_singleton before unit ih =>
    have hunit : 0 < unit.length := by
      rw [List.length_pos_iff]
      rintro rfl
      exact filled (List.mem_append_right _ List.mem_cons_self)
    rw [unitsHolding_concat unit, List.length_append, List.length_singleton]
    rw [List.flatten_append, List.length_append, List.flatten_singleton]
    omega

end Part

open ChatHistory.Part (flatten_units units_append units_concat units_run unitParts_run
  unitParts_singleton progressParts_eq_reportEntry unitsHolding_append_of_le unitsHolding_concat
  unitsHolding_units)

namespace Folding

variable {vocabulary : ToolVocabulary} {count : ℕ} {others closed : List Part} {run : List Call}
  {state : Folding}

/-! ## Parts and the run that may go on -/

/-- Some parts end with a run of explorations, and what stands in front of the run does not. -/
structure Splits (vocabulary : ToolVocabulary) (others closed : List Part) (run : List Call) :
    Prop where
  eq : others = closed ++ run.map .call
  ended : ∀ last ∈ closed.getLast?, ¬last.isExploration vocabulary
  explores : ∀ made ∈ run, vocabulary.explores made.name

/-- Another exploration continues the run. -/
lemma Splits.explore (h : Splits vocabulary others closed run) {call : Call}
    (explores : vocabulary.explores call.name) :
    Splits vocabulary (others ++ [.call call]) closed (run ++ [call]) := by
  refine ⟨?_, h.ended, ?_⟩
  · rw [h.eq, List.map_append, List.append_assoc]
    rfl
  · intro made hmade
    rcases List.mem_append.1 hmade with hold | hnew
    · exact h.explores made hold
    · obtain rfl := List.mem_singleton.1 hnew
      exact explores

/-- Behind any other part no run is open. -/
lemma splits_concat (others : List Part) {part : Part} (h : ¬part.isExploration vocabulary) :
    Splits vocabulary (others ++ [part]) (others ++ [part]) [] := by
  refine ⟨by simp, ?_, by simp⟩
  intro last hlast
  obtain rfl : part = last := by simpa using hlast
  exact h

/-- The units are those in front of the run and those of the run. -/
lemma Splits.units_eq (h : Splits vocabulary others closed run) :
    units vocabulary others = units vocabulary closed ++ units vocabulary (run.map .call) := by
  rw [h.eq]
  exact units_append _ h.ended

/-! ## Places for the displayed parts -/

/-- The displayed parts of some units, each in its place. -/
def slots (cut : List (List Part)) : List (Option Part) :=
  (cut.flatMap unitParts).map some

lemma slots_append (cut more : List (List Part)) :
    slots (cut ++ more) = slots cut ++ slots more := by
  rw [slots, List.flatMap_append, List.map_append]
  rfl

lemma slots_singleton (part : Part) : slots [[part]] = [some part] := by
  rw [slots, List.flatMap_singleton, unitParts_singleton]
  rfl

/-- Where there is no place for the progress entry, there is none. -/
lemma fill_slots (cut : List (List Part)) (reports : List Call) :
    fill (slots cut) reports = cut.flatMap unitParts := by
  rw [fill, slots, List.flatMap_map]
  exact List.flatMap_singleton' _

/-- The units of the run are displayed as the pass displays it. -/
lemma Splits.slots_run (h : Splits vocabulary others closed run) :
    slots (units vocabulary (run.map .call)) = (runParts run).map some := by
  cases run with
  | nil => rfl
  | cons first more =>
    rw [units_run (List.cons_ne_nil first more) h.explores, ← unitParts_run, slots,
      List.flatMap_singleton]

/-- The place of the progress entry is fixed: it stands behind the unit that holds the last of the
first `count` parts. -/
def Marked (count : ℕ) (cut : List (List Part)) (placed : List (Option Part)) : Prop :=
  ∃ before after, cut = before ++ after ∧ count ≤ before.flatten.length ∧
    unitsHolding count before = before.length ∧ placed = slots before ++ none :: slots after

/-- The place stays fixed when more units follow. -/
lemma Marked.append {cut : List (List Part)} {placed : List (Option Part)}
    (h : Marked count cut placed) (more : List (List Part)) :
    Marked count (cut ++ more) (placed ++ slots more) := by
  obtain ⟨before, after, rfl, reached, last, rfl⟩ := h
  refine ⟨before, after ++ more, List.append_assoc before after more, reached, last, ?_⟩
  rw [slots_append, List.append_assoc, List.cons_append]

/-- The place behind all units. -/
lemma marked_end {cut : List (List Part)} (reached : count ≤ cut.flatten.length)
    (last : unitsHolding count cut = cut.length) : Marked count cut (slots cut ++ [none]) :=
  ⟨cut, [], (List.append_nil cut).symm, reached, last, rfl⟩

/-- In a fixed place, the entry stands between the units that hold the first parts and the
others. -/
lemma Marked.fill_eq {cut : List (List Part)} {placed : List (Option Part)}
    (h : Marked count cut placed) (reports : List Call) :
    fill placed reports = (cut.take (unitsHolding count cut)).flatMap unitParts ++
      reportEntry reports ++ (cut.drop (unitsHolding count cut)).flatMap unitParts := by
  obtain ⟨before, after, rfl, reached, last, rfl⟩ := h
  have hplace : unitsHolding count (before ++ after) = before.length :=
    (unitsHolding_append_of_le reached after).trans last
  rw [hplace, List.take_left, List.drop_left, ← fill_slots before reports,
    ← fill_slots after reports, ← progressParts_eq_reportEntry]
  simp [fill]

/-! ## The pass -/

/-- A report is gathered. -/
lemma add_report {part : Part} {call : Call} (h : part.report? vocabulary = some call)
    (state : Folding) : state.add vocabulary part = state.addProgress call := by
  cases part with
  | call made =>
    simp only [Part.report?] at h
    split at h
    · rename_i reports
      obtain rfl := Option.some.inj h
      simp [add, reports]
    · contradiction
  | _ => contradiction

/-- The next part is a report, or continues the run, or ends it. -/
lemma add_cases (vocabulary : ToolVocabulary) (state : Folding) (part : Part) :
    (∃ call, part.report? vocabulary = some call) ∨
    (∃ call, part = .call call ∧ part.report? vocabulary = none ∧
      vocabulary.explores call.name ∧
      state.add vocabulary part = { state with run := state.run ++ [call] }) ∨
    part.report? vocabulary = none ∧ ¬part.isExploration vocabulary ∧
      state.add vocabulary part = state.addOther part := by
  cases part with
  | call call =>
    by_cases reports : vocabulary.reports call.name
    · exact .inl ⟨call, by simp [Part.report?, reports]⟩
    by_cases explores : vocabulary.explores call.name
    · exact .inr (.inl ⟨call, rfl, by simp [Part.report?, reports], explores,
        by simp [add, reports, explores]⟩)
    · exact .inr (.inr ⟨by simp [Part.report?, reports],
        by simp [Part.isExploration, explores], by simp [add, reports, explores]⟩)
  | _ => exact .inr (.inr ⟨rfl, Bool.false_ne_true, rfl⟩)

/-- At the end of a run, it is placed, and the progress entry if that has waited for it. -/
lemma placed_endRun_eq (state : Folding) :
    state.endRun.placed = state.placed ++ (runParts state.run).map some ++
      if state.progressBehindRun then [none] else [] :=
  rfl

/-- Any other part is placed behind the run. -/
lemma placed_addOther_eq (state : Folding) (part : Part) :
    (state.addOther part).placed = state.endRun.placed ++ [some part] :=
  rfl

/-- What a state holds after parts of which none is a report. -/
structure Groups (vocabulary : ToolVocabulary) (others closed : List Part) (state : Folding) :
    Prop where
  splits : Splits vocabulary others closed state.run
  progress : state.progress = []
  settled : state.progressBehindRun = false
  placed : state.placed = slots (units vocabulary closed)

/-- At the end of a run without reports, all units are placed. -/
lemma Groups.placed_endRun (h : Groups vocabulary others closed state) :
    state.endRun.placed = slots (units vocabulary others) := by
  rw [placed_endRun_eq, h.settled, h.placed, h.splits.units_eq, slots_append, h.splits.slots_run]
  simp

/-- A pass over parts of which none is a report places their units, but for the open run. -/
lemma groups_foldl {parts : List Part} (silent : ∀ part ∈ parts, part.report? vocabulary = none) :
    ∃ closed, Groups vocabulary parts closed (parts.foldl (add vocabulary) start) := by
  induction parts using List.reverseRecOn with
  | nil => exact ⟨[], ⟨rfl, by simp, by simp [start]⟩, rfl, rfl, rfl⟩
  | append_singleton parts part ih =>
    obtain ⟨closed, hgroups⟩ := ih fun p hp => silent p (List.mem_append_left _ hp)
    have hsilent := silent part (List.mem_append_right _ List.mem_cons_self)
    rw [List.foldl_append, List.foldl_cons, List.foldl_nil]
    rcases add_cases vocabulary (parts.foldl (add vocabulary) start) part with
      ⟨call, hreport⟩ | ⟨call, rfl, -, explores, hadd⟩ | ⟨-, other, hadd⟩
    · rw [hsilent] at hreport
      contradiction
    · rw [hadd]
      exact ⟨closed, hgroups.splits.explore explores, hgroups.progress, hgroups.settled,
        hgroups.placed⟩
    · rw [hadd]
      refine ⟨parts ++ [part], splits_concat parts other, hgroups.progress, rfl, ?_⟩
      rw [placed_addOther_eq, hgroups.placed_endRun, units_concat other, slots_append,
        slots_singleton]

/-- What a state holds once there are reports, the first of them behind `count` other parts. -/
structure Tracks (vocabulary : ToolVocabulary) (count : ℕ) (others closed : List Part)
    (reports : List Call) (state : Folding) : Prop where
  splits : Splits vocabulary others closed state.run
  progress : state.progress = reports
  /-- The entry waits for the end of the run in which the first report stands. -/
  waiting : state.progressBehindRun → state.placed = slots (units vocabulary closed) ∧
    closed.length < count ∧ count ≤ others.length
  /-- The entry has its place. -/
  settled : ¬state.progressBehindRun → Marked count (units vocabulary closed) state.placed

/-- At the end of a run, the entry has its place. -/
lemma Tracks.placed_endRun {reports : List Call}
    (h : Tracks vocabulary count others closed reports state) :
    Marked count (units vocabulary others) state.endRun.placed := by
  rw [placed_endRun_eq, ← h.splits.slots_run]
  by_cases behind : state.progressBehindRun
  · obtain ⟨hclosed, passed, within⟩ := h.waiting behind
    have hlength := congrArg List.length h.splits.eq
    rw [List.length_append, List.length_map] at hlength
    have filled : state.run ≠ [] := by
      intro hrun
      rw [hrun, List.length_nil] at hlength
      omega
    have hunits := h.splits.units_eq
    have hreached : count ≤ (units vocabulary others).flatten.length := by
      rw [flatten_units]
      exact within
    rw [hclosed, if_pos behind, ← slots_append, ← hunits]
    apply marked_end hreached
    rw [hunits, units_run filled h.splits.explores, List.length_append, List.length_singleton]
    apply unitsHolding_concat
    rwa [flatten_units]
  · rw [if_neg behind, List.append_nil, h.splits.units_eq]
    exact (h.settled behind).append _

/-- The first report gives the entry its place, or puts it behind the open run. -/
lemma Groups.addProgress (h : Groups vocabulary others closed state) (call : Call) :
    Tracks vocabulary others.length others closed [call] (state.addProgress call) := by
  have hsplits := h.splits
  cases hrun : state.run with
  | nil =>
    have hstate : state.addProgress call =
        { state with progress := [call], placed := state.placed ++ [none] } := by
      simp [Folding.addProgress, h.progress, hrun]
    have hall : others = closed := by simpa [hrun] using hsplits.eq
    rw [hstate]
    refine ⟨hsplits, rfl, fun behind => ?_, fun _ => ?_⟩
    · rw [h.settled] at behind
      contradiction
    · rw [h.placed, hall]
      apply marked_end
      · rw [flatten_units]
      · exact unitsHolding_units vocabulary closed
  | cons first more =>
    have hstate : state.addProgress call =
        { state with progress := [call], progressBehindRun := true } := by
      simp [Folding.addProgress, h.progress, hrun]
    have hlength := congrArg List.length hsplits.eq
    rw [List.length_append, hrun, List.length_map, List.length_cons] at hlength
    rw [hstate]
    refine ⟨hsplits, rfl, fun _ => ⟨h.placed, by omega, le_rfl⟩, fun settled => ?_⟩
    exact absurd rfl settled

/-- Further parts leave the entry in its place. -/
lemma Tracks.foldl {reports : List Call} (h : Tracks vocabulary count others closed reports state)
    (filled : reports ≠ []) (more : List Part) :
    ∃ closed, Tracks vocabulary count
      (others ++ more.filter fun part => (part.report? vocabulary).isNone) closed
      (reports ++ more.filterMap (Part.report? vocabulary))
      (more.foldl (add vocabulary) state) := by
  induction more generalizing others closed reports state with
  | nil => exact ⟨closed, by simpa using h⟩
  | cons part more ih =>
    rw [List.foldl_cons]
    rcases add_cases vocabulary state part with
      ⟨call, hreport⟩ | ⟨call, rfl, hreport, explores, hadd⟩ | ⟨hreport, other, hadd⟩
    · have hstate : state.addProgress call =
          { state with progress := state.progress ++ [call] } := by
        simp [Folding.addProgress, h.progress, filled]
      have hnext : Tracks vocabulary count others closed (reports ++ [call])
          (state.addProgress call) := by
        rw [hstate]
        exact ⟨h.splits, by rw [h.progress], h.waiting, h.settled⟩
      have hrest := ih hnext (List.append_ne_nil_of_right_ne_nil reports (List.cons_ne_nil _ _))
      rw [add_report hreport]
      simpa [hreport] using hrest
    · have hnext : Tracks vocabulary count (others ++ [.call call]) closed reports
          { state with run := state.run ++ [call] } := by
        refine ⟨h.splits.explore explores, h.progress, fun behind => ?_, h.settled⟩
        obtain ⟨hplaced, passed, within⟩ := h.waiting behind
        refine ⟨hplaced, passed, within.trans ?_⟩
        rw [List.length_append]
        exact Nat.le_add_right _ _
      rw [hadd]
      simpa [hreport] using ih hnext filled
    · have hnext : Tracks vocabulary count (others ++ [part]) (others ++ [part]) reports
          (state.addOther part) := by
        refine ⟨splits_concat others other, h.progress, fun behind => ?_, fun _ => ?_⟩
        · exact absurd behind Bool.false_ne_true
        · rw [placed_addOther_eq, ← slots_singleton, units_concat other]
          exact h.placed_endRun.append [[part]]
      rw [hadd]
      simpa [hreport] using ih hnext filled

end Folding

/-- Either no part is a report, or there is a first one. -/
lemma exists_first_report (vocabulary : ToolVocabulary) (parts : List Part) :
    (∀ part ∈ parts, part.report? vocabulary = none) ∨
      ∃ front part call back, parts = front ++ part :: back ∧
        (∀ part ∈ front, part.report? vocabulary = none) ∧
        part.report? vocabulary = some call := by
  induction parts with
  | nil => exact .inl (by simp)
  | cons part parts ih =>
    cases hreport : part.report? vocabulary with
    | some call => exact .inr ⟨[], part, call, parts, rfl, by simp, hreport⟩
    | none =>
      rcases ih with silent | ⟨front, first, call, back, rfl, silent, hfirst⟩
      · exact .inl (List.forall_mem_cons.2 ⟨hreport, silent⟩)
      · exact .inr ⟨part :: front, first, call, back, rfl,
          List.forall_mem_cons.2 ⟨hreport, silent⟩, hfirst⟩

/-- Folding in one pass gives what folding in two phases gives: runs of explorations that follow one
another, reports of progress aside, are grouped, and the progress entry stands behind the unit that
holds the last part in front of the first report. -/
theorem foldCalls_eq_foldInPhases (vocabulary : ToolVocabulary) (parts : List Part) :
    foldCalls vocabulary parts = foldInPhases vocabulary parts := by
  rcases exists_first_report vocabulary parts with
    silent | ⟨front, part, call, back, rfl, silent, hreport⟩
  · obtain ⟨closed, hgroups⟩ := Folding.groups_foldl silent
    have hothers : (parts.filter fun part => (part.report? vocabulary).isNone) = parts := by
      simpa using silent
    have hreports : parts.filterMap (Part.report? vocabulary) = [] :=
      List.filterMap_eq_nil_iff.2 silent
    rw [foldCalls, Folding.finish_eq, hgroups.placed_endRun, Folding.fill_slots, foldInPhases]
    simp only [hothers, hreports, reportEntry, List.append_nil]
    rw [← List.flatMap_append, List.take_append_drop]
  · obtain ⟨closed, hgroups⟩ := Folding.groups_foldl silent
    obtain ⟨later, htracks⟩ := (hgroups.addProgress call).foldl (List.cons_ne_nil call []) back
    have hunreported : ∀ other ∈ front, (other.report? vocabulary).isNone := by
      simpa using silent
    have hfront : ((front ++ part :: back).takeWhile fun part =>
        (part.report? vocabulary).isNone) = front := by
      rw [List.takeWhile_append_of_pos hunreported, List.takeWhile_cons_of_neg (by simp [hreport]),
        List.append_nil]
    have hothers : ((front ++ part :: back).filter fun part =>
        (part.report? vocabulary).isNone) =
          front ++ back.filter fun part => (part.report? vocabulary).isNone := by
      rw [List.filter_append, List.filter_eq_self.2 hunreported,
        List.filter_cons_of_neg (by simp [hreport])]
    have hreports : (front ++ part :: back).filterMap (Part.report? vocabulary) =
        [call] ++ back.filterMap (Part.report? vocabulary) := by
      rw [List.filterMap_append, List.filterMap_eq_nil_iff.2 silent,
        List.filterMap_cons_some hreport]
      rfl
    rw [foldCalls, Folding.finish_eq, List.foldl_append, List.foldl_cons,
      Folding.add_report hreport, htracks.placed_endRun.fill_eq, htracks.progress]
    simp only [foldInPhases, hfront, hothers, hreports]

/-- A report between two explorations stands behind both of them, and the next one in the same
entry. -/
example :
    let vocabulary : ToolVocabulary := ⟨["Read", "Note"], [], ["Note"], []⟩
    let call (id name : String) : Call := ⟨⟨id, [], .null, none⟩, name⟩
    foldInPhases vocabulary [.text "look", .call (call "r1" "Read"), .call (call "n1" "Note"),
        .call (call "r2" "Read"), .text "done", .call (call "n2" "Note"),
        .call (call "r3" "Read")] =
      [.text "look", .toolGroup "r1" [call "r1" "Read", call "r2" "Read"],
        .taskProgress "n1" [call "n1" "Note", call "n2" "Note"], .text "done",
        .call (call "r3" "Read")] := by
  rfl

end ChatHistory
