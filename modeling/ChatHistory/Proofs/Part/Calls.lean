import ChatHistory.Part.Nesting
import Mathlib.Data.List.Perm.Basic

/-!
# The calls in the parts of a message

`Part.calls` lists the tool calls that a part stands for: a call itself, the items of a group, and
for a task the call of the sub-agent with the calls nested under it.  Folding and nesting neither
lose a call nor make one up (`listCalls_arrangeParts`).  Nesting keeps even the order
(`listCalls_nestCalls`); folding gathers the reports of progress in one place, so there the calls
are the same up to order (`listCalls_foldCalls`).

The invariant of folding is `Folding.held`, the calls that the state holds back or has placed,
together with `Folding.SlotsFit`: there is one place for the progress entry exactly if there is a
report of progress.
-/

namespace ChatHistory

namespace Part

mutual

/-- The tool calls that a part stands for. -/
def calls : Part → List Invocation
  | .text _ => []
  | .reasoning _ => []
  | .image _ _ => []
  | .error _ => []
  | .permission _ => []
  | .call made => [made.toInvocation]
  | .toolGroup _ items => items.map Call.toInvocation
  | .taskProgress _ items => items.map Call.toInvocation
  | .taskGroup task children => task :: listCalls children

/-- The tool calls that some parts stand for. -/
def listCalls : List Part → List Invocation
  | [] => []
  | part :: parts => part.calls ++ listCalls parts

end

@[simp] lemma listCalls_nil : listCalls [] = [] := by
  simp [listCalls]

@[simp] lemma listCalls_cons (part : Part) (parts : List Part) :
    listCalls (part :: parts) = part.calls ++ listCalls parts := by
  simp [listCalls]

@[simp] lemma listCalls_append (parts more : List Part) :
    listCalls (parts ++ more) = listCalls parts ++ listCalls more := by
  induction parts with
  | nil => simp
  | cons part parts ih => simp [ih]

/-- Parts without calls show none. -/
lemma listCalls_eq_nil {parts : List Part} (h : ∀ part ∈ parts, part.calls = []) :
    listCalls parts = [] := by
  induction parts with
  | nil => exact listCalls_nil
  | cons part parts ih =>
    rw [listCalls_cons, h part List.mem_cons_self, List.nil_append]
    exact ih fun p hp => h p (List.mem_cons_of_mem _ hp)

/-- A part that is no call and no unit of calls stands for no call. -/
lemma calls_of_not_isCall {part : Part} (h : ¬part.isCall) : part.calls = [] := by
  cases part <;> simp_all [isCall, calls]

@[simp] lemma calls_call (made : Call) : (Part.call made).calls = [made.toInvocation] := by
  simp [calls]

@[simp] lemma calls_taskGroup (task : Invocation) (children : List Part) :
    (Part.taskGroup task children).calls = task :: listCalls children := by
  simp [calls]

end Part

open ChatHistory.Part (listCalls)

/-! ## Nesting -/

/-- The call of an open task and the calls that it has taken in. -/
def OpenTask.calls (task : OpenTask) : List Invocation :=
  task.call.toInvocation :: listCalls task.children

/-- A finished task stands for its own call and those it has taken in. -/
lemma OpenTask.calls_close (task : OpenTask) : task.close.calls = task.calls := by
  unfold OpenTask.close OpenTask.calls
  cases h : task.children with
  | nil => simp
  | cons part parts => simp

/-- Nesting keeps all calls in order, behind those of the open task. -/
lemma listCalls_nestFrom (vocabulary : ToolVocabulary) (task : Option OpenTask)
    (parts : List Part) :
    listCalls (nestFrom vocabulary task parts) =
      task.toList.flatMap OpenTask.calls ++ listCalls parts := by
  -- The cases are those of the recursion: the end, a call that opens a task, another call with and
  -- without an open task, and any other part, which closes the open task if there is one.
  induction task, parts using nestFrom.induct vocabulary with
  | case1 task =>
    cases task with
    | none => simp [nestFrom]
    | some task => simp [nestFrom, OpenTask.calls_close]
  | case2 task call rest delegates ih =>
    cases task with
    | none => simp [nestFrom, delegates, ih, OpenTask.calls]
    | some task => simp [nestFrom, delegates, ih, OpenTask.calls_close, OpenTask.calls]
  | case3 call rest delegates agent children ih =>
    simp [nestFrom, delegates, ih, OpenTask.calls]
  | case4 call rest delegates ih => simp [nestFrom, delegates, ih]
  | case5 agent children part rest other isCall ih =>
    simp [nestFrom, isCall, ih, OpenTask.calls]
  | case6 agent children part rest other isCall ih =>
    simp [nestFrom, isCall, ih, OpenTask.calls_close]
  | case7 part rest other ih => simp [nestFrom, ih]

/-- Nesting keeps all calls in order. -/
theorem listCalls_nestCalls (vocabulary : ToolVocabulary) (parts : List Part) :
    listCalls (nestCalls vocabulary parts) = listCalls parts := by
  simp [nestCalls, listCalls_nestFrom]

/-! ## Folding -/

namespace Folding

/-- The calls of a state: those placed, those of the run, and the reports of progress. -/
def held (state : Folding) : List Invocation :=
  listCalls (state.placed.filterMap id) ++ state.run.map Call.toInvocation ++
    state.progress.map Call.toInvocation

/-- There is one place for the progress entry if there is a report of progress, and else none. -/
def SlotsFit (state : Folding) : Prop :=
  state.placed.countP Option.isNone + state.progressBehindRun.toNat =
    if state.progress.isEmpty then 0 else 1

/-- A run stands for its calls. -/
lemma listCalls_runParts (run : List Call) :
    listCalls (runParts run) = run.map Call.toInvocation := by
  match run with
  | [] => simp [runParts]
  | [call] => simp [runParts]
  | first :: second :: more => simp [runParts, Part.calls]

/-- The progress entry stands for the reports. -/
lemma listCalls_progressParts (progress : List Call) :
    listCalls (progressParts progress) = progress.map Call.toInvocation := by
  cases progress <;> simp [progressParts, Part.calls]

/-- The end of a run keeps all calls. -/
lemma held_endRun (state : Folding) : state.endRun.held = state.held := by
  unfold held endRun
  cases state.progressBehindRun <;> simp [listCalls_runParts]

/-- All calls of a state are placed at the end of the run, or are reports of progress. -/
lemma held_eq (state : Folding) :
    state.held = listCalls (state.endRun.placed.filterMap id) ++
      state.endRun.progress.map Call.toInvocation := by
  rw [← held_endRun]
  simp [held, endRun]

/-- The end of a run turns a place behind the run into a place. -/
lemma countP_placed_endRun (state : Folding) :
    state.endRun.placed.countP Option.isNone =
      state.placed.countP Option.isNone + state.progressBehindRun.toNat := by
  have hrun : ((runParts state.run).map some).countP Option.isNone = 0 := by
    simp [List.countP_map, Function.comp_def]
  simp only [endRun, List.countP_append, hrun, Nat.add_zero]
  cases state.progressBehindRun <;> rfl

/-- The end of a run keeps the place of the progress entry. -/
lemma SlotsFit.endRun {state : Folding} (h : state.SlotsFit) : state.endRun.SlotsFit := by
  unfold SlotsFit at h ⊢
  rw [countP_placed_endRun]
  exact h

/-- A report of progress joins the calls. -/
lemma held_addProgress (state : Folding) (call : Call) :
    (state.addProgress call).held = state.held ++ [call.toInvocation] := by
  unfold addProgress held
  cases state.progress <;> cases state.run <;> simp

/-- The first report of progress gets its place. -/
lemma SlotsFit.addProgress {state : Folding} (h : state.SlotsFit) (call : Call) :
    (state.addProgress call).SlotsFit := by
  unfold SlotsFit at h ⊢
  unfold Folding.addProgress
  cases hp : state.progress with
  | nil =>
    have hnone : state.placed.countP Option.isNone = 0 ∧ state.progressBehindRun.toNat = 0 := by
      simpa [hp] using h
    cases state.run <;> simp [hnone.1, hnone.2]
  | cons first more => simpa [hp] using h

/-- An exploration joins the calls. -/
lemma held_run (state : Folding) (call : Call) :
    { state with run := state.run ++ [call] }.held.Perm (state.held ++ [call.toInvocation]) := by
  simp only [held, List.map_append, List.append_assoc]
  exact .append_left _ (.append_left _ List.perm_append_comm)

/-- Any other part joins the calls. -/
lemma held_addOther (state : Folding) (part : Part) :
    (state.addOther part).held.Perm (state.held ++ part.calls) := by
  have hplaced : (state.addOther part).held =
      listCalls (state.endRun.placed.filterMap id) ++
        (part.calls ++ state.endRun.progress.map Call.toInvocation) := by
    simp [held, addOther, endRun]
  rw [hplaced, held_eq, List.append_assoc]
  exact .append_left _ List.perm_append_comm

lemma SlotsFit.addOther {state : Folding} (h : state.SlotsFit) (part : Part) :
    (state.addOther part).SlotsFit := by
  have hend := h.endRun
  unfold SlotsFit at hend ⊢
  simpa [Folding.addOther] using hend

/-- Every part joins the calls. -/
lemma held_add (vocabulary : ToolVocabulary) (state : Folding) (part : Part) :
    (state.add vocabulary part).held.Perm (state.held ++ part.calls) := by
  cases part with
  | call call =>
    simp only [add, Part.calls_call]
    split
    · rw [held_addProgress]
    · split
      · exact held_run state call
      · exact held_addOther state (.call call)
  | _ => exact held_addOther state _

lemma SlotsFit.add {state : Folding} (h : state.SlotsFit) (vocabulary : ToolVocabulary)
    (part : Part) : (state.add vocabulary part).SlotsFit := by
  cases part with
  | call call =>
    simp only [Folding.add]
    split
    · exact h.addProgress call
    · split
      · exact h
      · exact h.addOther (.call call)
  | _ => exact h.addOther _

/-- A pass over some parts keeps their calls, and the progress entry has one place. -/
lemma held_foldl (vocabulary : ToolVocabulary) (parts : List Part) {state : Folding}
    (h : state.SlotsFit) :
    (parts.foldl (add vocabulary) state).held.Perm (state.held ++ listCalls parts) ∧
      (parts.foldl (add vocabulary) state).SlotsFit := by
  induction parts generalizing state with
  | nil => simpa using h
  | cons part parts ih =>
    obtain ⟨hheld, hslots⟩ := ih (h.add vocabulary part)
    refine ⟨?_, hslots⟩
    rw [List.foldl_cons, Part.listCalls_cons, ← List.append_assoc]
    exact hheld.trans ((held_add vocabulary state part).append_right _)

/-- Filling the places of the progress entry adds the calls of the reports once for each place. -/
lemma listCalls_fill (placed : List (Option Part)) (progress : List Call) :
    (listCalls (placed.flatMap fun
      | some part => [part]
      | none => progressParts progress)).Perm
      (listCalls (placed.filterMap id) ++
        (List.replicate (placed.countP Option.isNone)
          (progress.map Call.toInvocation)).flatten) := by
  induction placed with
  | nil => simp
  | cons slot placed ih =>
    cases slot with
    | some part => simpa using ih.append_left part.calls
    | none =>
      simp only [List.flatMap_cons, Part.listCalls_append, listCalls_progressParts,
        List.filterMap_cons, id, List.countP_cons, Option.isNone_none, if_true,
        List.replicate_succ, List.flatten_cons]
      refine (ih.append_left _).trans ?_
      rw [← List.append_assoc, ← List.append_assoc]
      exact List.perm_append_comm.append_right _

/-- At the end of the pass all calls are placed. -/
lemma listCalls_finish {state : Folding} (h : state.SlotsFit) :
    (listCalls state.finish).Perm state.held := by
  have hslots : state.endRun.placed.countP Option.isNone =
      if state.endRun.progress.isEmpty then 0 else 1 := by
    rw [countP_placed_endRun]
    exact h
  -- The reports are placed as often as there are places for them: once if there are any.
  refine (listCalls_fill state.endRun.placed state.endRun.progress).trans ?_
  rw [hslots, held_eq]
  cases state.endRun.progress <;> simp

end Folding

/-- Folding keeps all calls. -/
theorem listCalls_foldCalls (vocabulary : ToolVocabulary) (parts : List Part) :
    (listCalls (foldCalls vocabulary parts)).Perm (listCalls parts) := by
  have hstart : Folding.start.SlotsFit := by simp [Folding.SlotsFit, Folding.start]
  obtain ⟨hheld, hslots⟩ := Folding.held_foldl vocabulary parts hstart
  have hempty : Folding.start.held = [] := by simp [Folding.held, Folding.start]
  rw [hempty, List.nil_append] at hheld
  exact (Folding.listCalls_finish hslots).trans hheld

/-- Folding and nesting keep all calls. -/
theorem listCalls_arrangeParts (vocabulary : ToolVocabulary) (parts : List Part) :
    (listCalls (arrangeParts vocabulary parts)).Perm (listCalls parts) := by
  rw [arrangeParts, listCalls_nestCalls]
  exact listCalls_foldCalls vocabulary parts

end ChatHistory
