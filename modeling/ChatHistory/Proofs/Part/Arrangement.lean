import ChatHistory.Proofs.Part.Calls
import ChatHistory.Proofs.Part.Nesting
import Mathlib.Data.List.Forall2
import Mathlib.Data.List.Induction

/-!
# What arranging does to the parts of a message

Folding and nesting change neither the parts of a message nor their order: opening the groups of
the arranged parts and leaving out the progress entry gives the parts from which they were made
(`arrangeParts_conserves`).  The reports of progress are gathered in one entry, a group has at
least two items, and a task has children that are neither tasks themselves nor calls of a
sub-agent.

`Part.listNodes` walks through a tree of parts, and `Part.flatten` opens its groups on the way.
The invariant of folding is `Folding.Gathers`, which says what the state holds in terms of the
parts added so far.  What nesting can do to a list of parts is said once, by `Nested`; each of its
properties is an induction over that relation.
-/

namespace ChatHistory

namespace Part

/-! ## Trees of parts -/

mutual

/-- A part and the parts nested in it, each in front of those nested in it. -/
def nodes : Part → List Part
  | .taskGroup task children => .taskGroup task children :: listNodes children
  | part => [part]

/-- Some parts and all parts nested in them, in order. -/
def listNodes : List Part → List Part
  | [] => []
  | part :: parts => part.nodes ++ listNodes parts

end

/-- What is left of a tree of parts when its groups are opened: parts that stand for themselves,
and the calls of the sub-agents in whose place there are tasks. -/
inductive Leaf where
  | part (part : Part)
  | task (task : Invocation)

/-- What a part itself contributes when groups are opened: a group its items, a progress entry
nothing, a task the call of its sub-agent, and any other part itself. -/
def leaves : Part → List Leaf
  | .toolGroup _ items => items.map fun made => .part (.call made)
  | .taskProgress _ _ => []
  | .taskGroup task _ => [.task task]
  | part => [.part part]

/-- Some parts with their groups opened: a task becomes its call followed by its opened children,
and progress entries are left out. -/
def flatten (parts : List Part) : List Leaf :=
  (listNodes parts).flatMap leaves

/-- One leaf shows another: itself, or the call of a sub-agent all of it but the name of the tool,
which is one that delegates. -/
inductive Leaf.Shows (vocabulary : ToolVocabulary) : Leaf → Leaf → Prop
  | same (leaf : Leaf) : Shows vocabulary leaf leaf
  | task (made : Call) (agent : vocabulary.delegates made.name) :
      Shows vocabulary (.task made.toInvocation) (.part (.call made))

/-- A part that folding and nesting have not made. -/
def isPlain : Part → Bool
  | .toolGroup .. | .taskProgress .. | .taskGroup .. => false
  | _ => true

/-- A task with its children. -/
def isTask : Part → Bool
  | .taskGroup .. => true
  | _ => false

/-- The entry of the reports of progress. -/
def isProgress : Part → Bool
  | .taskProgress .. => true
  | _ => false

/-- The call that a part is, if it reports progress. -/
def report? (vocabulary : ToolVocabulary) : Part → Option Call
  | .call made => if vocabulary.reports made.name then some made else none
  | _ => none

/-- The groups are no smaller than they have to be: there are two explorations in a group and a
child in a task, and the children of a task are tool calls, but neither tasks nor calls of a
sub-agent. -/
def WellFormed (vocabulary : ToolVocabulary) : Part → Prop
  | .toolGroup _ items => 2 ≤ items.length
  | .taskGroup _ children =>
    children ≠ [] ∧ ∀ child ∈ children, child.isCall ∧ ¬child.isTask ∧ ¬child.isAgent vocabulary
  | _ => True

lemma nodes_taskGroup (task : Invocation) (children : List Part) :
    (Part.taskGroup task children).nodes = .taskGroup task children :: listNodes children := by
  simp [nodes]

/-- Nothing is nested in a part that is no task. -/
lemma nodes_of_not_isTask {part : Part} (h : ¬part.isTask) : part.nodes = [part] := by
  cases part with
  | taskGroup task children => exact absurd rfl h
  | _ => simp [nodes]

@[simp] lemma listNodes_nil : listNodes [] = [] := by
  simp [listNodes]

@[simp] lemma listNodes_cons (part : Part) (parts : List Part) :
    listNodes (part :: parts) = part.nodes ++ listNodes parts := by
  simp [listNodes]

/-- Without tasks there is nothing nested. -/
lemma listNodes_of_not_isTask {parts : List Part} (h : ∀ part ∈ parts, ¬part.isTask) :
    listNodes parts = parts := by
  induction parts with
  | nil => exact listNodes_nil
  | cons part parts ih =>
    have hpart := h part List.mem_cons_self
    have hparts := ih fun p hp => h p (List.mem_cons_of_mem _ hp)
    rw [listNodes_cons, nodes_of_not_isTask hpart, hparts, List.singleton_append]

/-- A plain part is neither a task nor a progress entry, and stands for itself. -/
lemma leaves_of_isPlain {part : Part} (h : part.isPlain) : part.leaves = [.part part] := by
  cases part with
  | toolGroup id items => exact absurd h Bool.false_ne_true
  | taskProgress id items => exact absurd h Bool.false_ne_true
  | taskGroup task children => exact absurd h Bool.false_ne_true
  | _ => rfl

/-- A part that is no call and no unit of calls is plain. -/
lemma isPlain_of_not_isCall {part : Part} (h : ¬part.isCall) : part.isPlain := by
  cases part <;> simp_all [isCall, isPlain]

/-- Only tasks have something nested in them. -/
lemma not_isTask_of_isPlain {part : Part} (h : part.isPlain) : ¬part.isTask := by
  cases part <;> simp_all [isPlain, isTask]

end Part

open ChatHistory.Part (Leaf listNodes flatten)

/-! ## Folding -/

namespace Folding

/-- The leaves that a state has placed or holds back, without the reports of progress. -/
def leaves (state : Folding) : List Leaf :=
  (state.placed.filterMap id).flatMap Part.leaves ++
    state.run.map fun made => .part (.call made)

/-- A part that a pass may place: no task, no progress entry, and no group of less than two. -/
def Places (vocabulary : ToolVocabulary) (part : Part) : Prop :=
  ¬part.isTask ∧ ¬part.isProgress ∧ part.WellFormed vocabulary

/-- What a state holds after some parts: all of them, with the reports of progress apart, and
nothing else. -/
structure Gathers (vocabulary : ToolVocabulary) (parts : List Part) (state : Folding) : Prop where
  leaves : state.leaves =
    (parts.filter fun part => (part.report? vocabulary).isNone).map Leaf.part
  progress : state.progress = parts.filterMap (Part.report? vocabulary)
  places : ∀ part, some part ∈ state.placed → Places vocabulary part
  slots : state.SlotsFit

/-- A run is opened to its calls. -/
lemma leaves_runParts (run : List Call) :
    (runParts run).flatMap Part.leaves = run.map fun made => .part (.call made) := by
  match run with
  | [] => rfl
  | [call] => rfl
  | first :: second :: more => simp [runParts, Part.leaves]

/-- A run becomes one call or a group of at least two. -/
lemma places_of_mem_runParts (vocabulary : ToolVocabulary) {run : List Call} {part : Part}
    (h : part ∈ runParts run) : Places vocabulary part := by
  match run with
  | [] => simp [runParts] at h
  | [call] =>
    obtain rfl := List.mem_singleton.1 h
    simp [Places, Part.isTask, Part.isProgress, Part.WellFormed]
  | first :: second :: more =>
    obtain rfl := List.mem_singleton.1 h
    simp [Places, Part.isTask, Part.isProgress, Part.WellFormed]

/-- A plain part may be placed. -/
lemma places_of_isPlain (vocabulary : ToolVocabulary) {part : Part} (h : part.isPlain) :
    Places vocabulary part := by
  cases part <;> simp_all [Places, Part.isPlain, Part.isTask, Part.isProgress, Part.WellFormed]

/-- The end of a run changes nothing but the place of its calls. -/
lemma leaves_endRun (state : Folding) : state.endRun.leaves = state.leaves := by
  unfold leaves endRun
  cases state.progressBehindRun <;> simp [leaves_runParts]

/-- At the end of a run everything is placed. -/
lemma flatMap_leaves_placed_endRun (state : Folding) :
    (state.endRun.placed.filterMap id).flatMap Part.leaves = state.leaves := by
  rw [← leaves_endRun]
  simp [leaves, endRun]

lemma places_endRun {vocabulary : ToolVocabulary} {state : Folding}
    (h : ∀ part, some part ∈ state.placed → Places vocabulary part) :
    ∀ part, some part ∈ state.endRun.placed → Places vocabulary part := by
  intro part hpart
  simp only [endRun, List.mem_append, List.mem_map, Option.some.injEq, exists_eq_right] at hpart
  rcases hpart with (hplaced | hrun) | hslot
  · exact h part hplaced
  · exact places_of_mem_runParts vocabulary hrun
  · split at hslot <;> simp at hslot

/-- A report of progress leaves the rest of the state as it is. -/
lemma Gathers.addProgress {vocabulary : ToolVocabulary} {parts : List Part} {state : Folding}
    (h : Gathers vocabulary parts state) {call : Call} (reports : vocabulary.reports call.name) :
    Gathers vocabulary (parts ++ [.call call]) (state.addProgress call) := by
  obtain ⟨hplaced, hrun, hprogress⟩ :
      (state.addProgress call).placed.filterMap id = state.placed.filterMap id ∧
        (state.addProgress call).run = state.run ∧
        (state.addProgress call).progress = state.progress ++ [call] := by
    unfold Folding.addProgress
    cases state.progress <;> cases state.run <;> simp
  refine ⟨?_, ?_, ?_, h.slots.addProgress call⟩
  · have hsame : (state.addProgress call).leaves = state.leaves := by
      simp only [Folding.leaves, hplaced, hrun]
    rw [hsame, h.leaves]
    simp [Part.report?, reports]
  · rw [hprogress, h.progress]
    simp [Part.report?, reports]
  · intro part hpart
    have hmem : part ∈ (state.addProgress call).placed.filterMap id := by simpa using hpart
    rw [hplaced] at hmem
    exact h.places part (by simpa using hmem)

/-- An exploration is held back. -/
lemma Gathers.explore {vocabulary : ToolVocabulary} {parts : List Part} {state : Folding}
    (h : Gathers vocabulary parts state) {call : Call} (plain : ¬vocabulary.reports call.name) :
    Gathers vocabulary (parts ++ [.call call]) { state with run := state.run ++ [call] } := by
  refine ⟨?_, ?_, h.places, h.slots⟩
  · have hsame : { state with run := state.run ++ [call] }.leaves =
        state.leaves ++ [.part (.call call)] := by
      simp [Folding.leaves]
    rw [hsame, h.leaves]
    simp [Part.report?, plain]
  · rw [h.progress]
    simp [Part.report?, plain]

/-- Any other part is placed behind the run. -/
lemma Gathers.addOther {vocabulary : ToolVocabulary} {parts : List Part} {state : Folding}
    (h : Gathers vocabulary parts state) {part : Part} (plain : part.isPlain)
    (unreported : part.report? vocabulary = none) :
    Gathers vocabulary (parts ++ [part]) (state.addOther part) := by
  refine ⟨?_, ?_, ?_, h.slots.addOther part⟩
  · have hplaced : (state.addOther part).placed = state.endRun.placed ++ [some part] := rfl
    have hrun : (state.addOther part).run = [] := rfl
    rw [Folding.leaves, hplaced, hrun, List.filterMap_append, List.flatMap_append,
      flatMap_leaves_placed_endRun, h.leaves]
    simp [unreported, Part.leaves_of_isPlain plain]
  · have hsame : (state.addOther part).progress = state.progress := rfl
    rw [hsame, h.progress]
    simp [unreported]
  · intro placed hplaced
    rcases List.mem_append.1 hplaced with hbefore | hnew
    · exact places_endRun h.places placed hbefore
    · obtain rfl : placed = part := by simpa using hnew
      exact places_of_isPlain vocabulary plain

/-- Adding a plain part keeps account of it. -/
lemma Gathers.add {vocabulary : ToolVocabulary} {parts : List Part} {state : Folding}
    (h : Gathers vocabulary parts state) {part : Part} (plain : part.isPlain) :
    Gathers vocabulary (parts ++ [part]) (state.add vocabulary part) := by
  cases part with
  | call call =>
    simp only [Folding.add]
    by_cases reports : vocabulary.reports call.name
    · rw [if_pos reports]
      exact h.addProgress reports
    · rw [if_neg reports]
      split
      · exact h.explore reports
      · exact h.addOther plain (by simp [Part.report?, reports])
  | _ => exact h.addOther plain rfl

/-- A pass over plain parts keeps account of them. -/
lemma gathers_foldl (vocabulary : ToolVocabulary) {parts : List Part}
    (plain : ∀ part ∈ parts, part.isPlain) :
    Gathers vocabulary parts (parts.foldl (add vocabulary) start) := by
  induction parts using List.reverseRecOn with
  | nil => exact ⟨rfl, rfl, by simp [start], by simp [SlotsFit, start]⟩
  | append_singleton parts part ih =>
    have hbefore := ih fun p hp => plain p (List.mem_append_left _ hp)
    have hpart := plain part (List.mem_append_right _ List.mem_cons_self)
    rw [List.foldl_append, List.foldl_cons, List.foldl_nil]
    exact hbefore.add hpart

/-- The parts with the progress entry put in its places. -/
def fill (placed : List (Option Part)) (progress : List Call) : List Part :=
  placed.flatMap fun
    | some part => [part]
    | none => progressParts progress

lemma finish_eq (state : Folding) :
    state.finish = fill state.endRun.placed state.progress := rfl

/-- The progress entry has no leaves. -/
lemma flatMap_leaves_fill (placed : List (Option Part)) (progress : List Call) :
    (fill placed progress).flatMap Part.leaves = (placed.filterMap id).flatMap Part.leaves := by
  have hentry : (progressParts progress).flatMap Part.leaves = [] := by
    cases progress <;> simp [progressParts, Part.leaves]
  induction placed with
  | nil => rfl
  | cons slot placed ih =>
    cases slot with
    | some part => simpa [fill] using ih
    | none => simpa [fill, hentry] using ih

/-- The progress entry stands once in each of its places and nowhere else. -/
lemma filter_isProgress_fill {placed : List (Option Part)} (progress : List Call)
    (h : ∀ part, some part ∈ placed → ¬part.isProgress) :
    (fill placed progress).filter Part.isProgress =
      (List.replicate (placed.countP Option.isNone) (progressParts progress)).flatten := by
  have hentry : (progressParts progress).filter Part.isProgress = progressParts progress := by
    cases progress <;> simp [progressParts, Part.isProgress]
  induction placed with
  | nil => rfl
  | cons slot placed ih =>
    have hrest := ih fun part hpart => h part (List.mem_cons_of_mem _ hpart)
    cases slot with
    | some part =>
      have hpart := h part List.mem_cons_self
      simpa [fill, hpart] using hrest
    | none => simpa [fill, hentry, List.replicate_succ] using hrest

end Folding

/-- Folded parts are the given ones, with their groups opened and without the reports. -/
lemma flatMap_leaves_foldCalls (vocabulary : ToolVocabulary) {parts : List Part}
    (plain : ∀ part ∈ parts, part.isPlain) :
    (foldCalls vocabulary parts).flatMap Part.leaves =
      (parts.filter fun part => (part.report? vocabulary).isNone).map Leaf.part := by
  have hgathers := Folding.gathers_foldl vocabulary plain
  rw [foldCalls, Folding.finish_eq, Folding.flatMap_leaves_fill,
    Folding.flatMap_leaves_placed_endRun]
  exact hgathers.leaves

/-- Folded parts have one progress entry, if there is something to report. -/
lemma filter_isProgress_foldCalls (vocabulary : ToolVocabulary) {parts : List Part}
    (plain : ∀ part ∈ parts, part.isPlain) :
    (foldCalls vocabulary parts).filter Part.isProgress =
      Folding.progressParts (parts.filterMap (Part.report? vocabulary)) := by
  have hgathers := Folding.gathers_foldl vocabulary plain
  have hplaced := Folding.places_endRun hgathers.places
  rw [foldCalls, Folding.finish_eq,
    Folding.filter_isProgress_fill _ fun part hpart => (hplaced part hpart).2.1,
    Folding.countP_placed_endRun, hgathers.slots, hgathers.progress]
  cases parts.filterMap (Part.report? vocabulary) <;> rfl

/-- Folding makes no tasks, and no group of less than two. -/
lemma not_isTask_of_mem_foldCalls (vocabulary : ToolVocabulary) {parts : List Part}
    (plain : ∀ part ∈ parts, part.isPlain) {part : Part} (h : part ∈ foldCalls vocabulary parts) :
    ¬part.isTask ∧ part.WellFormed vocabulary := by
  have hgathers := Folding.gathers_foldl vocabulary plain
  rw [foldCalls, Folding.finish_eq, Folding.fill] at h
  obtain ⟨slot, hslot, hpart⟩ := List.mem_flatMap.1 h
  cases slot with
  | some placed =>
    obtain rfl := List.mem_singleton.1 hpart
    obtain ⟨htask, -, hformed⟩ := Folding.places_endRun hgathers.places _ hslot
    exact ⟨htask, hformed⟩
  | none =>
    dsimp only at hpart
    unfold Folding.progressParts at hpart
    split at hpart
    · simp at hpart
    · obtain rfl := List.mem_singleton.1 hpart
      simp [Part.isTask, Part.WellFormed]

/-! ## Nesting -/

/-- What nesting can do to some parts: keep a part, or put the call of a sub-agent and the calls
that follow it into one task. -/
inductive Nested (vocabulary : ToolVocabulary) : List Part → List Part → Prop
  | nil : Nested vocabulary [] []
  | keep (part : Part) {parts nested : List Part} (rest : Nested vocabulary parts nested) :
      Nested vocabulary (part :: parts) (part :: nested)
  | group (agent : Call) (children : List Part) {parts nested : List Part}
      (delegates : vocabulary.delegates agent.name) (filled : children ≠ [])
      (taken : ∀ child ∈ children, child.isCall ∧ ¬child.isAgent vocabulary)
      (rest : Nested vocabulary parts nested) :
      Nested vocabulary (.call agent :: children ++ parts)
        (.taskGroup agent.toInvocation children :: nested)

/-- Closing a task keeps the call, or groups it with what it has taken in. -/
lemma OpenTask.Sound.close {vocabulary : ToolVocabulary} {task : OpenTask}
    (h : task.Sound vocabulary) {parts nested : List Part}
    (rest : Nested vocabulary parts nested) :
    Nested vocabulary (task.parts ++ parts) (task.close :: nested) := by
  obtain ⟨agent, children⟩ := task
  obtain ⟨delegates, taken⟩ := h
  unfold OpenTask.parts OpenTask.close
  cases children with
  | nil => exact .keep (.call agent) rest
  | cons child more =>
    exact .group agent (child :: more) delegates (List.cons_ne_nil _ _) taken rest

/-- A sound top level shows what nesting can do to the parts that it was made from. -/
lemma nested_of_sound {vocabulary : ToolVocabulary} {items : List TopLevel}
    (sound : ∀ item ∈ items, item.Sound vocabulary) :
    Nested vocabulary (items.flatMap TopLevel.parts) (items.map TopLevel.shown) := by
  induction items with
  | nil => exact .nil
  | cons item items ih =>
    obtain ⟨hitem, hrest⟩ := List.forall_mem_cons.1 sound
    cases item with
    | alone part => exact .keep part (ih hrest)
    | task opened => exact hitem.close (ih hrest)

lemma nestCalls_nested (vocabulary : ToolVocabulary) (parts : List Part) :
    Nested vocabulary parts (nestCalls vocabulary parts) := by
  obtain ⟨items, hshown, divides⟩ := nestCalls_divides vocabulary parts
  rw [hshown, ← divides.parts]
  exact nested_of_sound divides.sound

namespace Nested

variable {vocabulary : ToolVocabulary} {parts nested : List Part}

/-- Nesting shows all leaves in order. -/
lemma shows (h : Nested vocabulary parts nested) (flat : ∀ part ∈ parts, ¬part.isTask) :
    List.Forall₂ (Leaf.Shows vocabulary) (flatten nested) (parts.flatMap Part.leaves) := by
  have hsame (leaves : List Leaf) : List.Forall₂ (Leaf.Shows vocabulary) leaves leaves :=
    List.forall₂_same.2 fun leaf _ => .same leaf
  induction h with
  | nil => simp [flatten]
  | keep part rest ih =>
    have hpart := Part.nodes_of_not_isTask (flat part List.mem_cons_self)
    have hrest := ih fun p hp => flat p (List.mem_cons_of_mem _ hp)
    simp only [flatten, Part.listNodes_cons, hpart, List.singleton_append, List.flatMap_cons]
    exact List.rel_append (hsame part.leaves) hrest
  | group agent children delegates filled taken rest ih =>
    have hchildren : listNodes children = children := Part.listNodes_of_not_isTask fun p hp =>
      flat p (List.mem_cons_of_mem _ (List.mem_append_left _ hp))
    have hrest := ih fun p hp => flat p (List.mem_cons_of_mem _ (List.mem_append_right _ hp))
    simp only [flatten, Part.listNodes_cons, Part.nodes_taskGroup, hchildren, List.cons_append,
      List.flatMap_cons, List.flatMap_append]
    exact .cons (.task agent delegates)
      (List.rel_append (hsame (children.flatMap Part.leaves)) hrest)

/-- Nesting neither loses the progress entry nor makes one. -/
lemma filter_isProgress (h : Nested vocabulary parts nested)
    (flat : ∀ part ∈ parts, ¬part.isTask) :
    (listNodes nested).filter Part.isProgress = parts.filter Part.isProgress := by
  induction h with
  | nil => simp
  | keep part rest ih =>
    have hpart := Part.nodes_of_not_isTask (flat part List.mem_cons_self)
    have hrest := ih fun p hp => flat p (List.mem_cons_of_mem _ hp)
    rw [Part.listNodes_cons, hpart, List.filter_append, hrest, ← List.filter_append,
      List.singleton_append]
  | group agent children delegates filled taken rest ih =>
    have hchildren : listNodes children = children := Part.listNodes_of_not_isTask fun p hp =>
      flat p (List.mem_cons_of_mem _ (List.mem_append_left _ hp))
    have hrest := ih fun p hp => flat p (List.mem_cons_of_mem _ (List.mem_append_right _ hp))
    simp [Part.nodes_taskGroup, hchildren, hrest, Part.isProgress]

/-- Everything in the nested tree is one of the given parts, or a task that took in some of them. -/
lemma mem_listNodes_cases (h : Nested vocabulary parts nested) (flat : ∀ part ∈ parts, ¬part.isTask)
    {node : Part} (hnode : node ∈ listNodes nested) :
    node ∈ parts ∨ ∃ task children, node = .taskGroup task children ∧ children ≠ [] ∧
      ∀ child ∈ children, child ∈ parts ∧ child.isCall ∧ ¬child.isAgent vocabulary := by
  induction h with
  | nil => simp at hnode
  | @keep part parts nested rest ih =>
    have hpart := flat part List.mem_cons_self
    rw [Part.listNodes_cons, Part.nodes_of_not_isTask hpart, List.singleton_append] at hnode
    rcases List.mem_cons.1 hnode with rfl | hnode
    · exact .inl List.mem_cons_self
    · rcases ih (fun p hp => flat p (List.mem_cons_of_mem _ hp)) hnode with
        hkept | ⟨task, children, rfl, filled, taken⟩
      · exact .inl (List.mem_cons_of_mem _ hkept)
      · refine .inr ⟨task, children, rfl, filled, fun child hchild => ?_⟩
        exact ⟨List.mem_cons_of_mem _ (taken child hchild).1, (taken child hchild).2⟩
  | @group agent children parts nested delegates filled taken rest ih =>
    have hmembers (child : Part) (hchild : child ∈ children) :
        child ∈ .call agent :: children ++ parts :=
      List.mem_append_left _ (List.mem_cons_of_mem _ hchild)
    have hbehind (part : Part) (hpart : part ∈ parts) : part ∈ .call agent :: children ++ parts :=
      List.mem_append_right _ hpart
    rw [Part.listNodes_cons, Part.nodes_taskGroup,
      Part.listNodes_of_not_isTask fun child hchild => flat child (hmembers child hchild),
      List.cons_append, List.mem_cons, List.mem_append] at hnode
    rcases hnode with rfl | hchild | hnode
    · exact .inr ⟨_, children, rfl, filled, fun child hchild =>
        ⟨hmembers child hchild, taken child hchild⟩⟩
    · exact .inl (hmembers node hchild)
    · rcases ih (fun p hp => flat p (hbehind p hp)) hnode with
        hkept | ⟨task, others, rfl, filled, taken⟩
      · exact .inl (hbehind node hkept)
      · refine .inr ⟨task, others, rfl, filled, fun child hchild => ?_⟩
        exact ⟨hbehind child (taken child hchild).1, (taken child hchild).2⟩

/-- Nesting well-formed parts makes well-formed tasks. -/
lemma wellFormed (h : Nested vocabulary parts nested)
    (formed : ∀ part ∈ parts, ¬part.isTask ∧ part.WellFormed vocabulary) :
    ∀ node ∈ listNodes nested, node.WellFormed vocabulary := by
  intro node hnode
  rcases h.mem_listNodes_cases (fun part hpart => (formed part hpart).1) hnode with
    hkept | ⟨task, children, rfl, filled, taken⟩
  · exact (formed node hkept).2
  · refine ⟨filled, fun child hchild => ?_⟩
    obtain ⟨hmem, hcall, hother⟩ := taken child hchild
    exact ⟨hcall, (formed child hmem).1, hother⟩

end Nested

/-! ## Both passes -/

/-- Opening the groups of the arranged parts gives the parts of the message in order, each of them
once and unchanged, without the reports of progress.  These are the items of the only progress
entry, wherever it stands in the tree.  All groups and tasks are well formed. -/
theorem arrangeParts_conserves (vocabulary : ToolVocabulary) (parts : List Part)
    (plain : ∀ part ∈ parts, part.isPlain) :
    List.Forall₂ (Leaf.Shows vocabulary) (flatten (arrangeParts vocabulary parts))
        ((parts.filter fun part => (part.report? vocabulary).isNone).map Leaf.part) ∧
      (listNodes (arrangeParts vocabulary parts)).filter Part.isProgress =
        (match parts.filterMap (Part.report? vocabulary) with
        | [] => []
        | first :: more => [.taskProgress first.id (first :: more)]) ∧
      ∀ node ∈ listNodes (arrangeParts vocabulary parts), node.WellFormed vocabulary := by
  have hnested := nestCalls_nested vocabulary (foldCalls vocabulary parts)
  have hfolded (part : Part) (h : part ∈ foldCalls vocabulary parts) :
      ¬part.isTask ∧ part.WellFormed vocabulary :=
    not_isTask_of_mem_foldCalls vocabulary plain h
  refine ⟨?_, ?_, hnested.wellFormed hfolded⟩
  · rw [← flatMap_leaves_foldCalls vocabulary plain]
    exact hnested.shows fun part h => (hfolded part h).1
  · have hprogress := hnested.filter_isProgress fun part h => (hfolded part h).1
    rw [filter_isProgress_foldCalls vocabulary plain] at hprogress
    refine hprogress.trans ?_
    cases parts.filterMap (Part.report? vocabulary) <;> rfl

/-- Where the categories overlap: a report between two explorations, and a sub-agent that counts as
an exploration, with another report among the calls that it takes in. -/
theorem arrangeParts_conserves_overlapping :
    let vocabulary : ToolVocabulary := ⟨["Read", "Note", "Task"], [], ["Note"], ["Task"]⟩
    let call (id name : String) : Call := ⟨⟨id, [], .null, none⟩, name⟩
    let parts : List Part := [.text "look", .call (call "r1" "Read"), .call (call "n1" "Note"),
      .call (call "r2" "Read"), .error "stop", .call (call "t1" "Task"), .call (call "b1" "Bash"),
      .call (call "n2" "Note"), .call (call "b2" "Bash")]
    (∀ part ∈ parts, part.isPlain) ∧
      List.Forall₂ (Leaf.Shows vocabulary) (flatten (arrangeParts vocabulary parts))
        [.part (.text "look"), .part (.call (call "r1" "Read")), .part (.call (call "r2" "Read")),
          .part (.error "stop"), .part (.call (call "t1" "Task")),
          .part (.call (call "b1" "Bash")), .part (.call (call "b2" "Bash"))] ∧
      (listNodes (arrangeParts vocabulary parts)).filter Part.isProgress =
        [.taskProgress "n1" [call "n1" "Note", call "n2" "Note"]] ∧
      ∀ node ∈ listNodes (arrangeParts vocabulary parts), node.WellFormed vocabulary := by
  intro vocabulary call parts
  have plain : ∀ part ∈ parts, part.isPlain := by simp [parts, Part.isPlain]
  exact ⟨plain, arrangeParts_conserves vocabulary parts plain⟩

end ChatHistory
