import ChatHistory.Proofs.Part.Arrangement

/-!
# Parts that stand side by side have different keys

A display tells tool calls and units of tool calls apart by a key (`Part.key?`).  A unit has no key
of its own, but borrows that of the call which it begins with (`Part.KeyedByFirst`).  So the keys of
siblings are among the identifiers of the calls that they stand for, one for each sibling
(`Part.filterMap_key?_sublist`), and in a tree of parts siblings have different keys if all calls of
the tree have different identifiers (`Part.keyedApart_of_calls`).

Folding and nesting make no units but such (`keyedByFirst_of_mem_arrangeParts`), and keep the calls.
-/

namespace ChatHistory

namespace Part

/-- The key of a tool call or of a unit of tool calls. -/
def key? : Part → Option String
  | .call made => some made.id
  | .toolGroup id _ => some id
  | .taskProgress id _ => some id
  | .taskGroup task _ => some task.id
  | _ => none

/-- The parts that stand side by side in a part: the items of a unit, or the children of a task. -/
def inner : Part → List Part
  | .toolGroup _ items => items.map .call
  | .taskProgress _ items => items.map .call
  | .taskGroup _ children => children
  | _ => []

/-- Parts that stand side by side have different keys. -/
def KeysDistinct (parts : List Part) : Prop :=
  (parts.filterMap key?).Nodup

/-- In a tree of parts, those that stand side by side have different keys. -/
def KeyedApart (parts : List Part) : Prop :=
  KeysDistinct parts ∧ ∀ node ∈ listNodes parts, KeysDistinct node.inner

/-- The key of a part is the identifier of the first call that it stands for, if there is one. -/
def KeyedByFirst (part : Part) : Prop :=
  part.key? = part.calls.head?.map Invocation.id

lemma keyedByFirst_call (made : Call) : (Part.call made).KeyedByFirst := by
  simp [KeyedByFirst, key?]

/-- A plain part is a call, or has neither a key nor calls. -/
lemma keyedByFirst_of_isPlain {part : Part} (h : part.isPlain) : part.KeyedByFirst := by
  cases part with
  | call made => exact keyedByFirst_call made
  | toolGroup id items => exact absurd h Bool.false_ne_true
  | taskProgress id items => exact absurd h Bool.false_ne_true
  | taskGroup task children => exact absurd h Bool.false_ne_true
  | _ => simp [KeyedByFirst, key?, calls]

/-- The keys of siblings are identifiers of their calls, at most one for each sibling. -/
lemma filterMap_key?_sublist {parts : List Part} (keyed : ∀ part ∈ parts, part.KeyedByFirst) :
    (parts.filterMap key?).Sublist ((listCalls parts).map Invocation.id) := by
  induction parts with
  | nil => simp
  | cons part parts ih =>
    have hpart : part.key? = part.calls.head?.map Invocation.id := keyed part List.mem_cons_self
    have hrest := ih fun p hp => keyed p (List.mem_cons_of_mem _ hp)
    rw [listCalls_cons, List.map_append, List.filterMap_cons, hpart]
    cases part.calls with
    | nil => exact hrest
    | cons first more =>
      have hmore := hrest.trans (List.sublist_append_right (more.map Invocation.id) _)
      exact hmore.cons_cons first.id

lemma keysDistinct_of_calls {parts : List Part} (keyed : ∀ part ∈ parts, part.KeyedByFirst)
    (distinct : ((listCalls parts).map Invocation.id).Nodup) : KeysDistinct parts :=
  distinct.sublist (filterMap_key?_sublist keyed)

/-! ## Trees of parts -/

/-- Items of a unit stand for themselves. -/
lemma listCalls_map_call (items : List Call) :
    listCalls (items.map Part.call) = items.map Call.toInvocation := by
  induction items with
  | nil => simp
  | cons made items ih => simp [ih]

/-- Items with different identifiers have different keys. -/
lemma keysDistinct_map_call {items : List Call}
    (distinct : ((items.map Call.toInvocation).map Invocation.id).Nodup) :
    KeysDistinct (items.map .call) := by
  refine keysDistinct_of_calls (fun part hpart => ?_) ?_
  · obtain ⟨made, -, rfl⟩ := List.mem_map.1 hpart
    exact keyedByFirst_call made
  · rwa [listCalls_map_call]

lemma mem_nodes_self (part : Part) : part ∈ part.nodes := by
  cases part <;> simp [nodes]

lemma mem_listNodes_of_mem {parts : List Part} {part : Part} (h : part ∈ parts) :
    part ∈ listNodes parts := by
  induction parts with
  | nil => simp at h
  | cons first rest ih =>
    rw [listNodes_cons, List.mem_append]
    rcases List.mem_cons.1 h with rfl | hrest
    · exact .inl (mem_nodes_self part)
    · exact .inr (ih hrest)

mutual

/-- If the calls of a part have different identifiers, siblings in it have different keys. -/
lemma keysDistinct_nodes (part : Part) (keyed : ∀ node ∈ part.nodes, node.KeyedByFirst)
    (distinct : (part.calls.map Invocation.id).Nodup) :
    ∀ node ∈ part.nodes, KeysDistinct node.inner := by
  cases part with
  | taskGroup task children =>
    rw [nodes_taskGroup] at keyed ⊢
    rw [calls_taskGroup, List.map_cons, List.nodup_cons] at distinct
    obtain ⟨hchildren, hnodes⟩ := keyedApart_of_calls children
      (fun node hnode => keyed node (List.mem_cons_of_mem _ hnode)) distinct.2
    intro node hnode
    rcases List.mem_cons.1 hnode with rfl | hnode
    · exact hchildren
    · exact hnodes node hnode
  | toolGroup id items =>
    have hitems := keysDistinct_map_call (by simpa [calls] using distinct)
    simpa [nodes, inner] using hitems
  | taskProgress id items =>
    have hitems := keysDistinct_map_call (by simpa [calls] using distinct)
    simpa [nodes, inner] using hitems
  | _ => simp [nodes, inner, KeysDistinct]

/-- If the calls of a tree have different identifiers, siblings in it have different keys. -/
lemma keyedApart_of_calls (parts : List Part)
    (keyed : ∀ node ∈ listNodes parts, node.KeyedByFirst)
    (distinct : ((listCalls parts).map Invocation.id).Nodup) : KeyedApart parts := by
  refine ⟨keysDistinct_of_calls (fun part hp => keyed part (mem_listNodes_of_mem hp)) distinct, ?_⟩
  cases parts with
  | nil => simp
  | cons part parts =>
    rw [listNodes_cons] at keyed ⊢
    rw [listCalls_cons, List.map_append] at distinct
    intro node hnode
    rcases List.mem_append.1 hnode with hpart | hrest
    · exact keysDistinct_nodes part (fun n hn => keyed n (List.mem_append_left _ hn))
        (distinct.sublist (List.sublist_append_left _ _)) node hpart
    · exact (keyedApart_of_calls parts (fun n hn => keyed n (List.mem_append_right _ hn))
        (distinct.sublist (List.sublist_append_right _ _))).2 node hrest

end

/-- Plain parts whose calls have different identifiers have different keys. -/
lemma keyedApart_of_isPlain {parts : List Part} (plain : ∀ part ∈ parts, part.isPlain)
    (distinct : ((listCalls parts).map Invocation.id).Nodup) : KeyedApart parts := by
  have hnodes : listNodes parts = parts :=
    listNodes_of_not_isTask fun part hpart => not_isTask_of_isPlain (plain part hpart)
  refine keyedApart_of_calls parts (fun node hnode => ?_) distinct
  rw [hnodes] at hnode
  exact keyedByFirst_of_isPlain (plain node hnode)

end Part

open ChatHistory.Part (listNodes KeyedByFirst KeyedApart)

/-! ## Folding and nesting -/

namespace Folding

/-- A run is keyed by its first exploration. -/
lemma keyedByFirst_of_mem_runParts {run : List Call} {part : Part} (h : part ∈ runParts run) :
    part.KeyedByFirst := by
  match run with
  | [] => simp [runParts] at h
  | [call] =>
    obtain rfl := List.mem_singleton.1 h
    exact Part.keyedByFirst_call call
  | first :: second :: more =>
    obtain rfl := List.mem_singleton.1 h
    simp [KeyedByFirst, Part.key?, Part.calls]

/-- The progress entry is keyed by the first report. -/
lemma keyedByFirst_of_mem_progressParts {progress : List Call} {part : Part}
    (h : part ∈ progressParts progress) : part.KeyedByFirst := by
  cases progress with
  | nil => simp [progressParts] at h
  | cons first more =>
    obtain rfl := List.mem_singleton.1 h
    simp [KeyedByFirst, Part.key?, Part.calls]

/-- All parts that a state has placed are keyed by their first call. -/
def PlacedKeyed (state : Folding) : Prop :=
  ∀ part, some part ∈ state.placed → part.KeyedByFirst

lemma PlacedKeyed.endRun {state : Folding} (h : state.PlacedKeyed) : state.endRun.PlacedKeyed := by
  intro part hpart
  simp only [Folding.endRun, List.mem_append, List.mem_map, Option.some.injEq,
    exists_eq_right] at hpart
  rcases hpart with (hplaced | hrun) | hslot
  · exact h part hplaced
  · exact keyedByFirst_of_mem_runParts hrun
  · split at hslot <;> simp at hslot

/-- A report of progress places nothing but the entry of all reports. -/
lemma PlacedKeyed.addProgress {state : Folding} (h : state.PlacedKeyed) (call : Call) :
    (state.addProgress call).PlacedKeyed := by
  intro part hpart
  refine h part ?_
  unfold Folding.addProgress at hpart
  split at hpart
  · split at hpart
    · simpa using hpart
    · exact hpart
  · exact hpart

lemma PlacedKeyed.addOther {state : Folding} (h : state.PlacedKeyed) {part : Part}
    (keyed : part.KeyedByFirst) : (state.addOther part).PlacedKeyed := by
  intro placed hplaced
  rcases List.mem_append.1 hplaced with hbefore | hnew
  · exact h.endRun placed hbefore
  · obtain rfl : placed = part := by simpa using hnew
    exact keyed

lemma PlacedKeyed.add {state : Folding} (h : state.PlacedKeyed) (vocabulary : ToolVocabulary)
    {part : Part} (keyed : part.KeyedByFirst) : (state.add vocabulary part).PlacedKeyed := by
  cases part with
  | call call =>
    simp only [Folding.add]
    split
    · exact h.addProgress call
    · split
      · exact h
      · exact h.addOther keyed
  | _ => exact h.addOther keyed

lemma PlacedKeyed.foldl {state : Folding} (h : state.PlacedKeyed) (vocabulary : ToolVocabulary)
    {parts : List Part} (keyed : ∀ part ∈ parts, part.KeyedByFirst) :
    (parts.foldl (Folding.add vocabulary) state).PlacedKeyed := by
  induction parts generalizing state with
  | nil => exact h
  | cons part parts ih =>
    have hpart := keyed part List.mem_cons_self
    exact ih (h.add vocabulary hpart) fun p hp => keyed p (List.mem_cons_of_mem _ hp)

end Folding

/-- Folding makes no units but such as are keyed by their first call. -/
lemma keyedByFirst_of_mem_foldCalls (vocabulary : ToolVocabulary) {parts : List Part}
    (keyed : ∀ part ∈ parts, part.KeyedByFirst) {part : Part}
    (h : part ∈ foldCalls vocabulary parts) : part.KeyedByFirst := by
  have hstart : Folding.start.PlacedKeyed := fun part hpart => by simp [Folding.start] at hpart
  rw [foldCalls, Folding.finish_eq, Folding.fill] at h
  obtain ⟨slot, hslot, hpart⟩ := List.mem_flatMap.1 h
  cases slot with
  | some placed =>
    obtain rfl := List.mem_singleton.1 hpart
    exact (hstart.foldl vocabulary keyed).endRun _ hslot
  | none => exact Folding.keyedByFirst_of_mem_progressParts hpart

/-- Everything in the tree of the arranged parts is keyed by its first call. -/
lemma keyedByFirst_of_mem_arrangeParts (vocabulary : ToolVocabulary) {parts : List Part}
    (plain : ∀ part ∈ parts, part.isPlain) :
    ∀ node ∈ listNodes (arrangeParts vocabulary parts), node.KeyedByFirst := by
  intro node hnode
  have hfolded (part : Part) (h : part ∈ foldCalls vocabulary parts) : part.KeyedByFirst :=
    keyedByFirst_of_mem_foldCalls vocabulary
      (fun p hp => Part.keyedByFirst_of_isPlain (plain p hp)) h
  have hnested := nestCalls_nested vocabulary (foldCalls vocabulary parts)
  rcases hnested.mem_listNodes_cases
      (fun part h => (not_isTask_of_mem_foldCalls vocabulary plain h).1) hnode with
    hkept | ⟨task, children, rfl, -, -⟩
  · exact hfolded node hkept
  · simp [KeyedByFirst, Part.key?]

/-- The arranged parts of a message whose calls have different identifiers have different keys, and
so have those that stand side by side in any unit among them. -/
theorem keyedApart_arrangeParts (vocabulary : ToolVocabulary) {parts : List Part}
    (plain : ∀ part ∈ parts, part.isPlain)
    (distinct : ((Part.listCalls parts).map Invocation.id).Nodup) :
    KeyedApart (arrangeParts vocabulary parts) := by
  refine Part.keyedApart_of_calls _ (keyedByFirst_of_mem_arrangeParts vocabulary plain) ?_
  exact ((listCalls_arrangeParts vocabulary parts).map Invocation.id).nodup_iff.2 distinct

end ChatHistory
