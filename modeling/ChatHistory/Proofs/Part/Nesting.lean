import ChatHistory.Part.Nesting
import Mathlib.Data.List.Chain
import Mathlib.Data.List.Induction
import Mathlib.Data.List.TakeWhile
import Mathlib.Tactic.Common

/-!
# Which calls are nested under which

Nesting changes the order of no part.  `TopLevel` is what stands at the top level of nested parts
together with the parts that it was made from, so that it can be told for every part of the message
where it went.  `Divides` says how the parts of a message are divided among the top level: a task
takes in calls only, and as many of them as it can.

`nestCalls_divides` says that nesting divides the parts of every message in this way.  From this,
`nestCalls_exact` reads off for each single part whether it is nested and under which call.
-/

namespace ChatHistory

/-- The call of a sub-agent. -/
def Part.isAgent (vocabulary : ToolVocabulary) : Part → Bool
  | .call made => vocabulary.delegates made.name
  | _ => false

namespace OpenTask

/-- An open task as the parts that it was made from. -/
def parts (task : OpenTask) : List Part :=
  .call task.call :: task.children

/-- A task of a sub-agent that has taken in nothing but calls that it may take in. -/
def Sound (vocabulary : ToolVocabulary) (task : OpenTask) : Prop :=
  vocabulary.delegates task.call.name ∧
    ∀ child ∈ task.children, child.isCall ∧ ¬child.isAgent vocabulary

/-- What an open task takes in: every tool call but that of a sub-agent. -/
def takes (vocabulary : ToolVocabulary) (part : Part) : Bool :=
  part.isCall && !part.isAgent vocabulary

lemma takes_iff {vocabulary : ToolVocabulary} {part : Part} :
    takes vocabulary part ↔ part.isCall ∧ ¬part.isAgent vocabulary := by
  simp [takes]

end OpenTask

/-! ## What a task takes in -/

/-- An open task takes in calls as long as there are any. -/
lemma nestFrom_some (vocabulary : ToolVocabulary) (agent : Call) (children parts : List Part) :
    nestFrom vocabulary (some ⟨agent, children⟩) parts =
      OpenTask.close ⟨agent, children ++ parts.takeWhile (OpenTask.takes vocabulary)⟩ ::
        nestCalls vocabulary (parts.dropWhile (OpenTask.takes vocabulary)) := by
  unfold nestCalls
  induction parts generalizing children with
  | nil => simp [nestFrom]
  | cons part parts ih =>
    by_cases takes : OpenTask.takes vocabulary part
    · rw [List.takeWhile_cons_of_pos takes, List.dropWhile_cons_of_pos takes]
      cases part <;> simp_all [OpenTask.takes, Part.isCall, Part.isAgent, nestFrom]
    · rw [List.takeWhile_cons_of_neg takes, List.dropWhile_cons_of_neg takes]
      cases part <;> simp_all [OpenTask.takes, Part.isCall, Part.isAgent, nestFrom]

/-- The call of a sub-agent takes in the calls behind it. -/
lemma nestCalls_agent {vocabulary : ToolVocabulary} {agent : Call}
    (delegates : vocabulary.delegates agent.name) (parts : List Part) :
    nestCalls vocabulary (.call agent :: parts) =
      OpenTask.close ⟨agent, parts.takeWhile (OpenTask.takes vocabulary)⟩ ::
        nestCalls vocabulary (parts.dropWhile (OpenTask.takes vocabulary)) := by
  simp [nestCalls, nestFrom, delegates, nestFrom_some]

/-- Any other part stays where no task is open. -/
lemma nestCalls_other {vocabulary : ToolVocabulary} {part : Part}
    (other : ¬part.isAgent vocabulary) (parts : List Part) :
    nestCalls vocabulary (part :: parts) = part :: nestCalls vocabulary parts := by
  cases part <;> simp_all [nestCalls, nestFrom, Part.isAgent]

/-- Induction along the tasks of a message: a sub-agent is passed together with what it takes in. -/
lemma nestCalls_induction {motive : List Part → Prop} (vocabulary : ToolVocabulary)
    (nil : motive [])
    (agent : ∀ agent parts, vocabulary.delegates agent.name →
      motive (parts.dropWhile (OpenTask.takes vocabulary)) → motive (.call agent :: parts))
    (other : ∀ part parts, ¬part.isAgent vocabulary → motive parts → motive (part :: parts))
    (parts : List Part) : motive parts := by
  induction hlength : parts.length using Nat.strong_induction_on generalizing parts with
  | _ length ih =>
    cases parts with
    | nil => exact nil
    | cons part parts =>
      have hshorter (rest : List Part) (h : rest.length ≤ parts.length) : motive rest :=
        ih rest.length (by rw [← hlength, List.length_cons]; omega) rest rfl
      by_cases isAgent : part.isAgent vocabulary
      · cases part with
        | call made =>
          exact agent made parts isAgent (hshorter _ (List.dropWhile_sublist _).length_le)
        | _ => exact absurd isAgent Bool.false_ne_true
      · exact other part parts isAgent (hshorter parts le_rfl)

/-! ## The top level -/

/-- What stands at the top level of nested parts: a part of its own, or the call of a sub-agent with
the parts that it has taken in, of which there may be none. -/
inductive TopLevel where
  | alone (part : Part)
  | task (opened : OpenTask)

namespace TopLevel

/-- The part that is shown. -/
def shown : TopLevel → Part
  | .alone part => part
  | .task opened => opened.close

/-- The parts of the message that it was made from. -/
def parts : TopLevel → List Part
  | .alone part => [part]
  | .task opened => opened.parts

/-- A sub-agent has a task of its own, and the task has taken in only what it may. -/
def Sound (vocabulary : ToolVocabulary) : TopLevel → Prop
  | .alone part => ¬part.isAgent vocabulary
  | .task opened => opened.Sound vocabulary

/-- Behind a task there is no part that it could have taken in. -/
def Ends (vocabulary : ToolVocabulary) (item next : TopLevel) : Prop :=
  ∀ opened part, item = .task opened → next = .alone part → ¬OpenTask.takes vocabulary part

end TopLevel

/-- The parts of a message are divided among the top level: in order, each of them once, and every
task has taken in what it can. -/
structure Divides (vocabulary : ToolVocabulary) (parts : List Part) (items : List TopLevel) :
    Prop where
  parts : items.flatMap TopLevel.parts = parts
  sound : ∀ item ∈ items, item.Sound vocabulary
  ends : items.IsChain (TopLevel.Ends vocabulary)

namespace Divides

variable {vocabulary : ToolVocabulary} {parts : List Part} {items : List TopLevel}

lemma nil : Divides vocabulary [] [] where
  parts := rfl
  sound := by simp
  ends := .nil

/-- A part of its own may stand in front. -/
lemma other (h : Divides vocabulary parts items) {part : Part} (other : ¬part.isAgent vocabulary) :
    Divides vocabulary (part :: parts) (.alone part :: items) where
  parts := by simp [TopLevel.parts, h.parts]
  sound := List.forall_mem_cons.2 ⟨other, h.sound⟩
  ends := by
    rw [List.isChain_cons]
    refine ⟨fun next _ opened part hitem => ?_, h.ends⟩
    cases hitem

/-- A sub-agent may stand in front with all that it can take in. -/
lemma agent {agent : Call}
    (h : Divides vocabulary (parts.dropWhile (OpenTask.takes vocabulary)) items)
    (delegates : vocabulary.delegates agent.name) :
    Divides vocabulary (.call agent :: parts)
      (.task ⟨agent, parts.takeWhile (OpenTask.takes vocabulary)⟩ :: items) where
  parts := by
    simp [TopLevel.parts, OpenTask.parts, h.parts, List.takeWhile_append_dropWhile]
  sound := List.forall_mem_cons.2
    ⟨⟨delegates, fun _ hchild => OpenTask.takes_iff.1 (List.mem_takeWhile_imp hchild)⟩, h.sound⟩
  ends := by
    rw [List.isChain_cons]
    refine ⟨fun next hnext opened part _ hpart takes => ?_, h.ends⟩
    -- What follows begins with the first part that is not taken in.
    obtain ⟨rest, rfl⟩ := List.head?_eq_some_iff.1 hnext
    subst hpart
    have hfirst := List.head?_dropWhile_not (OpenTask.takes vocabulary) parts
    rw [← h.parts] at hfirst
    simp [TopLevel.parts, takes] at hfirst

end Divides

/-- Nesting divides the parts of a message among the top level. -/
theorem nestCalls_divides (vocabulary : ToolVocabulary) (parts : List Part) :
    ∃ items, nestCalls vocabulary parts = items.map TopLevel.shown ∧
      Divides vocabulary parts items := by
  induction parts using nestCalls_induction vocabulary with
  | nil => exact ⟨[], rfl, .nil⟩
  | agent agent parts delegates ih =>
    obtain ⟨items, hshown, hdivides⟩ := ih
    exact ⟨_, by rw [nestCalls_agent delegates, hshown]; rfl, hdivides.agent delegates⟩
  | other part parts other ih =>
    obtain ⟨items, hshown, hdivides⟩ := ih
    exact ⟨_, by rw [nestCalls_other other, hshown]; rfl, hdivides.other other⟩

/-! ## Single parts -/

namespace TopLevel

/-- An item stands at the top level where the given parts of the message are in front of it. -/
def StandsBehind (items : List TopLevel) (before : List Part) (item : TopLevel) : Prop :=
  ∃ earlier later, items = earlier ++ item :: later ∧ earlier.flatMap parts = before

/-- A part is a child in the task of an agent that stands behind the given parts, with the parts in
between as the children in front of it. -/
def NestedUnder (items : List TopLevel) (front : List Part) (agent : Call) (between : List Part)
    (part : Part) : Prop :=
  ∃ more, StandsBehind items front (.task ⟨agent, between ++ part :: more⟩)

/-- The part behind the given ones is a child of one of them. -/
def IsNested (items : List TopLevel) (before : List Part) (part : Part) : Prop :=
  ∃ front agent between, before = front ++ .call agent :: between ∧
    NestedUnder items front agent between part

/-- Every part of the message is in one place of one item. -/
lemma exists_of_flatMap_parts {items : List TopLevel} {before behind : List Part} {part : Part}
    (h : items.flatMap parts = before ++ part :: behind) :
    ∃ front item inner outer, StandsBehind items front item ∧
      item.parts = inner ++ part :: outer ∧ before = front ++ inner := by
  induction items generalizing before with
  | nil => simp at h
  | cons first items ih =>
    have hlater (rest : List Part) (hrest : items.flatMap parts = rest ++ part :: behind)
        (hbefore : before = first.parts ++ rest) :
        ∃ front item inner outer, StandsBehind (first :: items) front item ∧
          item.parts = inner ++ part :: outer ∧ before = front ++ inner := by
      obtain ⟨front, item, inner, outer, ⟨earlier, later, hitems, hfront⟩, hparts, rfl⟩ := ih hrest
      refine ⟨first.parts ++ front, item, inner, outer,
        ⟨first :: earlier, later, by rw [hitems]; rfl, ?_⟩, hparts, by simp [hbefore]⟩
      rw [List.flatMap_cons, hfront]
    rw [List.flatMap_cons] at h
    rcases List.append_eq_append_iff.1 h with ⟨rest, hbefore, hrest⟩ | ⟨outer, hparts, hbehind⟩
    · exact hlater rest hrest hbefore
    · cases outer with
      | nil => exact hlater [] hbehind.symm (by simpa using hparts.symm)
      | cons other outer =>
        obtain ⟨rfl, -⟩ := List.cons.inj hbehind
        exact ⟨[], first, before, outer, ⟨[], items, rfl, rfl⟩, hparts, rfl⟩

end TopLevel

open TopLevel (StandsBehind NestedUnder IsNested)

namespace Divides

variable {vocabulary : ToolVocabulary} {parts : List Part} {items : List TopLevel}

/-- Every part of a message stands alone, is the call of a task, or is a child of a task. -/
lemma cases (h : Divides vocabulary parts items) {before behind : List Part} {part : Part}
    (hparts : parts = before ++ part :: behind) :
    StandsBehind items before (.alone part) ∨
    (∃ agent children, part = .call agent ∧
      StandsBehind items before (.task ⟨agent, children⟩)) ∨
    IsNested items before part := by
  obtain ⟨front, item, inner, outer, hstands, hitem, rfl⟩ :=
    TopLevel.exists_of_flatMap_parts (h.parts.trans hparts)
  cases item with
  | alone other =>
    obtain ⟨rfl, rfl, -⟩ : inner = [] ∧ other = part ∧ outer = [] := by
      cases inner <;> simp_all [TopLevel.parts]
    exact .inl (by simpa using hstands)
  | task opened =>
    obtain ⟨agent, children⟩ := opened
    cases inner with
    | nil =>
      obtain ⟨rfl, rfl⟩ : .call agent = part ∧ children = outer := by
        simpa [TopLevel.parts, OpenTask.parts] using hitem
      exact .inr (.inl ⟨agent, children, rfl, by simpa using hstands⟩)
    | cons head between =>
      obtain ⟨rfl, rfl⟩ : .call agent = head ∧ children = between ++ part :: outer := by
        simpa [TopLevel.parts, OpenTask.parts] using hitem
      exact .inr (.inr ⟨front, agent, between, rfl, outer, hstands⟩)

/-- What stands at the top level is sound. -/
lemma sound_of_standsBehind (h : Divides vocabulary parts items) {before : List Part}
    {item : TopLevel} (hstands : StandsBehind items before item) : item.Sound vocabulary := by
  obtain ⟨earlier, later, rfl, -⟩ := hstands
  exact h.sound item (by simp)

/-- Where a call stands alone that a task would take in, the part in front of it stands alone
too. -/
lemma alone_of_alone (h : Divides vocabulary parts items) {before : List Part} {other part : Part}
    (takes : OpenTask.takes vocabulary part)
    (hstands : StandsBehind items (before ++ [other]) (.alone part)) :
    StandsBehind items before (.alone other) := by
  obtain ⟨earlier, later, hitems, hbefore⟩ := hstands
  rcases List.eq_nil_or_concat earlier with rfl | ⟨earlier, last, rfl⟩
  · simp at hbefore
  · rw [List.concat_eq_append, List.append_assoc, List.singleton_append] at hitems
    cases last with
    | alone last =>
      rw [List.concat_eq_append, List.flatMap_append, List.flatMap_singleton] at hbefore
      obtain ⟨rfl, hlast⟩ := List.append_inj' hbefore rfl
      obtain rfl := List.singleton_inj.1 hlast
      exact ⟨earlier, _, hitems, rfl⟩
    | task opened =>
      have ends := h.ends
      rw [hitems, List.isChain_append_cons_cons] at ends
      exact absurd takes (ends.2.1 opened part rfl rfl)

/-- A call behind a sub-agent does not stand alone where there are only calls in between. -/
lemma not_alone (h : Divides vocabulary parts items) {front between : List Part} {agent : Call}
    {part : Part} (delegates : vocabulary.delegates agent.name)
    (calls : ∀ other ∈ between, other.isCall) (takes : OpenTask.takes vocabulary part) :
    ¬StandsBehind items (front ++ .call agent :: between) (.alone part) := by
  -- From the right: what is in front of it would stand alone too, down to the sub-agent.
  induction between using List.reverseRecOn generalizing part with
  | nil => exact fun hstands => h.sound_of_standsBehind (h.alone_of_alone takes hstands) delegates
  | append_singleton between other ih =>
    intro hstands
    rw [← List.cons_append, ← List.append_assoc] at hstands
    have hother := h.alone_of_alone takes hstands
    refine ih (fun p hp => calls p (List.mem_append_left _ hp)) ?_ hother
    exact OpenTask.takes_iff.2 ⟨calls other (by simp), h.sound_of_standsBehind hother⟩

/-- A task is one of a sub-agent, and its children are calls, but none of a sub-agent. -/
lemma children_of_nestedUnder (h : Divides vocabulary parts items) {front between : List Part}
    {agent : Call} {part : Part} (nested : NestedUnder items front agent between part) :
    vocabulary.delegates agent.name ∧ (part.isCall ∧ ¬part.isAgent vocabulary) ∧
      ∀ other ∈ between, other.isCall ∧ ¬other.isAgent vocabulary := by
  obtain ⟨more, hstands⟩ := nested
  obtain ⟨delegates, taken⟩ := h.sound_of_standsBehind hstands
  exact ⟨delegates, taken part (by simp), fun other hother =>
    taken other (List.mem_append_left _ hother)⟩

/-- A part is nested exactly if it is a call behind a sub-agent with only calls in between. -/
lemma isNested_iff (h : Divides vocabulary parts items) {before behind : List Part} {part : Part}
    (hparts : parts = before ++ part :: behind) (other : ¬part.isAgent vocabulary) :
    IsNested items before part ↔
      part.isCall ∧ ∃ front agent between, before = front ++ .call agent :: between ∧
        vocabulary.delegates agent.name ∧ ∀ other ∈ between, other.isCall := by
  constructor
  · rintro ⟨front, agent, between, rfl, nested⟩
    obtain ⟨delegates, ⟨call, -⟩, children⟩ := h.children_of_nestedUnder nested
    exact ⟨call, front, agent, between, rfl, delegates, fun other hother =>
      (children other hother).1⟩
  · rintro ⟨call, front, agent, between, rfl, delegates, calls⟩
    rcases h.cases hparts with alone | ⟨made, children, rfl, hstands⟩ | nested
    · exact absurd alone (h.not_alone delegates calls (OpenTask.takes_iff.2 ⟨call, other⟩))
    · exact absurd (h.sound_of_standsBehind hstands).1 other
    · exact nested

end Divides

/-- Where every part of a message goes.  Nesting shows a top level that gives back the parts of the
message in order when it is opened.  Every call of a sub-agent heads a task there, which is shown as
one if it has children and as the call alone if it has none.  Any other part is a child exactly if
it is a call and a call of a sub-agent comes before it with nothing but calls in between, and it is
then a child of the nearest one; if it is no child, it stands alone. -/
theorem nestCalls_exact (vocabulary : ToolVocabulary) (parts : List Part) :
    ∃ items : List TopLevel,
      nestCalls vocabulary parts = items.map TopLevel.shown ∧
      items.flatMap TopLevel.parts = parts ∧
      (∀ before agent behind, parts = before ++ .call agent :: behind →
        vocabulary.delegates agent.name → ∃ children,
          StandsBehind items before (.task ⟨agent, children⟩) ∧
          TopLevel.shown (.task ⟨agent, children⟩) =
            if children = [] then .call agent else .taskGroup agent.toInvocation children) ∧
      (∀ before part behind, parts = before ++ part :: behind → ¬part.isAgent vocabulary →
        (IsNested items before part ↔
          part.isCall ∧ ∃ front agent between, before = front ++ .call agent :: between ∧
            vocabulary.delegates agent.name ∧ ∀ other ∈ between, other.isCall) ∧
        (¬IsNested items before part → StandsBehind items before (.alone part))) ∧
      ∀ front agent between part, NestedUnder items front agent between part →
        vocabulary.delegates agent.name ∧
          ∀ other ∈ between, other.isCall ∧ ¬other.isAgent vocabulary := by
  obtain ⟨items, hshown, divides⟩ := nestCalls_divides vocabulary parts
  refine ⟨items, hshown, divides.parts, fun before agent behind hparts delegates => ?_,
    fun before part behind hparts other => ⟨divides.isNested_iff hparts other, fun apart => ?_⟩,
    fun front agent between part nested => ?_⟩
  · rcases divides.cases hparts with alone | ⟨made, children, hcall, hstands⟩ | nested
    · exact absurd delegates (divides.sound_of_standsBehind alone)
    · obtain rfl := Part.call.inj hcall
      refine ⟨children, hstands, ?_⟩
      cases children <;> rfl
    · obtain ⟨front, agent, between, -, nested⟩ := nested
      exact absurd delegates (divides.children_of_nestedUnder nested).2.1.2
  · rcases divides.cases hparts with alone | ⟨made, children, rfl, hstands⟩ | nested
    · exact alone
    · exact absurd (divides.sound_of_standsBehind hstands).1 other
    · exact absurd nested apart
  · obtain ⟨delegates, -, children⟩ := divides.children_of_nestedUnder nested
    exact ⟨delegates, children⟩

/-- A group of explorations is taken in like any other call, but not behind a text. -/
theorem nestCalls_exact_interrupted :
    let call (id name : String) : Call := ⟨⟨id, [], .null, none⟩, name⟩
    let group : Part := .toolGroup "r1" [call "r1" "Read", call "r2" "Grep"]
    let front : List Part := [.call (call "b1" "Bash"), .call (call "t1" "Task")]
    let behind : List Part := [group, .text "done"]
    ∃ items : List TopLevel,
      nestCalls ToolVocabulary.claude (front ++ behind ++ [group]) = items.map TopLevel.shown ∧
      IsNested items front group ∧ StandsBehind items (front ++ behind) (.alone group) := by
  intro call group front behind
  obtain ⟨items, hshown, -, -, others, -⟩ :=
    nestCalls_exact ToolVocabulary.claude (front ++ behind ++ [group])
  have other : ¬group.isAgent ToolVocabulary.claude := by decide
  refine ⟨items, hshown, (others front group _ rfl other).1.2 ⟨rfl, ?_⟩,
    (others (front ++ behind) group [] rfl other).2 fun nested => ?_⟩
  · exact ⟨[.call (call "b1" "Bash")], call "t1" "Task", [], rfl, by decide, by simp⟩
  · obtain ⟨-, before, agent, between, hbefore, -, calls⟩ :=
      (others (front ++ behind) group [] rfl other).1.1 nested
    -- The text would be among the calls in between.
    have htext : .text "done" ∈ between := by
      have hlast : (front ++ behind).getLast? = some (.text "done") := rfl
      rw [hbefore] at hlast
      rcases List.eq_nil_or_concat between with rfl | ⟨between, last, rfl⟩
      · simp at hlast
      · rw [List.concat_eq_append, ← List.cons_append, ← List.append_assoc,
          List.getLast?_concat] at hlast
        simp [Option.some.inj hlast]
    exact absurd (calls _ htext) (by decide)

end ChatHistory
