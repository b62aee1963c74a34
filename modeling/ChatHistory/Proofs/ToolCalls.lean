import ChatHistory.DisplayedMessage
import ChatHistory.Proofs.Part.Calls
import ChatHistory.Proofs.Turns.Answers

/-!
# Every tool use is displayed once

The display of a log accounts for its tool calls: for each identifier it shows one call, with the
arguments of the first use and the last result that comes behind it, unless the tool is hidden
(`filter_calls_ofMessages`).

The statement goes through all stages.  Folding and nesting keep the calls of a message
(`Part.listCalls_arrangeParts`), so a grouped message shows its tool uses (`calls_ofAnswered`); the
grouped log has the first use of every identifier, together with its last result
(`Turns.filter_uses_blocks`, `Turns.get?_toolResults`); and the echoes of commands that are dropped
before grouping have neither.
-/

namespace ChatHistory

/-- The call that a tool use becomes when its result is known, or known to be missing. -/
def ToolUse.answeredBy (use : ToolUse) (result : Option ToolResult) : Invocation where
  id := use.id
  args := use.input
  result := (result.map ToolResult.callResult).getD .null
  isError := result.map ToolResult.isError

open Message (UsesInTurns)

namespace DisplayedMessage

/-- The tool calls that a displayed message shows. -/
def calls (message : DisplayedMessage) : List Invocation :=
  Part.listCalls message.content

/-- The tool uses among some blocks that are not hidden. -/
def visibleUses (vocabulary : ToolVocabulary) (blocks : List Block) : List ToolUse :=
  (Block.uses blocks).filter fun use => !vocabulary.hides use.name

/-! ## One message -/

lemma listCalls_orEmptyText (parts : List Part) :
    Part.listCalls (orEmptyText parts) = Part.listCalls parts := by
  cases parts <;> simp [orEmptyText, Part.calls]

/-- The parts of a turn show its visible tool uses. -/
lemma listCalls_filterMap_turnPart? (vocabulary : ToolVocabulary) (results : Assoc ToolResult)
    (blocks : List Block) :
    Part.listCalls (blocks.filterMap (turnPart? vocabulary results)) =
      (visibleUses vocabulary blocks).map fun use => use.answeredBy (results.get? use.id) := by
  induction blocks with
  | nil => simp [visibleUses]
  | cons block blocks ih =>
    cases block with
    | toolUse use =>
      by_cases h : vocabulary.hides use.name
      · simpa [turnPart?, h, visibleUses, Block.toolUse?] using ih
      · simpa [turnPart?, h, visibleUses, Block.toolUse?, callOf, ToolUse.answeredBy] using ih
    | image mediaType data =>
      rw [List.filterMap_cons_none rfl, ih]
      simp [visibleUses, Block.toolUse?]
    | _ => simpa [turnPart?, visibleUses, Block.toolUse?, Part.calls] using ih

/-- A text of the user is shown as a text, if at all. -/
lemma eq_text_of_mem_userTextParts {text : String} {part : Part}
    (h : part ∈ userTextParts text) : ∃ shown, part = .text shown := by
  unfold userTextParts at h
  generalize Attachment.parse text = parsed at h
  obtain ⟨names, clean⟩ := parsed
  dsimp only at h
  generalize (if names.isEmpty then text else clean) = shown at h
  split at h
  · simp at h
  · exact ⟨shown, List.mem_singleton.1 h⟩

/-- No part of a block of the user is a call. -/
lemma not_isCall_of_mem_userParts {block : Block} {part : Part} (h : part ∈ userParts block) :
    ¬part.isCall := by
  cases block with
  | image mediaType data =>
    obtain rfl := List.mem_singleton.1 h
    simp [Part.isCall]
  | text text =>
    simp only [userParts] at h
    split at h
    · simp at h
    · obtain ⟨shown, rfl⟩ := eq_text_of_mem_userTextParts h
      simp [Part.isCall]
  | _ => simp [userParts] at h

/-- Where there is nothing to show, an empty text is shown. -/
lemma mem_orEmptyText {parts : List Part} {part : Part} (h : part ∈ orEmptyText parts) :
    part ∈ parts ∨ part = .text "" := by
  unfold orEmptyText at h
  split at h
  · exact .inr (List.mem_singleton.1 h)
  · exact .inl h

/-- The parts of a message are those of a turn if it is of one or holds results of unknown uses. -/
lemma partsOf_eq_turnParts (vocabulary : ToolVocabulary) {message : AnsweredMessage}
    (h : message.kind.isTurn ∨ message.kind = .toolResult) :
    partsOf vocabulary message = turnParts vocabulary message := by
  unfold partsOf
  cases hk : message.kind <;> first | rfl | simp [hk, MessageKind.isTurn] at h

/-- No part of any other message is a call. -/
lemma not_isCall_of_mem_partsOf (vocabulary : ToolVocabulary) {message : AnsweredMessage}
    (h : ¬(message.kind.isTurn ∨ message.kind = .toolResult)) {part : Part}
    (hpart : part ∈ partsOf vocabulary message) : ¬part.isCall := by
  unfold partsOf at hpart
  cases hk : message.kind with
  | assistant | toolUse | toolResult => simp [hk, MessageKind.isTurn] at h
  | user =>
    simp only [hk] at hpart
    rcases mem_orEmptyText hpart with hshown | rfl
    · obtain ⟨block, -, hblock⟩ := List.mem_flatMap.1 hshown
      exact not_isCall_of_mem_userParts hblock
    · simp [Part.isCall]
  | system =>
    simp only [hk] at hpart
    rcases mem_orEmptyText hpart with hshown | rfl
    · obtain ⟨block, -, hblock⟩ := List.mem_filterMap.1 hshown
      split at hblock
      · obtain rfl := Option.some.inj hblock
        simp [Part.isCall]
      · simp at hblock
    · simp [Part.isCall]
  | _ =>
    simp only [hk] at hpart
    obtain rfl := List.mem_singleton.1 hpart
    simp [Part.isCall]

/-- Any other message shows no call. -/
lemma listCalls_partsOf_eq_nil (vocabulary : ToolVocabulary) {message : AnsweredMessage}
    (h : ¬(message.kind.isTurn ∨ message.kind = .toolResult)) :
    Part.listCalls (partsOf vocabulary message) = [] :=
  Part.listCalls_eq_nil fun _ hpart =>
    Part.calls_of_not_isCall (not_isCall_of_mem_partsOf vocabulary h hpart)

/-- A message shows its visible tool uses, provided that it has none or is of a turn. -/
lemma calls_ofAnswered (vocabulary : ToolVocabulary) {message : AnsweredMessage}
    (plain : ¬message.kind.isTurn → Block.uses message.content = []) :
    (ofAnswered vocabulary message).calls.Perm
      ((visibleUses vocabulary message.content).map
        fun use => use.answeredBy (message.toolResults.get? use.id)) := by
  have hcalls : (ofAnswered vocabulary message).calls =
      Part.listCalls (partsOf vocabulary message) := rfl
  rw [hcalls]
  by_cases h : message.kind.isTurn ∨ message.kind = .toolResult
  · rw [partsOf_eq_turnParts vocabulary h, turnParts, listCalls_orEmptyText,
      ← listCalls_filterMap_turnPart?]
    exact listCalls_arrangeParts vocabulary _
  · have hnone : visibleUses vocabulary message.content = [] := by
      simp [visibleUses, plain fun turn => h (.inl turn)]
    rw [listCalls_partsOf_eq_nil vocabulary h, hnone]
    exact .nil

/-! ## All messages -/

/-- The tool uses of some messages are those of their blocks. -/
lemma visibleUses_flatMap {α : Type} (vocabulary : ToolVocabulary) (messages : List α)
    (content : α → List Block) :
    visibleUses vocabulary (messages.flatMap content) =
      messages.flatMap fun message => visibleUses vocabulary (content message) := by
  simp only [visibleUses, Block.uses, List.filterMap_flatMap, List.filter_flatMap]

/-- The grouped log shows its visible tool uses, each with the last result behind its first use. -/
lemma calls_group (vocabulary : ToolVocabulary) {messages : List Message}
    (h : UsesInTurns messages) :
    ((Turns.group messages).flatMap fun message => (ofAnswered vocabulary message).calls).Perm
      ((visibleUses vocabulary (Turns.after messages).blocks).map
        fun use => use.answeredBy (Message.answer? messages use.id)) := by
  rw [← Turns.flatMap_content_toList, ← Turns.group_eq, visibleUses_flatMap, List.map_flatMap]
  refine List.Perm.flatMap_left _ fun message hm => ?_
  refine (calls_ofAnswered vocabulary fun turn => Turns.usesInTurns_group h hm turn).trans ?_
  have hsame : ∀ use ∈ visibleUses vocabulary message.content,
      use.answeredBy (message.toolResults.get? use.id) =
        use.answeredBy (Message.answer? messages use.id) := by
    intro use hu
    rw [Turns.get?_toolResults h hm (List.mem_of_mem_filter hu)]
  rw [List.map_congr_left hsame]

/-- For each identifier the grouped log shows the first use, unless its tool is hidden. -/
lemma filter_visibleUses (vocabulary : ToolVocabulary) {messages : List Message}
    (h : UsesInTurns messages) (id : String) :
    (visibleUses vocabulary (Turns.after messages).blocks).filter (fun use => use.id = id) =
      (Message.firstUse? messages id).toList.filter fun use => !vocabulary.hides use.name := by
  rw [← Turns.filter_uses_blocks h, visibleUses, List.filter_filter, List.filter_filter]
  simp only [Bool.and_comm]

/-! ## Echoes of commands -/

lemma kind_of_isCommandEcho {message : Message} (h : message.isCommandEcho) :
    message.kind = .user := by
  simp only [Message.isCommandEcho, Bool.and_eq_true, decide_eq_true_eq] at h
  exact h.1

/-- Without the echoes of commands, the tool uses are still in turns. -/
lemma usesInTurns_withoutCommandEchoes {messages : List Message} (h : UsesInTurns messages) :
    UsesInTurns (Message.withoutCommandEchoes messages) :=
  fun message hm => h message (List.mem_of_mem_filter hm)

/-- An echo of a command uses no tool. -/
lemma uses_of_isCommandEcho {message : Message}
    (plain : ¬message.kind.isTurn → Block.uses message.content = [])
    (echo : message.isCommandEcho) : Block.uses message.content = [] :=
  plain (by simp [kind_of_isCommandEcho echo, MessageKind.isTurn])

/-- The first uses do not depend on the echoes of commands. -/
lemma firstUse?_withoutCommandEchoes {messages : List Message} (h : UsesInTurns messages)
    (id : String) :
    Message.firstUse? (Message.withoutCommandEchoes messages) id =
      Message.firstUse? messages id := by
  unfold Message.firstUse? Message.withoutCommandEchoes
  congr 1
  induction messages with
  | nil => rfl
  | cons message rest ih =>
    have hrest := ih fun m hm => h m (List.mem_cons_of_mem _ hm)
    by_cases echo : message.isCommandEcho
    · have unused := uses_of_isCommandEcho (h message List.mem_cons_self) echo
      simp [echo, unused, hrest]
    · simp [echo, hrest]

/-- The results that messages bring do not depend on the echoes of commands. -/
lemma broughtResults_withoutCommandEchoes (messages : List Message) :
    Message.broughtResults (Message.withoutCommandEchoes messages) =
      Message.broughtResults messages := by
  unfold Message.broughtResults Message.withoutCommandEchoes
  rw [List.filter_filter]
  congr 1
  refine List.filter_congr fun message _ => ?_
  by_cases echo : message.isCommandEcho
  · simp [echo, kind_of_isCommandEcho echo]
  · simp [echo]

/-- The answers do not depend on the echoes of commands. -/
lemma answer?_withoutCommandEchoes {messages : List Message} (h : UsesInTurns messages)
    (id : String) :
    Message.answer? (Message.withoutCommandEchoes messages) id = Message.answer? messages id := by
  induction messages with
  | nil => rfl
  | cons message rest ih =>
    have hrest := ih fun m hm => h m (List.mem_cons_of_mem _ hm)
    by_cases echo : message.isCommandEcho
    · have unused := uses_of_isCommandEcho (h message List.mem_cons_self) echo
      have hdrop : Message.withoutCommandEchoes (message :: rest) =
          Message.withoutCommandEchoes rest := by
        simp [Message.withoutCommandEchoes, echo]
      have hid : ¬message.usesId id := by simp [Message.usesId, Block.useIds, unused]
      rw [hdrop, hrest, Message.answer?, if_neg hid]
    · have hkeep : Message.withoutCommandEchoes (message :: rest) =
          message :: Message.withoutCommandEchoes rest := by
        simp [Message.withoutCommandEchoes, echo]
      rw [hkeep, Message.answer?, Message.answer?, hrest, broughtResults_withoutCommandEchoes]

/-- The display of a log shows exactly one call for each identifier that a tool use has, unless the
tool of its first use is hidden: the call has the arguments of this use, and the last result that a
message with tool results brings behind it. -/
theorem filter_calls_ofMessages (vocabulary : ToolVocabulary) (messages : List Message)
    (usesInTurns : ∀ message ∈ messages,
      ¬message.kind.isTurn → Block.uses message.content = []) (id : String) :
    ((ofMessages vocabulary messages).flatMap calls).filter (fun call => call.id = id) =
      match Message.firstUse? messages id with
      | none => []
      | some use =>
        if vocabulary.hides use.name then []
        else [use.answeredBy (Message.answer? messages id)] := by
  have kept := usesInTurns_withoutCommandEchoes usesInTurns
  -- Folding may move calls, but at most one has this identifier, so for it the order is settled.
  have hperm := (calls_group vocabulary kept).filter fun call => call.id = id
  rw [List.filter_map] at hperm
  have hids : (fun call : Invocation => decide (call.id = id)) ∘ (fun use : ToolUse =>
      use.answeredBy (Message.answer? (Message.withoutCommandEchoes messages) use.id)) =
        fun use => decide (use.id = id) := rfl
  rw [hids, filter_visibleUses vocabulary kept, firstUse?_withoutCommandEchoes usesInTurns] at hperm
  rw [ofMessages, List.flatMap_map]
  cases hfirst : Message.firstUse? messages id with
  | none =>
    rw [hfirst] at hperm
    exact List.perm_nil.1 hperm
  | some use =>
    have hid : use.id = id := by simpa using List.find?_some hfirst
    rw [hfirst] at hperm
    by_cases hidden : vocabulary.hides use.name
    · simp only [hidden, if_true]
      exact List.perm_nil.1 (by simpa [hidden] using hperm)
    · simp only [hidden, Bool.false_eq_true, if_false]
      rw [← answer?_withoutCommandEchoes usesInTurns]
      exact List.perm_singleton.1 (by simpa [hidden, hid] using hperm)

/-- Of a repeated tool use with a result before it and two behind it, the first use and the last
result are shown. -/
theorem filter_calls_ofMessages_repeated :
    let result (content : String) : Message :=
      ⟨"r", "c", .toolResult, [.toolResult ⟨"t1", content, false, [], none, none⟩], "", []⟩
    let first : Message := ⟨"a1", "c", .assistant,
      [.toolUse ⟨"t1", "Read", [("path", .string "x")]⟩, .toolUse ⟨"t2", "Grep", []⟩], "", []⟩
    let word : Message := ⟨"u", "c", .user, [.text "again"], "", []⟩
    let repeated : Message := ⟨"a2", "c", .assistant, [.toolUse ⟨"t1", "Task", []⟩,
      .toolUse ⟨"t3", "TodoWrite", []⟩], "", []⟩
    ((ofMessages .claude [result "early", first, result "one", word, repeated,
      result "two"]).flatMap calls).filter (fun call => call.id = "t1") =
        [⟨"t1", [("path", .string "x")], .string "two", some false⟩] := by
  intro result first word repeated
  have plain : ∀ message ∈ [result "early", first, result "one", word, repeated, result "two"],
      ¬message.kind.isTurn → Block.uses message.content = [] := by
    simp [result, first, word, repeated, MessageKind.isTurn, Block.toolUse?]
  rw [filter_calls_ofMessages .claude _ plain "t1"]
  rfl

end DisplayedMessage

end ChatHistory
