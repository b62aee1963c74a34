import ChatHistory.Proofs.Part.Keys
import ChatHistory.Proofs.ToolCalls
import ChatHistory.Proofs.Turns.Boundaries
import ChatHistory.Proofs.TurnContent
import Mathlib.Data.List.Nodup

/-!
# Keys of a displayed log

A client finds a displayed message again by its identifier, and a tool call or a unit of tool calls
by its key among the parts that stand beside it.  Both are unambiguous (`keys_ofMessages_distinct`),
even in a log that repeats the identifiers of tool uses.

Grouping gives a message its own identifier, and marks it where the user's own blocks are split off
(`Turns.ids_after_sublist`).  Of the uses of one identifier the grouped log has at most one
(`Turns.nodup_useIds_blocks`), so the calls of a message have different identifiers, and the keys of
its parts are among these.
-/

namespace ChatHistory

open Message (UsesInTurns)

/-! ## Identifiers of messages -/

/-- The identifiers that a grouped message can have from a message of the log. -/
def Message.groupIds (message : Message) : List String :=
  [message.id, message.id ++ userSplitMark]

namespace Turns

/-- What remains of a message has its identifier, or the two that a split gives. -/
lemma map_id_residue_sublist (owners : ToolOwners ℕ) (message : Message) :
    ((residue owners message).map Message.id).Sublist message.groupIds := by
  simp only [residue, Message.groupIds]
  split <;> split <;> simp

/-- A step adds at most the identifiers of its message. -/
lemma Step.map_id_sublist {turns next : Turns} {message : Message} (h : Step turns message next) :
    (next.ordered.map Message.id).Sublist (turns.ordered.map Message.id ++ message.groupIds) := by
  cases h with
  | marks duration stated =>
    have hids := map_annotate Message.id (fun _ _ => rfl) duration turns.latest
    simp only [ordered, List.map_reverse, hids]
    exact List.sublist_append_left _ _
  | answers brings =>
    simp only [ordered, List.reverse_append, List.reverse_reverse, List.map_append]
    exact (map_id_residue_sublist turns.owners message).append_left _
  | continues last earlier top lastTurn nextTurn =>
    simp only [ordered, top, List.reverse_cons, List.map_append, List.map_cons]
    exact List.sublist_append_left _ _
  | starts unstated plain apart =>
    simp only [ordered, List.reverse_cons, List.map_append, List.map_singleton]
    exact (List.singleton_sublist.2 List.mem_cons_self).append_left _

/-- The identifiers of the grouped messages come in order from those of the messages. -/
theorem ids_after_sublist (messages : List Message) :
    ((after messages).ordered.map Message.id).Sublist (messages.flatMap Message.groupIds) := by
  induction messages using List.reverseRecOn with
  | nil => exact .slnil
  | append_singleton messages message ih =>
    rw [after_concat, List.flatMap_append, List.flatMap_singleton]
    exact (add_step _ message).map_id_sublist.trans (ih.append_right _)

end Turns

/-- Different identifiers of which none is marked stay different when they are marked. -/
lemma Message.nodup_flatMap_groupIds {messages : List Message}
    (distinct : (messages.map Message.id).Nodup)
    (unmarked : ∀ message ∈ messages, ∀ start, message.id ≠ start ++ userSplitMark) :
    (messages.flatMap Message.groupIds).Nodup := by
  rw [List.nodup_flatMap]
  constructor
  · intro message hm
    simpa [groupIds] using unmarked message hm message.id
  · refine (List.pairwise_map.1 distinct).imp_of_mem fun {message other} hm ho hne => ?_
    have hself := unmarked message hm other.id
    have hother := unmarked other ho message.id
    have apart := And.intro (And.intro hne.symm hother) (And.intro hself.symm hne.symm)
    simpa [Function.onFun, groupIds] using apart

/-! ## Identifiers of calls -/

/-- No grouped message uses an identifier twice. -/
lemma Turns.nodup_useIds_content {messages : List Message} (h : UsesInTurns messages)
    {message : AnsweredMessage} (hm : message ∈ group messages) :
    (Block.useIds message.content).Nodup := by
  have hmem : message.content ∈ (group messages).map fun m => m.content := List.mem_map_of_mem hm
  have hblocks : message.content.Sublist (after messages).blocks := by
    rw [← flatMap_content_toList, ← group_eq, List.flatMap_def]
    exact List.sublist_flatten_of_mem hmem
  exact (nodup_useIds_blocks h).sublist ((hblocks.filterMap _).map _)

namespace DisplayedMessage

open ChatHistory.Part (listNodes KeysDistinct KeyedApart)

/-- The parts of a turn that uses no identifier twice are kept apart by their keys. -/
lemma keyedApart_turnParts (vocabulary : ToolVocabulary) {message : AnsweredMessage}
    (distinct : (Block.useIds message.content).Nodup) :
    KeyedApart (turnParts vocabulary message) := by
  unfold turnParts orEmptyText
  split
  · exact Part.keyedApart_of_isPlain (by simp [Part.isPlain]) (by simp [Part.calls])
  · refine keyedApart_arrangeParts vocabulary
      (isPlain_of_mem_filterMap_turnPart? vocabulary message.toolResults message.content) ?_
    rw [listCalls_filterMap_turnPart?, List.map_map]
    exact distinct.sublist (List.filter_sublist.map ToolUse.id)

/-- The parts of a message that uses no identifier twice are kept apart by their keys. -/
lemma keyedApart_partsOf (vocabulary : ToolVocabulary) {message : AnsweredMessage}
    (distinct : (Block.useIds message.content).Nodup) :
    KeyedApart (partsOf vocabulary message) := by
  by_cases h : message.kind.isTurn ∨ message.kind = .toolResult
  · rw [partsOf_eq_turnParts vocabulary h]
    exact keyedApart_turnParts vocabulary distinct
  · refine Part.keyedApart_of_isPlain (fun part hpart => ?_) ?_
    · exact Part.isPlain_of_not_isCall (not_isCall_of_mem_partsOf vocabulary h hpart)
    · simp [listCalls_partsOf_eq_nil vocabulary h]

/-- In the display of a log with different identifiers, none of which is marked, the messages have
different identifiers, and parts that stand side by side, in a message or in a unit, have different
keys. -/
theorem keys_ofMessages_distinct (vocabulary : ToolVocabulary) {messages : List Message}
    (distinct : (messages.map Message.id).Nodup)
    (unmarked : ∀ message ∈ messages, ∀ start, message.id ≠ start ++ ":user")
    (usesInTurns : ∀ message ∈ messages, ¬message.kind.isTurn →
      Block.uses message.content = []) :
    ((ofMessages vocabulary messages).map DisplayedMessage.id).Nodup ∧
      ∀ shown ∈ ofMessages vocabulary messages,
        KeysDistinct shown.content ∧ ∀ node ∈ listNodes shown.content, KeysDistinct node.inner := by
  have kept := usesInTurns_withoutCommandEchoes usesInTurns
  constructor
  · have hids : (ofMessages vocabulary messages).map DisplayedMessage.id =
        (Turns.after (Message.withoutCommandEchoes messages)).ordered.map Message.id := by
      rw [← Turns.map_toList Message.id (fun _ _ => rfl), ← Turns.group_eq, ofMessages,
        List.map_map]
      rfl
    rw [hids]
    refine (Message.nodup_flatMap_groupIds ?_ ?_).sublist (Turns.ids_after_sublist _)
    · exact distinct.sublist (List.filter_sublist.map _)
    · exact fun message hm => unmarked message (List.mem_of_mem_filter hm)
  · intro shown hshown
    obtain ⟨message, hm, rfl⟩ := List.mem_map.1 hshown
    exact keyedApart_partsOf vocabulary (Turns.nodup_useIds_content kept hm)

/-- A log that repeats identifiers, in one message and in a later one, and has a word of the user
beside the result of an unknown use. -/
theorem keys_ofMessages_distinct_repeated :
    let use (id name : String) : Block := .toolUse ⟨id, name, []⟩
    let calls : Message := ⟨"a1", "c", .assistant, [use "t" "Task", use "r1" "Read",
      use "p1" "TaskCreate", use "r2" "Grep", use "r1" "Glob", use "p2" "TaskUpdate"], "", []⟩
    let answer : Message := ⟨"m", "c", .toolResult,
      [.toolResult ⟨"x", "late", false, [], none, none⟩, .text "note"], "", []⟩
    let again : Message := ⟨"a2", "c", .toolUse, [use "r1" "Read", use "b" "Bash"], "", []⟩
    let shown := ofMessages .claude [calls, answer, again]
    shown.map DisplayedMessage.id = ["a1", "m", "m:user", "a2"] ∧
      (shown.flatMap content).filterMap Part.key? = ["t", "b"] ∧
      (shown.map DisplayedMessage.id).Nodup ∧
      ∀ message ∈ shown,
        KeysDistinct message.content ∧ ∀ node ∈ listNodes message.content,
          KeysDistinct node.inner := by
  intro use calls answer again shown
  have unmarked : ∀ message ∈ [calls, answer, again], ∀ start, message.id ≠ start ++ ":user" := by
    intro message hm start hid
    have hends : ":user".toList <:+ message.id.toList := ⟨start.toList, by simp [hid]⟩
    have hnone : ∀ m ∈ [calls, answer, again], ¬":user".toList <:+ m.id.toList := by decide
    exact hnone message hm hends
  have usesInTurns : ∀ message ∈ [calls, answer, again], ¬message.kind.isTurn →
      Block.uses message.content = [] := by
    simp [calls, answer, again, MessageKind.isTurn, Block.toolUse?]
  have distinct : ([calls, answer, again].map Message.id).Nodup := by decide
  have hids : shown.map DisplayedMessage.id = ["a1", "m", "m:user", "a2"] := by decide +kernel
  have hkeys : (shown.flatMap content).filterMap Part.key? = ["t", "b"] := by decide +kernel
  exact ⟨hids, hkeys, keys_ofMessages_distinct .claude distinct unmarked usesInTurns⟩

end DisplayedMessage

end ChatHistory
