import ChatHistory.Proofs.Turns.Blocks

/-!
# What the user says in a grouped log

Messages of the user come into a grouped log in two ways: from messages of the user, which stay as
they are, and from messages with tool results, whose other blocks are split off as a message of the
user.  `Message.said` says for one message what the user says in it, and `utterances_group` that the
messages of the user in a grouped log are these in order.  Which results are delivered makes no
difference to them.
-/

namespace ChatHistory

/-- What the user says in a message, with its metadata: in a message of the user all blocks, in a
message with tool results those beside the results. -/
def Message.said (message : Message) : List (Fields × List Block) :=
  if message.kind = .user then [(message.metadata, message.content)]
  else if message.kind = .toolResult ∧ message.ownBlocks ≠ [] then
    [(message.metadata, message.ownBlocks)]
  else []

namespace Turns

/-- The metadata and the blocks of a message of the user. -/
def utterance? (message : Message) : Option (Fields × List Block) :=
  if message.kind = .user then some (message.metadata, message.content) else none

/-- What the messages of the user hold, in order. -/
def utterances (messages : List Message) : List (Fields × List Block) :=
  messages.filterMap utterance?

@[simp] lemma utterances_append (messages more : List Message) :
    utterances (messages ++ more) = utterances messages ++ utterances more :=
  List.filterMap_append

@[simp] lemma utterances_reverse (messages : List Message) :
    utterances messages.reverse = (utterances messages).reverse :=
  List.filterMap_reverse

lemma utterances_cons (message : Message) (messages : List Message) :
    utterances (message :: messages) = (utterance? message).toList ++ utterances messages := by
  unfold utterances
  cases h : utterance? message <;> simp [h]

lemma utterance?_of_isTurn {message : Message} (h : message.kind.isTurn) :
    utterance? message = none := by
  refine if_neg fun user => ?_
  simp [user, MessageKind.isTurn] at h

/-- A duration is noted on turns only. -/
lemma utterances_annotate (duration : Json) (messages : List Message) :
    utterances (annotate duration messages) = utterances messages := by
  induction messages with
  | nil => rfl
  | cons message messages ih =>
    unfold annotate
    split
    · rename_i turn
      rw [utterances_cons, utterances_cons, utterance?_of_isTurn turn, utterance?_of_isTurn]
      exact turn
    · rw [utterances_cons, utterances_cons, ih]

/-- Of a message with tool results, the blocks beside the results remain as the user's. -/
lemma utterances_residue (owners : ToolOwners ℕ) {message : Message}
    (brings : message.kind = .toolResult) :
    utterances (residue owners message) = message.said := by
  simp only [residue, Message.filter_leftovers, utterances, Message.said, brings]
  split <;> split <;> simp_all [utterance?]

/-- A step adds what the user says in its message. -/
lemma Step.utterances_eq {turns next : Turns} {message : Message} (h : Step turns message next) :
    utterances next.ordered = utterances turns.ordered ++ message.said := by
  cases h with
  | marks duration stated =>
    have system : message.kind = .system := by
      by_contra other
      simp [Message.statedDuration?_of_kind_ne other] at stated
    simp [ordered, utterances_annotate, Message.said, system]
  | answers brings => simp [ordered, utterances_residue turns.owners brings]
  | continues last earlier top lastTurn nextTurn =>
    have hlater : utterance? { last with content := last.content ++ message.content } = none :=
      utterance?_of_isTurn lastTurn
    have hnothing : message.said = [] := by
      cases hkind : message.kind <;> simp_all [Message.said, MessageKind.isTurn]
    simp [ordered, top, utterances_cons, hlater, utterance?_of_isTurn lastTurn, hnothing]
  | starts unstated plain apart =>
    have hself : utterances [message] = message.said := by
      by_cases user : message.kind = .user <;>
        simp [utterances, utterance?, Message.said, user, plain]
    rw [ordered, List.reverse_cons, utterances_append, hself]
    rfl

/-- The messages of the user are what the user says in the messages of the log. -/
theorem utterances_after (messages : List Message) :
    utterances (after messages).ordered = messages.flatMap Message.said := by
  induction messages using List.reverseRecOn with
  | nil => rfl
  | append_singleton messages message ih =>
    rw [after_concat, (add_step _ message).utterances_eq, ih, List.flatMap_append,
      List.flatMap_singleton]

/-- Removing repeated tool uses leaves the messages of the user as they are. -/
lemma utterances_withoutRepeatedUses (seen : List String) (messages : List Message) :
    utterances (withoutRepeatedUses seen messages) = utterances messages := by
  induction messages generalizing seen with
  | nil => rfl
  | cons message messages ih =>
    have hkeep : utterance? (keep seen message) = utterance? message := by
      unfold keep
      split
      · rename_i turn
        refine (utterance?_of_isTurn ?_).trans (utterance?_of_isTurn turn).symm
        exact turn
      · rfl
    rw [withoutRepeatedUses_cons, utterances_cons, utterances_cons, hkeep, ih]

/-- The messages of the user in a grouped log are what the user says in the messages of the log. -/
theorem utterances_group (messages : List Message) :
    utterances ((group messages).map AnsweredMessage.toMessage) =
      messages.flatMap Message.said := by
  rw [group_eq, map_toMessage_toList, utterances_withoutRepeatedUses, utterances_after]

/-- A property of all messages of the user in a grouped log is one of all that the user says. -/
lemma forall_user_group_iff (messages : List Message) (property : Fields → List Block → Prop) :
    (∀ message ∈ group messages, message.kind = .user →
      property message.metadata message.content) ↔
    ∀ message ∈ messages, ∀ said ∈ message.said, property said.1 said.2 := by
  have hall : (∀ said ∈ messages.flatMap Message.said, property said.1 said.2) ↔
      ∀ message ∈ messages, ∀ said ∈ message.said, property said.1 said.2 := by
    simp only [List.mem_flatMap, forall_exists_index, and_imp]
    exact ⟨fun h message hm said => h said message hm, fun h said message hm => h message hm said⟩
  rw [← hall, ← utterances_group]
  simp only [utterances, List.filterMap_map, List.mem_filterMap, Function.comp_apply, utterance?,
    forall_exists_index, and_imp]
  constructor
  · intro h said message hm hsaid
    split at hsaid
    · rename_i user
      obtain rfl := Option.some.inj hsaid
      exact h message hm user
    · cases hsaid
  · intro h message hm user
    exact h (message.metadata, message.content) message hm (if_pos user)

end Turns

end ChatHistory
