import ChatHistory.Message.Turns
import ChatHistory.Proofs.ToolOwners
import Mathlib.Data.List.Induction

/-!
# What one message does to a grouping

`Turns.Step` lists the four things that the next message of a log can do: a marker annotates the
latest turn, the results of a message are delivered and the rest of it is appended, a message of
the assistant continues the latest turn, and any other message starts a message of its own.
`add_step` says that adding a message is always one of these, so a property of groupings is proved
by one case for each, and `Step.add_eq` that no other case can occur.

`Turns.after` is the grouping of a whole log.  A result can be delivered for exactly those
identifiers that `Message.assignedIds` collects over the log (`isSome_owner?_after`), and every
result that is remembered was brought by one of its messages (`result?_after_append`).
-/

namespace ChatHistory

namespace Message

/-- The identifiers that get an owner when the message is added: those of its tool uses, unless the
message is a marker or brings tool results. -/
def assignedIds (message : Message) : List String :=
  if message.statedDuration?.isSome ∨ message.kind = .toolResult then []
  else Block.useIds message.content

/-- The results in the messages with tool results. -/
def broughtResults (messages : List Message) : List ToolResult :=
  (messages.filter fun message => message.kind = .toolResult).flatMap
    fun message => Block.results message.content

/-- Only a message of the system can be a marker. -/
lemma statedDuration?_of_kind_ne {message : Message} (h : message.kind ≠ .system) :
    message.statedDuration? = none := by
  simp [statedDuration?, h]

/-- A message of a turn is no marker. -/
lemma statedDuration?_of_isTurn {message : Message} (h : message.kind.isTurn) :
    message.statedDuration? = none := by
  apply statedDuration?_of_kind_ne
  intro hs
  simp [hs, MessageKind.isTurn] at h

/-- A message of a turn brings no results. -/
lemma kind_ne_toolResult_of_isTurn {message : Message} (h : message.kind.isTurn) :
    message.kind ≠ .toolResult := by
  intro hr
  simp [hr, MessageKind.isTurn] at h

/-- All tool uses of a turn get an owner. -/
lemma assignedIds_of_isTurn {message : Message} (h : message.kind.isTurn) :
    message.assignedIds = Block.useIds message.content := by
  simp [assignedIds, statedDuration?_of_isTurn h, kind_ne_toolResult_of_isTurn h]

lemma broughtResults_singleton (message : Message) :
    broughtResults [message] =
      if message.kind = .toolResult then Block.results message.content else [] := by
  by_cases h : message.kind = .toolResult <;> simp [broughtResults, h]

lemma broughtResults_append (messages more : List Message) :
    broughtResults (messages ++ more) = broughtResults messages ++ broughtResults more := by
  simp [broughtResults]

end Message

namespace Turns

/-- What the next message can do to a grouping. -/
inductive Step (turns : Turns) (message : Message) : Turns → Prop
  /-- A marker is noted on the latest turn. -/
  | marks (duration : Json) (stated : message.statedDuration? = some duration) :
      Step turns message ⟨annotate duration turns.latest, turns.owners⟩
  /-- The results are delivered, and what cannot be delivered stays. -/
  | answers (brings : message.kind = .toolResult) :
      Step turns message
        ⟨(residue turns.owners message).reverse ++ turns.latest,
          turns.owners.deliverAll (Block.results message.content)⟩
  /-- The message continues the latest turn. -/
  | continues (last : Message) (earlier : List Message) (top : turns.latest = last :: earlier)
      (lastTurn : last.kind.isTurn) (nextTurn : message.kind.isTurn) :
      Step turns message
        ⟨{ last with content := last.content ++ message.content } :: earlier,
          turns.owners.assign earlier.length message.content⟩
  /-- The message stands on its own. -/
  | starts (unstated : message.statedDuration? = none) (plain : message.kind ≠ .toolResult)
      (apart : ∀ last ∈ turns.latest.head?, ¬(last.kind.isTurn ∧ message.kind.isTurn)) :
      Step turns message
        ⟨message :: turns.latest, turns.owners.assign turns.latest.length message.content⟩

/-- Adding a message is one of the four steps. -/
theorem add_step (turns : Turns) (message : Message) : Step turns message (turns.add message) := by
  unfold add
  cases hs : message.statedDuration? with
  | some duration => exact .marks duration hs
  | none =>
    by_cases hk : message.kind = .toolResult
    · simp only [hk, if_true]
      exact .answers hk
    · simp only [hk, if_false, addMessage]
      obtain ⟨latest, owners⟩ := turns
      cases latest with
      | nil => exact .starts hs hk (by simp)
      | cons last earlier =>
        by_cases hj : last.kind.isTurn ∧ message.kind.isTurn
        · simp only [hj.1, hj.2, Bool.and_self, if_true]
          exact .continues last earlier rfl hj.1 hj.2
        · simp only [← Bool.and_eq_true] at hj
          simp only [hj, Bool.false_eq_true, if_false]
          exact .starts hs hk (by simpa using hj)

/-- Each step is the one that adding the message takes. -/
theorem Step.add_eq {turns next : Turns} {message : Message} (h : Step turns message next) :
    turns.add message = next := by
  cases h with
  | marks duration stated => simp [add, stated]
  | answers brings =>
    have unstated : message.statedDuration? = none :=
      Message.statedDuration?_of_kind_ne (by simp [brings])
    simp only [add, unstated, brings, if_true]
    rfl
  | continues last earlier top lastTurn nextTurn =>
    simp [add, Message.statedDuration?_of_isTurn nextTurn,
      Message.kind_ne_toolResult_of_isTurn nextTurn, addMessage, top, lastTurn, nextTurn]
  | starts unstated plain apart =>
    simp only [add, unstated, plain, if_false, addMessage]
    obtain ⟨latest, owners⟩ := turns
    cases latest with
    | nil => rfl
    | cons last earlier =>
      have hj : ¬(last.kind.isTurn && message.kind.isTurn) := by
        rw [Bool.and_eq_true]
        exact apart last rfl
      exact if_neg hj

/-- The grouping of some messages. -/
def after (messages : List Message) : Turns :=
  messages.foldl add empty

@[simp] lemma after_nil : after [] = empty := rfl

@[simp] lemma after_concat (messages : List Message) (message : Message) :
    after (messages ++ [message]) = (after messages).add message := by
  simp [after]

lemma after_append (messages more : List Message) :
    after (messages ++ more) = more.foldl add (after messages) := by
  simp [after]

lemma group_eq (messages : List Message) : group messages = (after messages).toList := rfl

/-- Noting a duration changes nothing but metadata. -/
lemma map_annotate {α : Type} (view : Message → α)
    (ignores : ∀ message metadata, view { message with metadata := metadata } = view message)
    (duration : Json) (messages : List Message) :
    (annotate duration messages).map view = messages.map view := by
  induction messages with
  | nil => rfl
  | cons message earlier ih =>
    unfold annotate
    split
    · rw [List.map_cons, List.map_cons, ignores]
    · rw [List.map_cons, List.map_cons, ih]

/-! ## Owners of tool uses -/

/-- A step assigns exactly the identifiers of the message. -/
lemma Step.isSome_owner? {turns next : Turns} {message : Message} (h : Step turns message next)
    (id : String) :
    (next.owners.owner? id).isSome ↔
      (turns.owners.owner? id).isSome ∨ id ∈ message.assignedIds := by
  cases h with
  | marks duration stated => simp [Message.assignedIds, stated]
  | answers brings => simp [Message.assignedIds, brings]
  | continues last earlier top lastTurn nextTurn =>
    simp [ToolOwners.owner?_assign, Message.assignedIds_of_isTurn nextTurn]
  | starts unstated plain apart =>
    simp [ToolOwners.owner?_assign, Message.assignedIds, unstated, plain]

/-- After some messages the identifiers with an owner are those that the messages assign. -/
theorem isSome_owner?_after (messages : List Message) (id : String) :
    ((after messages).owners.owner? id).isSome ↔ id ∈ messages.flatMap Message.assignedIds := by
  induction messages using List.reverseRecOn with
  | nil => simp [empty, ToolOwners.empty, ToolOwners.owner?, Assoc.get?]
  | append_singleton messages message ih =>
    rw [after_concat, (add_step _ message).isSome_owner?, ih]
    simp

/-- A result is accepted after some messages exactly if they assign its identifier. -/
lemma accepts_after (messages : List Message) (result : ToolResult) :
    (after messages).owners.accepts result ↔
      result.toolUseId ∈ messages.flatMap Message.assignedIds := by
  rw [ToolOwners.accepts, isSome_owner?_after]

/-! ## Results of tool uses -/

/-- A step delivers the results that the message brings. -/
lemma Step.result?_eq {turns next : Turns} {message : Message} (h : Step turns message next)
    (id : String) :
    next.owners.result? id =
      if (turns.owners.owner? id).isSome then
        (lastFor? (Message.broughtResults [message]) id).or (turns.owners.result? id)
      else turns.owners.result? id := by
  rw [Message.broughtResults_singleton]
  cases h with
  | marks duration stated =>
    have plain : message.kind ≠ .toolResult := fun brings => by
      simp [Message.statedDuration?_of_kind_ne, brings] at stated
    simp [plain, lastFor?_nil]
  | answers brings => simp [brings, ToolOwners.result?_deliverAll]
  | continues last earlier top lastTurn nextTurn =>
    simp [Message.kind_ne_toolResult_of_isTurn nextTurn, lastFor?_nil]
  | starts unstated plain apart => simp [plain, lastFor?_nil]

/-- A result that is remembered after further messages was remembered before, or one of them brought
it. -/
lemma result?_after_append {messages more : List Message} {id : String} {result : ToolResult}
    (h : (after (messages ++ more)).owners.result? id = some result) :
    (after messages).owners.result? id = some result ∨ result ∈ Message.broughtResults more := by
  induction more using List.reverseRecOn with
  | nil => exact .inl (by simpa using h)
  | append_singleton more message ih =>
    rw [← List.append_assoc, after_concat, (add_step _ message).result?_eq] at h
    rw [Message.broughtResults_append, List.mem_append]
    have before : (after (messages ++ more)).owners.result? id = some result →
        (after messages).owners.result? id = some result ∨
          result ∈ Message.broughtResults more ∨ result ∈ Message.broughtResults [message] :=
      fun h => (ih h).imp_right .inl
    split at h
    · rcases Option.or_eq_some_iff.1 h with hnew | ⟨-, hold⟩
      · exact .inr (.inr (mem_of_lastFor?_eq_some hnew).1)
      · exact before hold
    · exact before h

end Turns

end ChatHistory
