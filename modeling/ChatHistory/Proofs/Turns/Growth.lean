import ChatHistory.Proofs.Turns.RepeatedUses
import Mathlib.Data.List.Forall2

/-!
# What is grouped stays grouped

Adding messages to a log never rewrites the messages that are grouped already.  `Growth` says of
two lists of grouped messages that the second one continues the first: all messages of the first
keep their place, only the last of them may get further blocks, and nothing but the duration may
change in the metadata.  Every step of the grouping is a growth (`Step.grows`), growth is
transitive, and the removal of repeated tool uses respects it (`Growth.withoutRepeatedUses`),
because the uses that are kept do not depend on what follows.

`Placed` says that owners are places of messages that are there (`placed_after`).  So the results
that a longer log correlates beyond those of its beginning come with the further messages.
-/

namespace ChatHistory

/-- What may happen to a grouped message later: a turn gets blocks behind its own and durations in
its metadata, and all other messages stay as they are. -/
structure Message.GrowsTo (message later : Message) : Prop where
  id : later.id = message.id
  chatId : later.chatId = message.chatId
  kind : later.kind = message.kind
  timestamp : later.timestamp = message.timestamp
  content : message.content <+: later.content
  metadata : ∀ name, name ≠ turnDurationField →
    later.metadata.get? name = message.metadata.get? name
  settled : ¬message.kind.isTurn → later = message

/-- What a longer log keeps of a grouped message: everything but durations and the values of
results, with further blocks behind its own. -/
structure AnsweredMessage.KeptIn (message later : AnsweredMessage) : Prop where
  grown : message.toMessage.GrowsTo later.toMessage
  answered : ∀ id, (message.toolResults.get? id).isSome → (later.toolResults.get? id).isSome

namespace Message.GrowsTo

lemma refl (message : Message) : message.GrowsTo message where
  id := rfl
  chatId := rfl
  kind := rfl
  timestamp := rfl
  content := List.prefix_rfl
  metadata := fun _ _ => rfl
  settled := fun _ => rfl

lemma trans {message later last : Message} (h : message.GrowsTo later) (h' : later.GrowsTo last) :
    message.GrowsTo last where
  id := h'.id.trans h.id
  chatId := h'.chatId.trans h.chatId
  kind := h'.kind.trans h.kind
  timestamp := h'.timestamp.trans h.timestamp
  content := h.content.trans h'.content
  metadata name hn := (h'.metadata name hn).trans (h.metadata name hn)
  settled hk := by
    have hlater : later = message := h.settled hk
    rw [← hlater] at hk ⊢
    exact h'.settled hk

/-- A turn may get further blocks. -/
lemma append_content {message : Message} (turn : message.kind.isTurn) (blocks : List Block) :
    message.GrowsTo { message with content := message.content ++ blocks } where
  id := rfl
  chatId := rfl
  kind := rfl
  timestamp := rfl
  content := List.prefix_append _ _
  metadata := fun _ _ => rfl
  settled hk := absurd turn hk

/-- A turn may get a duration. -/
lemma note_duration {message : Message} (turn : message.kind.isTurn) (duration : Json) :
    message.GrowsTo
      { message with metadata := Assoc.set message.metadata turnDurationField duration } where
  id := rfl
  chatId := rfl
  kind := rfl
  timestamp := rfl
  content := List.prefix_rfl
  metadata name hn := by rw [Assoc.get?_set, if_neg hn.symm]
  settled hk := absurd turn hk

end Message.GrowsTo

namespace Turns

/-- The second list of messages continues the first: only the last message of the first may have
got further blocks. -/
inductive Growth : List Message → List Message → Prop
  | nil (more : List Message) : Growth [] more
  | last {message later : Message} (grown : message.GrowsTo later) (more : List Message) :
      Growth [message] (later :: more)
  | cons {message later : Message} {rest more : List Message} (grown : message.GrowsTo later)
      (same : later.content = message.content) (tail : Growth rest more) :
      Growth (message :: rest) (later :: more)

namespace Growth

/-- Messages that grew without getting blocks are a growth. -/
lemma of_forall₂ {messages later : List Message}
    (h : List.Forall₂ (fun m l => m.GrowsTo l ∧ l.content = m.content) messages later) :
    Growth messages later := by
  induction h with
  | nil => exact .nil []
  | cons head _ ih => exact .cons head.1 head.2 ih

/-- The last of some messages may grow while others follow. -/
lemma append_last (messages : List Message) {message later : Message}
    (grown : message.GrowsTo later) (more : List Message) :
    Growth (messages ++ [message]) (messages ++ later :: more) := by
  induction messages with
  | nil => exact .last grown more
  | cons head rest ih => exact .cons (.refl head) rfl ih

/-- Messages may follow. -/
lemma append (messages more : List Message) : Growth messages (messages ++ more) := by
  induction messages with
  | nil => exact .nil more
  | cons head rest ih => exact .cons (.refl head) rfl ih

lemma refl (messages : List Message) : Growth messages messages := by
  simpa using append messages []

lemma trans {messages later last : List Message} (h : Growth messages later)
    (h' : Growth later last) : Growth messages last := by
  induction h generalizing last with
  | nil => exact .nil last
  | last grown more =>
    cases h' with
    | last grown' more' => exact .last (grown.trans grown') more'
    | cons grown' same' tail' => exact .last (grown.trans grown') _
  | cons grown same tail ih =>
    cases h' with
    | last grown' more' =>
      -- Nothing follows in the middle list, so nothing follows in the first one either.
      cases tail with
      | nil => exact .last (grown.trans grown') more'
    | cons grown' same' tail' => exact .cons (grown.trans grown') (same'.trans same) (ih tail')

/-- What a growth says about one place. -/
lemma getElem {messages later : List Message} (h : Growth messages later) (i : ℕ)
    (hi : i < messages.length) :
    ∃ hl : i < later.length, messages[i].GrowsTo later[i] ∧
      (i + 1 < messages.length → later[i].content = messages[i].content) := by
  induction h generalizing i with
  | nil more => simp at hi
  | last grown more =>
    obtain rfl : i = 0 := by simpa using hi
    exact ⟨by simp, grown, by simp⟩
  | cons grown same tail ih =>
    cases i with
    | zero => exact ⟨by simp, grown, fun _ => same⟩
    | succ i =>
      obtain ⟨hl, hgrown, hsame⟩ := ih i (by simpa using hi)
      exact ⟨by simpa using hl, hgrown, fun hlast => hsame (by simpa using hlast)⟩

/-- All messages but the last one of a growth keep their blocks. -/
lemma split {messages more later : List Message} (h : Growth (messages ++ more) later)
    (hmore : more ≠ []) :
    ∃ grown rest, later = grown ++ rest ∧
      List.Forall₂ (fun m l => m.GrowsTo l ∧ l.content = m.content) messages grown ∧
        Growth more rest := by
  induction messages generalizing later with
  | nil => exact ⟨[], later, rfl, .nil, h⟩
  | cons message messages ih =>
    rw [List.cons_append] at h
    generalize hrest : messages ++ more = rest at h
    cases h with
    | last grown others => simp [hmore] at hrest
    | cons grown same tail =>
      obtain ⟨kept, rest, rfl, hkept, hgrowth⟩ := ih (hrest ▸ tail)
      exact ⟨_ :: kept, rest, rfl, .cons ⟨grown, same⟩ hkept, hgrowth⟩

/-- Messages that are not of turns stay as they are. -/
lemma settled {messages later : List Message} (h : Growth messages later)
    (plain : ∀ message ∈ messages, ¬message.kind.isTurn) : messages <+: later := by
  induction h with
  | nil more => exact List.nil_prefix
  | last grown more =>
    rw [grown.settled (plain _ List.mem_cons_self)]
    exact ⟨more, rfl⟩
  | cons grown same tail ih =>
    rw [grown.settled (plain _ List.mem_cons_self), List.cons_prefix_cons]
    exact ⟨rfl, ih fun m hm => plain m (List.mem_cons_of_mem _ hm)⟩

end Growth

/-! ## One step -/

/-- A noted duration leaves all blocks as they are. -/
lemma annotate_growth (duration : Json) (messages : List Message) :
    List.Forall₂ (fun m l => m.GrowsTo l ∧ l.content = m.content) messages
      (annotate duration messages) := by
  induction messages with
  | nil => exact .nil
  | cons message earlier ih =>
    unfold annotate
    split
    · rename_i turn
      refine .cons ⟨.note_duration turn duration, rfl⟩ ?_
      exact List.forall₂_same.2 fun m _ => ⟨.refl m, rfl⟩
    · exact .cons ⟨.refl message, rfl⟩ ih

/-- The second grouping continues the first: the messages grew, owners stayed, and no identifier
lost its result. -/
structure Grows (turns later : Turns) : Prop where
  ordered : Growth turns.ordered later.ordered
  owner : ∀ id owner, turns.owners.owner? id = some owner → later.owners.owner? id = some owner
  result : ∀ id, (turns.owners.result? id).isSome → (later.owners.result? id).isSome

namespace Grows

lemma refl (turns : Turns) : Grows turns turns where
  ordered := .refl _
  owner := fun _ _ h => h
  result := fun _ h => h

lemma trans {turns later last : Turns} (h : Grows turns later) (h' : Grows later last) :
    Grows turns last where
  ordered := h.ordered.trans h'.ordered
  owner id owner ho := h'.owner id owner (h.owner id owner ho)
  result id hr := h'.result id (h.result id hr)

end Grows

/-- Every step continues the grouping. -/
lemma Step.grows {turns next : Turns} {message : Message} (h : Step turns message next) :
    Grows turns next := by
  cases h with
  | marks duration stated =>
    refine ⟨?_, fun _ _ ho => ho, fun _ hr => hr⟩
    exact .of_forall₂ (List.rel_reverse (annotate_growth duration turns.latest))
  | answers brings =>
    refine ⟨?_, fun id owner ho => by simpa using ho, fun id hr => ?_⟩
    · simpa [ordered] using Growth.append turns.ordered (residue turns.owners message)
    · rw [ToolOwners.result?_deliverAll]
      split
      · simp [Option.isSome_or, hr]
      · exact hr
  | continues last earlier top lastTurn nextTurn =>
    refine ⟨?_, fun id owner ho => ?_, fun id hr => by simpa using hr⟩
    · have grown := Message.GrowsTo.append_content lastTurn message.content
      simpa [ordered, top] using Growth.append_last earlier.reverse grown []
    · simp [ToolOwners.owner?_assign, ho]
  | starts unstated plain apart =>
    refine ⟨?_, fun id owner ho => ?_, fun id hr => by simpa using hr⟩
    · simpa [ordered] using Growth.append turns.ordered [message]
    · simp [ToolOwners.owner?_assign, ho]

/-- A longer log continues the grouping of its beginning. -/
theorem after_append_grows (messages more : List Message) :
    Grows (after messages) (after (messages ++ more)) := by
  induction more using List.reverseRecOn with
  | nil => simpa using Grows.refl (after messages)
  | append_singleton more message ih =>
    rw [← List.append_assoc, after_concat]
    exact ih.trans (add_step _ message).grows

/-! ## Places of owners -/

/-- Owners are places of grouped messages, and only identifiers with an owner have results. -/
structure Placed (turns : Turns) : Prop where
  owner : ∀ id owner, turns.owners.owner? id = some owner → owner < turns.ordered.length
  result : ∀ id, (turns.owners.result? id).isSome → (turns.owners.owner? id).isSome

/-- A step assigns tool uses only to messages that are there. -/
lemma Step.placed {turns next : Turns} {message : Message} (h : Step turns message next)
    (placed : Placed turns) : Placed next where
  owner id owner ho := by
    cases h with
    | marks duration stated =>
      have hlength := (annotate_growth duration turns.latest).length_eq
      have hlt := placed.owner id owner ho
      simp only [ordered, List.length_reverse] at hlt ⊢
      omega
    | answers brings =>
      have hlt := placed.owner id owner (by simpa using ho)
      simp only [ordered, List.length_reverse, List.length_append] at hlt ⊢
      omega
    | continues last earlier top lastTurn nextTurn =>
      simp only [ordered, List.length_reverse, List.length_cons]
      rcases ToolOwners.owner?_assign_cases ho with hold | rfl
      · simpa [ordered, top] using placed.owner id owner hold
      · exact Nat.lt_succ_self _
    | starts unstated plain apart =>
      simp only [ordered, List.length_reverse, List.length_cons]
      rcases ToolOwners.owner?_assign_cases ho with hold | rfl
      · have hlt := placed.owner id owner hold
        rw [ordered, List.length_reverse] at hlt
        omega
      · exact Nat.lt_succ_self _
  result id hr := by
    rw [h.isSome_owner?]
    rw [h.result?_eq] at hr
    split at hr
    · rename_i ho
      exact .inl ho
    · exact .inl (placed.result id hr)

/-- After any messages, owners are places of grouped messages. -/
theorem placed_after (messages : List Message) : Placed (after messages) := by
  induction messages using List.reverseRecOn with
  | nil =>
    constructor
    · intro id owner ho
      simp [empty, ToolOwners.empty, ToolOwners.owner?, Assoc.get?] at ho
    · exact fun id hr => hr
  | append_singleton messages message ih =>
    rw [after_concat]
    exact (add_step _ message).placed ih

/-! ## Repeated tool uses -/

/-- A message that grew keeps growing when repeated tool uses are removed. -/
lemma keep_growsTo {message later : Message} (h : message.GrowsTo later) (seen : List String) :
    (keep seen message).GrowsTo (keep seen later) := by
  by_cases turn : message.kind.isTurn
  · obtain ⟨more, hmore⟩ := h.content
    have turnLater : later.kind.isTurn := by rw [h.kind]; exact turn
    simp only [Turns.keep, turn, turnLater, if_true]
    refine ⟨h.id, h.chatId, h.kind, h.timestamp, ?_, h.metadata, fun hk => absurd turn hk⟩
    rw [← hmore, dropRepeated_append]
    exact List.prefix_append _ _
  · rw [h.settled turn]
    exact .refl _

/-- Removing repeated tool uses respects growth: which uses are kept of a message depends only on
the messages before it. -/
lemma Growth.withoutRepeatedUses {messages later : List Message} (h : Growth messages later)
    (seen : List String) :
    Growth (withoutRepeatedUses seen messages) (withoutRepeatedUses seen later) := by
  induction h generalizing seen with
  | nil more => exact .nil _
  | last grown more =>
    rw [withoutRepeatedUses_cons, withoutRepeatedUses_cons]
    exact .last (keep_growsTo grown seen) _
  | cons grown same tail ih =>
    rw [withoutRepeatedUses_cons, withoutRepeatedUses_cons, seenAfter_congr grown.kind same]
    exact .cons (keep_growsTo grown seen) (content_keep_congr grown.kind same seen) (ih _)

/-! ## Longer logs -/

/-- What a longer log keeps of the group at one place. -/
lemma keptIn_group_append (messages more : List Message) (i : ℕ)
    (hi : i < (group messages).length) :
    ∃ hl : i < (group (messages ++ more)).length,
      (group messages)[i].KeptIn (group (messages ++ more))[i] ∧
        (i + 1 < (group messages).length →
          (group (messages ++ more))[i].content = (group messages)[i].content) := by
  have grows := after_append_grows messages more
  have growth := grows.ordered.withoutRepeatedUses []
  simp only [group_eq, length_toList] at hi ⊢
  obtain ⟨hl, grown, same⟩ := growth.getElem i (by simpa using hi)
  simp only [length_withoutRepeatedUses] at hl same
  refine ⟨hl, ⟨?_, ?_⟩, ?_⟩
  · simpa [getElem_toList] using grown
  · intro id
    simp only [getElem_toList, ToolOwners.get?_resultsOf]
    split
    · rename_i ho
      rw [if_pos (grows.owner id i ho)]
      exact grows.result id
    · simp
  · simpa [getElem_toList] using same

/-- A result that a longer log correlates was correlated in the same place before, or came with one
of the further messages. -/
lemma get?_toolResults_group_append (messages more : List Message) (i : ℕ)
    (hl : i < (group (messages ++ more)).length) {id : String} {result : ToolResult}
    (h : (group (messages ++ more))[i].toolResults.get? id = some result) :
    (∃ hi : i < (group messages).length,
        (group messages)[i].toolResults.get? id = some result) ∨
      result ∈ Message.broughtResults more := by
  simp only [group_eq, getElem_toList, ToolOwners.get?_resultsOf, length_toList] at h ⊢
  split at h
  · rename_i howner
    rcases result?_after_append h with hbefore | hmore
    · -- The identifier had an owner then, and owners stay, so it is this place.
      have placed := placed_after messages
      obtain ⟨owner, hold⟩ := Option.isSome_iff_exists.1 (placed.result id (by simp [hbefore]))
      have hlater := (after_append_grows messages more).owner id owner hold
      obtain rfl : owner = i := by simpa [hlater] using howner
      exact .inl ⟨placed.owner id owner hold, by rw [if_pos hold, hbefore]⟩
    · exact .inr hmore
  · simp at h

/-- Grouping a longer log never rewrites the groups of its beginning: each of them keeps its place,
and all but the last of them their blocks.  What the longer log correlates in addition are only
results that the further messages bring. -/
theorem group_append_keeps (messages more : List Message) :
    (group messages).length ≤ (group (messages ++ more)).length ∧
      (∀ i (hi : i < (group messages).length),
        ∃ hl : i < (group (messages ++ more)).length,
          (group messages)[i].KeptIn (group (messages ++ more))[i] ∧
            (i + 1 < (group messages).length →
              (group (messages ++ more))[i].content = (group messages)[i].content)) ∧
      ∀ i (hl : i < (group (messages ++ more)).length) id result,
        (group (messages ++ more))[i].toolResults.get? id = some result →
          (∃ hi : i < (group messages).length,
            (group messages)[i].toolResults.get? id = some result) ∨
          result ∈ Message.broughtResults more := by
  refine ⟨?_, keptIn_group_append messages more, fun i hl id result h =>
    get?_toolResults_group_append messages more i hl h⟩
  by_contra hlt
  obtain ⟨hl, -⟩ := keptIn_group_append messages more (group (messages ++ more)).length (by omega)
  omega

end Turns

end ChatHistory
