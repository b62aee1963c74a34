import ChatHistory.Proofs.Turns.Blocks
import Mathlib.Data.List.Nodup

/-!
# Which result a tool use gets

In a log whose tool uses all occur in turns, the owner of an identifier is the first grouped
message that uses it (`owner?_after`), and the result remembered for it is the last one that a
message with tool results brings behind its first use (`result?_after`).  The removal of repeated
tool uses keeps exactly the first use of every identifier (`filter_uses_blocks`), and it keeps it
in the message that owns it (`findIdx?_of_mem_kept`).  So in the grouped log every tool use stands
together with the last result for it (`get?_toolResults`).
-/

namespace ChatHistory

namespace Message

/-- All tool uses of some messages occur in turns. -/
def UsesInTurns (messages : List Message) : Prop :=
  ∀ message ∈ messages, ¬message.kind.isTurn → Block.uses message.content = []

/-- A message with a tool use of the given identifier. -/
def usesId (id : String) (message : Message) : Bool :=
  (Block.useIds message.content).contains id

/-- The first tool use of an identifier. -/
def firstUse? (messages : List Message) (id : String) : Option ToolUse :=
  (messages.flatMap fun message => Block.uses message.content).find? fun use => use.id = id

/-- The last result for an identifier that is brought behind the message with its first use. -/
def answer? : List Message → String → Option ToolResult
  | [], _ => none
  | message :: rest, id =>
    if message.usesId id then lastFor? (broughtResults rest) id else answer? rest id

/-- An identifier that is never used has no answer. -/
lemma answer?_eq_none {messages : List Message} {id : String}
    (h : ∀ message ∈ messages, ¬message.usesId id) : answer? messages id = none := by
  induction messages with
  | nil => rfl
  | cons message rest ih =>
    rw [answer?, if_neg (h message List.mem_cons_self)]
    exact ih fun m hm => h m (List.mem_cons_of_mem _ hm)

lemma usesInTurns_append {messages more : List Message} :
    UsesInTurns (messages ++ more) ↔ UsesInTurns messages ∧ UsesInTurns more := by
  simp only [UsesInTurns, List.forall_mem_append]

/-- A further message answers an identifier that was used before. -/
lemma answer?_concat (messages : List Message) (message : Message) (id : String) :
    answer? (messages ++ [message]) id =
      if messages.any (usesId id) then
        (lastFor? (broughtResults [message]) id).or (answer? messages id)
      else none := by
  induction messages with
  | nil => simp [answer?, broughtResults, lastFor?]
  | cons first rest ih =>
    rw [List.cons_append, answer?, answer?, List.any_cons]
    by_cases h : first.usesId id
    · simp only [h, if_true, Bool.true_or, broughtResults_append, lastFor?_append]
    · simp only [h, Bool.false_eq_true, if_false, Bool.false_or, ih]

/-- In a log with its tool uses in turns, the identifiers assigned are those used. -/
lemma mem_assignedIds {messages : List Message} (h : UsesInTurns messages) (id : String) :
    id ∈ messages.flatMap assignedIds ↔ messages.any (usesId id) := by
  have hsame : ∀ message ∈ messages, (id ∈ message.assignedIds ↔ message.usesId id) := by
    intro message hm
    unfold usesId
    rw [List.contains_iff_mem]
    by_cases turn : message.kind.isTurn
    · rw [assignedIds_of_isTurn turn]
    · have hnone : Block.useIds message.content = [] := by
        rw [Block.useIds, h message hm turn, List.map_nil]
      simp [assignedIds, hnone]
  rw [List.mem_flatMap, List.any_eq_true]
  exact exists_congr fun message => and_congr_right fun hm => hsame message hm

end Message

open Message (UsesInTurns usesId)

namespace Turns

/-! ## Owners -/

/-- Nothing that remains of a message without tool uses has tool uses. -/
lemma uses_residue {owners : ToolOwners ℕ} {message remnant : Message}
    (unused : Block.uses message.content = []) (h : remnant ∈ residue owners message) :
    Block.uses remnant.content = [] :=
  Block.uses_eq_nil_of_sublist (kind_content_of_mem_residue h).2 unused

/-- The owner of an identifier is the position of the first grouped message that uses it. -/
def OwnersFirst (turns : Turns) : Prop :=
  ∀ id, turns.owners.owner? id = turns.ordered.findIdx? (usesId id)

/-- A step keeps tool uses in turns. -/
lemma Step.usesInTurns {turns next : Turns} {message : Message} (h : Step turns message next)
    (plain : ¬message.kind.isTurn → Block.uses message.content = [])
    (before : UsesInTurns turns.ordered) : UsesInTurns next.ordered := by
  cases h with
  | marks duration stated =>
    intro m hm turn
    have hview : (m.kind, m.content) ∈ turns.latest.map fun m => (m.kind, m.content) := by
      rw [← map_annotate (fun m => (m.kind, m.content)) (fun _ _ => rfl) duration]
      exact List.mem_map_of_mem (List.mem_reverse.1 hm)
    obtain ⟨other, hother, heq⟩ := List.mem_map.1 hview
    obtain ⟨kind, content⟩ := Prod.mk.inj heq
    rw [← kind] at turn
    rw [← content]
    exact before other (List.mem_reverse.2 hother) turn
  | answers brings =>
    intro m hm turn
    rw [ordered, List.reverse_append, List.reverse_reverse, List.mem_append] at hm
    rcases hm with hm | hm
    · exact before m hm turn
    · exact uses_residue (plain (by simp [brings, MessageKind.isTurn])) hm
  | continues last earlier top lastTurn nextTurn =>
    intro m hm turn
    rw [ordered, List.reverse_cons, List.mem_append, List.mem_singleton] at hm
    rcases hm with hm | rfl
    · exact before m (by simp [ordered, top] at hm ⊢; exact .inl hm) turn
    · exact absurd lastTurn turn
  | starts unstated plainKind apart =>
    intro m hm turn
    rw [ordered, List.reverse_cons, List.mem_append, List.mem_singleton] at hm
    rcases hm with hm | rfl
    · exact before m hm turn
    · exact plain turn

/-- A step keeps owners first. -/
lemma Step.ownersFirst {turns next : Turns} {message : Message} (h : Step turns message next)
    (plain : ¬message.kind.isTurn → Block.uses message.content = [])
    (before : OwnersFirst turns) : OwnersFirst next := by
  intro id
  -- Whether a message uses an identifier is decided by its blocks, which no marker changes.
  have hcontent : usesId id = (fun blocks => (Block.useIds blocks).contains id) ∘ Message.content :=
    rfl
  cases h with
  | marks duration stated =>
    have hview := map_annotate Message.content (fun _ _ => rfl) duration turns.latest
    rw [before id, ordered, ordered, hcontent, ← List.findIdx?_map, ← List.findIdx?_map,
      List.map_reverse, List.map_reverse, hview]
  | answers brings =>
    have hnone : (residue turns.owners message).findIdx? (usesId id) = none := by
      rw [List.findIdx?_eq_none_iff]
      intro remnant hr
      have unused := uses_residue (plain (by simp [brings, MessageKind.isTurn])) hr
      simp [usesId, Block.useIds, unused]
    rw [ToolOwners.owner?_deliverAll, before id]
    simp [ordered, hnone]
  | continues last earlier top lastTurn nextTurn =>
    rw [ToolOwners.owner?_assign, before id]
    simp only [ordered, top, List.reverse_cons, List.findIdx?_append, List.findIdx?_singleton,
      usesId, Block.useIds_append]
    by_cases hlast : id ∈ Block.useIds last.content <;>
      by_cases hid : id ∈ Block.useIds message.content <;> simp [hlast, hid]
  | starts unstated plainKind apart =>
    rw [ToolOwners.owner?_assign, before id]
    simp only [ordered, List.reverse_cons, List.findIdx?_append, List.findIdx?_singleton, usesId]
    by_cases hid : id ∈ Block.useIds message.content <;> simp [hid]

/-- In a log with its tool uses in turns, the grouped messages have theirs in turns, and the owner
of an identifier is the first of them that uses it. -/
theorem owner?_after {messages : List Message} (h : UsesInTurns messages) :
    UsesInTurns (after messages).ordered ∧ OwnersFirst (after messages) := by
  induction messages using List.reverseRecOn with
  | nil =>
    refine ⟨by simp [UsesInTurns, ordered, empty], fun id => ?_⟩
    simp [ordered, empty, ToolOwners.empty, ToolOwners.owner?, Assoc.get?]
  | append_singleton messages message ih =>
    rw [Message.usesInTurns_append] at h
    obtain ⟨hturns, howners⟩ := ih h.1
    have plain := h.2 message (List.mem_singleton_self _)
    rw [after_concat]
    exact ⟨(add_step _ message).usesInTurns plain hturns,
      (add_step _ message).ownersFirst plain howners⟩

/-! ## Results -/

/-- After some messages, the result remembered for an identifier is the last one brought behind its
first use. -/
theorem result?_after {messages : List Message} (h : UsesInTurns messages) (id : String) :
    (after messages).owners.result? id = Message.answer? messages id := by
  induction messages using List.reverseRecOn with
  | nil => rfl
  | append_singleton messages message ih =>
    rw [Message.usesInTurns_append] at h
    have hassigned : ((after messages).owners.owner? id).isSome ↔ messages.any (usesId id) := by
      rw [isSome_owner?_after, Message.mem_assignedIds h.1]
    rw [after_concat, (add_step _ message).result?_eq, Message.answer?_concat, ih h.1]
    -- Both sides take up the new results exactly if the identifier was used before.
    by_cases hused : messages.any (usesId id)
    · rw [if_pos (hassigned.2 hused), if_pos hused]
    · rw [if_neg (mt hassigned.1 hused), if_neg hused]
      refine Message.answer?_eq_none fun m hm hid => hused ?_
      exact List.any_eq_true.2 ⟨m, hm, hid⟩

/-! ## Tool uses -/

/-- A tool use that is kept stands in the first message that uses its identifier. -/
lemma findIdx?_of_mem_kept {messages : List Message} (h : UsesInTurns messages)
    (seen : List String) (i : ℕ) (hi : i < (withoutRepeatedUses seen messages).length)
    {use : ToolUse} (hu : use ∈ Block.uses (withoutRepeatedUses seen messages)[i].content) :
    use.id ∉ seen ∧ messages.findIdx? (usesId use.id) = some i := by
  induction messages generalizing seen i with
  | nil => simp [withoutRepeatedUses] at hi
  | cons message rest ih =>
    have hrest : UsesInTurns rest := fun m hm => h m (List.mem_cons_of_mem _ hm)
    simp only [withoutRepeatedUses_cons] at hu hi
    rw [List.findIdx?_cons]
    cases i with
    | zero =>
      rw [List.getElem_cons_zero, content_keep] at hu
      split at hu
      · obtain ⟨hnew, hmem⟩ := Block.mem_uses_firstUses hu
        have huses : usesId use.id message := by
          rw [usesId, List.contains_iff_mem]
          exact List.mem_map_of_mem hmem
        exact ⟨hnew, if_pos huses⟩
      · rename_i turn
        rw [h message List.mem_cons_self turn] at hu
        simp at hu
    | succ i =>
      -- What is kept behind the first message has not been seen in it, so it is not used there.
      obtain ⟨hnew, hfirst⟩ := ih hrest (seenAfter seen message) i (by simpa using hi) hu
      rw [mem_seenAfter, not_or] at hnew
      have hunused : ¬usesId use.id message := by
        rw [usesId, List.contains_iff_mem]
        intro hid
        by_cases turn : message.kind.isTurn
        · exact hnew.2 (by rwa [Message.turnUseIds, if_pos turn])
        · simp [Block.useIds, h message List.mem_cons_self turn] at hid
      refine ⟨hnew.1, ?_⟩
      rw [if_neg hunused, hfirst]
      rfl

/-- Removing repeated tool uses keeps tool uses in turns. -/
lemma usesInTurns_withoutRepeatedUses {messages : List Message} (h : UsesInTurns messages)
    (seen : List String) : UsesInTurns (withoutRepeatedUses seen messages) := by
  induction messages generalizing seen with
  | nil => exact h
  | cons message rest ih =>
    intro m hm turn
    rw [withoutRepeatedUses_cons, List.mem_cons] at hm
    rcases hm with rfl | hm
    · by_cases kept : message.kind.isTurn
      · simp [keep, kept] at turn
      · rw [keep_of_not_isTurn kept]
        exact h message List.mem_cons_self kept
    · exact ih (fun m hm => h m (List.mem_cons_of_mem _ hm)) _ m hm turn

/-- The grouped messages have their tool uses in turns. -/
lemma usesInTurns_group {messages : List Message} (h : UsesInTurns messages)
    {message : AnsweredMessage} (hm : message ∈ group messages) (turn : ¬message.kind.isTurn) :
    Block.uses message.content = [] := by
  have hmem : message.toMessage ∈ withoutRepeatedUses [] (after messages).ordered := by
    rw [← map_toMessage_toList]
    exact List.mem_map_of_mem hm
  exact usesInTurns_withoutRepeatedUses (owner?_after h).1 [] message.toMessage hmem turn

/-- A message that is of no turn shows no tool uses if it has none. -/
lemma uses_shownBlocks {message : Message} (turn : ¬message.kind.isTurn)
    (unused : Block.uses message.content = []) (earlier : List Message) :
    Block.uses (message.shownBlocks earlier) = [] := by
  have hfilter : ∀ shows : Block → Bool, Block.uses (message.content.filter shows) = [] :=
    fun _ => Block.uses_eq_nil_of_sublist List.filter_sublist unused
  unfold Message.shownBlocks
  split
  · rfl
  · split
    · rw [Block.uses_append, Message.orphans, Message.ownBlocks, hfilter, hfilter]
      rfl
    · exact unused

/-- Of the uses of one identifier in a message the first one is shown, unless it was used
earlier. -/
lemma filter_uses_shownBlocks {message : Message}
    (plain : ¬message.kind.isTurn → Block.uses message.content = []) (earlier : List Message)
    (id : String) :
    (Block.uses (message.shownBlocks earlier)).filter (fun use => use.id = id) =
      if id ∈ earlier.flatMap Message.turnUseIds then []
      else ((Block.uses message.content).find? fun use => use.id = id).toList := by
  by_cases turn : message.kind.isTurn
  · have hshown : message.shownBlocks earlier =
        Block.firstUses (earlier.flatMap Message.turnUseIds) message.content := by
      simp [Message.shownBlocks, Message.statedDuration?_of_isTurn turn,
        Message.kind_ne_toolResult_of_isTurn turn, turn]
    rw [hshown, Block.filter_uses_firstUses]
  · simp [uses_shownBlocks turn (plain turn), plain turn]

/-- The identifiers of a turn are those with a first use in it. -/
lemma mem_turnUseIds_iff {message : Message}
    (plain : ¬message.kind.isTurn → Block.uses message.content = []) (id : String) :
    id ∈ message.turnUseIds ↔
      ((Block.uses message.content).find? fun use => use.id = id).isSome := by
  have hids : message.turnUseIds = Block.useIds message.content := by
    by_cases turn : message.kind.isTurn
    · exact if_pos turn
    · simp [Message.turnUseIds, turn, Block.useIds, plain turn]
  rw [hids, Block.useIds, List.find?_isSome, List.mem_map]
  simp

/-- Of the uses of one identifier the first one is shown, unless it was used earlier. -/
lemma filter_uses_shownFrom {messages : List Message} (h : UsesInTurns messages)
    (earlier : List Message) (id : String) :
    (Block.uses (Message.shownFrom earlier messages)).filter (fun use => use.id = id) =
      if id ∈ earlier.flatMap Message.turnUseIds then []
      else (Message.firstUse? messages id).toList := by
  induction messages generalizing earlier with
  | nil => simp [Message.shownFrom, Message.firstUse?]
  | cons message rest ih =>
    have hrest : UsesInTurns rest := fun m hm => h m (List.mem_cons_of_mem _ hm)
    have plain := h message List.mem_cons_self
    have hfirst : Message.firstUse? (message :: rest) id =
        ((Block.uses message.content).find? fun use => use.id = id).or
          (Message.firstUse? rest id) := by
      rw [Message.firstUse?, List.flatMap_cons, List.find?_append]
      rfl
    rw [Message.shownFrom, Block.uses_append, List.filter_append, ih hrest, hfirst,
      filter_uses_shownBlocks plain]
    simp only [List.flatMap_append, List.flatMap_singleton, List.mem_append,
      mem_turnUseIds_iff plain]
    by_cases hold : id ∈ earlier.flatMap Message.turnUseIds
    · simp only [hold, true_or, if_true, List.append_nil]
    · cases (Block.uses message.content).find? fun use => use.id = id <;> simp [hold]

/-- The grouped log has exactly the first tool use of every identifier. -/
theorem filter_uses_blocks {messages : List Message} (h : UsesInTurns messages) (id : String) :
    (Block.uses (after messages).blocks).filter (fun use => use.id = id) =
      (Message.firstUse? messages id).toList := by
  rw [blocks_after, filter_uses_shownFrom h]
  simp

/-- The grouped log uses no identifier twice. -/
lemma nodup_useIds_blocks {messages : List Message} (h : UsesInTurns messages) :
    (Block.useIds (after messages).blocks).Nodup := by
  rw [List.nodup_iff_count_le_one]
  intro id
  have hcount : (Block.useIds (after messages).blocks).count id =
      ((Block.uses (after messages).blocks).filter fun use => use.id = id).length := by
    rw [Block.useIds, List.count, List.countP_map, List.countP_eq_length_filter]
    rfl
  rw [hcount, filter_uses_blocks h]
  cases Message.firstUse? messages id <;> simp

/-- In the grouped log, every tool use stands with the last result brought behind its first use. -/
theorem get?_toolResults {messages : List Message} (h : UsesInTurns messages)
    {message : AnsweredMessage} (hm : message ∈ group messages) {use : ToolUse}
    (hu : use ∈ Block.uses message.content) :
    message.toolResults.get? use.id = Message.answer? messages use.id := by
  obtain ⟨hturns, howners⟩ := owner?_after h
  obtain ⟨i, hi, rfl⟩ := List.mem_iff_getElem.1 hm
  simp only [group_eq, getElem_toList, List.get_eq_getElem] at hu ⊢
  obtain ⟨-, hfirst⟩ := findIdx?_of_mem_kept hturns [] i _ hu
  rw [ToolOwners.get?_resultsOf, howners use.id, if_pos hfirst, result?_after h]

end Turns

end ChatHistory
