import ChatHistory.Proofs.Turns.Growth

/-!
# No block is lost

Grouping loses no block, invents none, and changes the order of none.  `Message.shownBlocks` says
what a message leaves in the grouped log, in terms of the messages before it: a marker nothing, a
message with tool results the results whose use is unknown and then its own blocks, a turn all but
its repeated tool uses, and any other message everything.  `group_conserves_blocks` says that the
blocks of the grouped log are these in order, and where the rest of a message with tool results
stands: `Message.remnants`.

The invariant is about two views of a grouping, `Turns.blocks` and `Turns.seen`: the blocks that
it would show now, and the identifiers that it has used in turns.  Each step adds to both
(`Step.blocks_eq`).
-/

namespace ChatHistory

namespace Message

/-- The tool results of a message for which no earlier message has a use, and which therefore stay
where they are. -/
def orphans (earlier : List Message) (message : Message) : List Block :=
  message.content.filter fun
    | .toolResult result => !(earlier.flatMap assignedIds).contains result.toolUseId
    | _ => false

/-- The blocks of a message that are no tool results. -/
def ownBlocks (message : Message) : List Block :=
  message.content.filter fun block => !block.isToolResult

/-- The blocks of a message that are no tool results are never delivered. -/
lemma filter_leftovers (owners : ToolOwners ℕ) (message : Message) :
    (message.leftovers owners).filter (fun block => !block.isToolResult) = message.ownBlocks := by
  rw [leftovers, List.filter_filter, ownBlocks]
  refine List.filter_congr fun block _ => ?_
  cases block <;> simp [Block.isToolResult]

/-- The blocks of a message that the grouped log shows. -/
def shownBlocks (earlier : List Message) (message : Message) : List Block :=
  if message.statedDuration?.isSome then []
  else if message.kind = .toolResult then message.orphans earlier ++ message.ownBlocks
  else if message.kind.isTurn then
    Block.firstUses (earlier.flatMap turnUseIds) message.content
  else message.content

/-- The blocks of some messages that the grouped log shows, where others come before them. -/
def shownFrom : List Message → List Message → List Block
  | _, [] => []
  | earlier, message :: rest =>
    message.shownBlocks earlier ++ shownFrom (earlier ++ [message]) rest

/-- What stands in the place of a message with tool results: a message with the results whose use
is unknown, and behind it one of the user with the other blocks. -/
def remnants (earlier : List Message) (message : Message) : List Message :=
  (if (message.orphans earlier).isEmpty then []
    else [{ message with content := message.orphans earlier }]) ++
  (if message.ownBlocks.isEmpty then []
    else [{ message with
      id := if (message.orphans earlier).isEmpty then message.id else message.id ++ ":user"
      kind := .user
      content := message.ownBlocks }])

/-- The blocks shown of a longer log are those of its beginning and those of the rest. -/
lemma shownFrom_append (earlier messages more : List Message) :
    shownFrom earlier (messages ++ more) =
      shownFrom earlier messages ++ shownFrom (earlier ++ messages) more := by
  induction messages generalizing earlier with
  | nil => simp [shownFrom]
  | cons message messages ih => simp [shownFrom, ih]

/-- The remnants of a message have its results of unknown uses and its own blocks. -/
lemma flatMap_content_remnants (earlier : List Message) (message : Message) :
    (message.remnants earlier).flatMap content =
      message.orphans earlier ++ message.ownBlocks := by
  unfold remnants
  cases ho : message.orphans earlier <;> cases hb : message.ownBlocks <;> simp

end Message

namespace Turns

/-- What remains of a message are its remnants. -/
lemma residue_after (earlier : List Message) (message : Message) :
    residue (after earlier).owners message = message.remnants earlier := by
  have horphans : (message.leftovers (after earlier).owners).filter Block.isToolResult =
      message.orphans earlier := by
    rw [Message.leftovers, List.filter_filter, Message.orphans]
    refine List.filter_congr fun block _ => ?_
    cases block with
    | toolResult result =>
      have haccepts : (after earlier).owners.accepts result =
          (earlier.flatMap Message.assignedIds).contains result.toolUseId := by
        rw [Bool.eq_iff_iff, accepts_after, List.contains_iff_mem]
      simp only [Block.isToolResult, haccepts, Bool.true_and]
    | _ => simp [Block.isToolResult]
  simp only [residue, horphans, Message.filter_leftovers]
  rfl

/-! ## The blocks of a grouping -/

/-- The blocks that a grouping shows, in order. -/
def blocks (turns : Turns) : List Block :=
  (withoutRepeatedUses [] turns.ordered).flatMap Message.content

/-- The identifiers that a grouping has used in turns. -/
def seen (turns : Turns) : List String :=
  turns.ordered.foldl seenAfter []

/-- Messages that grew without getting blocks show the same blocks and use the same
identifiers. -/
lemma flatMap_content_of_forall₂ {messages later : List Message}
    (h : List.Forall₂ (fun m l => m.GrowsTo l ∧ l.content = m.content) messages later)
    (seen : List String) :
    (withoutRepeatedUses seen later).flatMap Message.content =
        (withoutRepeatedUses seen messages).flatMap Message.content ∧
      later.foldl seenAfter seen = messages.foldl seenAfter seen := by
  induction h generalizing seen with
  | nil => exact ⟨rfl, rfl⟩
  | cons head _ ih =>
    obtain ⟨grown, same⟩ := head
    simp only [withoutRepeatedUses_cons, List.flatMap_cons, List.foldl_cons,
      seenAfter_congr grown.kind same, content_keep_congr grown.kind same]
    exact ⟨by rw [(ih _).1], (ih _).2⟩

/-- What remains of a message is of its kind or of the user, and holds some of its blocks. -/
lemma kind_content_of_mem_residue {owners : ToolOwners ℕ} {message remnant : Message}
    (h : remnant ∈ residue owners message) :
    (remnant.kind = message.kind ∨ remnant.kind = .user) ∧
      remnant.content.Sublist message.content := by
  unfold residue at h
  rcases List.mem_append.1 h with h | h
  · split at h
    · simp at h
    · obtain rfl := List.mem_singleton.1 h
      exact ⟨.inl rfl, List.filter_sublist.trans List.filter_sublist⟩
  · split at h
    · simp at h
    · obtain rfl := List.mem_singleton.1 h
      exact ⟨.inr rfl, List.filter_sublist.trans List.filter_sublist⟩

/-- Nothing that remains of a message with tool results is of a turn. -/
lemma not_isTurn_of_mem_residue {owners : ToolOwners ℕ} {message remnant : Message}
    (brings : message.kind = .toolResult) (h : remnant ∈ residue owners message) :
    ¬remnant.kind.isTurn := by
  obtain ⟨hkind | hkind, -⟩ := kind_content_of_mem_residue h
  · simp [hkind, brings, MessageKind.isTurn]
  · simp [hkind, MessageKind.isTurn]

/-- What a step adds to the blocks of a grouping. -/
def newBlocks (turns : Turns) (message : Message) : List Block :=
  if message.statedDuration?.isSome then []
  else if message.kind = .toolResult then (residue turns.owners message).flatMap Message.content
  else (keep turns.seen message).content

/-- Messages at the end add their blocks and identifiers. -/
lemma blocks_of_ordered_eq {turns next : Turns} {added : List Message}
    (h : next.ordered = turns.ordered ++ added) :
    next.blocks = turns.blocks ++ (withoutRepeatedUses turns.seen added).flatMap Message.content ∧
      next.seen = added.foldl seenAfter turns.seen := by
  simp only [blocks, seen, h, withoutRepeatedUses_append, List.flatMap_append, List.foldl_append,
    and_self]

/-- Every step adds its blocks at the end, and its identifiers to those seen. -/
lemma Step.blocks_eq {turns next : Turns} {message : Message} (h : Step turns message next) :
    next.blocks = turns.blocks ++ turns.newBlocks message ∧
      ∀ id, id ∈ next.seen ↔ id ∈ turns.seen ∨ id ∈ message.turnUseIds := by
  cases h with
  | marks duration stated =>
    have same := flatMap_content_of_forall₂
      (List.rel_reverse (annotate_growth duration turns.latest)) []
    have kind : ¬message.kind.isTurn := fun turn => by
      simp [Message.statedDuration?_of_isTurn turn] at stated
    simp [newBlocks, stated, blocks, seen, ordered, same.1, same.2, Message.turnUseIds, kind]
  | answers brings =>
    have kind : ¬message.kind.isTurn := by simp [brings, MessageKind.isTurn]
    have unstated : message.statedDuration? = none :=
      Message.statedDuration?_of_kind_ne (by simp [brings])
    obtain ⟨hblocks, hseen⟩ := blocks_of_ordered_eq
      (show ordered ⟨(residue turns.owners message).reverse ++ turns.latest, _⟩ =
        turns.ordered ++ residue turns.owners message by simp [ordered])
    obtain ⟨hkept, hnone⟩ := withoutRepeatedUses_of_no_turn
      (fun m hm => not_isTurn_of_mem_residue brings hm) turns.seen
    rw [hblocks, hseen, hkept, hnone]
    simp [newBlocks, unstated, brings, Message.turnUseIds, MessageKind.isTurn]
  | continues last earlier top lastTurn nextTurn =>
    have unstated := Message.statedDuration?_of_isTurn nextTurn
    have plain := Message.kind_ne_toolResult_of_isTurn nextTurn
    obtain ⟨hkeep, hseen⟩ :=
      keep_append lastTurn nextTurn (earlier.reverse.foldl seenAfter [])
    simp only [newBlocks, unstated, plain, blocks, seen, ordered, top, List.reverse_cons,
      withoutRepeatedUses_append, withoutRepeatedUses_singleton, List.flatMap_append,
      List.foldl_append, List.flatMap_singleton, List.foldl_cons, List.foldl_nil, hkeep, hseen,
      Option.isSome_none, Bool.false_eq_true, if_false, List.append_assoc, true_and]
    exact fun id => mem_seenAfter _ message id
  | starts unstated plain apart =>
    obtain ⟨hblocks, hseen⟩ := blocks_of_ordered_eq
      (show ordered ⟨message :: turns.latest, _⟩ = turns.ordered ++ [message] by simp [ordered])
    rw [hblocks, hseen]
    refine ⟨?_, fun id => mem_seenAfter turns.seen message id⟩
    simp [newBlocks, unstated, plain, withoutRepeatedUses_singleton]

/-- After some messages, the identifiers seen are those used in their turns. -/
lemma mem_seen_after (messages : List Message) (id : String) :
    id ∈ (after messages).seen ↔ id ∈ messages.flatMap Message.turnUseIds := by
  induction messages using List.reverseRecOn with
  | nil => simp [seen, ordered, empty]
  | append_singleton messages message ih =>
    rw [after_concat, (add_step _ message).blocks_eq.2, ih]
    simp

/-- The next message adds the blocks that are to be shown of it. -/
lemma newBlocks_after (earlier : List Message) (message : Message) :
    (after earlier).newBlocks message = message.shownBlocks earlier := by
  unfold newBlocks Message.shownBlocks
  rw [residue_after, Message.flatMap_content_remnants, content_keep,
    Block.firstUses_congr (mem_seen_after earlier)]

/-- After some messages, the grouping shows the blocks to be shown of them. -/
theorem blocks_after (messages : List Message) :
    (after messages).blocks = Message.shownFrom [] messages := by
  induction messages using List.reverseRecOn with
  | nil => rfl
  | append_singleton messages message ih =>
    rw [after_concat, (add_step _ message).blocks_eq.1, ih, newBlocks_after,
      Message.shownFrom_append]
    simp [Message.shownFrom]

/-- The blocks of the grouped log are those that a grouping shows. -/
lemma flatMap_content_toList (turns : Turns) :
    turns.toList.flatMap (fun message => message.content) = turns.blocks := by
  rw [blocks, ← map_toMessage_toList, List.flatMap_map]

/-- What remains of a message with tool results stands in the grouped log as it is, between the
blocks of the messages before and those of the messages behind. -/
lemma remnants_after (before behind : List Message) {message : Message}
    (brings : message.kind = .toolResult) (remains : message.remnants before ≠ []) :
    ∃ earlier later, withoutRepeatedUses [] (after (before ++ message :: behind)).ordered =
        earlier ++ message.remnants before ++ later ∧
      earlier.flatMap Message.content = (after before).blocks := by
  have plain : ∀ remnant ∈ message.remnants before, ¬remnant.kind.isTurn := by
    intro remnant hr
    rw [← residue_after] at hr
    exact not_isTurn_of_mem_residue brings hr
  have hordered : (after (before ++ [message])).ordered =
      (after before).ordered ++ message.remnants before := by
    rw [after_concat, (Step.answers brings).add_eq, residue_after]
    simp [ordered]
  have growth : Growth ((after before).ordered ++ message.remnants before)
      (after (before ++ message :: behind)).ordered := by
    rw [← hordered]
    simpa using (after_append_grows (before ++ [message]) behind).ordered
  -- No remnant is of a turn, so none of them grows, and nothing before them gets further blocks.
  obtain ⟨grown, rest, hlater, hgrown, hrest⟩ := growth.split remains
  obtain ⟨more, rfl⟩ := hrest.settled plain
  obtain ⟨hkept, hnone⟩ := withoutRepeatedUses_of_no_turn plain (grown.foldl seenAfter [])
  refine ⟨withoutRepeatedUses [] grown,
    withoutRepeatedUses (grown.foldl seenAfter []) more, ?_, ?_⟩
  · rw [hlater, withoutRepeatedUses_append, withoutRepeatedUses_append, hkept, hnone,
      List.append_assoc]
  · exact (flatMap_content_of_forall₂ hgrown []).1

/-- Grouping loses, invents and reorders no block: the blocks of the grouped log are those to be
shown of the messages in order.  The results of unknown tool uses that a message brings stand in a
message with tool results of the same identifier, and its other blocks in a message of the user
behind it. -/
theorem group_conserves_blocks (messages : List Message) :
    (group messages).flatMap (fun message => message.content) = Message.shownFrom [] messages ∧
      ∀ before message behind, messages = before ++ message :: behind →
        message.kind = .toolResult → message.remnants before ≠ [] →
          ∃ earlier later, (group messages).map AnsweredMessage.toMessage =
              earlier ++ message.remnants before ++ later ∧
            earlier.flatMap Message.content = Message.shownFrom [] before ∧
            later.flatMap Message.content =
              Message.shownFrom (before ++ [message]) behind := by
  have conserved : (group messages).flatMap (fun message => message.content) =
      Message.shownFrom [] messages := by
    rw [group_eq, flatMap_content_toList, blocks_after]
  refine ⟨conserved, ?_⟩
  rintro before message behind rfl brings remains
  obtain ⟨earlier, later, hmap, hearlier⟩ := remnants_after before behind brings remains
  rw [blocks_after] at hearlier
  rw [← map_toMessage_toList] at hmap
  refine ⟨earlier, later, hmap, hearlier, ?_⟩
  have hshown : message.shownBlocks before = (message.remnants before).flatMap Message.content := by
    have unstated : message.statedDuration? = none :=
      Message.statedDuration?_of_kind_ne (by simp [brings])
    simp [Message.shownBlocks, unstated, brings, Message.flatMap_content_remnants]
  -- The blocks behind are what is left of all blocks without those before and the remnants.
  have htotal := conserved
  rw [group_eq, ← List.flatMap_map (f := AnsweredMessage.toMessage) (g := Message.content), hmap,
    Message.shownFrom_append] at htotal
  simp only [List.flatMap_append, hearlier, Message.shownFrom, hshown, List.nil_append,
    List.append_assoc] at htotal
  exact List.append_cancel_left (List.append_cancel_left htotal)

/-- A message with the result of a known call, one of an unknown call, and a word of the user
leaves two messages. -/
theorem group_conserves_blocks_split :
    let result (id : String) : Block := .toolResult ⟨id, "", false, [], none, none⟩
    let call : Message := ⟨"a1", "c", .assistant, [.toolUse ⟨"t1", "Read", []⟩], "", []⟩
    let answer : Message :=
      ⟨"r1", "c", .toolResult, [result "t1", .text "note", result "t2"], "", []⟩
    let again : Message := ⟨"a2", "c", .assistant, [.toolUse ⟨"t1", "Read", []⟩, .text "x"], "", []⟩
    ∃ earlier later, (group [call, answer, again]).map AnsweredMessage.toMessage =
        earlier ++ [⟨"r1", "c", .toolResult, [result "t2"], "", []⟩,
          ⟨"r1:user", "c", .user, [.text "note"], "", []⟩] ++ later ∧
      earlier.flatMap Message.content = [.toolUse ⟨"t1", "Read", []⟩] ∧
      later.flatMap Message.content = [.text "x"] := by
  intro result call answer again
  have remnants : answer.remnants [call] = [⟨"r1", "c", .toolResult, [result "t2"], "", []⟩,
      ⟨"r1:user", "c", .user, [.text "note"], "", []⟩] := by rfl
  obtain ⟨earlier, later, hmap, hearlier, hlater⟩ :=
    (group_conserves_blocks [call, answer, again]).2 [call] answer [again] rfl rfl
      (by simp [remnants])
  exact ⟨earlier, later, remnants ▸ hmap, hearlier, hlater⟩

end Turns

end ChatHistory
