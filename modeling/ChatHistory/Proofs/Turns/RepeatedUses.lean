import ChatHistory.Proofs.Turns.Step
import Mathlib.Tactic.Tauto

/-!
# Removing repeated tool uses

`Turns.withoutRepeatedUses` passes once over the grouped messages and remembers the identifiers
that it has seen.  `Block.firstUses` says what is kept of some blocks without a state: a block goes
exactly if it is a tool use whose identifier stands in an earlier place.  `dropRepeated_eq` joins
the two.  The pass changes nothing but the content of turns (`withoutRepeatedUses_cons`), and it
passes over a longer list as over its two halves (`withoutRepeatedUses_append`).
-/

namespace ChatHistory

namespace Block

/-- A tool use with one of the given identifiers. -/
def isUseOf (ids : List String) : Block → Bool
  | .toolUse use => ids.contains use.id
  | _ => false

/-- The blocks without the tool uses whose identifiers were used earlier: before all of the blocks,
or in an earlier place among them. -/
def firstUses (earlier : List String) (blocks : List Block) : List Block :=
  blocks.zipIdx.filterMap fun (block, place) =>
    if block.isUseOf (earlier ++ useIds (blocks.take place)) then none else some block

@[simp] lemma firstUses_nil (earlier : List String) : firstUses earlier [] = [] := rfl

/-- The first block goes if its identifier was used earlier; it counts for the others. -/
lemma firstUses_cons (earlier : List String) (block : Block) (blocks : List Block) :
    firstUses earlier (block :: blocks) =
      (if block.isUseOf earlier then [] else [block]) ++
        firstUses (earlier ++ useIds [block]) blocks := by
  -- In the tail every place is one later, and the head stands before all of them.
  have hshift : ∀ place, useIds ((block :: blocks).take (place + 1)) =
      useIds [block] ++ useIds (blocks.take place) := by
    intro place
    rw [← useIds_append]
    rfl
  simp only [firstUses, List.zipIdx_cons', List.filterMap_cons, List.filterMap_map,
    Function.comp_def, Prod.map, id, hshift, List.take_zero, useIds_nil, List.append_nil,
    ← List.append_assoc]
  by_cases h : block.isUseOf earlier <;> simp [h]

/-- Only which identifiers of the blocks were used earlier counts. -/
lemma firstUses_congr_of_mem {earlier others : List String} {blocks : List Block}
    (h : ∀ id ∈ useIds blocks, id ∈ earlier ↔ id ∈ others) :
    firstUses earlier blocks = firstUses others blocks := by
  induction blocks generalizing earlier others with
  | nil => rfl
  | cons block blocks ih =>
    have hblock : block.isUseOf earlier = block.isUseOf others := by
      cases block with
      | toolUse use => simp [isUseOf, h use.id List.mem_cons_self]
      | _ => rfl
    have hrest : ∀ id ∈ useIds blocks,
        id ∈ earlier ++ useIds [block] ↔ id ∈ others ++ useIds [block] := by
      intro id hid
      have hcons : id ∈ useIds (block :: blocks) := by
        rw [useIds_cons]
        exact List.mem_append_right _ hid
      rw [List.mem_append, List.mem_append, h id hcons]
    rw [firstUses_cons, firstUses_cons, hblock, ih hrest]

/-- Only whether an identifier was used earlier counts, not where. -/
lemma firstUses_congr {earlier others : List String} (h : ∀ id, id ∈ earlier ↔ id ∈ others)
    (blocks : List Block) : firstUses earlier blocks = firstUses others blocks :=
  firstUses_congr_of_mem fun id _ => h id

/-- What is kept of some blocks are some of them in order. -/
lemma firstUses_sublist (earlier : List String) (blocks : List Block) :
    (firstUses earlier blocks).Sublist blocks := by
  induction blocks generalizing earlier with
  | nil => exact List.Sublist.refl _
  | cons block blocks ih =>
    rw [firstUses_cons]
    split
    · exact (ih _).cons block
    · exact (ih _).cons_cons block

/-- All blocks are kept if no identifier is used again. -/
lemma firstUses_eq_self {earlier : List String} {blocks : List Block}
    (once : (useIds blocks).Nodup) (fresh : ∀ id ∈ useIds blocks, id ∉ earlier) :
    firstUses earlier blocks = blocks := by
  induction blocks generalizing earlier with
  | nil => rfl
  | cons block blocks ih =>
    have hids : useIds (block :: blocks) = useIds [block] ++ useIds blocks :=
      useIds_append [block] _
    rw [hids, List.nodup_append] at once
    rw [hids, List.forall_mem_append] at fresh
    have hblock : ¬block.isUseOf earlier := by
      cases block with
      | toolUse use =>
        rw [isUseOf, List.contains_iff_mem]
        exact fresh.1 use.id List.mem_cons_self
      | _ => simp [isUseOf]
    have hrest : ∀ id ∈ useIds blocks, id ∉ earlier ++ useIds [block] := by
      intro id hid hused
      rcases List.mem_append.1 hused with hearlier | hhead
      · exact fresh.2 id hid hearlier
      · exact once.2.2 id hhead id hid rfl
    rw [firstUses_cons, if_neg hblock, ih once.2.1 hrest]
    rfl

/-- Of the uses of one identifier the first one is kept, unless it was used earlier. -/
lemma filter_uses_firstUses (earlier : List String) (blocks : List Block) (id : String) :
    (uses (firstUses earlier blocks)).filter (fun use => use.id = id) =
      if id ∈ earlier then [] else ((uses blocks).find? fun use => use.id = id).toList := by
  induction blocks generalizing earlier with
  | nil => simp
  | cons block blocks ih =>
    rw [firstUses_cons, uses_append, List.filter_append, ih]
    cases block with
    | toolUse use =>
      by_cases hid : use.id = id
      · subst hid
        by_cases h : use.id ∈ earlier <;> simp [isUseOf, toolUse?, h]
      · by_cases h : use.id ∈ earlier <;> simp [isUseOf, toolUse?, h, hid, Ne.symm hid]
    | _ => simp [isUseOf, toolUse?]

/-- A tool use that is kept was not used earlier. -/
lemma mem_uses_firstUses {earlier : List String} {blocks : List Block} {use : ToolUse}
    (h : use ∈ uses (firstUses earlier blocks)) : use.id ∉ earlier ∧ use ∈ uses blocks := by
  have hmem : use ∈ (uses (firstUses earlier blocks)).filter fun other => other.id = use.id :=
    List.mem_filter.2 ⟨h, by simp⟩
  rw [filter_uses_firstUses] at hmem
  split at hmem
  · simp at hmem
  · rename_i hnew
    exact ⟨hnew, List.mem_of_find?_eq_some (Option.mem_toList.1 hmem)⟩

end Block

/-- The identifiers of the tool uses of a turn. -/
def Message.turnUseIds (message : Message) : List String :=
  if message.kind.isTurn then Block.useIds message.content else []

namespace Turns

/-! ## Blocks -/

lemma dropRepeated_of_mem {seen : List String} {use : ToolUse} (h : use.id ∈ seen)
    (blocks : List Block) :
    dropRepeated seen (.toolUse use :: blocks) = dropRepeated seen blocks := by
  simp [dropRepeated, h]

lemma dropRepeated_of_notMem {seen : List String} {use : ToolUse} (h : use.id ∉ seen)
    (blocks : List Block) :
    dropRepeated seen (.toolUse use :: blocks) =
      (.toolUse use :: (dropRepeated (use.id :: seen) blocks).1,
        (dropRepeated (use.id :: seen) blocks).2) := by
  simp [dropRepeated, h]

lemma dropRepeated_of_toolUse?_eq_none (seen : List String) {block : Block}
    (h : block.toolUse? = none) (blocks : List Block) :
    dropRepeated seen (block :: blocks) =
      (block :: (dropRepeated seen blocks).1, (dropRepeated seen blocks).2) := by
  cases block with
  | toolUse use => simp [Block.toolUse?] at h
  | _ => simp [dropRepeated]

/-- The pass over some blocks keeps the first uses. -/
theorem dropRepeated_eq (seen : List String) (blocks : List Block) :
    (dropRepeated seen blocks).1 = Block.firstUses seen blocks := by
  induction blocks generalizing seen with
  | nil => rfl
  | cons block blocks ih =>
    rw [Block.firstUses_cons]
    cases block with
    | toolUse use =>
      -- Either way the identifier counts as used from here on.
      have hids : Block.useIds [.toolUse use] = [use.id] := rfl
      by_cases h : use.id ∈ seen
      · have hsame : ∀ id, id ∈ seen ↔ id ∈ seen ++ [use.id] := by
          intro id
          rw [List.mem_append, List.mem_singleton]
          exact ⟨.inl, fun hid => hid.elim (fun hs => hs) fun hu => hu ▸ h⟩
        rw [dropRepeated_of_mem h, ih, hids, Block.firstUses_congr hsame]
        simp [Block.isUseOf, h]
      · have hsame : ∀ id, id ∈ use.id :: seen ↔ id ∈ seen ++ [use.id] := by
          intro id
          rw [List.mem_append, List.mem_singleton, List.mem_cons, or_comm]
        rw [dropRepeated_of_notMem h, ih, hids, Block.firstUses_congr hsame]
        simp [Block.isUseOf, h]
    | _ =>
      rw [dropRepeated_of_toolUse?_eq_none seen rfl, ih]
      simp [Block.isUseOf, Block.toolUse?]

/-- The pass has then seen the identifiers of all tool uses. -/
lemma mem_seen_dropRepeated (seen : List String) (blocks : List Block) (id : String) :
    id ∈ (dropRepeated seen blocks).2 ↔ id ∈ seen ∨ id ∈ Block.useIds blocks := by
  induction blocks generalizing seen with
  | nil => simp [dropRepeated]
  | cons block blocks ih =>
    cases block with
    | toolUse use =>
      have hids : Block.useIds (.toolUse use :: blocks) = use.id :: Block.useIds blocks := rfl
      rw [hids, List.mem_cons]
      by_cases h : use.id ∈ seen
      · rw [dropRepeated_of_mem h, ih]
        have hid : id = use.id → id ∈ seen := fun hu => hu ▸ h
        tauto
      · rw [dropRepeated_of_notMem h, ih, List.mem_cons]
        tauto
    | _ =>
      rw [dropRepeated_of_toolUse?_eq_none seen rfl, ih]
      simp [Block.toolUse?]

/-- What is kept of some blocks does not depend on the blocks that follow. -/
lemma dropRepeated_append (seen : List String) (blocks more : List Block) :
    dropRepeated seen (blocks ++ more) =
      ((dropRepeated seen blocks).1 ++ (dropRepeated (dropRepeated seen blocks).2 more).1,
        (dropRepeated (dropRepeated seen blocks).2 more).2) := by
  induction blocks generalizing seen with
  | nil => simp [dropRepeated]
  | cons block blocks ih =>
    cases block with
    | toolUse use =>
      by_cases h : use.id ∈ seen
      · rw [List.cons_append, dropRepeated_of_mem h, dropRepeated_of_mem h, ih]
      · rw [List.cons_append, dropRepeated_of_notMem h, dropRepeated_of_notMem h, ih]
        rfl
    | _ =>
      rw [List.cons_append, dropRepeated_of_toolUse?_eq_none seen rfl,
        dropRepeated_of_toolUse?_eq_none seen rfl, ih]
      rfl

/-! ## Messages -/

/-- A message without the tool uses whose identifiers have been seen, if it is of a turn. -/
def keep (seen : List String) (message : Message) : Message :=
  if message.kind.isTurn then { message with content := (dropRepeated seen message.content).1 }
  else message

/-- The identifiers seen behind a message. -/
def seenAfter (seen : List String) (message : Message) : List String :=
  if message.kind.isTurn then (dropRepeated seen message.content).2 else seen

lemma content_keep (seen : List String) (message : Message) :
    (keep seen message).content =
      if message.kind.isTurn then Block.firstUses seen message.content else message.content := by
  unfold keep
  split
  · exact dropRepeated_eq seen message.content
  · rfl

/-- The pass changes nothing but blocks. -/
lemma keep_eq (seen : List String) (message : Message) :
    keep seen message = { message with content := (keep seen message).content } := by
  unfold keep
  split <;> rfl

lemma keep_of_not_isTurn {message : Message} (h : ¬message.kind.isTurn) (seen : List String) :
    keep seen message = message := by
  simp [keep, h]

lemma seenAfter_of_not_isTurn {message : Message} (h : ¬message.kind.isTurn)
    (seen : List String) : seenAfter seen message = seen := by
  simp [seenAfter, h]

/-- Behind a message the identifiers of its turn have been seen. -/
lemma mem_seenAfter (seen : List String) (message : Message) (id : String) :
    id ∈ seenAfter seen message ↔ id ∈ seen ∨ id ∈ message.turnUseIds := by
  unfold seenAfter Message.turnUseIds
  split
  · exact mem_seen_dropRepeated seen message.content id
  · simp

/-- What has been seen depends only on the blocks of turns. -/
lemma seenAfter_congr {message other : Message} (kind : other.kind = message.kind)
    (content : other.content = message.content) (seen : List String) :
    seenAfter seen other = seenAfter seen message := by
  simp only [seenAfter, kind, content]

/-- What is kept depends only on the blocks of turns. -/
lemma content_keep_congr {message other : Message} (kind : other.kind = message.kind)
    (content : other.content = message.content) (seen : List String) :
    (keep seen other).content = (keep seen message).content := by
  simp only [content_keep, kind, content]

/-- A turn with the blocks of another one behind its own is treated as the two after each other. -/
lemma keep_append {last message : Message} (lastTurn : last.kind.isTurn)
    (nextTurn : message.kind.isTurn) (seen : List String) :
    (keep seen { last with content := last.content ++ message.content }).content =
        (keep seen last).content ++ (keep (seenAfter seen last) message).content ∧
      seenAfter seen { last with content := last.content ++ message.content } =
        seenAfter (seenAfter seen last) message := by
  simp only [keep, seenAfter, lastTurn, nextTurn, if_true, dropRepeated_append, and_self]

/-- The pass over messages treats them one by one. -/
lemma withoutRepeatedUses_cons (seen : List String) (message : Message) (rest : List Message) :
    withoutRepeatedUses seen (message :: rest) =
      keep seen message :: withoutRepeatedUses (seenAfter seen message) rest := by
  by_cases h : message.kind.isTurn <;> simp [withoutRepeatedUses, keep, seenAfter, h]

lemma withoutRepeatedUses_singleton (seen : List String) (message : Message) :
    withoutRepeatedUses seen [message] = [keep seen message] := by
  rw [withoutRepeatedUses_cons]
  rfl

@[simp] lemma length_withoutRepeatedUses (seen : List String) (messages : List Message) :
    (withoutRepeatedUses seen messages).length = messages.length := by
  induction messages generalizing seen with
  | nil => rfl
  | cons message rest ih => simp [withoutRepeatedUses_cons, ih]

/-- The pass changes nothing but content. -/
lemma map_withoutRepeatedUses {α : Type} (view : Message → α)
    (ignores : ∀ message content, view { message with content := content } = view message)
    (seen : List String) (messages : List Message) :
    (withoutRepeatedUses seen messages).map view = messages.map view := by
  induction messages generalizing seen with
  | nil => rfl
  | cons message rest ih =>
    rw [withoutRepeatedUses_cons, keep_eq, List.map_cons, List.map_cons, ignores, ih]

/-- The pass over a longer list is the pass over its beginning and one over the rest. -/
lemma withoutRepeatedUses_append (seen : List String) (messages more : List Message) :
    withoutRepeatedUses seen (messages ++ more) =
      withoutRepeatedUses seen messages ++
        withoutRepeatedUses (messages.foldl seenAfter seen) more := by
  induction messages generalizing seen with
  | nil => rfl
  | cons message rest ih => simp [withoutRepeatedUses_cons, ih]

/-- What the pass leaves in one place depends on the messages before it. -/
lemma getElem?_withoutRepeatedUses (seen : List String) (messages : List Message) (i : ℕ) :
    (withoutRepeatedUses seen messages)[i]? =
      messages[i]?.map (keep ((messages.take i).foldl seenAfter seen)) := by
  induction messages generalizing seen i with
  | nil => rfl
  | cons message rest ih =>
    rw [withoutRepeatedUses_cons]
    cases i with
    | zero => rfl
    | succ i => exact ih (seenAfter seen message) i

/-- Behind some messages the identifiers of their turns have been seen. -/
lemma mem_foldl_seenAfter (seen : List String) (messages : List Message) (id : String) :
    id ∈ messages.foldl seenAfter seen ↔
      id ∈ seen ∨ id ∈ messages.flatMap Message.turnUseIds := by
  induction messages generalizing seen with
  | nil => simp
  | cons message rest ih =>
    rw [List.foldl_cons, ih, mem_seenAfter, List.flatMap_cons, List.mem_append, or_assoc]

/-- What the pass leaves depends on which identifiers of the messages have been seen. -/
lemma withoutRepeatedUses_congr {seen others : List String} {messages : List Message}
    (h : ∀ id ∈ messages.flatMap Message.turnUseIds, id ∈ seen ↔ id ∈ others) :
    withoutRepeatedUses seen messages = withoutRepeatedUses others messages := by
  induction messages generalizing seen others with
  | nil => rfl
  | cons message rest ih =>
    rw [List.flatMap_cons] at h
    have hkeep : keep seen message = keep others message := by
      rw [keep_eq, keep_eq others, content_keep, content_keep]
      split
      · rename_i turn
        have hids : message.turnUseIds = Block.useIds message.content := if_pos turn
        rw [Block.firstUses_congr_of_mem fun id hid =>
          h id (List.mem_append_left _ (hids ▸ hid))]
      · rfl
    have hseen : ∀ id ∈ rest.flatMap Message.turnUseIds,
        id ∈ seenAfter seen message ↔ id ∈ seenAfter others message := by
      intro id hid
      rw [mem_seenAfter, mem_seenAfter, h id (List.mem_append_right _ hid)]
    rw [withoutRepeatedUses_cons, withoutRepeatedUses_cons, hkeep, ih hseen]

/-- Messages that use no identifier of a turn again pass as they are. -/
lemma withoutRepeatedUses_eq_self {seen : List String} {messages : List Message}
    (once : (messages.flatMap Message.turnUseIds).Nodup)
    (fresh : ∀ id ∈ messages.flatMap Message.turnUseIds, id ∉ seen) :
    withoutRepeatedUses seen messages = messages := by
  induction messages generalizing seen with
  | nil => rfl
  | cons message rest ih =>
    rw [List.flatMap_cons, List.nodup_append] at once
    rw [List.flatMap_cons, List.forall_mem_append] at fresh
    have hkeep : keep seen message = message := by
      rw [keep_eq, content_keep]
      split
      · rename_i turn
        have hids : message.turnUseIds = Block.useIds message.content := if_pos turn
        rw [hids] at once fresh
        rw [Block.firstUses_eq_self once.1 fresh.1]
      · rfl
    have hrest : ∀ id ∈ rest.flatMap Message.turnUseIds, id ∉ seenAfter seen message := by
      intro id hid
      rw [mem_seenAfter, not_or]
      exact ⟨fresh.2 id hid, fun hhead => once.2.2 id hhead id hid rfl⟩
    rw [withoutRepeatedUses_cons, hkeep, ih once.2.1 hrest]

/-- Messages that are not of turns pass as they are, and nothing is seen in them. -/
lemma withoutRepeatedUses_of_no_turn {messages : List Message}
    (h : ∀ message ∈ messages, ¬message.kind.isTurn) (seen : List String) :
    withoutRepeatedUses seen messages = messages ∧ messages.foldl seenAfter seen = seen := by
  induction messages with
  | nil => exact ⟨rfl, rfl⟩
  | cons message rest ih =>
    have hmessage := h message List.mem_cons_self
    obtain ⟨hrest, hseen⟩ := ih fun m hm => h m (List.mem_cons_of_mem _ hm)
    rw [withoutRepeatedUses_cons, List.foldl_cons, seenAfter_of_not_isTurn hmessage,
      keep_of_not_isTurn hmessage, hrest, hseen]
    exact ⟨rfl, rfl⟩

/-! ## Grouped messages -/

/-- The messages grouped so far, in order. -/
def ordered (turns : Turns) : List Message :=
  turns.latest.reverse

lemma length_toList (turns : Turns) : turns.toList.length = turns.ordered.length := by
  simp [toList, ordered]

/-- The grouped messages without their results are the messages that the pass leaves. -/
lemma map_toMessage_toList (turns : Turns) :
    turns.toList.map AnsweredMessage.toMessage = withoutRepeatedUses [] turns.ordered := by
  simp only [toList, ordered, List.map_map]
  exact List.zipIdx_map_fst 0 _

/-- The grouped messages differ from the messages grouped so far in nothing but content. -/
lemma map_toList {α : Type} (view : Message → α)
    (ignores : ∀ message content, view { message with content := content } = view message)
    (turns : Turns) :
    turns.toList.map (fun message => view message.toMessage) = turns.ordered.map view := by
  rw [← map_withoutRepeatedUses view ignores [], ← map_toMessage_toList, List.map_map]
  rfl

/-- A grouped message has the blocks kept at its place, and the results of that place. -/
lemma getElem_toList (turns : Turns) (i : ℕ) (hi : i < turns.toList.length) :
    turns.toList[i] =
      { (withoutRepeatedUses [] turns.ordered).get ⟨i, by simpa [length_toList] using hi⟩ with
        toolResults := turns.owners.resultsOf i } := by
  simp [toList, ordered]

end Turns

end ChatHistory
