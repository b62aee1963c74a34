import ChatHistory.Proofs.Turns.Blocks
import Mathlib.Data.List.Chain

/-!
# Where turns begin and end

No two turns of a grouped log are neighbours, and two messages of turns go into the same one exactly
if every message between them leaves the turn open: it is of a turn itself, a marker, or brings
nothing but results of tool uses of earlier messages (`Message.LeavesOpen`).

`place` is where a message goes: the grouped message that is the last one when the message has just
been added.  The step lemmas are about the length of the grouping and its latest message: a message
that leaves an open turn open adds none (`Step.isOpen`), and any other message makes the grouping
longer (`Step.length_lt`).  `members` are the messages of turns with one place, and `Composed` says
that the turn at this place is what they make up together.  `group_turns` puts these together.
-/

namespace ChatHistory

namespace Message

/-- A message that leaves the turn before it open. -/
def LeavesOpen (earlier : List Message) (message : Message) : Prop :=
  message.kind.isTurn ∨ message.statedDuration?.isSome ∨
    message.kind = .toolResult ∧ ∀ block ∈ message.content, ∃ result,
      block = .toolResult result ∧ result.toolUseId ∈ earlier.flatMap assignedIds

/-- A message with the given blocks that is another one in everything else but durations. -/
structure Carries (message : Message) (blocks : List Block) (carrier : Message) : Prop where
  id : carrier.id = message.id
  chatId : carrier.chatId = message.chatId
  kind : carrier.kind = message.kind
  timestamp : carrier.timestamp = message.timestamp
  metadata : ∀ name, name ≠ turnDurationField →
    carrier.metadata.get? name = message.metadata.get? name
  content : carrier.content = blocks

lemma Carries.self (message : Message) : message.Carries message.content message where
  id := rfl
  chatId := rfl
  kind := rfl
  timestamp := rfl
  metadata := fun _ _ => rfl
  content := rfl

/-- A message that grows later stays the one that it is in everything but its blocks. -/
lemma Carries.grow {message carrier later : Message} {blocks more : List Block}
    (h : message.Carries blocks carrier) (grown : carrier.GrowsTo later)
    (content : later.content = more) : message.Carries more later where
  id := grown.id.trans h.id
  chatId := grown.chatId.trans h.chatId
  kind := grown.kind.trans h.kind
  timestamp := grown.timestamp.trans h.timestamp
  metadata name hn := (grown.metadata name hn).trans (h.metadata name hn)
  content := content

/-- The blocks of the carrier may be replaced. -/
lemma Carries.setContent {message carrier : Message} {blocks : List Block}
    (h : message.Carries blocks carrier) (more : List Block) :
    message.Carries more { carrier with content := more } where
  id := h.id
  chatId := h.chatId
  kind := h.kind
  timestamp := h.timestamp
  metadata := h.metadata
  content := rfl

end Message

namespace Turns

/-! ## Neighbours -/

/-- No two neighbours among some messages are both of turns. -/
def Apart (messages : List Message) : Prop :=
  (messages.map Message.kind).IsChain fun kind next => ¬(kind.isTurn ∧ next.isTurn)

/-- A step keeps turns apart. -/
lemma Step.apart {turns next : Turns} {message : Message} (h : Step turns message next)
    (before : Apart turns.latest) : Apart next.latest := by
  unfold Apart at before ⊢
  cases h with
  | marks duration stated => rwa [map_annotate Message.kind (fun _ _ => rfl)]
  | answers brings =>
    have plain : ∀ kind ∈ (residue turns.owners message).reverse.map Message.kind,
        ¬kind.isTurn := by
      intro kind hkind
      obtain ⟨remnant, hremnant, rfl⟩ := List.mem_map.1 hkind
      exact not_isTurn_of_mem_residue brings (List.mem_reverse.1 hremnant)
    rw [List.map_append, List.isChain_append]
    refine ⟨?_, before, fun kind hkind _ _ both => plain kind (List.mem_of_getLast? hkind) both.1⟩
    refine (List.pairwise_of_forall_mem_list ?_).isChain
    exact fun kind hkind _ _ both => plain kind hkind both.1
  | continues last earlier top lastTurn nextTurn =>
    rw [top] at before
    exact before
  | starts unstated plain apart =>
    rw [List.map_cons, List.isChain_cons]
    refine ⟨fun kind hkind both => ?_, before⟩
    rw [List.head?_map, Option.mem_def, Option.map_eq_some_iff] at hkind
    obtain ⟨last, hlast, rfl⟩ := hkind
    exact apart last hlast both.symm

/-- After any messages, turns are apart. -/
lemma apart_after (messages : List Message) : Apart (after messages).latest := by
  induction messages using List.reverseRecOn with
  | nil => exact List.isChain_nil
  | append_singleton messages message ih =>
    rw [after_concat]
    exact (add_step _ message).apart ih

/-! ## Open turns -/

/-- The latest message is of a turn. -/
def IsOpen (turns : Turns) : Prop :=
  ∃ kind ∈ (turns.latest.map Message.kind).head?, kind.isTurn

lemma IsOpen.length_pos {turns : Turns} (h : turns.IsOpen) : 0 < turns.latest.length := by
  obtain ⟨kind, hkind, -⟩ := h
  rw [List.length_pos_iff]
  intro hnil
  simp [hnil] at hkind

/-- Nothing remains of a message exactly if it brings nothing but results that are delivered. -/
lemma residue_eq_nil_iff {owners : ToolOwners ℕ} {message : Message} :
    residue owners message = [] ↔
      ∀ block ∈ message.content, ∃ result, block = .toolResult result ∧ owners.accepts result := by
  have hleft : residue owners message = [] ↔ message.leftovers owners = [] := by
    unfold residue
    cases message.leftovers owners with
    | nil => simp
    | cons block rest => by_cases h : block.isToolResult <;> simp [h]
  rw [hleft, Message.leftovers, List.filter_eq_nil_iff]
  refine forall₂_congr fun block _ => ?_
  cases block <;> simp

/-- Nothing remains of a message exactly if it brings nothing but results of tool uses of earlier
messages. -/
lemma residue_after_eq_nil_iff {earlier : List Message} {message : Message} :
    residue (after earlier).owners message = [] ↔ ∀ block ∈ message.content, ∃ result,
      block = .toolResult result ∧ result.toolUseId ∈ earlier.flatMap Message.assignedIds := by
  rw [residue_eq_nil_iff]
  simp only [accepts_after]

/-- A step makes no grouping shorter. -/
lemma Step.length_le {turns next : Turns} {message : Message} (h : Step turns message next) :
    turns.latest.length ≤ next.latest.length := by
  cases h with
  | marks duration stated => exact (annotate_growth duration turns.latest).length_eq.le
  | answers brings => simp
  | continues last earlier top lastTurn nextTurn => simp [top]
  | starts unstated plain apart => simp

/-- A message that leaves an open turn open adds no message to the grouping. -/
lemma Step.isOpen {earlier : List Message} {next : Turns} {message : Message}
    (h : Step (after earlier) message next) (leaves : message.LeavesOpen earlier)
    (before : (after earlier).IsOpen) :
    next.IsOpen ∧ next.latest.length = (after earlier).latest.length := by
  cases h with
  | marks duration stated =>
    refine ⟨?_, (annotate_growth duration _).length_eq.symm⟩
    rwa [IsOpen, map_annotate Message.kind (fun _ _ => rfl)]
  | answers brings =>
    have hnone : residue (after earlier).owners message = [] := by
      rw [residue_after_eq_nil_iff]
      rcases leaves with turn | stated | ⟨-, delivered⟩
      · exact absurd brings (Message.kind_ne_toolResult_of_isTurn turn)
      · rw [Message.statedDuration?_of_kind_ne (by simp [brings])] at stated
        contradiction
      · exact delivered
    rw [hnone]
    exact ⟨before, rfl⟩
  | continues last rest top lastTurn nextTurn =>
    exact ⟨⟨last.kind, rfl, lastTurn⟩, by simp [top]⟩
  | starts unstated plain apart =>
    exfalso
    have turn : message.kind.isTurn := by
      rcases leaves with turn | stated | ⟨brings, -⟩
      · exact turn
      · simp [unstated] at stated
      · exact absurd brings plain
    obtain ⟨kind, hkind, lastTurn⟩ := before
    rw [List.head?_map, Option.mem_def, Option.map_eq_some_iff] at hkind
    obtain ⟨last, hlast, rfl⟩ := hkind
    exact apart last hlast ⟨lastTurn, turn⟩

/-- A message that does not leave turns open makes the grouping longer. -/
lemma Step.length_lt {earlier : List Message} {next : Turns} {message : Message}
    (h : Step (after earlier) message next) (closes : ¬message.LeavesOpen earlier) :
    (after earlier).latest.length < next.latest.length := by
  cases h with
  | marks duration stated => exact absurd (.inr (.inl (by simp [stated]))) closes
  | answers brings =>
    have hremains : residue (after earlier).owners message ≠ [] := by
      intro hnone
      exact closes (.inr (.inr ⟨brings, residue_after_eq_nil_iff.1 hnone⟩))
    have hlength := List.length_pos_iff.2 hremains
    rw [List.length_append, List.length_reverse]
    omega
  | continues last earlier top lastTurn nextTurn => exact absurd (.inl nextTurn) closes
  | starts unstated plain apart => exact Nat.lt_succ_self _

/-- A message of a turn leaves it open. -/
lemma Step.isOpen_of_isTurn {turns next : Turns} {message : Message} (h : Step turns message next)
    (turn : message.kind.isTurn) : next.IsOpen := by
  cases h with
  | marks duration stated => simp [Message.statedDuration?_of_isTurn turn] at stated
  | answers brings => exact absurd brings (Message.kind_ne_toolResult_of_isTurn turn)
  | continues last earlier top lastTurn nextTurn => exact ⟨last.kind, rfl, lastTurn⟩
  | starts unstated plain apart => exact ⟨message.kind, rfl, turn⟩

/-! ## Places -/

/-- The place that a message goes to: that of the last grouped message when it has just been
added. -/
def place (earlier : List Message) (message : Message) : ℕ :=
  (group (earlier ++ [message])).length - 1

lemma place_eq (earlier : List Message) (message : Message) :
    place earlier message = (after (earlier ++ [message])).latest.length - 1 := by
  rw [place, group_eq, length_toList, ordered, List.length_reverse]

/-- Further messages make no grouping shorter. -/
lemma length_after_append_le (messages more : List Message) :
    (after messages).latest.length ≤ (after (messages ++ more)).latest.length := by
  induction more using List.reverseRecOn with
  | nil => rw [List.append_nil]
  | append_singleton more message ih =>
    rw [← List.append_assoc, after_concat]
    exact ih.trans (add_step _ message).length_le

/-- Messages that leave an open turn open add no message to the grouping. -/
lemma length_after_append_eq {messages between : List Message} (isOpen : (after messages).IsOpen)
    (leaves : ∀ mid message rest, between = mid ++ message :: rest →
      message.LeavesOpen (messages ++ mid)) :
    (after (messages ++ between)).IsOpen ∧
      (after (messages ++ between)).latest.length = (after messages).latest.length := by
  induction between using List.reverseRecOn with
  | nil => simpa using isOpen
  | append_singleton between message ih =>
    obtain ⟨hopen, hlength⟩ := ih fun mid m rest hsplit =>
      leaves mid m (rest ++ [message]) (by simp [hsplit])
    rw [← List.append_assoc, after_concat]
    obtain ⟨hnext, hsame⟩ := (add_step _ message).isOpen (leaves between message [] rfl) hopen
    exact ⟨hnext, hsame.trans hlength⟩

/-- Two messages of turns go to the same place exactly if all messages between them leave the turn
open. -/
theorem place_eq_place_iff (before between : List Message) {first second : Message}
    (firstTurn : first.kind.isTurn) (secondTurn : second.kind.isTurn) :
    place before first = place (before ++ first :: between) second ↔
      ∀ mid message rest, between = mid ++ message :: rest →
        message.LeavesOpen (before ++ first :: mid) := by
  have hopen : (after (before ++ [first])).IsOpen := by
    rw [after_concat]
    exact (add_step _ first).isOpen_of_isTurn firstTurn
  have hlog : before ++ first :: between = before ++ [first] ++ between := by simp
  rw [place_eq, place_eq, hlog, after_concat _ second]
  constructor
  · intro hsame mid message rest hbetween
    by_contra closes
    have hmid : before ++ first :: mid = before ++ [first] ++ mid := by simp
    have hlonger := (add_step (after (before ++ first :: mid)) message).length_lt closes
    rw [← after_concat, hmid] at hlonger
    have hbefore := length_after_append_le (before ++ [first]) mid
    have hbehind := length_after_append_le (before ++ [first] ++ mid ++ [message]) rest
    have hsplit : before ++ [first] ++ mid ++ [message] ++ rest = before ++ [first] ++ between := by
      simp [hbetween]
    rw [hsplit] at hbehind
    have hsecond := (add_step (after (before ++ [first] ++ between)) second).length_le
    have hpos := hopen.length_pos
    omega
  · intro leaves
    obtain ⟨hbetween, hlength⟩ := length_after_append_eq hopen fun mid message rest hsplit => by
      simpa using leaves mid message rest hsplit
    have hsecond := ((add_step _ second).isOpen (.inl secondTurn) hbetween).2
    rw [hsecond, hlength]

/-! ## Members -/

/-- Of some messages with others before them, those of turns that go to a place. -/
def membersFrom : List Message → List Message → ℕ → List Message
  | _, [], _ => []
  | earlier, message :: rest, target =>
    (if message.kind.isTurn ∧ place earlier message = target then [message] else []) ++
      membersFrom (earlier ++ [message]) rest target

/-- The messages of turns that go to a place. -/
def members (messages : List Message) (target : ℕ) : List Message :=
  membersFrom [] messages target

lemma membersFrom_concat (earlier messages : List Message) (message : Message) (target : ℕ) :
    membersFrom earlier (messages ++ [message]) target =
      membersFrom earlier messages target ++
        if message.kind.isTurn ∧ place (earlier ++ messages) message = target then [message]
        else [] := by
  induction messages generalizing earlier with
  | nil => simp [membersFrom]
  | cons first rest ih => simp [membersFrom, ih]

/-- A grouped message made of messages of turns: the first of them with the blocks of all. -/
def MadeOf (parts : List Message) (message : Message) : Prop :=
  if message.kind.isTurn then
    ∃ first others, parts = first :: others ∧
      first.Carries (parts.flatMap Message.content) message
  else parts = []

/-- Every turn among the grouped messages is made of the messages with its place. -/
structure Composed (turns : Turns) (parts : ℕ → List Message) : Prop where
  made : ∀ target message, turns.ordered[target]? = some message → MadeOf (parts target) message
  beyond : ∀ target, turns.latest.length ≤ target → parts target = []

/-- A message that grows without getting blocks is still made of the same messages. -/
lemma MadeOf.grow {parts : List Message} {message later : Message} (h : MadeOf parts message)
    (grown : message.GrowsTo later) (same : later.content = message.content) :
    MadeOf parts later := by
  unfold MadeOf at h ⊢
  rw [grown.kind]
  split at h
  · rename_i turn
    obtain ⟨first, others, hparts, carries⟩ := h
    rw [if_pos turn]
    exact ⟨first, others, hparts, carries.grow grown (same.trans carries.content)⟩
  · rename_i plain
    rwa [if_neg plain]

/-- The latest message stands behind the others. -/
lemma getElem?_ordered_cons {message later : Message} {earlier : List Message}
    {owners : ToolOwners ℕ} {target : ℕ} :
    (⟨message :: earlier, owners⟩ : Turns).ordered[target]? = some later ↔
      target < earlier.length ∧ earlier.reverse[target]? = some later ∨
        target = earlier.length ∧ message = later := by
  rw [ordered, List.reverse_cons, List.getElem?_append, List.length_reverse]
  split
  · rename_i hlt
    simp [hlt, hlt.ne]
  · rename_i hle
    rw [List.getElem?_singleton]
    have hplace : target - earlier.length = 0 ↔ target = earlier.length := by omega
    simp [hle, hplace]

/-- A message of a turn becomes part of the last grouped message. -/
lemma Step.composed {turns next : Turns} {message : Message} {parts : ℕ → List Message}
    (h : Step turns message next) (before : Composed turns parts) :
    Composed next fun target => parts target ++
      if message.kind.isTurn ∧ next.latest.length - 1 = target then [message] else [] := by
  cases h with
  | marks duration stated =>
    have plain : ¬message.kind.isTurn := fun turn => by
      simp [Message.statedDuration?_of_isTurn turn] at stated
    have growth := annotate_growth duration turns.latest
    simp only [plain, Bool.false_eq_true, false_and, if_false, List.append_nil]
    refine ⟨fun target later hlater => ?_, fun target htarget => ?_⟩
    · obtain ⟨hlt, rfl⟩ := List.getElem?_eq_some_iff.1 hlater
      obtain ⟨hsame, hget⟩ := List.forall₂_iff_get.1 (List.rel_reverse growth)
      obtain ⟨grown, same⟩ := hget target (hsame ▸ hlt) hlt
      exact (before.made target _ (List.getElem?_eq_getElem _)).grow grown same
    · exact before.beyond target (by rwa [growth.length_eq])
  | answers brings =>
    have plain : ¬message.kind.isTurn := fun turn =>
      Message.kind_ne_toolResult_of_isTurn turn brings
    simp only [plain, Bool.false_eq_true, false_and, if_false, List.append_nil]
    refine ⟨fun target later hlater => ?_, fun target htarget => ?_⟩
    · rw [ordered, List.reverse_append, List.reverse_reverse, List.getElem?_append] at hlater
      split at hlater
      · exact before.made target later hlater
      · rename_i hbehind
        have remnant := not_isTurn_of_mem_residue brings (List.mem_of_getElem? hlater)
        rw [MadeOf, if_neg remnant]
        exact before.beyond target (by rw [List.length_reverse] at hbehind; omega)
    · exact before.beyond target (by rw [List.length_append] at htarget; omega)
  | continues last earlier top lastTurn nextTurn =>
    have hbefore : turns.ordered = earlier.reverse ++ [last] := by simp [ordered, top]
    simp only [nextTurn, true_and, List.length_cons, Nat.add_sub_cancel]
    refine ⟨fun target later hlater => ?_, fun target htarget => ?_⟩
    · rcases getElem?_ordered_cons.1 hlater with ⟨hlt, hkept⟩ | ⟨rfl, rfl⟩
      · rw [if_neg (by omega), List.append_nil]
        refine before.made target later ?_
        rwa [hbefore, List.getElem?_append_left (by simpa using hlt)]
      · have hlast := before.made earlier.length last (by simp [hbefore])
        rw [MadeOf, if_pos lastTurn] at hlast
        obtain ⟨first, others, hparts, carries⟩ := hlast
        rw [if_pos rfl, MadeOf, if_pos lastTurn]
        refine ⟨first, others ++ [message], by rw [hparts]; rfl, ?_⟩
        refine carries.grow (.append_content lastTurn message.content) ?_
        simp [carries.content]
    · rw [List.length_cons] at htarget
      rw [if_neg (by omega), List.append_nil]
      exact before.beyond target (by rwa [top, List.length_cons])
  | starts unstated plain apart =>
    simp only [List.length_cons, Nat.add_sub_cancel]
    refine ⟨fun target later hlater => ?_, fun target htarget => ?_⟩
    · rcases getElem?_ordered_cons.1 hlater with ⟨hlt, hkept⟩ | ⟨rfl, rfl⟩
      · rw [if_neg (by omega), List.append_nil]
        exact before.made target later hkept
      · rw [before.beyond _ le_rfl, List.nil_append, MadeOf]
        by_cases turn : message.kind.isTurn
        · simp only [turn, true_and, if_true]
          exact ⟨message, [], rfl, by simpa using Message.Carries.self message⟩
        · simp only [turn, Bool.false_eq_true, false_and, if_false]
    · rw [List.length_cons] at htarget
      rw [if_neg (by omega), List.append_nil]
      exact before.beyond target (by omega)

/-- After some messages, every turn is made of the messages with its place. -/
lemma composed_after (messages : List Message) : Composed (after messages) (members messages) := by
  induction messages using List.reverseRecOn with
  | nil => exact ⟨fun target message h => by simp [ordered, empty] at h, fun _ _ => rfl⟩
  | append_singleton messages message ih =>
    have hmembers : members (messages ++ [message]) = fun target => members messages target ++
        if message.kind.isTurn ∧ (after (messages ++ [message])).latest.length - 1 = target
        then [message] else [] := by
      funext target
      rw [members, membersFrom_concat, List.nil_append, place_eq]
      rfl
    rw [hmembers, after_concat]
    exact (add_step _ message).composed ih

/-! ## Grouped logs -/

/-- The identifiers of the tool uses in the messages that go to earlier places. -/
def usedBefore (parts : ℕ → List Message) (target : ℕ) : List String :=
  (List.range target).flatMap fun place => Block.useIds ((parts place).flatMap Message.content)

/-- A message uses in its turn what the messages that it is made of use. -/
lemma MadeOf.turnUseIds {parts : List Message} {message : Message} (h : MadeOf parts message) :
    message.turnUseIds = Block.useIds (parts.flatMap Message.content) := by
  unfold MadeOf at h
  unfold Message.turnUseIds
  split at h
  · rename_i turn
    obtain ⟨first, others, -, carries⟩ := h
    rw [if_pos turn, carries.content]
  · rename_i plain
    rw [if_neg plain, h]
    rfl

/-- The identifiers seen before a place are those used in the messages of earlier places. -/
lemma Composed.mem_seen_take {turns : Turns} {parts : ℕ → List Message} (h : Composed turns parts)
    {target : ℕ} (hlt : target < turns.ordered.length) (id : String) :
    id ∈ (turns.ordered.take target).foldl seenAfter [] ↔ id ∈ usedBefore parts target := by
  have huses : (turns.ordered.take target).flatMap Message.turnUseIds =
      usedBefore parts target := by
    rw [usedBefore, List.flatMap_def, List.flatMap_def]
    congr 1
    refine List.ext_getElem (by simp [hlt.le]) fun place hplace _ => ?_
    have hordered : place < turns.ordered.length := by
      rw [List.length_map, List.length_take] at hplace
      omega
    have made := h.made place _ (List.getElem?_eq_getElem hordered)
    simpa using made.turnUseIds
  rw [mem_foldl_seenAfter, huses]
  simp

/-- What stands in a place of the grouped log: a turn made of the messages with this place, less
the tool uses that are repeated, or a message that is not of a turn where no message of a turn
goes. -/
lemma Composed.getElem_toList {turns : Turns} {parts : ℕ → List Message} (h : Composed turns parts)
    (target : ℕ) (hlt : target < turns.toList.length) :
    if turns.toList[target].kind.isTurn then
      ∃ first others, parts target = first :: others ∧
        first.Carries (Block.firstUses (usedBefore parts target)
          ((parts target).flatMap Message.content)) turns.toList[target].toMessage
    else parts target = [] := by
  have hordered : target < turns.ordered.length := by rwa [← length_toList]
  have hkept : turns.toList[target].toMessage =
      keep ((turns.ordered.take target).foldl seenAfter []) turns.ordered[target] := by
    have hplace : (turns.toList.map AnsweredMessage.toMessage)[target]? =
        (withoutRepeatedUses [] turns.ordered)[target]? := by rw [map_toMessage_toList]
    rw [getElem?_withoutRepeatedUses, List.getElem?_eq_getElem hordered] at hplace
    simpa [hlt] using hplace
  have made := h.made target _ (List.getElem?_eq_getElem hordered)
  rw [hkept, keep_eq]
  unfold MadeOf at made
  split at made
  · rename_i turn
    obtain ⟨first, others, hparts, carries⟩ := made
    rw [if_pos turn, content_keep, if_pos turn, carries.content,
      Block.firstUses_congr (h.mem_seen_take hordered)]
    exact ⟨first, others, hparts, carries.setContent _⟩
  · rename_i plain
    rwa [if_neg plain]

/-- The grouped messages have the kinds of the messages grouped so far. -/
lemma map_kind_toList (turns : Turns) :
    turns.toList.map (fun message => message.kind) = turns.ordered.map Message.kind :=
  map_toList Message.kind (fun _ _ => rfl) turns

/-- Where turns begin and end.  No two neighbours in a grouped log are both of turns.  Two messages
of turns go to the same place exactly if every message between them leaves the turn open.  The
places with members are those of the turns, and a turn has everything but its blocks, and a
duration noted on it, from the first of its members; its blocks are those of all its members, less
the tool uses that are repeated. -/
theorem group_turns (messages : List Message) :
    ((group messages).IsChain fun message next => ¬(message.kind.isTurn ∧ next.kind.isTurn)) ∧
    (∀ before first between second behind,
      messages = before ++ first :: (between ++ second :: behind) →
      first.kind.isTurn → second.kind.isTurn →
        (place before first = place (before ++ first :: between) second ↔
          ∀ mid message rest, between = mid ++ message :: rest →
            message.LeavesOpen (before ++ first :: mid))) ∧
    (∀ target, members messages target ≠ [] ↔
      ∃ hlt : target < (group messages).length, (group messages)[target].kind.isTurn) ∧
    ∀ target (hlt : target < (group messages).length) first others,
      members messages target = first :: others →
        first.Carries (Block.firstUses (usedBefore (members messages) target)
          ((first :: others).flatMap Message.content)) (group messages)[target].toMessage := by
  have composed := composed_after messages
  simp only [group_eq]
  refine ⟨?_, fun before first between second _ _ => place_eq_place_iff before between,
    fun target => ⟨fun hmembers => ?_, ?_⟩, fun target hlt first others hmembers => ?_⟩
  · have apart := apart_after messages
    rw [Apart, ← List.isChain_reverse, ← List.map_reverse] at apart
    rw [← List.isChain_map (R := fun kind next : MessageKind => ¬(kind.isTurn ∧ next.isTurn))
      fun message : AnsweredMessage => message.kind, map_kind_toList]
    exact apart.imp fun _ _ hboth both => hboth both.symm
  · have hlt : target < (after messages).toList.length := by
      rw [length_toList, ordered, List.length_reverse]
      by_contra hbeyond
      exact hmembers (composed.beyond target (by omega))
    have htarget := composed.getElem_toList target hlt
    refine ⟨hlt, ?_⟩
    by_contra plain
    rw [if_neg plain] at htarget
    exact hmembers htarget
  · rintro ⟨hlt, turn⟩
    have htarget := composed.getElem_toList target hlt
    rw [if_pos turn] at htarget
    obtain ⟨first, others, hmembers, -⟩ := htarget
    simp [hmembers]
  · have htarget := composed.getElem_toList target hlt
    split at htarget
    · obtain ⟨first', others', hmembers', carries⟩ := htarget
      obtain ⟨rfl, rfl⟩ := List.cons.inj (hmembers'.symm.trans hmembers)
      rwa [hmembers] at carries
    · simp [hmembers] at htarget

/-- A result that is delivered and a marker do not end a turn, and a word of the user does. -/
theorem group_turns_interrupted :
    let calls : Message := ⟨"a1", "c", .assistant, [.toolUse ⟨"t1", "Read", []⟩], "", []⟩
    let answer : Message :=
      ⟨"r1", "c", .toolResult, [.toolResult ⟨"t1", "found", false, [], none, none⟩], "", []⟩
    let marker : Message := ⟨"s1", "c", .system, [], "", [("turnDurationMs", .int 5)]⟩
    let more : Message := ⟨"a2", "c", .toolUse, [.text "well"], "", []⟩
    let word : Message := ⟨"u1", "c", .user, [.text "go on"], "", []⟩
    let last : Message := ⟨"a3", "c", .assistant, [.text "done"], "", []⟩
    place [] calls = place [calls, answer, marker] more ∧
      place [] calls ≠ place [calls, answer, marker, more, word] last := by
  intro calls answer marker more word last
  have hplaces := (group_turns [calls, answer, marker, more, word, last]).2.1
  refine ⟨(hplaces [] calls [answer, marker] more [word, last] rfl rfl rfl).2 ?_, fun hsame => ?_⟩
  · intro mid message rest hbetween
    have hmem : message ∈ [answer, marker] := by simp [hbetween]
    obtain rfl | rfl : message = answer ∨ message = marker := by simpa using hmem
    · refine .inr (.inr ⟨rfl, fun block hb => ?_⟩)
      obtain rfl := List.mem_singleton.1 hb
      exact ⟨_, rfl, List.mem_flatMap.2 ⟨calls, List.mem_cons_self, List.mem_cons_self⟩⟩
    · exact .inr (.inl rfl)
  · have hopen := (hplaces [] calls [answer, marker, more, word] last [] rfl rfl rfl).1 hsame
      [answer, marker, more] word [] rfl
    rcases hopen with turn | stated | ⟨brings, -⟩
    · exact absurd turn (by decide)
    · exact absurd stated (by decide)
    · exact absurd brings (by decide)

end Turns

end ChatHistory
