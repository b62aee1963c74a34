import ChatHistory.Proofs.Turns.Answers
import ChatHistory.Proofs.Turns.Boundaries
import ChatHistory.Proofs.Turns.Durations

/-!
# A grouped log is a normal form

Grouping a grouped log once more changes nothing (`group_group`).  `IsNormal` says why: there are no
markers in it and no neighbouring turns, the messages with tool results have nothing but results
for which no earlier message has a use, and no turn repeats a tool use.  A log like this is grouped
message by message (`group_of_isNormal`), and every grouped log with its tool uses in turns is like
this (`isNormal_group`).

The part that needs an invariant is that orphans stay orphans, although later blocks are merged into
the messages before them.  The messages in front of an orphan do not get blocks any more when it is
there, so the invariant `Orphaned` is about all messages before it (`orphaned_after`), and taking
out repeated tool uses respects it (`Orphaned.narrows`).
-/

namespace ChatHistory

/-- A message of the same kind with some of the blocks, and with all of them unless it is of a
turn. -/
structure Message.Narrows (message narrowed : Message) : Prop where
  kind : narrowed.kind = message.kind
  content : narrowed.content.Sublist message.content
  settled : ¬message.kind.isTurn → narrowed.content = message.content

/-- What narrowed messages have comes from one of the messages. -/
lemma Message.exists_of_narrows {messages narrowed : List Message}
    (h : List.Forall₂ Message.Narrows messages narrowed) {later : Message}
    (hlater : later ∈ narrowed) : ∃ message ∈ messages, message.Narrows later := by
  obtain ⟨i, hi, rfl⟩ := List.mem_iff_getElem.1 hlater
  obtain ⟨hlength, hget⟩ := List.forall₂_iff_get.1 h
  exact ⟨_, List.getElem_mem (hlength ▸ hi), hget i (hlength ▸ hi) hi⟩

/-- A message brings no result for a tool use of an earlier one. -/
def Message.Unanswered (earlier later : Message) : Prop :=
  later.kind = .toolResult → ∀ result ∈ Block.results later.content,
    result.toolUseId ∉ Block.useIds earlier.content

open Message (UsesInTurns)

namespace Turns

/-- Messages with tool results bring results and nothing else, and only results for which no earlier
message has a tool use. -/
structure Orphaned (messages : List Message) : Prop where
  alone : ∀ message ∈ messages, message.kind = .toolResult →
    message.content ≠ [] ∧ ∀ block ∈ message.content, block.isToolResult
  unanswered : messages.Pairwise Message.Unanswered

/-- Messages that grouping leaves as they are. -/
structure IsNormal (messages : List Message) : Prop where
  unstated : ∀ message ∈ messages, message.statedDuration? = none
  apart : Apart messages
  orphaned : Orphaned messages
  usedOnce : (messages.flatMap Message.turnUseIds).Nodup

/-! ## Orphans -/

/-- A further message has to be an orphan if it brings tool results. -/
lemma orphaned_concat {messages : List Message} {message : Message} :
    Orphaned (messages ++ [message]) ↔ Orphaned messages ∧
      (message.kind = .toolResult →
        (message.content ≠ [] ∧ ∀ block ∈ message.content, block.isToolResult) ∧
        ∀ result ∈ Block.results message.content, ∀ earlier ∈ messages,
          result.toolUseId ∉ Block.useIds earlier.content) := by
  constructor
  · rintro ⟨alone, unanswered⟩
    rw [List.forall_mem_append, List.forall_mem_singleton] at alone
    rw [List.pairwise_append] at unanswered
    refine ⟨⟨alone.1, unanswered.1⟩, fun brings => ⟨alone.2 brings, ?_⟩⟩
    intro result hresult earlier hearlier
    exact unanswered.2.2 earlier hearlier message List.mem_cons_self brings result hresult
  · rintro ⟨⟨alone, unanswered⟩, last⟩
    constructor
    · rw [List.forall_mem_append, List.forall_mem_singleton]
      exact ⟨alone, fun brings => (last brings).1⟩
    · rw [List.pairwise_append]
      refine ⟨unanswered, List.pairwise_singleton _ _, ?_⟩
      intro earlier hearlier later hlater brings result hresult
      obtain rfl := List.mem_singleton.1 hlater
      exact (last brings).2 result hresult earlier hearlier

/-- A message that brings no tool results may follow. -/
lemma Orphaned.concat {messages : List Message} (h : Orphaned messages) {message : Message}
    (plain : message.kind ≠ .toolResult) : Orphaned (messages ++ [message]) :=
  orphaned_concat.2 ⟨h, fun brings => absurd brings plain⟩

/-- Orphans stay orphans if messages lose tool uses, or change in something else but blocks. -/
lemma Orphaned.narrows {messages narrowed : List Message} (h : Orphaned messages)
    (hnarrows : List.Forall₂ Message.Narrows messages narrowed) : Orphaned narrowed := by
  have same {message later : Message} (narrows : message.Narrows later)
      (brings : later.kind = .toolResult) :
      message.kind = .toolResult ∧ later.content = message.content := by
    rw [narrows.kind] at brings
    exact ⟨brings, narrows.settled (by simp [brings, MessageKind.isTurn])⟩
  induction hnarrows with
  | nil => exact h
  | cons head tail ih =>
    obtain ⟨alone, unanswered⟩ := h
    rw [List.forall_mem_cons] at alone
    rw [List.pairwise_cons] at unanswered
    obtain ⟨halone, hunanswered⟩ := ih ⟨alone.2, unanswered.2⟩
    constructor
    · rw [List.forall_mem_cons]
      refine ⟨fun brings => ?_, halone⟩
      obtain ⟨hbrings, hsame⟩ := same head brings
      rw [hsame]
      exact alone.1 hbrings
    · rw [List.pairwise_cons]
      refine ⟨?_, hunanswered⟩
      intro later hlater brings result hresult hid
      obtain ⟨other, hother, narrows⟩ := Message.exists_of_narrows tail hlater
      obtain ⟨hbrings, hsame⟩ := same narrows brings
      rw [hsame] at hresult
      exact unanswered.1 other hother hbrings result hresult
        (((head.content.filterMap _).map _).subset hid)

/-- A noted duration leaves all blocks as they are. -/
lemma annotate_narrows (duration : Json) (messages : List Message) :
    List.Forall₂ Message.Narrows messages (annotate duration messages) := by
  refine (annotate_growth duration messages).imp ?_
  rintro message later ⟨grown, same⟩
  exact ⟨grown.kind, by rw [same], fun _ => same⟩

/-- Taking out repeated tool uses leaves all messages that are not of turns as they are. -/
lemma withoutRepeatedUses_narrows (seen : List String) (messages : List Message) :
    List.Forall₂ Message.Narrows messages (withoutRepeatedUses seen messages) := by
  induction messages generalizing seen with
  | nil => exact .nil
  | cons message rest ih =>
    rw [withoutRepeatedUses_cons]
    refine .cons ⟨?_, ?_, ?_⟩ (ih _)
    · rw [keep_eq]
    · rw [content_keep]
      split
      · exact Block.firstUses_sublist seen message.content
      · exact List.Sublist.refl _
    · intro plain
      rw [keep_of_not_isTurn plain]

/-- A result that stays where it is has no tool use in the messages grouped before it. -/
lemma notMem_useIds_of_notMem_assignedIds {earlier : List Message} (h : UsesInTurns earlier)
    {id : String} (unassigned : id ∉ earlier.flatMap Message.assignedIds) :
    ∀ message ∈ (after earlier).ordered, id ∉ Block.useIds message.content := by
  rw [← isSome_owner?_after, (owner?_after h).2 id, Bool.not_eq_true, Option.isSome_eq_false_iff,
    Option.isNone_iff_eq_none, List.findIdx?_eq_none_iff] at unassigned
  intro message hm
  simpa [Message.usesId] using unassigned message hm

/-- What remains of a message with tool results are orphans, and a message of the user. -/
lemma Orphaned.append_remnants {earlier : List Message} (uses : UsesInTurns earlier)
    (h : Orphaned (after earlier).ordered) (message : Message) :
    Orphaned ((after earlier).ordered ++ message.remnants earlier) := by
  unfold Message.remnants
  rw [← List.append_assoc]
  have withOrphans : Orphaned ((after earlier).ordered ++
      if (message.orphans earlier).isEmpty then []
      else [{ message with content := message.orphans earlier }]) := by
    split
    · rwa [List.append_nil]
    · rename_i hsome
      refine orphaned_concat.2 ⟨h, fun _ => ⟨⟨by simpa using hsome, ?_⟩, ?_⟩⟩
      · intro block hblock
        have hkept := (List.mem_filter.1 hblock).2
        cases block with
        | toolResult result => rfl
        | _ => simp at hkept
      · intro result hresult
        obtain ⟨block, hblock, heq⟩ := List.mem_filterMap.1 hresult
        obtain ⟨other, rfl⟩ : ∃ other, block = .toolResult other := by
          cases block with
          | toolResult other => exact ⟨other, rfl⟩
          | _ => simp [Block.toolResult?] at heq
        obtain rfl : other = result := by simpa [Block.toolResult?] using heq
        apply notMem_useIds_of_notMem_assignedIds uses
        simpa using (List.mem_filter.1 hblock).2
  by_cases hown : message.ownBlocks.isEmpty
  · rwa [if_pos hown, List.append_nil]
  · rw [if_neg hown]
    refine withOrphans.concat ?_
    simp

/-- In a log with its tool uses in turns, the results that are left are orphans. -/
theorem orphaned_after {messages : List Message} (h : UsesInTurns messages) :
    Orphaned (after messages).ordered := by
  induction messages using List.reverseRecOn with
  | nil => exact ⟨by simp [ordered, empty], by simp [ordered, empty]⟩
  | append_singleton messages message ih =>
    have before := ih (Message.usesInTurns_append.1 h).1
    have uses := (Message.usesInTurns_append.1 h).1
    rw [after_concat]
    have step := add_step (after messages) message
    generalize (after messages).add message = next at step
    cases step with
    | marks duration stated =>
      exact before.narrows (List.rel_reverse (annotate_narrows duration _))
    | answers brings =>
      rw [ordered, List.reverse_append, List.reverse_reverse, residue_after]
      exact before.append_remnants uses message
    | continues last earlier top lastTurn nextTurn =>
      rw [ordered, top, List.reverse_cons] at before
      rw [ordered, List.reverse_cons]
      exact (orphaned_concat.1 before).1.concat (Message.kind_ne_toolResult_of_isTurn lastTurn)
    | starts unstated plain apart =>
      rw [ordered, List.reverse_cons]
      exact before.concat plain

/-! ## Grouped logs are normal -/

/-- The turns of a grouped log are apart in their order. -/
lemma apart_ordered_after (messages : List Message) : Apart (after messages).ordered := by
  have apart := apart_after messages
  rw [Apart, ← List.isChain_reverse, ← List.map_reverse] at apart
  exact apart.imp fun kind next hboth both => hboth both.symm

/-- A grouped log with its tool uses in turns is a normal form. -/
theorem isNormal_group {messages : List Message} (h : UsesInTurns messages) :
    IsNormal ((group messages).map AnsweredMessage.toMessage) := by
  rw [group_eq, map_toMessage_toList]
  refine ⟨?_, ?_, ?_, ?_⟩
  · intro message hm
    have hview : message.statedDuration? ∈
        (withoutRepeatedUses [] (after messages).ordered).map Message.statedDuration? :=
      List.mem_map_of_mem hm
    rw [map_withoutRepeatedUses Message.statedDuration? (fun _ _ => rfl)] at hview
    obtain ⟨other, hother, hsame⟩ := List.mem_map.1 hview
    rw [← hsame]
    exact unstated_after messages other (List.mem_reverse.1 hother)
  · rw [Apart, map_withoutRepeatedUses Message.kind (fun _ _ => rfl)]
    exact apart_ordered_after messages
  · exact (orphaned_after h).narrows (withoutRepeatedUses_narrows [] _)
  · have huses : ∀ kept : List Message, (kept.flatMap Message.turnUseIds).Sublist
        (Block.useIds (kept.flatMap Message.content)) := by
      intro kept
      induction kept with
      | nil => exact List.Sublist.refl _
      | cons message rest ih =>
        rw [List.flatMap_cons, List.flatMap_cons, Block.useIds_append]
        refine List.Sublist.append ?_ ih
        unfold Message.turnUseIds
        split
        · exact List.Sublist.refl _
        · exact List.nil_sublist _
    exact (nodup_useIds_blocks h).sublist (huses _)

/-! ## Normal forms are grouped message by message -/

/-- The beginning of a normal form is one. -/
lemma IsNormal.of_append {messages more : List Message} (h : IsNormal (messages ++ more)) :
    IsNormal messages where
  unstated := (List.forall_mem_append.1 h.unstated).1
  apart := by
    have apart := h.apart
    rw [Apart, List.map_append, List.isChain_append] at apart
    exact apart.1
  orphaned := ⟨(List.forall_mem_append.1 h.orphaned.alone).1,
    (List.pairwise_append.1 h.orphaned.unanswered).1⟩
  usedOnce := by
    have once := h.usedOnce
    rw [List.flatMap_append] at once
    exact once.of_append_left

/-- Results without an owner are not delivered. -/
lemma deliverAll_of_not_accepts {owners : ToolOwners ℕ} {results : List ToolResult}
    (h : ∀ result ∈ results, ¬owners.accepts result) : owners.deliverAll results = owners := by
  unfold ToolOwners.deliverAll
  induction results with
  | nil => rfl
  | cons result results ih =>
    rw [List.forall_mem_cons] at h
    have hdeliver : owners.deliver result = owners := if_neg h.1
    rw [List.foldl_cons, hdeliver]
    exact ih h.2

/-- An orphan stays where it is. -/
lemma add_orphan {messages : List Message} {message : Message}
    (brings : message.kind = .toolResult)
    (alone : message.content ≠ [] ∧ ∀ block ∈ message.content, block.isToolResult)
    (unanswered : ∀ result ∈ Block.results message.content,
      ¬(after messages).owners.accepts result) :
    (after messages).add message =
      ⟨message :: (after messages).latest, (after messages).owners⟩ := by
  have hleft : message.leftovers (after messages).owners = message.content := by
    rw [Message.leftovers, List.filter_eq_self]
    intro block hblock
    cases block with
    | toolResult result =>
      simpa using unanswered result (List.mem_filterMap.2 ⟨_, hblock, rfl⟩)
    | _ => rfl
  have horphans : message.content.filter Block.isToolResult = message.content :=
    List.filter_eq_self.2 alone.2
  have hothers : (message.content.filter fun block => !block.isToolResult) = [] := by
    rw [List.filter_eq_nil_iff]
    intro block hblock
    simp [alone.2 block hblock]
  have hresidue : residue (after messages).owners message = [message] := by
    simp [residue, hleft, horphans, hothers, alone.1]
  rw [(Step.answers brings).add_eq, hresidue, deliverAll_of_not_accepts unanswered]
  rfl

/-- The messages of a normal form are grouped one by one, and no result is delivered. -/
lemma after_of_isNormal {messages : List Message} (h : IsNormal messages) :
    (after messages).latest = messages.reverse ∧ (after messages).owners.results = [] := by
  induction messages using List.reverseRecOn with
  | nil => exact ⟨rfl, rfl⟩
  | append_singleton messages message ih =>
    obtain ⟨hlatest, hresults⟩ := ih h.of_append
    rw [after_concat, List.reverse_concat]
    by_cases brings : message.kind = .toolResult
    · obtain ⟨-, orphan⟩ := orphaned_concat.1 h.orphaned
      have unanswered : ∀ result ∈ Block.results message.content,
          ¬(after messages).owners.accepts result := by
        intro result hresult
        rw [accepts_after, List.mem_flatMap]
        rintro ⟨earlier, hearlier, hid⟩
        apply (orphan brings).2 result hresult earlier hearlier
        unfold Message.assignedIds at hid
        split at hid
        · cases hid
        · exact hid
      rw [add_orphan brings (orphan brings).1 unanswered, hlatest]
      exact ⟨rfl, hresults⟩
    · have unstated := h.unstated message (List.mem_append_right _ List.mem_cons_self)
      have apart : ∀ last ∈ (after messages).latest.head?,
          ¬(last.kind.isTurn ∧ message.kind.isTurn) := by
        intro last hlast
        rw [hlatest, List.head?_reverse] at hlast
        have chain := h.apart
        rw [Apart, List.map_append, List.isChain_append] at chain
        refine chain.2.2 last.kind ?_ message.kind rfl
        rw [List.getLast?_map, hlast]
        rfl
      rw [(Step.starts unstated brings apart).add_eq, hlatest]
      exact ⟨rfl, by rw [ToolOwners.results_assign, hresults]⟩

/-- Grouping leaves a normal form as it is, with no results. -/
theorem group_of_isNormal {messages : List Message} (h : IsNormal messages) :
    group messages = messages.map fun message => { message with toolResults := [] } := by
  obtain ⟨hlatest, hresults⟩ := after_of_isNormal h
  have hkept : withoutRepeatedUses [] messages = messages :=
    withoutRepeatedUses_eq_self h.usedOnce (by simp)
  have hnone : ∀ position, (after messages).owners.resultsOf position = [] := by
    intro position
    rw [ToolOwners.resultsOf, hresults]
    rfl
  let unanswered (message : Message) : AnsweredMessage := { message with toolResults := [] }
  calc
    group messages = messages.zipIdx.map (unanswered ∘ Prod.fst) := by
      rw [group_eq, toList, hlatest, List.reverse_reverse, hkept]
      simp only [hnone]
      rfl
    _ = messages.map unanswered := by rw [← List.map_map, List.zipIdx_map_fst]

/-- Grouping a grouped log once more changes nothing but the results, which are not delivered
again. -/
theorem group_group (messages : List Message)
    (usesInTurns : ∀ message ∈ messages, ¬message.kind.isTurn →
      Block.uses message.content = []) :
    group ((group messages).map AnsweredMessage.toMessage) =
      (group messages).map fun message => { message with toolResults := [] } := by
  rw [group_of_isNormal (isNormal_group usesInTurns), List.map_map]
  rfl

/-- A log with a marker, a repeated use, a result that is delivered beside an orphan and a word of
the user, and a later use with the identifier of the orphan. -/
theorem group_group_orphan :
    let use (id : String) : Block := .toolUse ⟨id, "Read", []⟩
    let result (id : String) : Block := .toolResult ⟨id, "", false, [], none, none⟩
    let log : List Message := [⟨"a1", "c", .assistant, [use "t1"], "", []⟩,
      ⟨"s1", "c", .system, [], "", [("turnDurationMs", .int 5)]⟩,
      ⟨"r1", "c", .toolResult, [result "t1", .text "note", result "t2"], "", []⟩,
      ⟨"a2", "c", .toolUse, [use "t1", use "t2"], "", []⟩,
      ⟨"a3", "c", .assistant, [.text "done"], "", []⟩]
    (∀ message ∈ log, ¬message.kind.isTurn → Block.uses message.content = []) ∧
      (group log).map (fun message => (message.id, message.toolResults.map Prod.fst)) =
        [("a1", ["t1"]), ("r1", []), ("r1:user", []), ("a2", [])] ∧
      group ((group log).map AnsweredMessage.toMessage) =
        (group log).map fun message => { message with toolResults := [] } := by
  intro use result log
  have usesInTurns : ∀ message ∈ log, ¬message.kind.isTurn → Block.uses message.content = [] := by
    simp [log, use, result, MessageKind.isTurn, Block.toolUse?]
  have hids : (group log).map (fun message => (message.id, message.toolResults.map Prod.fst)) =
      [("a1", ["t1"]), ("r1", []), ("r1:user", []), ("a2", [])] := by
    decide +kernel
  exact ⟨usesInTurns, hids, group_group log usesInTurns⟩

end Turns

end ChatHistory
