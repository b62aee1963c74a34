import ChatHistory.Proofs.Turns.RepeatedUses
import Mathlib.Data.List.Forall2

/-!
# When results arrive does not matter

A message that brings nothing but results of tool uses that have an owner leaves no trace in the
list of messages; all it does is to deliver (`add_of_all_assigned`).  Delivering early makes no
difference to any later step, as long as no other result for the same tool use comes in between
(`Step.answer`).  So such a message may be moved over other messages (`group_late_results`).

The two runs remember their results in different orders.  `Turns.Same` is equality up to that: the
same messages, and the same answer to every look-up of an owner or a result.
-/

namespace ChatHistory

/-- Two grouped messages that are equal, with their results compared as maps. -/
structure AnsweredMessage.Agree (message other : AnsweredMessage) : Prop where
  toMessage : message.toMessage = other.toMessage
  results : ∀ id, message.toolResults.get? id = other.toolResults.get? id

namespace Turns

/-- Two groupings with the same messages and the same owners and results. -/
structure Same (turns other : Turns) : Prop where
  latest : turns.latest = other.latest
  owners : turns.owners.Agree other.owners

namespace Same

lemma refl (turns : Turns) : Same turns turns :=
  ⟨rfl, .refl _⟩

lemma trans {turns other last : Turns} (h : Same turns other) (h' : Same other last) :
    Same turns last :=
  ⟨h.latest.trans h'.latest, h.owners.trans h'.owners⟩

end Same

/-- What remains of a message depends on which of its results are accepted. -/
lemma residue_congr_of_mem {known other : ToolOwners ℕ}
    {message : Message}
    (h : ∀ result ∈ Block.results message.content, known.accepts result = other.accepts result) :
    residue known message = residue other message := by
  have hleft : message.leftovers known = message.leftovers other := by
    refine List.filter_congr fun block hblock => ?_
    cases block with
    | toolResult result =>
      have hresult : result ∈ Block.results message.content :=
        List.mem_filterMap.2 ⟨_, hblock, rfl⟩
      simp only [h result hresult]
    | _ => rfl
  simp only [residue, hleft]

/-- What remains of a message depends only on which identifiers have an owner. -/
lemma residue_congr {known other : ToolOwners ℕ} (h : ∀ id, known.owner? id = other.owner? id)
    (message : Message) : residue known message = residue other message :=
  residue_congr_of_mem fun result _ => by simp only [ToolOwners.accepts, h]

/-- A step does not tell apart groupings with the same messages, owners and results. -/
lemma Step.same {turns next other : Turns} {message : Message} (h : Step turns message next)
    (hsame : Same turns other) : Same next (other.add message) := by
  cases h with
  | marks duration stated =>
    rw [(Step.marks duration stated).add_eq]
    exact ⟨by rw [hsame.latest], hsame.owners⟩
  | answers brings =>
    rw [(Step.answers brings).add_eq]
    refine ⟨?_, hsame.owners.deliverAll _⟩
    rw [residue_congr hsame.owners.owner, hsame.latest]
  | continues last earlier top lastTurn nextTurn =>
    rw [(Step.continues last earlier (hsame.latest ▸ top) lastTurn nextTurn).add_eq]
    exact ⟨rfl, hsame.owners.assign _ _⟩
  | starts unstated plain apart =>
    rw [(Step.starts unstated plain (hsame.latest ▸ apart)).add_eq]
    refine ⟨by rw [hsame.latest], ?_⟩
    rw [hsame.latest]
    exact hsame.owners.assign _ _

/-- Further messages do not tell apart groupings with the same messages, owners and results. -/
lemma Same.foldl_add {turns other : Turns} (h : Same turns other) (messages : List Message) :
    Same (messages.foldl add turns) (messages.foldl add other) := by
  induction messages generalizing turns other with
  | nil => exact h
  | cons message messages ih => exact ih ((add_step turns message).same h)

/-- Groupings with the same messages, owners and results give the same grouped messages. -/
lemma Same.toList {turns other : Turns} (h : Same turns other) :
    List.Forall₂ AnsweredMessage.Agree turns.toList other.toList := by
  have hordered : turns.ordered = other.ordered := by rw [ordered, ordered, h.latest]
  rw [List.forall₂_iff_get]
  refine ⟨by rw [length_toList, length_toList, hordered], fun i hi ho => ?_⟩
  simp only [List.get_eq_getElem, getElem_toList]
  refine ⟨by simp only [hordered], fun id => ?_⟩
  simp only [ToolOwners.get?_resultsOf, h.owners.owner, h.owners.result]

/-! ## Delivering early -/

/-- The grouping with some results delivered. -/
def answer (turns : Turns) (results : List ToolResult) : Turns :=
  { turns with owners := turns.owners.deliverAll results }

/-- A message with nothing but results of tool uses that have an owner only delivers them. -/
lemma add_of_all_assigned {turns : Turns} {message : Message} (brings : message.kind = .toolResult)
    (assigned : ∀ block ∈ message.content,
      ∃ result, block = .toolResult result ∧ turns.owners.accepts result) :
    turns.add message = turns.answer (Block.results message.content) := by
  have hleft : message.leftovers turns.owners = [] := by
    rw [Message.leftovers, List.filter_eq_nil_iff]
    intro block hb
    obtain ⟨result, rfl, haccepts⟩ := assigned block hb
    simp [haccepts]
  have hres : residue turns.owners message = [] := by simp [residue, hleft]
  rw [(Step.answers brings).add_eq, hres]
  rfl

/-- A step may be taken before or after the delivery of results, unless it brings results for the
same tool uses. -/
lemma Step.answer {turns next : Turns} {message : Message} {results : List ToolResult}
    (h : Step turns message next) (assigned : ∀ result ∈ results, turns.owners.accepts result)
    (apart : message.kind = .toolResult → ∀ result ∈ results,
      ∀ other ∈ Block.results message.content, other.toolUseId ≠ result.toolUseId) :
    Same ((turns.answer results).add message) (next.answer results) := by
  cases h with
  | marks duration stated =>
    rw [(Step.marks duration stated).add_eq]
    exact .refl _
  | answers brings =>
    rw [(Step.answers brings).add_eq]
    -- No delivery changes which results have an owner, so the same blocks remain.
    refine ⟨?_, .deliverAll_swap (apart brings)⟩
    simp only [Turns.answer]
    rw [residue_congr (fun id => ToolOwners.owner?_deliverAll _ _ id)]
  | continues last earlier top lastTurn nextTurn =>
    have early : Step (turns.answer results) message _ :=
      .continues last earlier top lastTurn nextTurn
    rw [early.add_eq]
    exact ⟨rfl, .deliverAll_assign assigned _ _⟩
  | starts unstated plain apart =>
    have early : Step (turns.answer results) message _ := .starts unstated plain apart
    rw [early.add_eq]
    exact ⟨rfl, .deliverAll_assign assigned _ _⟩

/-- Any number of steps may be taken before or after the delivery of results, unless they bring
results for the same tool uses. -/
lemma foldl_add_answer {turns : Turns} {results : List ToolResult} (messages : List Message)
    (assigned : ∀ result ∈ results, turns.owners.accepts result)
    (apart : ∀ message ∈ messages, message.kind = .toolResult → ∀ result ∈ results,
      ∀ other ∈ Block.results message.content, other.toolUseId ≠ result.toolUseId) :
    Same (messages.foldl add (turns.answer results))
      ((messages.foldl add turns).answer results) := by
  induction messages generalizing turns with
  | nil => exact .refl _
  | cons message messages ih =>
    have hstep := (add_step turns message).answer assigned (apart message List.mem_cons_self)
    -- Owners stay, so the results are still accepted behind the message.
    have hassigned : ∀ result ∈ results, (turns.add message).owners.accepts result := by
      intro result hr
      have hbefore := assigned result hr
      rw [ToolOwners.accepts] at hbefore ⊢
      exact ((add_step turns message).isSome_owner? _).2 (.inl hbefore)
    have hrest := ih hassigned fun m hm => apart m (List.mem_cons_of_mem _ hm)
    rw [List.foldl_cons, List.foldl_cons]
    exact (hstep.foldl_add messages).trans hrest

/-- Results may arrive later: a message with nothing but results of tool uses of earlier turns can
be moved behind any messages that bring no results for the same tool uses, and the grouped messages
stay the same. -/
theorem group_late_results (before between behind : List Message) (late : Message)
    (brings : late.kind = .toolResult)
    (assigned : ∀ block ∈ late.content, ∃ result, block = .toolResult result ∧
      ∃ turn ∈ before, turn.kind.isTurn ∧ result.toolUseId ∈ Block.useIds turn.content)
    (apart : ∀ message ∈ between, message.kind = .toolResult →
      ∀ result ∈ Block.results late.content, ∀ other ∈ Block.results message.content,
        other.toolUseId ≠ result.toolUseId) :
    List.Forall₂ AnsweredMessage.Agree (group (before ++ [late] ++ between ++ behind))
      (group (before ++ between ++ [late] ++ behind)) := by
  have hassigned : ∀ block ∈ late.content, ∃ result, block = .toolResult result ∧
      ∀ more, (after (before ++ more)).owners.accepts result := by
    intro block hb
    obtain ⟨result, rfl, turn, hmem, hturn, hid⟩ := assigned block hb
    refine ⟨result, rfl, fun more => ?_⟩
    rw [accepts_after, List.flatMap_append]
    refine List.mem_append_left _ (List.mem_flatMap.2 ⟨turn, hmem, ?_⟩)
    rwa [Message.assignedIds_of_isTurn hturn]
  have hresults : ∀ result ∈ Block.results late.content,
      (after before).owners.accepts result := by
    intro result hr
    obtain ⟨block, hb, hblock⟩ := List.mem_filterMap.1 hr
    obtain ⟨other, rfl, haccepts⟩ := hassigned block hb
    obtain rfl : other = result := by simpa [Block.toolResult?] using hblock
    simpa using haccepts []
  have early : (after before).add late =
      (after before).answer (Block.results late.content) := by
    refine add_of_all_assigned brings fun block hb => ?_
    obtain ⟨result, rfl, haccepts⟩ := hassigned block hb
    exact ⟨result, rfl, by simpa using haccepts []⟩
  have afterwards : (after (before ++ between)).add late =
      (after (before ++ between)).answer (Block.results late.content) := by
    refine add_of_all_assigned brings fun block hb => ?_
    obtain ⟨result, rfl, haccepts⟩ := hassigned block hb
    exact ⟨result, rfl, haccepts between⟩
  -- Up to the end of `between` the two runs deliver at different times, and from there they agree.
  have hsame : Same (after (before ++ [late] ++ between))
      (after (before ++ between ++ [late])) := by
    rw [after_append, after_concat, after_concat, early, afterwards, after_append]
    exact foldl_add_answer between hresults apart
  rw [group_eq, group_eq, after_append, after_append _ behind]
  exact (hsame.foldl_add behind).toList

/-- The results of two parallel calls may arrive in either order, here with a word of the user and
a further turn in between, and one of the calls answered once more at the end. -/
theorem group_late_results_parallel :
    let result (id content : String) : Block := .toolResult ⟨id, content, false, [], none, none⟩
    let calls : Message := ⟨"a1", "c", .assistant,
      [.toolUse ⟨"t1", "Read", []⟩, .toolUse ⟨"t2", "Grep", []⟩], "", []⟩
    let first : Message := ⟨"r1", "c", .toolResult, [result "t1" "late"], "", []⟩
    let second : Message :=
      ⟨"r2", "c", .toolResult, [result "t2" "found", result "t3" "lost"], "", []⟩
    let word : Message := ⟨"u1", "c", .user, [.text "go on"], "", []⟩
    let turn : Message := ⟨"a2", "c", .assistant, [.text "well"], "", []⟩
    let again : Message := ⟨"r3", "c", .toolResult, [result "t1" "later"], "", []⟩
    List.Forall₂ AnsweredMessage.Agree
      (group ([calls] ++ [first] ++ [word, second, turn] ++ [again]))
      (group ([calls] ++ [word, second, turn] ++ [first] ++ [again])) := by
  intro result calls first second word turn again
  refine group_late_results [calls] [word, second, turn] [again] first rfl ?_ ?_
  · intro block hb
    obtain rfl : block = result "t1" "late" := by simpa [first] using hb
    exact ⟨_, rfl, calls, List.mem_singleton_self _, rfl, List.mem_cons_self⟩
  · intro message hm _ answer ha other ho
    obtain rfl : answer = ⟨"t1", "late", false, [], none, none⟩ := by
      simpa [first, result, Block.results, Block.toolResult?] using ha
    obtain rfl | rfl | rfl : message = word ∨ message = second ∨ message = turn := by
      simpa using hm
    · simp [word, Block.results, Block.toolResult?] at ho
    · obtain rfl | rfl : other = ⟨"t2", "found", false, [], none, none⟩ ∨
          other = ⟨"t3", "lost", false, [], none, none⟩ := by
        simpa [second, result, Block.results, Block.toolResult?] using ho
      all_goals decide
    · simp [turn, Block.results, Block.toolResult?] at ho

end Turns

end ChatHistory
