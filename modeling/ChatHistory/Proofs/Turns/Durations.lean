import ChatHistory.Proofs.Assoc
import ChatHistory.Proofs.Turns.Boundaries

/-!
# Durations stand on the right turn

A marker is noted on the latest turn that is grouped when it comes, which is found by looking
backwards.  Seen from the log, this is the turn that is running: a turn runs from its first message
to the next message that starts one (`Turns.StartsTurn`), whatever stands between them, and
`Turns.stretch` are these messages.  `group_durations` says that a turn has the metadata of its
first message with the last duration that is stated while it runs, that all other messages have
the metadata of the messages that they came with, and that a marker before all turns is lost.

`lastTurn?` is where the backward search ends, and `metadataAt` what it may change.  A step moves
the one (`Step.lastTurn?_eq`) and changes the other only there (`Step.metadataAt_eq`), so the run
lemma `metadataAt_after_append` follows by induction on what comes behind.
-/

namespace ChatHistory

namespace Message

/-- Metadata with the last of the durations that some messages state, if they state one. -/
def noted (messages : List Message) (metadata : Fields) : Fields :=
  match (messages.filterMap statedDuration?).getLast? with
  | some duration => Assoc.set metadata turnDurationField duration
  | none => metadata

@[simp] lemma noted_nil (metadata : Fields) : noted [] metadata = metadata := rfl

lemma noted_singleton_of_none {message : Message} (h : message.statedDuration? = none)
    (metadata : Fields) : noted [message] metadata = metadata := by
  simp [noted, h]

lemma noted_singleton_of_some {message : Message} {duration : Json}
    (h : message.statedDuration? = some duration) (metadata : Fields) :
    noted [message] metadata = Assoc.set metadata turnDurationField duration := by
  simp [noted, h]

/-- Durations can be noted one by one: a later one takes the place of those before. -/
lemma noted_cons (message : Message) (rest : List Message) (metadata : Fields) :
    noted (message :: rest) metadata = noted rest (noted [message] metadata) := by
  cases hs : message.statedDuration? with
  | none => rw [noted_singleton_of_none hs, noted, noted, List.filterMap_cons_none hs]
  | some duration =>
    rw [noted_singleton_of_some hs, noted, noted, List.filterMap_cons_some hs, List.getLast?_cons]
    cases (rest.filterMap statedDuration?).getLast? with
    | none => rfl
    | some later => exact (Assoc.set_set _ _ _ _).symm

end Message

namespace Turns

/-! ## The turn that is running -/

/-- A message of a turn that continues no earlier one: it makes the grouped log longer. -/
def StartsTurn (earlier : List Message) (message : Message) : Prop :=
  message.kind.isTurn ∧ (group earlier).length < (group (earlier ++ [message])).length

instance (earlier : List Message) (message : Message) : Decidable (StartsTurn earlier message) :=
  inferInstanceAs (Decidable (_ ∧ _))

/-- Of the messages behind some earlier ones, those up to the next that starts a turn. -/
def stretch : List Message → List Message → List Message
  | _, [] => []
  | earlier, message :: behind =>
    if StartsTurn earlier message then []
    else message :: stretch (earlier ++ [message]) behind

lemma length_group (messages : List Message) :
    (group messages).length = (after messages).latest.length := by
  rw [group_eq, length_toList, ordered, List.length_reverse]

/-- The place of the latest turn among some messages, of which the latest stands first. -/
def lastTurn? : List Message → Option ℕ
  | [] => none
  | message :: earlier => if message.kind.isTurn then some earlier.length else lastTurn? earlier

lemma lastTurn?_lt {messages : List Message} {place : ℕ} (h : lastTurn? messages = some place) :
    place < messages.length := by
  induction messages with
  | nil => simp [lastTurn?] at h
  | cons message earlier ih =>
    rw [List.length_cons]
    unfold lastTurn? at h
    split at h
    · obtain rfl := Option.some.inj h
      exact Nat.lt_succ_self _
    · exact (ih h).trans (Nat.lt_succ_self _)

/-- The search passes over messages that are not of turns. -/
lemma lastTurn?_append {messages : List Message}
    (plain : ∀ message ∈ messages, ¬message.kind.isTurn) (earlier : List Message) :
    lastTurn? (messages ++ earlier) = lastTurn? earlier := by
  induction messages with
  | nil => rfl
  | cons message messages ih =>
    rw [List.cons_append, lastTurn?, if_neg (plain message List.mem_cons_self)]
    exact ih fun m hm => plain m (List.mem_cons_of_mem _ hm)

/-- A noted duration moves no turn. -/
lemma lastTurn?_annotate (duration : Json) (messages : List Message) :
    lastTurn? (annotate duration messages) = lastTurn? messages := by
  induction messages with
  | nil => rfl
  | cons message earlier ih =>
    unfold annotate
    split
    · rfl
    · rename_i plain
      rw [lastTurn?, lastTurn?, if_neg plain, if_neg plain, ih]

/-- Without a turn there is nothing to note a duration on. -/
lemma annotate_of_lastTurn?_eq_none {messages : List Message} (h : lastTurn? messages = none)
    (duration : Json) : annotate duration messages = messages := by
  induction messages with
  | nil => rfl
  | cons message earlier ih =>
    unfold lastTurn? at h
    unfold annotate
    split at h
    · contradiction
    · rename_i plain
      rw [if_neg plain, ih h]

/-- A step moves the search to a turn that it starts, and leaves it where it is otherwise. -/
lemma Step.lastTurn?_eq {turns next : Turns} {message : Message} (h : Step turns message next) :
    lastTurn? next.latest =
      if message.kind.isTurn ∧ turns.latest.length < next.latest.length then
        some turns.latest.length
      else lastTurn? turns.latest := by
  cases h with
  | marks duration stated =>
    have plain : ¬message.kind.isTurn := fun turn => by
      simp [Message.statedDuration?_of_isTurn turn] at stated
    rw [if_neg fun both => plain both.1]
    exact lastTurn?_annotate duration _
  | answers brings =>
    have plain : ¬message.kind.isTurn := fun turn =>
      Message.kind_ne_toolResult_of_isTurn turn brings
    rw [if_neg fun both => plain both.1]
    refine lastTurn?_append (fun remnant hremnant => ?_) _
    exact not_isTurn_of_mem_residue brings (List.mem_reverse.1 hremnant)
  | continues last earlier top lastTurn nextTurn =>
    simp [top, lastTurn?, lastTurn]
  | starts unstated plain apart =>
    by_cases turn : message.kind.isTurn <;> simp [lastTurn?, turn]

/-- After messages that are not of turns there is no turn. -/
lemma lastTurn?_after_eq_none {messages : List Message}
    (plain : ∀ message ∈ messages, ¬message.kind.isTurn) :
    lastTurn? (after messages).latest = none := by
  induction messages using List.reverseRecOn with
  | nil => rfl
  | append_singleton messages message ih =>
    have last := plain message (List.mem_append_right _ List.mem_cons_self)
    rw [after_concat, (add_step _ message).lastTurn?_eq, if_neg fun both => last both.1]
    exact ih fun m hm => plain m (List.mem_append_left _ hm)

/-! ## Metadata -/

/-- The metadata of the message at a place. -/
def metadataAt (turns : Turns) (place : ℕ) : Option Fields :=
  turns.ordered[place]?.map Message.metadata

/-- The latest message stands behind the others. -/
lemma getElem?_reverse_cons {α : Type} (last : α) (earlier : List α) (place : ℕ) :
    (last :: earlier).reverse[place]? =
      if place = earlier.length then some last else earlier.reverse[place]? := by
  rw [List.reverse_cons, List.getElem?_append, List.length_reverse]
  rcases Nat.lt_trichotomy place earlier.length with hlt | rfl | hgt
  · rw [if_pos hlt, if_neg hlt.ne]
  · simp
  · have hbeyond : earlier.reverse[place]? = none := by simpa using hgt.le
    rw [if_neg hgt.not_gt, if_neg hgt.ne', hbeyond, List.getElem?_singleton,
      if_neg (Nat.sub_ne_zero_of_lt hgt)]

/-- A duration is noted where the search ends, and nowhere else. -/
lemma metadata_annotate (duration : Json) (messages : List Message) (place : ℕ) :
    (annotate duration messages).reverse[place]?.map Message.metadata =
      (messages.reverse[place]?.map Message.metadata).map fun metadata =>
        if lastTurn? messages = some place then
          Assoc.set metadata turnDurationField duration
        else metadata := by
  induction messages with
  | nil => rfl
  | cons message earlier ih =>
    have hlength := (annotate_growth duration earlier).length_eq
    unfold annotate lastTurn?
    split
    · rw [getElem?_reverse_cons, getElem?_reverse_cons]
      by_cases hlast : place = earlier.length
      · simp [hlast]
      · simp only [hlast, Ne.symm hlast, Option.some.injEq, if_false, Option.map_id']
    · rw [getElem?_reverse_cons, getElem?_reverse_cons, ← hlength]
      by_cases hlast : place = earlier.length
      · have hother : lastTurn? earlier ≠ some place := fun h => (lastTurn?_lt h).ne hlast
        simp [hlast, hlast ▸ hother]
      · simpa only [hlast, if_false] using ih

/-- A step changes the metadata of no message that is there but that of the running turn, where it
notes a duration that the message states. -/
lemma Step.metadataAt_eq {turns next : Turns} {message : Message} (h : Step turns message next)
    {place : ℕ} (there : place < turns.latest.length) :
    next.metadataAt place = (turns.metadataAt place).map fun metadata =>
      if lastTurn? turns.latest = some place then Message.noted [message] metadata
      else metadata := by
  have unchanged (unstated : message.statedDuration? = none) :
      (turns.metadataAt place).map (fun metadata =>
        if lastTurn? turns.latest = some place then Message.noted [message] metadata
        else metadata) = turns.metadataAt place := by
    simp [Message.noted_singleton_of_none unstated]
  cases h with
  | marks duration stated =>
    simp only [Message.noted_singleton_of_some stated]
    exact metadata_annotate duration turns.latest place
  | answers brings =>
    rw [unchanged (Message.statedDuration?_of_kind_ne (by simp [brings]))]
    simp only [metadataAt, ordered, List.reverse_append, List.reverse_reverse]
    rw [List.getElem?_append_left (by simpa using there)]
  | continues last earlier top lastTurn nextTurn =>
    rw [unchanged (Message.statedDuration?_of_isTurn nextTurn)]
    simp only [metadataAt, ordered, top, getElem?_reverse_cons]
    split <;> rfl
  | starts unstated plain apart =>
    rw [unchanged unstated]
    simp only [metadataAt, ordered, getElem?_reverse_cons, there.ne, if_false]

/-- What remains of a message has its metadata. -/
lemma metadata_of_mem_residue {owners : ToolOwners ℕ} {message remnant : Message}
    (h : remnant ∈ residue owners message) : remnant.metadata = message.metadata := by
  unfold residue at h
  rcases List.mem_append.1 h with h | h
  · split at h
    · simp at h
    · obtain rfl := List.mem_singleton.1 h
      rfl
  · split at h
    · simp at h
    · obtain rfl := List.mem_singleton.1 h
      rfl

/-- A message that a step puts at a new place has the metadata of the message that was added.  It is
of a turn if this one is, and exactly then the search ends at it from then on. -/
lemma Step.getElem?_new {turns next : Turns} {message new : Message} (h : Step turns message next)
    {place : ℕ} (fresh : turns.latest.length ≤ place) (hnew : next.ordered[place]? = some new) :
    new.metadata = message.metadata ∧ (new.kind.isTurn ↔ message.kind.isTurn) ∧
      (lastTurn? next.latest = some place ↔ message.kind.isTurn) := by
  have below {messages : List Message} (hlength : messages.length = turns.latest.length) :
      messages.reverse[place]? = none := by simpa [hlength] using fresh
  cases h with
  | marks duration stated =>
    rw [ordered, below (annotate_growth duration turns.latest).length_eq.symm] at hnew
    contradiction
  | answers brings =>
    rw [ordered, List.reverse_append, List.reverse_reverse, List.getElem?_append_right
      (by simpa using fresh)] at hnew
    have hremnant := List.mem_of_getElem? hnew
    have plain : ∀ remnant ∈ (residue turns.owners message).reverse, ¬remnant.kind.isTurn :=
      fun remnant hr => not_isTurn_of_mem_residue brings (List.mem_reverse.1 hr)
    have unturned : ¬message.kind.isTurn := fun turn =>
      Message.kind_ne_toolResult_of_isTurn turn brings
    refine ⟨metadata_of_mem_residue hremnant,
      iff_of_false (not_isTurn_of_mem_residue brings hremnant) unturned, ?_⟩
    rw [lastTurn?_append plain]
    exact iff_of_false (fun hlast => fresh.not_gt (lastTurn?_lt hlast)) unturned
  | continues last earlier top lastTurn nextTurn =>
    rw [ordered, below (by simp [top])] at hnew
    contradiction
  | starts unstated plain apart =>
    rw [ordered, getElem?_reverse_cons, below rfl] at hnew
    split at hnew
    · rename_i hplace
      obtain rfl := Option.some.inj hnew
      refine ⟨rfl, Iff.rfl, ?_⟩
      rw [lastTurn?, hplace]
      by_cases turn : message.kind.isTurn
      · simp [turn]
      · have hother : lastTurn? turns.latest ≠ some turns.latest.length := fun hlast =>
          (lastTurn?_lt hlast).false
        simp [turn, hother]
    · contradiction

/-- While a turn runs, the durations that are stated are noted on it, and all other messages that
are there keep their metadata. -/
lemma metadataAt_after_append (earlier behind : List Message) {place : ℕ}
    (there : place < (after earlier).latest.length) :
    (after (earlier ++ behind)).metadataAt place =
      ((after earlier).metadataAt place).map fun metadata =>
        if lastTurn? (after earlier).latest = some place then
          Message.noted (stretch earlier behind) metadata
        else metadata := by
  induction behind generalizing earlier with
  | nil => simp [stretch]
  | cons message behind ih =>
    have step := add_step (after earlier) message
    have htail := ih (earlier ++ [message]) (by
      rw [after_concat]
      exact there.trans_le step.length_le)
    rw [List.append_assoc, List.singleton_append] at htail
    rw [htail, after_concat, step.metadataAt_eq there, step.lastTurn?_eq, Option.map_map]
    congr 1
    funext metadata
    have hstarts : StartsTurn earlier message ↔ message.kind.isTurn ∧
        (after earlier).latest.length < ((after earlier).add message).latest.length := by
      rw [StartsTurn, length_group, length_group, after_concat]
    by_cases starts : StartsTurn earlier message
    · -- The turn that was running, if any, is over, and the message states no duration.
      have unstated := Message.statedDuration?_of_isTurn starts.1
      rw [if_pos (hstarts.1 starts)]
      simp [stretch, starts, there.ne', Message.noted_singleton_of_none unstated]
    · rw [if_neg (mt hstarts.2 starts)]
      by_cases running : lastTurn? (after earlier).latest = some place
      · simp [stretch, starts, running, ← Message.noted_cons]
      · simp [running]

/-! ## Grouped logs -/

/-- Every place came to be with one of the messages. -/
lemma exists_source (messages : List Message) {place : ℕ}
    (there : place < (after messages).latest.length) :
    ∃ before source behind, messages = before ++ source :: behind ∧
      (after before).latest.length ≤ place ∧
        place < (after (before ++ [source])).latest.length := by
  induction messages using List.reverseRecOn with
  | nil => simp [empty] at there
  | append_singleton messages message ih =>
    by_cases hold : place < (after messages).latest.length
    · obtain ⟨before, source, behind, rfl, hbefore, hsource⟩ := ih hold
      exact ⟨before, source, behind ++ [message], by simp, hbefore, hsource⟩
    · exact ⟨messages, message, [], rfl, Nat.le_of_not_lt hold, there⟩

/-- A duration is noted on turns only, so no message becomes a marker by it. -/
lemma unstated_annotate {messages : List Message}
    (h : ∀ message ∈ messages, message.statedDuration? = none) (duration : Json) :
    ∀ message ∈ annotate duration messages, message.statedDuration? = none := by
  induction messages with
  | nil => exact h
  | cons message earlier ih =>
    obtain ⟨hmessage, hearlier⟩ := List.forall_mem_cons.1 h
    unfold annotate
    split
    · rename_i turn
      exact List.forall_mem_cons.2 ⟨Message.statedDuration?_of_isTurn turn, hearlier⟩
    · exact List.forall_mem_cons.2 ⟨hmessage, ih hearlier⟩

/-- A step groups no marker. -/
lemma Step.unstated {turns next : Turns} {message : Message} (h : Step turns message next)
    (before : ∀ grouped ∈ turns.latest, grouped.statedDuration? = none) :
    ∀ grouped ∈ next.latest, grouped.statedDuration? = none := by
  cases h with
  | marks duration stated =>
    exact unstated_annotate before duration
  | answers brings =>
    intro grouped hgrouped
    rcases List.mem_append.1 hgrouped with hremnant | hold
    · obtain ⟨hkind | hkind, -⟩ := kind_content_of_mem_residue (List.mem_reverse.1 hremnant)
      · exact Message.statedDuration?_of_kind_ne (by simp [hkind, brings])
      · exact Message.statedDuration?_of_kind_ne (by simp [hkind])
    · exact before grouped hold
  | continues last earlier top lastTurn nextTurn =>
    intro grouped hgrouped
    rcases List.mem_cons.1 hgrouped with rfl | hold
    · exact Message.statedDuration?_of_isTurn lastTurn
    · exact before grouped (top ▸ List.mem_cons_of_mem _ hold)
  | starts unstated plain apart =>
    intro grouped hgrouped
    rcases List.mem_cons.1 hgrouped with rfl | hold
    · exact unstated
    · exact before grouped hold

lemma unstated_after (messages : List Message) :
    ∀ grouped ∈ (after messages).latest, grouped.statedDuration? = none := by
  induction messages using List.reverseRecOn with
  | nil => exact fun grouped h => absurd h List.not_mem_nil
  | append_singleton messages message ih =>
    rw [after_concat]
    exact (add_step _ message).unstated ih

/-- The grouped messages have the metadata of the messages grouped so far. -/
lemma metadataAt_after (messages : List Message) {place : ℕ}
    (hlt : place < (group messages).length) :
    (after messages).metadataAt place = some (group messages)[place].metadata := by
  have hmap := map_toList Message.metadata (fun _ _ => rfl) (after messages)
  rw [metadataAt, ← List.getElem?_map, ← hmap, List.getElem?_map, ← group_eq,
    List.getElem?_eq_getElem hlt]
  rfl

/-- A message that is grouped keeps its kind, whatever follows. -/
lemma kind_group_append (messages more : List Message) {place : ℕ} {grouped : Message}
    (h : (after messages).ordered[place]? = some grouped)
    (hlt : place < (group (messages ++ more)).length) :
    (group (messages ++ more))[place].kind = grouped.kind := by
  obtain ⟨hplace, rfl⟩ := List.getElem?_eq_some_iff.1 h
  obtain ⟨hlater, grown, -⟩ := (after_append_grows messages more).ordered.getElem place hplace
  have hkinds := congrArg (·[place]?) (map_kind_toList (after (messages ++ more)))
  simp only [← group_eq, List.getElem?_map, List.getElem?_eq_getElem hlt,
    List.getElem?_eq_getElem hlater, Option.map_some, Option.some.injEq] at hkinds
  exact hkinds.trans grown.kind

/-- What a place of the grouped log has from the message that it came with: whether it is of a turn,
and its metadata, with the last duration that is stated while this turn runs. -/
lemma group_metadata {before behind : List Message} {source : Message} {place : ℕ}
    (fresh : (group before).length ≤ place) (there : place < (group (before ++ [source])).length)
    (hlt : place < (group (before ++ source :: behind)).length) :
    ((group (before ++ source :: behind))[place].kind.isTurn ↔ StartsTurn before source) ∧
      (group (before ++ source :: behind))[place].metadata =
        if StartsTurn before source then
          Message.noted (stretch (before ++ [source]) behind) source.metadata
        else source.metadata := by
  have hlog : before ++ source :: behind = before ++ [source] ++ behind := by simp
  have hstarts : StartsTurn before source ↔ source.kind.isTurn :=
    ⟨And.left, fun turn => ⟨turn, fresh.trans_lt there⟩⟩
  rw [length_group] at fresh there
  have step := add_step (after before) source
  rw [← after_concat] at step
  obtain ⟨new, hnew⟩ : ∃ new, (after (before ++ [source])).ordered[place]? = some new :=
    ⟨_, List.getElem?_eq_getElem (by rwa [ordered, List.length_reverse])⟩
  obtain ⟨hmetadata, hkind, hlast⟩ := step.getElem?_new fresh hnew
  simp only [hlog] at hlt ⊢
  refine ⟨?_, Option.some.inj ?_⟩
  · rw [kind_group_append _ behind hnew hlt, hkind, hstarts]
  · rw [← metadataAt_after _ hlt, metadataAt_after_append _ behind there, metadataAt, hnew]
    simp only [Option.map_some, hmetadata, hlast, hstarts]

/-- Durations stand on the right turn.  No marker is among the grouped messages.  Each of them came
with one message of the log, and has its metadata; only a turn has the last duration, if there is
one, that the messages between the one that started it and the next one that starts a turn state.
A marker that no message of a turn comes before changes nothing. -/
theorem group_durations (messages : List Message) :
    (∀ message ∈ group messages, message.statedDuration? = none) ∧
    (∀ place (hlt : place < (group messages).length), ∃ before source behind,
      messages = before ++ source :: behind ∧
      (group before).length ≤ place ∧ place < (group (before ++ [source])).length ∧
      ((group messages)[place].kind.isTurn ↔ StartsTurn before source) ∧
      (group messages)[place].metadata =
        if (group messages)[place].kind.isTurn then
          Message.noted (stretch (before ++ [source]) behind) source.metadata
        else source.metadata) ∧
    ∀ before marker behind, messages = before ++ marker :: behind →
      marker.statedDuration?.isSome → (∀ message ∈ before, ¬message.kind.isTurn) →
        group messages = group (before ++ behind) := by
  refine ⟨fun message hmessage => ?_, fun place hlt => ?_, ?_⟩
  · have hmap := map_toList Message.statedDuration? (fun _ _ => rfl) (after messages)
    have hmem : message.statedDuration? ∈ (after messages).ordered.map Message.statedDuration? :=
      hmap ▸ List.mem_map_of_mem hmessage
    obtain ⟨grouped, hgrouped, hsame⟩ := List.mem_map.1 hmem
    rw [← hsame]
    exact unstated_after messages grouped (List.mem_reverse.1 hgrouped)
  · obtain ⟨before, source, behind, rfl, fresh, there⟩ := exists_source messages
      (length_group messages ▸ hlt)
    rw [← length_group] at fresh there
    obtain ⟨hkind, hmetadata⟩ := group_metadata fresh there hlt
    refine ⟨before, source, behind, rfl, fresh, there, hkind, ?_⟩
    simpa only [hkind] using hmetadata
  · rintro before marker behind rfl stated plain
    obtain ⟨duration, stated⟩ := Option.isSome_iff_exists.1 stated
    have lost : (after before).add marker = after before := by
      rw [(Step.marks duration stated).add_eq,
        annotate_of_lastTurn?_eq_none (lastTurn?_after_eq_none plain)]
    rw [group_eq, group_eq, after_append, after_append, List.foldl_cons, lost]

/-- The first of three markers is lost, the second is overruled, and the third stands on the turn
before the word of the user, not on the word or on the turn behind it. -/
theorem group_durations_overruled :
    let marker (n : Int) : Message := ⟨"s", "c", .system, [], "", [("turnDurationMs", .int n)]⟩
    let call : Message := ⟨"a1", "c", .assistant, [.text "well"], "", [("model", .string "m")]⟩
    let word : Message := ⟨"u1", "c", .user, [.text "go on"], "", []⟩
    let last : Message := ⟨"a2", "c", .toolUse, [.text "done"], "", []⟩
    let log := [call, marker 5, word, marker 7, last]
    group (marker 3 :: log) = group log ∧
      (∀ message ∈ group (marker 3 :: log), message.statedDuration? = none) ∧
      (group log).map (fun message => message.metadata) =
        [[("model", .string "m"), ("turnDurationMs", .int 7)], [], []] := by
  intro marker call word last log
  have durations := group_durations (marker 3 :: log)
  have lost : group (marker 3 :: log) = group log :=
    durations.2.2 [] (marker 3) log rfl rfl fun _ h => absurd h List.not_mem_nil
  exact ⟨lost, durations.1, rfl⟩

end Turns

end ChatHistory
