import ChatHistory.Proofs.ToolCalls
import ChatHistory.Proofs.Turns.Boundaries
import ChatHistory.Proofs.Turns.Delivery

/-!
# Logs are displayed piece by piece

Where a user speaks, a log can be cut: the display of the whole is that of the two pieces, one
behind the other, if the second piece has nothing to do with the tool uses of the first, and no
marker in it comes before its first turn (`ofMessages_append`).

Grouping the second piece behind the first one is grouping it alone, on top of what is there already
and with all places moved by its length: this is `Turns.Follows`, which every further message keeps
(`Follows.add`).  The message of the user makes sure that something of the second piece is there, so
that no turn continues one of the first.
-/

namespace ChatHistory

namespace Message

/-- The identifiers that the tool uses and the results of a message name. -/
def namedIds (message : Message) : List String :=
  Block.useIds message.content ++ (Block.results message.content).map ToolResult.toolUseId

/-- Every marker among some messages has a turn before it. -/
def MarkersFollowTurns (messages : List Message) : Prop :=
  ∀ before marker behind, messages = before ++ marker :: behind →
    marker.statedDuration?.isSome → ∃ turn ∈ before, turn.kind.isTurn

/-- Without the echoes of commands, the same turns come before a marker. -/
lemma MarkersFollowTurns.withoutCommandEchoes {messages : List Message}
    (h : MarkersFollowTurns messages) : MarkersFollowTurns (withoutCommandEchoes messages) := by
  intro before marker behind hsplit stated
  obtain ⟨first, rest, rfl, rfl, hrest⟩ := List.filter_eq_append_iff.1 hsplit
  obtain ⟨echoes, last, rfl, hechoes, -, -⟩ := List.filter_eq_cons_iff.1 hrest
  obtain ⟨turn, hturn, hkind⟩ := h (first ++ echoes) marker last (by simp) stated
  have typed : ¬turn.isCommandEcho := fun echo => by
    simp [DisplayedMessage.kind_of_isCommandEcho echo, MessageKind.isTurn] at hkind
  rcases List.mem_append.1 hturn with hturn | hturn
  · exact ⟨turn, List.mem_filter.2 ⟨hturn, by simpa using typed⟩, hkind⟩
  · exact absurd (hechoes turn hturn) (by simpa using typed)

/-- An identifier with an owner is that of a tool use. -/
lemma mem_useIds_of_mem_assignedIds {message : Message} {id : String}
    (h : id ∈ message.assignedIds) : id ∈ Block.useIds message.content := by
  unfold assignedIds at h
  split at h
  · contradiction
  · exact h

/-- An identifier used in a turn is that of a tool use. -/
lemma mem_useIds_of_mem_turnUseIds {message : Message} {id : String}
    (h : id ∈ message.turnUseIds) : id ∈ Block.useIds message.content := by
  unfold turnUseIds at h
  split at h
  · exact h
  · contradiction

end Message

namespace Turns

variable {base alone joined : Turns} {message : Message}

/-! ## Turns that are there -/

/-- A message of a turn is among the grouped ones. -/
def HasTurn (turns : Turns) : Prop :=
  ∃ kind ∈ turns.latest.map Message.kind, kind.isTurn

/-- A turn stays, and a message of a turn makes one. -/
lemma Step.hasTurn {turns next : Turns} (h : Step turns message next)
    (turn : turns.HasTurn ∨ message.kind.isTurn) : next.HasTurn := by
  cases h with
  | marks duration stated =>
    have before := turn.resolve_right fun turn => by
      simp [Message.statedDuration?_of_isTurn turn] at stated
    rwa [HasTurn, map_annotate Message.kind (fun _ _ => rfl)]
  | answers brings =>
    obtain ⟨kind, hkind, hturn⟩ := turn.resolve_right fun turn =>
      Message.kind_ne_toolResult_of_isTurn turn brings
    refine ⟨kind, ?_, hturn⟩
    rw [List.map_append]
    exact List.mem_append_right _ hkind
  | continues last earlier top lastTurn nextTurn =>
    exact ⟨last.kind, List.mem_cons_self, lastTurn⟩
  | starts unstated plain apart =>
    rcases turn with ⟨kind, hkind, hturn⟩ | turn
    · exact ⟨kind, List.mem_cons_of_mem _ hkind, hturn⟩
    · exact ⟨message.kind, List.mem_cons_self, turn⟩

/-- A duration is noted on the latest turn, whatever stands before it. -/
lemma annotate_append {messages : List Message}
    (turn : ∃ kind ∈ messages.map Message.kind, kind.isTurn) (duration : Json)
    (more : List Message) :
    annotate duration (messages ++ more) = annotate duration messages ++ more := by
  induction messages with
  | nil => simp at turn
  | cons message earlier ih =>
    rw [List.cons_append, annotate, annotate]
    split
    · rfl
    · rename_i plain
      have before : ∃ kind ∈ earlier.map Message.kind, kind.isTurn := by
        obtain ⟨kind, hkind, hturn⟩ := turn
        rcases List.mem_cons.1 hkind with rfl | hkind
        · exact absurd hturn plain
        · exact ⟨kind, hkind, hturn⟩
      rw [ih before, List.cons_append]

/-! ## Two pieces -/

/-- A grouping that is one of some messages with another one on top of it. -/
structure Follows (base alone joined : Turns) : Prop where
  latest : joined.latest = alone.latest ++ base.latest
  owner : ∀ id, joined.owners.owner? id = (base.owners.owner? id).or
    ((alone.owners.owner? id).map (· + base.latest.length))
  result : ∀ id, joined.owners.result? id =
    if (base.owners.owner? id).isSome then base.owners.result? id else alone.owners.result? id

/-- Nothing has been put on top. -/
lemma Follows.refl (earlier : List Message) : Follows (after earlier) empty (after earlier) where
  latest := rfl
  owner id := by simp [empty, ToolOwners.empty, ToolOwners.owner?, Assoc.get?]
  result id := by
    split
    · rfl
    · rename_i unowned
      refine Option.not_isSome_iff_eq_none.1 fun known => ?_
      exact unowned ((placed_after earlier).result id known)

/-- Assigned on top, tool uses get the same owners as alone, but for the places below. -/
lemma Follows.owner?_assign (h : Follows base alone joined) (place : ℕ) (blocks : List Block)
    (id : String) :
    (joined.owners.assign (place + base.latest.length) blocks).owner? id =
      (base.owners.owner? id).or
        (((alone.owners.assign place blocks).owner? id).map (· + base.latest.length)) := by
  rw [ToolOwners.owner?_assign, ToolOwners.owner?_assign, h.owner, Option.or_assoc]
  congr 1
  cases alone.owners.owner? id with
  | some owner => rfl
  | none => by_cases hid : id ∈ Block.useIds blocks <;> simp [hid]

/-- A message keeps a grouping on top, if it names none of the tool uses below, does not continue
what is below, and is no marker for it. -/
lemma Follows.add (h : Follows base alone joined)
    (apart : ∀ id ∈ message.namedIds, base.owners.owner? id = none)
    (opens : alone.latest = [] → ¬message.kind.isTurn)
    (marked : message.statedDuration?.isSome → alone.HasTurn) :
    Follows base (alone.add message) (joined.add message) := by
  have hstep := add_step alone message
  generalize alone.add message = next at hstep
  cases hstep with
  | marks duration stated =>
    rw [(Step.marks duration stated).add_eq]
    refine ⟨?_, h.owner, h.result⟩
    rw [h.latest]
    exact annotate_append (marked (by simp [stated])) duration _
  | answers brings =>
    have hunowned : ∀ result ∈ Block.results message.content,
        base.owners.owner? result.toolUseId = none := fun result hresult =>
      apart _ (List.mem_append_right _ (List.mem_map_of_mem hresult))
    have hresidue : residue joined.owners message = residue alone.owners message := by
      refine residue_congr_of_mem fun result hresult => ?_
      simp [ToolOwners.accepts, h.owner, hunowned result hresult]
    rw [(Step.answers brings).add_eq]
    refine ⟨?_, fun id => ?_, fun id => ?_⟩
    · rw [hresidue, h.latest, List.append_assoc]
    · rw [ToolOwners.owner?_deliverAll, ToolOwners.owner?_deliverAll, h.owner]
    · rw [ToolOwners.result?_deliverAll, ToolOwners.result?_deliverAll, h.owner, h.result]
      cases hbase : base.owners.owner? id with
      | none => simp
      | some owner =>
        have hnone : lastFor? (Block.results message.content) id = none := by
          rw [lastFor?_eq_none_iff]
          rintro result hresult rfl
          simp [hunowned result hresult] at hbase
        simp [hnone]
  | continues last earlier top lastTurn nextTurn =>
    have htop : joined.latest = last :: (earlier ++ base.latest) := by rw [h.latest, top]; rfl
    rw [(Step.continues last _ htop lastTurn nextTurn).add_eq, List.length_append]
    exact ⟨rfl, h.owner?_assign _ _, fun id => by simp [h.result]⟩
  | starts unstated plain hapart =>
    have htop : ∀ last ∈ joined.latest.head?, ¬(last.kind.isTurn ∧ message.kind.isTurn) := by
      intro last hlast both
      rw [h.latest] at hlast
      cases htop : alone.latest with
      | nil => exact opens htop both.2
      | cons first rest =>
        rw [htop] at hlast
        exact hapart last (by rw [htop]; exact hlast) both
    rw [(Step.starts unstated plain htop).add_eq]
    refine ⟨by rw [h.latest, List.cons_append], fun id => ?_, fun id => by simp [h.result]⟩
    rw [h.latest, List.length_append]
    exact h.owner?_assign _ _ id

/-- Further messages keep a grouping on top, if they name none of the tool uses below and no marker
among them comes before all turns. -/
lemma Follows.foldl_add {messages : List Message} (h : Follows base alone joined)
    (apart : ∀ message ∈ messages, ∀ id ∈ message.namedIds, base.owners.owner? id = none)
    (opened : alone.latest ≠ [])
    (marked : ∀ before marker behind, messages = before ++ marker :: behind →
      marker.statedDuration?.isSome → alone.HasTurn ∨ ∃ turn ∈ before, turn.kind.isTurn) :
    Follows base (messages.foldl Turns.add alone) (messages.foldl Turns.add joined) := by
  induction messages generalizing alone joined with
  | nil => exact h
  | cons message rest ih =>
    have hstep := add_step alone message
    have hfirst : Follows base (alone.add message) (joined.add message) := by
      refine h.add (apart message List.mem_cons_self) (fun hnil => absurd hnil opened) ?_
      intro stated
      exact (marked [] message rest rfl stated).resolve_right (by simp)
    refine ih hfirst (fun m hm => apart m (List.mem_cons_of_mem _ hm)) ?_ ?_
    · rw [← List.length_pos_iff] at opened ⊢
      exact opened.trans_le hstep.length_le
    · intro before marker behind hrest stated
      have hmarked := marked (message :: before) marker behind (by rw [hrest]; rfl) stated
      rcases hmarked with turn | ⟨turn, hturn, hkind⟩
      · exact .inl (hstep.hasTurn (.inl turn))
      · rcases List.mem_cons.1 hturn with rfl | hturn
        · exact .inl (hstep.hasTurn (.inr hkind))
        · exact .inr ⟨turn, hturn, hkind⟩

/-- On top, the same turns are shown as alone: what is below has seen none of their tool uses. -/
lemma Follows.withoutRepeatedUses_ordered (h : Follows base alone joined)
    (unseen : ∀ id ∈ base.ordered.flatMap Message.turnUseIds,
      id ∉ alone.ordered.flatMap Message.turnUseIds) :
    withoutRepeatedUses [] joined.ordered =
      withoutRepeatedUses [] base.ordered ++ withoutRepeatedUses [] alone.ordered := by
  have hordered : joined.ordered = base.ordered ++ alone.ordered := by simp [ordered, h.latest]
  rw [hordered, withoutRepeatedUses_append]
  congr 1
  refine withoutRepeatedUses_congr fun id hid => ?_
  rw [mem_foldl_seenAfter]
  refine ⟨fun hseen => ?_, fun hseen => absurd hseen List.not_mem_nil⟩
  exact absurd hid (unseen id (hseen.resolve_left List.not_mem_nil))

/-- A place below has the results that it had. -/
lemma Follows.get?_resultsOf_below (h : Follows base alone joined) {place : ℕ}
    (below : place < base.latest.length) (id : String) :
    (joined.owners.resultsOf place).get? id = (base.owners.resultsOf place).get? id := by
  rw [ToolOwners.get?_resultsOf, ToolOwners.get?_resultsOf, h.owner, h.result]
  cases base.owners.owner? id with
  | some owner => simp
  | none =>
    cases alone.owners.owner? id with
    | none => simp
    | some owner =>
      have hne : owner + base.latest.length ≠ place := by omega
      simp [hne]

/-- A place on top has the results that it has alone. -/
lemma Follows.get?_resultsOf_above (h : Follows base alone joined) (placed : Placed base)
    (disjoint : ∀ id, (alone.owners.owner? id).isSome → base.owners.owner? id = none)
    (place : ℕ) (id : String) :
    (joined.owners.resultsOf (base.latest.length + place)).get? id =
      (alone.owners.resultsOf place).get? id := by
  rw [ToolOwners.get?_resultsOf, ToolOwners.get?_resultsOf, h.owner, h.result]
  cases howned : base.owners.owner? id with
  | none =>
    cases alone.owners.owner? id with
    | none => simp
    | some owner =>
      have hplace : owner + base.latest.length = base.latest.length + place ↔ owner = place := by
        omega
      simp [hplace]
  | some owner =>
    have hlt := placed.owner id owner howned
    rw [ordered, List.length_reverse] at hlt
    have hne : owner ≠ base.latest.length + place := by omega
    have hnone : alone.owners.owner? id = none := by
      rw [← Option.not_isSome_iff_eq_none]
      intro hsome
      simp [disjoint id hsome] at howned
    simp [hne, hnone]

/-- The grouped messages of two pieces are those of the first one, and then those of the second. -/
lemma Follows.toList (h : Follows base alone joined) (placed : Placed base)
    (unseen : ∀ id ∈ base.ordered.flatMap Message.turnUseIds,
      id ∉ alone.ordered.flatMap Message.turnUseIds)
    (disjoint : ∀ id, (alone.owners.owner? id).isSome → base.owners.owner? id = none) :
    List.Forall₂ AnsweredMessage.Agree joined.toList (base.toList ++ alone.toList) := by
  have hmessages : joined.toList.map AnsweredMessage.toMessage =
      (base.toList ++ alone.toList).map AnsweredMessage.toMessage := by
    rw [List.map_append, map_toMessage_toList, map_toMessage_toList, map_toMessage_toList,
      h.withoutRepeatedUses_ordered unseen]
  have hlength : base.toList.length = base.latest.length := by
    rw [length_toList, ordered, List.length_reverse]
  rw [List.forall₂_iff_get]
  refine ⟨by simpa using congrArg List.length hmessages, fun i hi hboth => ?_⟩
  simp only [List.get_eq_getElem]
  refine ⟨?_, fun id => ?_⟩
  · have hplace : (joined.toList.map AnsweredMessage.toMessage)[i]? =
        ((base.toList ++ alone.toList).map AnsweredMessage.toMessage)[i]? := by rw [hmessages]
    rw [List.getElem?_map, List.getElem?_map, List.getElem?_eq_getElem hi,
      List.getElem?_eq_getElem hboth] at hplace
    exact Option.some.inj hplace
  · rw [List.getElem_append]
    split
    · rename_i hbelow
      simp only [getElem_toList]
      exact h.get?_resultsOf_below (by omega) id
    · rename_i habove
      have hplace : i = base.latest.length + (i - base.toList.length) := by omega
      simp only [getElem_toList]
      conv_lhs => rw [hplace]
      exact h.get?_resultsOf_above placed disjoint _ id

/-- The turns of a grouping use what the turns of the log use. -/
lemma mem_turnUseIds_ordered (messages : List Message) (id : String) :
    id ∈ (after messages).ordered.flatMap Message.turnUseIds ↔
      id ∈ messages.flatMap Message.turnUseIds := by
  have hseen := mem_seen_after messages id
  rw [seen, mem_foldl_seenAfter] at hseen
  simpa using hseen

/-- Where a user speaks, a log can be cut before it is grouped, if what follows names none of the
tool uses before and no marker in it comes before all of its turns. -/
theorem group_append (earlier rest : List Message) (first : Message) (user : first.kind = .user)
    (apart : ∀ message ∈ first :: rest, ∀ other ∈ earlier,
      ∀ id ∈ Block.useIds other.content, id ∉ message.namedIds)
    (marked : Message.MarkersFollowTurns (first :: rest)) :
    List.Forall₂ AnsweredMessage.Agree (group (earlier ++ first :: rest))
      (group earlier ++ group (first :: rest)) := by
  have unowned : ∀ message ∈ first :: rest, ∀ id ∈ message.namedIds,
      (after earlier).owners.owner? id = none := by
    intro message hmessage id hid
    rw [← Option.not_isSome_iff_eq_none, isSome_owner?_after, List.mem_flatMap]
    rintro ⟨other, hother, hassigned⟩
    have hused := Message.mem_useIds_of_mem_assignedIds hassigned
    exact apart message hmessage other hother id hused hid
  have plain : ¬first.kind.isTurn := by simp [user, MessageKind.isTurn]
  have unstated : first.statedDuration? = none :=
    Message.statedDuration?_of_kind_ne (by simp [user])
  have hopened : (empty.add first).latest = [first] := by
    rw [(Step.starts unstated (by simp [user]) (by simp [empty])).add_eq]
    rfl
  have hfirst : Follows (after earlier) (empty.add first) ((after earlier).add first) :=
    (Follows.refl earlier).add (unowned first List.mem_cons_self) (fun _ => plain)
      (by simp [unstated])
  have hfollows :
      Follows (after earlier) (after (first :: rest)) (after (earlier ++ first :: rest)) := by
    rw [after_append]
    refine hfirst.foldl_add (fun m hm => unowned m (List.mem_cons_of_mem _ hm))
      (by simp [hopened]) fun before marker behind hrest stated => ?_
    have hsplit : first :: rest = (first :: before) ++ marker :: behind := by rw [hrest]; rfl
    obtain ⟨turn, hturn, hkind⟩ := marked _ marker behind hsplit stated
    rcases List.mem_cons.1 hturn with rfl | hturn
    · exact absurd hkind plain
    · exact .inr ⟨turn, hturn, hkind⟩
  refine hfollows.toList (placed_after earlier) (fun id hbase halone => ?_) fun id hid => ?_
  · rw [mem_turnUseIds_ordered, List.mem_flatMap] at hbase halone
    obtain ⟨other, hother, hused⟩ := hbase
    obtain ⟨message, hmessage, hid⟩ := halone
    refine apart message hmessage other hother id ?_ (List.mem_append_left _ ?_)
    · exact Message.mem_useIds_of_mem_turnUseIds hused
    · exact Message.mem_useIds_of_mem_turnUseIds hid
  · obtain ⟨message, hmessage, hassigned⟩ :=
      List.mem_flatMap.1 ((isSome_owner?_after _ id).1 hid)
    exact unowned message hmessage id
      (List.mem_append_left _ (Message.mem_useIds_of_mem_assignedIds hassigned))

end Turns

namespace DisplayedMessage

/-- What is displayed depends on the results as a map. -/
lemma ofAnswered_congr (vocabulary : ToolVocabulary) {message other : AnsweredMessage}
    (h : message.Agree other) : ofAnswered vocabulary message = ofAnswered vocabulary other := by
  have hparts : turnPart? vocabulary message.toolResults =
      turnPart? vocabulary other.toolResults := by
    funext block
    cases block <;> simp [turnPart?, callOf, h.results]
  obtain ⟨message, results⟩ := message
  obtain ⟨other, others⟩ := other
  obtain rfl : message = other := h.toMessage
  dsimp only at hparts
  simp only [ofAnswered, partsOf, turnParts, metadataOf, hparts]

/-- Where a user speaks, and does not just give a command, a log can be cut: its display is that of
what comes before, and then that of what follows.  What follows may name none of the tool uses
before, and no marker in it may come before all of its turns. -/
theorem ofMessages_append (vocabulary : ToolVocabulary) (earlier rest : List Message)
    (first : Message) (user : first.kind = .user) (typed : ¬first.isCommandEcho)
    (apart : ∀ message ∈ first :: rest, ∀ other ∈ earlier,
      ∀ id ∈ Block.useIds other.content, id ∉ message.namedIds)
    (marked : Message.MarkersFollowTurns (first :: rest)) :
    ofMessages vocabulary (earlier ++ first :: rest) =
      ofMessages vocabulary earlier ++ ofMessages vocabulary (first :: rest) := by
  have hsecond : Message.withoutCommandEchoes (first :: rest) =
      first :: Message.withoutCommandEchoes rest := List.filter_cons_of_pos (by simpa using typed)
  have hwhole : Message.withoutCommandEchoes (earlier ++ first :: rest) =
      Message.withoutCommandEchoes earlier ++ first :: Message.withoutCommandEchoes rest := by
    rw [← hsecond]
    exact List.filter_append earlier (first :: rest)
  have apartKept : ∀ message ∈ first :: Message.withoutCommandEchoes rest,
      ∀ other ∈ Message.withoutCommandEchoes earlier,
        ∀ id ∈ Block.useIds other.content, id ∉ message.namedIds := by
    intro message hmessage other hother
    rw [← hsecond] at hmessage
    exact apart message (List.mem_of_mem_filter hmessage) other (List.mem_of_mem_filter hother)
  have hgroup := Turns.group_append _ _ first user apartKept (hsecond ▸ marked.withoutCommandEchoes)
  rw [ofMessages, ofMessages, ofMessages, hwhole, hsecond, ← List.map_append,
    ← List.forall₂_eq_eq_eq, List.forall₂_map_left_iff, List.forall₂_map_right_iff]
  exact hgroup.imp fun _ _ => ofAnswered_congr vocabulary

/-- A log is cut between a turn that waits for a result and a word of the user; behind it, a turn is
answered and gets a duration. -/
theorem ofMessages_append_answered :
    let result (id : String) : Message :=
      ⟨"r", "c", .toolResult, [.toolResult ⟨id, "found", false, [], none, none⟩], "", []⟩
    let use (id : String) : Message := ⟨"a", "c", .assistant, [.toolUse ⟨id, "Read", []⟩], "", []⟩
    let word : Message := ⟨"u", "c", .user, [.text "go on"], "", []⟩
    let marker : Message := ⟨"s", "c", .system, [], "", [("turnDurationMs", .int 5)]⟩
    ofMessages .claude ([use "t1", result "t0"] ++ word :: [use "t2", result "t2", marker]) =
      ofMessages .claude [use "t1", result "t0"] ++
        ofMessages .claude (word :: [use "t2", result "t2", marker]) := by
  intro result use word marker
  have apart : ∀ message ∈ word :: [use "t2", result "t2", marker],
      ∀ other ∈ [use "t1", result "t0"],
        ∀ id ∈ Block.useIds other.content, id ∉ message.namedIds := by decide
  have marked : Message.MarkersFollowTurns (word :: [use "t2", result "t2", marker]) := by
    intro before last behind hsplit stated
    rcases before with _ | ⟨first, _ | ⟨second, before⟩⟩
    · obtain ⟨rfl, -⟩ := List.cons.inj hsplit
      contradiction
    · obtain ⟨rfl, -⟩ := List.cons.inj (List.cons.inj hsplit).2
      contradiction
    · obtain ⟨rfl, -⟩ := List.cons.inj (List.cons.inj hsplit).2
      exact ⟨_, List.mem_cons_of_mem _ List.mem_cons_self, rfl⟩
  exact ofMessages_append .claude _ _ word rfl (by decide) apart marked

end DisplayedMessage

end ChatHistory
