import ChatHistory.Proofs.Assoc
import ChatHistory.Proofs.Entry.Conversion
import ChatHistory.Proofs.Text.Blank
import ChatHistory.Proofs.Text.Scan
import ChatHistory.Proofs.ToolCalls
import ChatHistory.Proofs.Turns.Utterances

/-!
# Echoes of commands in a displayed log

A user who types a command should not see the echo of it that the client records.  Messages of the
user with an echo are dropped before grouping, but a text beside the results of tools becomes a
message of the user only by grouping, so an echo there is displayed.  `echoes_hidden_iff` says that
it is only there that one slips through, except that removing the tag of an attached file can join
what stood around it to the mark of a command.
-/

namespace ChatHistory

namespace CommandEcho

/-- A text with the name of a command is marked. -/
lemma isMarked_of_parse {text : String} (h : (parse text).isSome) : isMarked text := by
  rw [parse, Option.isSome_map, body?, Text.isSome_search_iff] at h
  obtain ⟨rest, hrest, hname⟩ := h
  rw [Option.isSome_map, Option.isSome_iff_exists] at hname
  obtain ⟨name, hname⟩ := hname
  obtain ⟨inner, hinner, -⟩ := Option.bind_eq_some_iff.1 hname
  exact Text.isSome_search_iff.2 ⟨rest, hrest, by simp [hinner]⟩

/-- A marked text is not blank. -/
lemma strip_ne_nil_of_isMarked {text : String} (h : isMarked text) :
    Text.strip text.toList ≠ [] := by
  obtain ⟨rest, hrest, hmark⟩ := Text.isSome_search_iff.1 h
  obtain ⟨behind, hbehind⟩ := Option.isSome_iff_exists.1 hmark
  have hbegin : openTag "command-name" <+: rest :=
    ⟨behind, List.append_eq_of_isPrefixOf?_eq_some hbehind⟩
  have hbracket : '<' ∈ text.toList := hrest.mem (hbegin.mem List.mem_cons_self)
  exact Text.strip_ne_nil hbracket (by decide)

end CommandEcho

namespace DisplayedMessage

/-- What is displayed of a text of the user, if it is not blank. -/
def shownText (text : String) : String :=
  if (Attachment.parse text).1.isEmpty then text else (Attachment.parse text).2

/-- A text of the user is displayed with the mark of a command if its displayed form has one. -/
lemma exists_marked_userTextParts_iff {text : String} :
    (∃ shown, Part.text shown ∈ userTextParts text ∧ CommandEcho.isMarked shown) ↔
      CommandEcho.isMarked (shownText text) := by
  have hparts : userTextParts text =
      if (Text.strip (shownText text).toList).isEmpty then [] else [.text (shownText text)] := rfl
  rw [hparts]
  constructor
  · rintro ⟨shown, hshown, marked⟩
    split at hshown
    · simp at hshown
    · obtain rfl : shown = shownText text := by simpa using hshown
      exact marked
  · intro marked
    have filled := CommandEcho.strip_ne_nil_of_isMarked marked
    exact ⟨shownText text, by simp [filled], marked⟩

/-- A block of the user is displayed with the mark of a command if it is a text that is. -/
lemma exists_marked_userParts_iff {block : Block} :
    (∃ shown, Part.text shown ∈ userParts block ∧ CommandEcho.isMarked shown) ↔
      ∃ text, block = .text text ∧ ¬isInterruption text ∧
        CommandEcho.isMarked (shownText text) := by
  cases block with
  | text text =>
    by_cases interruption : isInterruption text
    · simp [userParts, interruption]
    · simpa [userParts, interruption] using exists_marked_userTextParts_iff
  | _ => simp [userParts]

/-- The text that stands in place of no parts has no mark. -/
lemma exists_marked_orEmptyText_iff {parts : List Part} :
    (∃ shown, Part.text shown ∈ orEmptyText parts ∧ CommandEcho.isMarked shown) ↔
      ∃ shown, Part.text shown ∈ parts ∧ CommandEcho.isMarked shown := by
  have unmarked : ¬CommandEcho.isMarked "" := by decide
  cases parts with
  | nil => simpa [orEmptyText] using unmarked
  | cons part parts => rfl

/-- A block of the user gives the metadata of a command if it is a text with the name of one. -/
lemma mem_keys_userMetadata_iff {block : Block} :
    "command" ∈ (userMetadata block).map Prod.fst ↔
      ∃ text, block = .text text ∧ ¬isInterruption text ∧ (CommandEcho.parse text).isSome := by
  cases block with
  | text text =>
    have hattachments : "command" ∉ (attachmentMetadata text).map Prod.fst := by
      unfold attachmentMetadata
      split <;> simp
    have hcommand : "command" ∈ (commandMetadata text).map Prod.fst ↔
        (CommandEcho.parse text).isSome := by
      unfold commandMetadata
      split <;> rename_i hparse <;> simp [hparse]
    by_cases interruption : isInterruption text
    · simp [userMetadata, interruption]
    · rw [userMetadata, if_neg interruption, List.map_append, List.mem_append, hcommand]
      simp [hattachments, interruption]
  | _ => simp [userMetadata]

/-- Metadata and parts show nothing of a command. -/
def HidesCommands (metadata : Fields) (parts : List Part) : Prop :=
  Assoc.get? metadata "command" = none ∧
    ∀ text, .text text ∈ parts → ¬CommandEcho.isMarked text

/-- What the user says is displayed without a command if none of the texts has the name of one, or
the mark in its displayed form; texts that tell of an interruption do not count. -/
lemma hidesCommands_iff {metadata : Fields} {content : List Block}
    (plain : Assoc.get? metadata "command" = none) :
    HidesCommands (Assoc.merge metadata (content.flatMap userMetadata))
        (orEmptyText (content.flatMap userParts)) ↔
      ∀ text, .text text ∈ content → ¬isInterruption text →
        CommandEcho.parse text = none ∧ ¬CommandEcho.isMarked (shownText text) := by
  have hmetadata : (Assoc.get? (Assoc.merge metadata (content.flatMap userMetadata))
      "command").isSome ↔ ∃ text, .text text ∈ content ∧ ¬isInterruption text ∧
        (CommandEcho.parse text).isSome := by
    rw [Assoc.isSome_get?_merge, plain, List.map_flatMap]
    simp only [Option.isSome_none, Bool.false_eq_true, false_or, List.mem_flatMap,
      mem_keys_userMetadata_iff]
    exact ⟨fun ⟨block, hblock, text, htext, named⟩ => ⟨text, htext ▸ hblock, named⟩,
      fun ⟨text, htext, named⟩ => ⟨.text text, htext, text, rfl, named⟩⟩
  have hparts : (∃ shown, .text shown ∈ orEmptyText (content.flatMap userParts) ∧
      CommandEcho.isMarked shown) ↔ ∃ text, .text text ∈ content ∧ ¬isInterruption text ∧
        CommandEcho.isMarked (shownText text) := by
    rw [exists_marked_orEmptyText_iff]
    constructor
    · rintro ⟨shown, hshown, marked⟩
      obtain ⟨block, hblock, hpart⟩ := List.mem_flatMap.1 hshown
      obtain ⟨text, rfl, hmarked⟩ := exists_marked_userParts_iff.1 ⟨shown, hpart, marked⟩
      exact ⟨text, hblock, hmarked⟩
    · rintro ⟨text, htext, hmarked⟩
      obtain ⟨shown, hpart, marked⟩ := exists_marked_userParts_iff.2 ⟨text, rfl, hmarked⟩
      exact ⟨shown, List.mem_flatMap.2 ⟨.text text, htext, hpart⟩, marked⟩
  rw [HidesCommands, ← Option.not_isSome_iff_eq_none, hmetadata]
  constructor
  · rintro ⟨unnamed, unmarked⟩ text htext own
    refine ⟨?_, fun marked => ?_⟩
    · rw [← Option.not_isSome_iff_eq_none]
      exact fun named => unnamed ⟨text, htext, own, named⟩
    · obtain ⟨shown, hshown, hmarked⟩ := hparts.2 ⟨text, htext, own, marked⟩
      exact unmarked shown hshown hmarked
  · intro h
    refine ⟨?_, fun shown hshown marked => ?_⟩
    · rintro ⟨text, htext, own, named⟩
      simp [(h text htext own).1] at named
    · obtain ⟨text, htext, own, hmarked⟩ := hparts.1 ⟨shown, hshown, marked⟩
      exact (h text htext own).2 hmarked

/-- What the user says in a message is displayed without a command. -/
def HidesSaid (message : Message) : Prop :=
  ∀ said ∈ message.said, HidesCommands (Assoc.merge said.1 (said.2.flatMap userMetadata))
    (orEmptyText (said.2.flatMap userParts))

/-- The messages of the user in a displayed log are what the user says, without echoes. -/
lemma forall_hidesCommands_iff (vocabulary : ToolVocabulary) (messages : List Message) :
    (∀ shown ∈ ofMessages vocabulary messages, shown.role = .user →
      HidesCommands shown.metadata shown.content) ↔
    ∀ message ∈ messages, ¬message.isCommandEcho → HidesSaid message := by
  have hgroup := Turns.forall_user_group_iff (Message.withoutCommandEchoes messages)
    fun metadata content => HidesCommands (Assoc.merge metadata (content.flatMap userMetadata))
      (orEmptyText (content.flatMap userParts))
  have hkept : (∀ message ∈ Message.withoutCommandEchoes messages, HidesSaid message) ↔
      ∀ message ∈ messages, ¬message.isCommandEcho → HidesSaid message := by
    simp [Message.withoutCommandEchoes]
  rw [← hkept]
  unfold HidesSaid
  rw [← hgroup, ofMessages]
  simp only [List.mem_map, forall_exists_index, and_imp, forall_apply_eq_imp_iff₂]
  refine forall_congr' fun message => forall_congr' fun hm => ?_
  cases hkind : message.kind <;> simp [ofAnswered, roleOf, hkind, metadataOf, partsOf]

/-- Beside the results of tools, the user says the texts of the message. -/
lemma text_mem_ownBlocks {message : Message} {text : String} :
    Block.text text ∈ message.ownBlocks ↔ Block.text text ∈ message.content := by
  simp [Message.ownBlocks, Block.isToolResult]

/-- In a message with tool results, every text counts. -/
lemma hidesSaid_toolResult_iff {entry : Fields} {message : Message}
    (hconverts : Entry.Converts entry message.kind message.content message.metadata)
    (brings : message.kind = .toolResult) :
    HidesSaid message ↔ ∀ text, .text text ∈ message.content →
      CommandEcho.parse text = none ∧ ¬CommandEcho.isMarked (shownText text) := by
  have plain : Assoc.get? message.metadata "command" = none := by
    rw [hconverts.metadata_eq (.inr brings)]
    rfl
  have hown : (∀ text, .text text ∈ message.ownBlocks → ¬isInterruption text →
        CommandEcho.parse text = none ∧ ¬CommandEcho.isMarked (shownText text)) ↔
      ∀ text, .text text ∈ message.content →
        CommandEcho.parse text = none ∧ ¬CommandEcho.isMarked (shownText text) := by
    simp only [text_mem_ownBlocks]
    exact ⟨fun h text htext => h text htext (hconverts.not_isInterruption brings htext),
      fun h text htext _ => h text htext⟩
  rw [← hown, HidesSaid, Message.said, if_neg (by simp [brings])]
  by_cases alone : message.ownBlocks = []
  · simp [alone]
  · rw [if_pos ⟨brings, alone⟩, ← hidesCommands_iff plain]
    simp

/-- In a message of the user, texts that tell of an interruption do not count. -/
lemma hidesSaid_user_iff {entry : Fields} {message : Message}
    (hconverts : Entry.Converts entry message.kind message.content message.metadata)
    (user : message.kind = .user) :
    HidesSaid message ↔ ∀ text, .text text ∈ message.content → ¬isInterruption text →
      CommandEcho.parse text = none ∧ ¬CommandEcho.isMarked (shownText text) := by
  have plain : Assoc.get? message.metadata "command" = none := by
    rw [hconverts.metadata_eq (.inl user)]
    rfl
  rw [← hidesCommands_iff plain, HidesSaid, Message.said, if_pos user]
  simp

/-- A message of the user that is no echo has no text with the name of a command. -/
lemma parse_eq_none_of_not_isCommandEcho {message : Message} (user : message.kind = .user)
    (kept : ¬message.isCommandEcho) {text : String} (htext : .text text ∈ message.content) :
    CommandEcho.parse text = none := by
  rw [← Option.not_isSome_iff_eq_none]
  intro named
  refine kept ?_
  rw [Message.isCommandEcho, Bool.and_eq_true]
  exact ⟨by simpa using user,
    List.any_eq_true.2 ⟨.text text, htext, CommandEcho.isMarked_of_parse named⟩⟩

/-- The display of a log shows the user no commands if and only if no text beside the results of
tools has the name of a command, or the mark of one in its displayed form, and no text of the user
gets such a mark when the tags of attached files are removed. -/
theorem echoes_hidden_iff (vocabulary : ToolVocabulary) {origin : Origin} {chatId : String}
    {entries : List Fields} {drawn after : ℕ} {messages : List Message}
    (h : Entry.toMessages origin chatId entries drawn = (.ok messages, after)) :
    (∀ shown ∈ ofMessages vocabulary messages, shown.role = .user →
      HidesCommands shown.metadata shown.content) ↔
    ∀ message ∈ messages,
      (message.kind = .toolResult → ∀ text, .text text ∈ message.content →
        CommandEcho.parse text = none ∧ ¬CommandEcho.isMarked (shownText text)) ∧
      (message.kind = .user → ¬message.isCommandEcho →
        ∀ text, .text text ∈ message.content → ¬isInterruption text →
          ¬CommandEcho.isMarked (shownText text)) := by
  rw [forall_hidesCommands_iff]
  refine forall_congr' fun message => forall_congr' fun hm => ?_
  obtain ⟨entry, -, hconverts⟩ := Entry.converts_of_mem_toMessages h hm
  by_cases brings : message.kind = .toolResult
  · rw [hidesSaid_toolResult_iff hconverts brings]
    simp [Message.isCommandEcho, brings]
  by_cases user : message.kind = .user
  · rw [hidesSaid_user_iff hconverts user]
    constructor
    · intro hides
      exact ⟨fun other => absurd other brings,
        fun _ kept text htext own => (hides kept text htext own).2⟩
    · intro silent kept text htext own
      exact ⟨parse_eq_none_of_not_isCommandEcho user kept htext,
        silent.2 user kept text htext own⟩
  · have silent : message.said = [] := by simp [Message.said, brings, user]
    simp [HidesSaid, silent, brings, user]

/-- An echo that stands alone is not displayed, and beside a result the user just said thanks. -/
theorem echoes_hidden_iff_alone :
    let origin : Origin := ⟨fun _ => "fresh", "now"⟩
    let entry (id : String) (content : Json) : Fields := [("type", .string "user"),
      ("uuid", .string id), ("message", .object [("content", content)])]
    let item (type key text : String) : Json :=
      .object [("type", .string type), (key, .string text)]
    let entries := [entry "u1" (.string "<command-name>/clear</command-name>"), entry "u2" (.array
      [item "tool_result" "tool_use_id" "x", item "text" "text" "thanks"])]
    let echo : Message := ⟨"u1", "c", .user, [.text "<command-name>/clear</command-name>"], "now",
      Entry.sourceMetadata⟩
    let thanks : Message := ⟨"u2", "c", .toolResult,
      [.toolResult ⟨"x", "\"\"", false, [], none, none⟩, .text "thanks"], "now",
      Entry.sourceMetadata⟩
    Entry.toMessages origin "c" entries 0 = (.ok [echo, thanks], 0) ∧
      (ofMessages .claude [echo, thanks]).map (fun shown => shown.role) = [.assistant, .user] ∧
      ∀ shown ∈ ofMessages .claude [echo, thanks], shown.role = .user →
        HidesCommands shown.metadata shown.content := by
  intro origin entry item entries echo thanks
  have made : Entry.toMessages origin "c" entries 0 = (.ok [echo, thanks], 0) := by rfl
  refine ⟨made, by rfl, (echoes_hidden_iff .claude made).2 fun message hm => ?_⟩
  have dropped : echo.isCommandEcho := by rfl
  have silent : CommandEcho.parse "thanks" = none ∧ ¬CommandEcho.isMarked (shownText "thanks") := by
    decide +kernel
  obtain rfl | rfl : message = echo ∨ message = thanks := by simpa using hm
  · exact ⟨by simp [echo], fun _ kept => absurd dropped kept⟩
  · refine ⟨fun _ text htext => ?_, by simp [thanks]⟩
    obtain rfl : text = "thanks" := by simpa [thanks] using htext
    exact silent

/-- An echo beside the result of an unknown use is displayed as a message of the user. -/
theorem echo_displayed_beside_result :
    let origin : Origin := ⟨fun _ => "fresh", "now"⟩
    let item (type key text : String) : Json :=
      .object [("type", .string type), (key, .string text)]
    let entry : Fields := [("type", .string "user"), ("uuid", .string "u"),
      ("message", .object [("content", .array [item "tool_result" "tool_use_id" "x",
        item "text" "text" "<command-name>/clear</command-name>"])])]
    ∃ messages, Entry.toMessages origin "c" [entry] 0 = (.ok messages, 0) ∧
      ∃ shown ∈ ofMessages .claude messages, shown.role = .user ∧
        (Assoc.get? shown.metadata "command").isSome ∧
        ∃ text, .text text ∈ shown.content ∧ CommandEcho.isMarked text := by
  intro origin item entry
  let message : Message := ⟨"u", "c", .toolResult,
    [.toolResult ⟨"x", "\"\"", false, [], none, none⟩,
      .text "<command-name>/clear</command-name>"], "now", Entry.sourceMetadata⟩
  let orphan : DisplayedMessage := ⟨"u", .assistant, [.text "[Tool Result] \"\""], none,
    Entry.sourceMetadata⟩
  let shown : DisplayedMessage := ⟨"u:user", .user,
    [.text "<command-name>/clear</command-name>"], none, Entry.sourceMetadata ++
      [("command", .object [("name", .string "clear"), ("userText", .string "")]),
        ("cleanText", .string "")]⟩
  have made : Entry.toMessages origin "c" [entry] 0 = (.ok [message], 0) := by rfl
  have displayed : ofMessages .claude [message] = [orphan, shown] := by
    simp only [message, orphan, shown]
    rfl
  have marked : CommandEcho.isMarked "<command-name>/clear</command-name>" := by decide +kernel
  exact ⟨[message], made, shown, by simp [displayed], rfl, rfl, _, by simp [shown], marked⟩

end DisplayedMessage

end ChatHistory
