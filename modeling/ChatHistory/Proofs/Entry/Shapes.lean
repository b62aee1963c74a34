import ChatHistory.Proofs.Entry.Patch
import ChatHistory.Proofs.Entry.Treatment

/-!
# Two shapes of a content

The content of a message may be a text, or an array of items.  A text should say the same as an
array with nothing but this text, and for a reply of the assistant it does.  For the words of the
user it depends: an interruption is left out as an item and kept as a text, and the array alone
makes the patch beside the message be read, which an infinite position stops.
`toMessage_shapes_agree_iff` says that there is no other difference.

`withContent` puts a content into an entry.  It leaves everything else in place, so what is read
elsewhere in the entry is the same for both shapes.
-/

namespace ChatHistory

namespace Entry

variable {entry : Fields} {content : Json} {text : String}

/-- The entry with another content of its message. -/
def withContent (entry : Fields) (content : Json) : Fields :=
  Assoc.set entry "message" (.object (Assoc.set (messageFields entry) "content" content))

/-- The item of a content that holds a text. -/
def textItem (text : String) : Json :=
  .object [("type", .string "text"), ("text", .string text)]

/-! ## Putting a content into an entry -/

/-- Setting a field leaves the others as they are. -/
lemma field_set_of_ne {name other : String} (h : name ≠ other) (fields : Fields) (value : Json) :
    Json.field (Assoc.set fields name value) other = Json.field fields other := by
  rw [Json.field, Assoc.get?_set, if_neg h, Json.field]

lemma field_set_self (fields : Fields) (name : String) (value : Json) :
    Json.field (Assoc.set fields name value) name = value := by
  rw [Json.field, Assoc.get?_set, if_pos rfl, Option.getD_some]

/-- The fields beside the message stay. -/
lemma field_withContent {name : String} (beside : "message" ≠ name) :
    Json.field (withContent entry content) name = Json.field entry name :=
  field_set_of_ne beside entry _

lemma field_message_withContent :
    Json.field (withContent entry content) "message" =
      .object (Assoc.set (messageFields entry) "content" content) :=
  field_set_self entry "message" _

/-- Identifier and time of a message stand beside its content. -/
lemma stamp_withContent (origin : Origin) (chatId : String) (kind : MessageKind)
    (blocks : List Block) (metadata : Fields) (drawn : ℕ) :
    stamp origin (withContent entry content) chatId kind blocks metadata drawn =
      stamp origin entry chatId kind blocks metadata drawn := by
  simp [stamp, field_withContent]

/-- Model and usage of a reply stand beside its content. -/
lemma assistantMetadata_set_content :
    assistantMetadata (Assoc.set (messageFields entry) "content" content) =
      assistantMetadata (messageFields entry) := by
  rw [assistantMetadata, assistantMetadata, field_set_of_ne (by decide),
    field_set_of_ne (by decide)]

/-- Whether an entry is hidden is written beside its message. -/
lemma isHidden_withContent :
    Treatment.IsHidden (withContent entry content) ↔ Treatment.IsHidden entry := by
  simp [Treatment.isHidden_iff, Treatment.hiddenFlags, field_withContent]

/-- A hidden entry has no message, whatever its content is. -/
lemma toMessage_of_isHidden (origin : Origin) (chatId : String) (drawn : ℕ)
    (single : ¬(Json.field entry "type").isComposite) (hidden : Treatment.IsHidden entry) :
    toMessage origin chatId (withContent entry content) drawn = .ok (none, drawn) := by
  have hshaped : Treatment.IsHidden (withContent entry content) := isHidden_withContent.2 hidden
  have hsingle : ¬(Json.field (withContent entry content) "type").isComposite := by
    rwa [field_withContent (by decide)]
  obtain ⟨treatment, htreatment, hdecides⟩ := Treatment.ofEntry_single hsingle
  obtain rfl : treatment = .drop := hshaped.decides.unique hdecides
  simp [toMessage, htreatment]

/-- Any other entry of a user or the assistant is a message, if its content holds something and does
not report a task. -/
lemma toMessage_of_not_isHidden (origin : Origin) (chatId : String) (drawn : ℕ)
    (talks : Json.field entry "type" = .string "user" ∨
      Json.field entry "type" = .string "assistant")
    (visible : ¬Treatment.IsHidden entry) (filled : content ≠ .array [])
    (quiet : ¬Treatment.reportsTask content) :
    toMessage origin chatId (withContent entry content) drawn =
      conversation origin (withContent entry content) chatId drawn := by
  have plain : ∀ byUser, Treatment.ofMessage byUser
      (.object (Assoc.set (messageFields entry) "content" content)) = .message := by
    intro byUser
    simp [Treatment.ofMessage, field_set_self, quiet]
  have shown : Treatment.ofEntry (withContent entry content) = .ok .message := by
    have hvisible : ¬Treatment.IsHidden (withContent entry content) :=
      mt isHidden_withContent.1 visible
    rw [Treatment.isHidden_iff, not_or, not_or] at hvisible
    rcases talks with h | h <;>
      simp [Treatment.ofEntry, hvisible.2.2, field_withContent, field_message_withContent, h,
        plain, Json.isComposite, Json.isString_iff]
  rw [toMessage, shown, ok_bind]

/-! ## The two shapes -/

/-- The blocks of a user's content are stamped, unless there are none. -/
lemma conversation_of_user (origin : Origin) (chatId : String) (drawn : ℕ)
    (user : Json.field entry "type" = .string "user")
    (known : (∃ text, content = .string text) ∨ ∃ items, content = .array items) :
    conversation origin (withContent entry content) chatId drawn =
      (userBlocks entry content).map fun blocks =>
        if blocks.isEmpty then (none, drawn)
        else Prod.map some id (stamp origin entry chatId
          (if blocks.any Block.isToolResult then .toolResult else .user) blocks
          sourceMetadata drawn) := by
  have hblocks : userBlocks (withContent entry content) content = userBlocks entry content := by
    rcases known with ⟨text, rfl⟩ | ⟨items, rfl⟩
    · rfl
    · rw [userBlocks, userBlocks, field_withContent (by decide)]
  have hcontent : Json.field (((Json.field (withContent entry content) "message").object?).getD [])
      "content" = content := by
    rw [field_message_withContent, Json.object?, Option.getD_some, field_set_self]
  have htype : (Json.field (withContent entry content) "type").isString "user" := by
    rw [field_withContent (by decide), user, Json.isString_iff]
  simp only [conversation, hcontent, htype, if_true, hblocks, stamp_withContent]
  rcases known with ⟨text, rfl⟩ | ⟨items, rfl⟩
  · rfl
  · dsimp only
    cases userBlocks entry (.array items) with
    | error fault => rfl
    | ok blocks => cases blocks <;> rfl

/-- The one text of a user's items is left out if it tells of an interruption; the file change
beside it is read before. -/
lemma userBlocks_textItem : userBlocks entry (.array [textItem text]) =
    (fileChange (Json.field entry "toolUseResult")).map fun _ =>
      if isInterruption text then [] else [.text text] := by
  have own : [textItem text].filterMap userBlock? =
      if isInterruption text then [] else [.text text] := by
    split <;> rename_i h <;> simp [textItem, userBlock?, Json.field, Assoc.get?, fieldText, h]
  have noResult (change : FileChange) : toolResults [textItem text] change = [] := by
    simp [textItem, toolResults, Json.field, Assoc.get?, Json.isString_iff]
  cases hchange : fileChange (Json.field entry "toolUseResult") <;>
    simp [userBlocks, toolResultBlocks, hchange, noResult, own, Except.map]

/-- A reply of the assistant is the same in both shapes. -/
lemma conversation_reply (origin : Origin) (chatId : String) (drawn : ℕ)
    (assistant : Json.field entry "type" = .string "assistant") :
    conversation origin (withContent entry (.array [textItem text])) chatId drawn =
      conversation origin (withContent entry (.string text)) chatId drawn := by
  have blocks : assistantBlocks (.array [textItem text]) = assistantBlocks (.string text) := by
    simp [assistantBlocks, textItem, assistantBlock?, Json.field, Assoc.get?, fieldText]
  simp [conversation, field_message_withContent, field_set_self, Json.object?,
    field_withContent, assistant, Json.isString_iff, blocks, stamp_withContent,
    assistantMetadata_set_content]

/-- For an entry of a user or the assistant, a text that reports no task makes the same message as
the array with nothing but this text exactly if the entry is hidden, or the assistant speaks, or the
text does not tell of an interruption and no hunk of the patch beside the message meets an
infinity. -/
theorem toMessage_shapes_agree_iff (origin : Origin) (chatId : String) (entry : Fields)
    (text : String) (drawn : ℕ)
    (talks : Json.field entry "type" = .string "user" ∨
      Json.field entry "type" = .string "assistant")
    (quiet : ¬Treatment.taskNotification.toList <+: text.toList) :
    toMessage origin chatId (withContent entry (.string text)) drawn =
        toMessage origin chatId (withContent entry (.array [textItem text])) drawn ↔
      Treatment.IsHidden entry ∨ Json.field entry "type" = .string "assistant" ∨
        ¬interruptionMark.toList <+: text.toList ∧
          ∀ fields, .object fields ∈ patchItems (Json.field entry "toolUseResult") →
            ¬Hunk.MeetsInfinity fields Hunk.positions := by
  by_cases hidden : Treatment.IsHidden entry
  · have single : ¬(Json.field entry "type").isComposite := by
      rcases talks with h | h <;> simp [h, Json.isComposite]
    simp [toMessage_of_isHidden, single, hidden]
  have quietText : ¬Treatment.reportsTask (.string text) := by
    rwa [Treatment.reportsTask, List.isPrefixOf_iff_prefix]
  rw [toMessage_of_not_isHidden origin chatId drawn talks hidden (by simp) quietText,
    toMessage_of_not_isHidden origin chatId drawn talks hidden (by simp) (by
      simp [Treatment.reportsTask])]
  rcases talks with user | assistant
  · have unassisted : Json.field entry "type" ≠ .string "assistant" := by simp [user]
    obtain ⟨before, after, hchange⟩ := exists_fileChange_eq (Json.field entry "toolUseResult")
    rw [conversation_of_user origin chatId drawn user (.inl ⟨text, rfl⟩),
      conversation_of_user origin chatId drawn user (.inr ⟨_, rfl⟩), userBlocks_textItem, hchange,
      ← List.isPrefixOf_iff_prefix, ← isInterruption, ← exists_hunks_iff]
    cases hunks (patchItems (Json.field entry "toolUseResult")) with
    | error fault => simp [hidden, unassisted, userBlocks, Except.map]
    | ok patch =>
      by_cases interrupted : isInterruption text <;>
        simp [hidden, unassisted, userBlocks, Except.map, interrupted, Prod.map]
  · simp [conversation_reply origin chatId drawn assistant, assistant]

/-- An empty text, beside a patch whose only hunk is skipped before its infinite position is read,
is the same message in both shapes. -/
theorem toMessage_shapes_agree_skippedHunk :
    let hunk : Json := .object [("oldStart", .string "x"), ("oldLines", .double (.infinite false))]
    let entry : Fields := [("type", .string "user"), ("uuid", .string "u"),
      ("timestamp", .string "t"), ("message", .object [("role", .string "user")]),
      ("toolUseResult", .object [("structuredPatch", .array [hunk])])]
    let origin : Origin := ⟨fun n => toString n, ""⟩
    toMessage origin "s" (withContent entry (.string "")) 0 =
      toMessage origin "s" (withContent entry (.array [textItem ""])) 0 := by
  intro hunk entry origin
  have unmet : ∀ fields, .object fields ∈ patchItems (Json.field entry "toolUseResult") →
      ¬Hunk.MeetsInfinity fields Hunk.positions := exists_hunks_iff.1 ⟨[], rfl⟩
  exact (toMessage_shapes_agree_iff origin "s" entry "" 0 (.inl rfl) (by decide)).2
    (.inr (.inr ⟨by decide, unmet⟩))

/-- An interruption is a message of the user as a text, and nothing as the only item of an array.
Beside an infinite position, a word is a message as a text, and a fault as an item. -/
theorem toMessage_shapes_differ :
    let entry (details : Json) (content : Json) : Fields :=
      withContent [("type", .string "user"), ("uuid", .string "u"), ("timestamp", .string "t"),
        ("message", .object []), ("toolUseResult", details)] content
    let details : Json := .object [("structuredPatch",
      .array [.object [("oldStart", .double (.infinite false))]])]
    let interruption : String := "[Request interrupted by user]"
    let origin : Origin := ⟨fun n => toString n, ""⟩
    toMessage origin "s" (entry .null (.string interruption)) 0 =
        .ok (some ⟨"u", "s", .user, [.text interruption], "t", sourceMetadata⟩, 0) ∧
      toMessage origin "s" (entry .null (.array [textItem interruption])) 0 = .ok (none, 0) ∧
      toMessage origin "s" (entry details (.string "hello")) 0 =
        .ok (some ⟨"u", "s", .user, [.text "hello"], "t", sourceMetadata⟩, 0) ∧
      toMessage origin "s" (entry details (.array [textItem "hello"])) 0 =
        .error (.notInteger .infinite) := by
  refine ⟨?_, ?_, ?_, ?_⟩ <;> rfl

end Entry

end ChatHistory
