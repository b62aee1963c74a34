import ChatHistory.Entry.Conversion
import ChatHistory.Proofs.Fault
import Mathlib.Tactic.Common

/-!
# Messages that entries become

`Converts` lists what the message of an entry can be: a notice, a failure, an empty reply in place
of a content of an unknown kind, the words of a user, the items of a user's content, or a reply of
the assistant.  `converts_of_toMessage` says that there is nothing else, so a property of the
messages of a log is proved by one case for each.

Every message is well formed (`toMessage_wellFormed`).  Grouping relies on this: tool results stand
in messages of their own kind, in front of what the user wrote beside them, and tools are used by
the assistant only.

What becomes of the items of a content is said by `Become`, apart from the functions that read them.
-/

namespace ChatHistory

namespace Entry

/-! ## Items of a content -/

/-- Some items of a content become blocks, in order; the other items become nothing. -/
inductive Become (shows : Json → Block → Prop) : List Json → List Block → Prop
  | nil : Become shows [] []
  | shown {item : Json} {block : Block} {items : List Json} {blocks : List Block}
      (shown : shows item block) (rest : Become shows items blocks) :
      Become shows (item :: items) (block :: blocks)
  | skipped {item : Json} {items : List Json} {blocks : List Block}
      (unshown : ∀ block, ¬shows item block) (rest : Become shows items blocks) :
      Become shows (item :: items) blocks

/-- An item is the result of a tool; all results of an entry belong to the same file change. -/
inductive IsResult (change : FileChange) : Json → Block → Prop
  | mk (item : Fields) (type : Json.field item "type" = .string "tool_result") :
      IsResult change (.object item) (.toolResult {
        toolUseId := fieldText (Json.field item "tool_use_id")
        content := resultText (Json.field item "content")
        isError := (Json.field item "is_error").isTruthy
        patch := change.patch
        fileBefore := change.fileBefore
        fileAfter := change.fileAfter })

/-- An item is a text of the user that does not tell of an interruption, or an image. -/
inductive IsOwn : Json → Block → Prop
  | text (item : Fields) (type : Json.field item "type" = .string "text")
      (uninterrupted : ¬"[Request interrupted".toList <+:
        (fieldText (Json.field item "text")).toList) :
      IsOwn (.object item) (.text (fieldText (Json.field item "text")))
  | image (item source : Fields) (type : Json.field item "type" = .string "image")
      (encoded : Json.field item "source" = .object source)
      (encoding : Json.field source "type" = .string "base64") :
      IsOwn (.object item) (.image (fieldText (Json.field source "media_type"))
        (fieldText (Json.field source "data")))

/-- Reading items one by one makes blocks of them in order. -/
lemma Become.filterMap {shows : Json → Block → Prop} {block? : Json → Option Block}
    (h : ∀ item block, block? item = some block ↔ shows item block) (items : List Json) :
    Become shows items (items.filterMap block?) := by
  induction items with
  | nil => exact .nil
  | cons item items ih =>
    cases hitem : block? item with
    | none =>
      rw [List.filterMap_cons_none hitem]
      exact .skipped (fun block hblock => by simp [(h item block).2 hblock] at hitem) ih
    | some block =>
      rw [List.filterMap_cons_some hitem]
      exact .shown ((h item block).1 hitem) ih

/-- Every block comes from an item. -/
lemma Become.exists_of_mem {shows : Json → Block → Prop} {items : List Json} {blocks : List Block}
    (h : Become shows items blocks) {block : Block} (hblock : block ∈ blocks) :
    ∃ item ∈ items, shows item block := by
  induction h with
  | nil => simp at hblock
  | shown hshown rest ih =>
    rcases List.mem_cons.1 hblock with rfl | hrest
    · exact ⟨_, List.mem_cons_self, hshown⟩
    · obtain ⟨item, hitem, hshows⟩ := ih hrest
      exact ⟨item, List.mem_cons_of_mem _ hitem, hshows⟩
  | skipped unshown rest ih =>
    obtain ⟨item, hitem, hshows⟩ := ih hblock
    exact ⟨item, List.mem_cons_of_mem _ hitem, hshows⟩

/-- An image is shown if it is encoded in the one way that is known. -/
lemma imageOf?_eq_some_iff {item : Fields} {block : Block} :
    imageOf? item = some block ↔ ∃ source, Json.field item "source" = .object source ∧
      Json.field source "type" = .string "base64" ∧
      .image (fieldText (Json.field source "media_type"))
        (fieldText (Json.field source "data")) = block := by
  unfold imageOf?
  cases Json.field item "source" with
  | object source =>
    by_cases encoding : (Json.field source "type").isString "base64"
    · simp [Json.isString_iff.1 encoding, Json.isString_iff]
    · have other : Json.field source "type" ≠ .string "base64" := mt Json.isString_iff.2 encoding
      simp [encoding, other]
  | _ => simp

/-- Of the items of a user's content, texts and images are the user's own. -/
lemma userBlock?_eq_some_iff (item : Json) (block : Block) :
    userBlock? item = some block ↔ IsOwn item block := by
  constructor
  · intro h
    cases item with
    | object item =>
      simp only [userBlock?] at h
      split at h
      · rename_i type
        split at h
        · simp at h
        · rename_i uninterrupted
          obtain rfl := Option.some.inj h
          refine .text item type ?_
          rwa [isInterruption, List.isPrefixOf_iff_prefix] at uninterrupted
      · rename_i type
        obtain ⟨source, encoded, encoding, rfl⟩ := imageOf?_eq_some_iff.1 h
        exact .image item source type encoded encoding
      · simp at h
    | _ => simp [userBlock?] at h
  · intro h
    cases h with
    | text item type uninterrupted =>
      have hinterruption : ¬isInterruption (fieldText (Json.field item "text")) := by
        rwa [isInterruption, List.isPrefixOf_iff_prefix]
      simp [userBlock?, type, hinterruption]
    | image item source type encoded encoding =>
      simp only [userBlock?, type]
      exact imageOf?_eq_some_iff.2 ⟨source, encoded, encoding, rfl⟩

/-- The tool results of a content are read from its items. -/
lemma become_toolResults (items : List Json) (change : FileChange) :
    Become (IsResult change) items ((toolResults items change).map .toolResult) := by
  rw [toolResults, List.map_filterMap]
  refine Become.filterMap (fun item block => ⟨fun h => ?_, fun h => ?_⟩) items
  · obtain ⟨result, hresult, rfl⟩ := Option.map_eq_some_iff.1 h
    split at hresult
    · rename_i item
      split at hresult
      · rename_i type
        obtain rfl := Option.some.inj hresult
        exact .mk item (Json.isString_iff.1 type)
      · simp at hresult
    · simp at hresult
  · cases h with
    | mk item type => simp [type, Json.isString_iff]

/-- What a result becomes is a tool result, and what the user's own item becomes is none. -/
lemma any_isToolResult_append {change : FileChange} {items : List Json} {results own : List Block}
    (brought : Become (IsResult change) items results) (shown : Become IsOwn items own) :
    (results ++ own).any Block.isToolResult ↔ results ≠ [] := by
  rw [List.any_eq_true]
  constructor
  · rintro ⟨block, hblock, isResult⟩ rfl
    obtain ⟨item, -, hown⟩ := shown.exists_of_mem hblock
    cases hown <;> simp [Block.isToolResult] at isResult
  · intro filled
    obtain ⟨block, hblock⟩ := List.exists_mem_of_ne_nil results filled
    obtain ⟨item, -, hresult⟩ := brought.exists_of_mem hblock
    refine ⟨block, List.mem_append_left _ hblock, ?_⟩
    cases hresult
    rfl

/-! ## Messages of entries -/

/-- The fields of the message of an entry, if it has one. -/
def messageFields (entry : Fields) : Fields :=
  (Json.field entry "message").object?.getD []

/-- The content of the message of an entry, `null` if there is none. -/
def messageContent (entry : Fields) : Json :=
  Json.field (messageFields entry) "content"

/-- What an entry becomes: a message of some kind, with some blocks and metadata. -/
inductive Converts (entry : Fields) : MessageKind → List Block → Fields → Prop
  /-- The notice that the context was compacted. -/
  | notice : Converts entry .system [.text compactNotice]
      (sourceMetadata ++ [("internal", .bool true)])
  /-- The error that ended the session. -/
  | failure : Converts entry .error [.error sessionFailure] sourceMetadata
  /-- An empty reply in place of a content that is neither a text nor an array. -/
  | unknown (noText : ∀ text, messageContent entry ≠ .string text)
      (noArray : ∀ items, messageContent entry ≠ .array items) :
      Converts entry .assistant [.text ""] sourceMetadata
  /-- The words of the user. -/
  | words (text : String) (content : messageContent entry = .string text) :
      Converts entry .user [.text text] sourceMetadata
  /-- The items of a user's content: the results of tools, then the user's own texts and images. -/
  | items (items : List Json) (change : FileChange) (results own : List Block)
      (content : messageContent entry = .array items)
      (changed : fileChange (Json.field entry "toolUseResult") = .ok change)
      (brought : Become (IsResult change) items results) (shown : Become IsOwn items own)
      (filled : results ++ own ≠ []) :
      Converts entry (if results = [] then .user else .toolResult) (results ++ own)
        sourceMetadata
  /-- A reply of the assistant. -/
  | reply (assistant : Json.field entry "type" ≠ .string "user")
      (filled : assistantBlocks (messageContent entry) ≠ []) :
      Converts entry .assistant (assistantBlocks (messageContent entry))
        (assistantMetadata (messageFields entry))

/-- What stands in the field of an entry, or what its origin supplies if that is empty. -/
lemma orSupplied_ne_empty {own supplied : String} (h : supplied ≠ "") :
    (if own.isEmpty then supplied else own) ≠ "" := by
  split
  · exact h
  · rename_i filled
    simpa using filled

/-- The message of an entry as it is stamped. -/
lemma stamp_fst (origin : Origin) (entry : Fields) (chatId : String) (kind : MessageKind)
    (content : List Block) (metadata : Fields) (drawn : ℕ) :
    (stamp origin entry chatId kind content metadata drawn).1 =
      { id := if (fieldText (Json.field entry "uuid")).isEmpty then origin.freshId (drawn + 1)
          else fieldText (Json.field entry "uuid")
        chatId := chatId
        kind := kind
        content := content
        timestamp := if (fieldText (Json.field entry "timestamp")).isEmpty then origin.now
          else fieldText (Json.field entry "timestamp")
        metadata := metadata } := by
  unfold stamp
  dsimp only
  split <;> simp_all

/-- The blocks of a user's content. -/
lemma userBlocks_array {entry : Fields} {items : List Json} {blocks : List Block}
    (h : userBlocks entry (.array items) = .ok blocks) :
    ∃ change, fileChange (Json.field entry "toolUseResult") = .ok change ∧
      blocks = (toolResults items change).map .toolResult ++ items.filterMap userBlock? := by
  unfold userBlocks toolResultBlocks at h
  simp only [bind_assoc] at h
  obtain ⟨change, hchange, hblocks⟩ := bind_eq_ok_iff.1 h
  refine ⟨change, hchange, ?_⟩
  simpa using hblocks.symm

/-- The items of a user's content, with the kind that its blocks call for. -/
lemma converts_items {entry : Fields} {items : List Json} {change : FileChange}
    {results own : List Block} (content : messageContent entry = .array items)
    (changed : fileChange (Json.field entry "toolUseResult") = .ok change)
    (brought : Become (IsResult change) items results) (shown : Become IsOwn items own)
    (filled : results ++ own ≠ []) :
    Converts entry (if (results ++ own).any Block.isToolResult then .toolResult else .user)
      (results ++ own) sourceMetadata := by
  have isResult := any_isToolResult_append brought shown
  have hconverts := Converts.items items change results own content changed brought shown filled
  by_cases none : results = []
  · rw [if_neg (isResult.not.2 (not_not_intro none))]
    rwa [if_pos none] at hconverts
  · rw [if_pos (isResult.2 none)]
    rwa [if_neg none] at hconverts

/-- A reply of the assistant, with a content of a known kind. -/
lemma converts_reply {entry : Fields} {value : Json} (content : messageContent entry = value)
    (assistant : ¬(Json.field entry "type").isString "user")
    (filled : assistantBlocks value ≠ []) :
    Converts entry .assistant (assistantBlocks value)
      (assistantMetadata (messageFields entry)) := by
  subst content
  rw [Json.isString_iff] at assistant
  exact .reply assistant filled

/-- Blocks are stamped unless there are none. -/
lemma stamp_of_ite {origin : Origin} {chatId : String} {entry : Fields} {drawn after : ℕ}
    {message : Message} {kind : MessageKind} {blocks : List Block} {metadata : Fields}
    (h : (if blocks.isEmpty then (.ok (none, drawn) : Except Fault (Option Message × ℕ))
      else .ok (some (stamp origin entry chatId kind blocks metadata drawn).1,
        (stamp origin entry chatId kind blocks metadata drawn).2)) = .ok (some message, after)) :
    blocks ≠ [] ∧ message = (stamp origin entry chatId kind blocks metadata drawn).1 := by
  split at h
  · simp at h
  · rename_i filled
    simp only [Except.ok.injEq, Prod.mk.injEq, Option.some.injEq] at h
    exact ⟨by simpa using filled, h.1.symm⟩

/-- The message of an entry of a user or the assistant. -/
lemma converts_of_conversation {origin : Origin} {chatId : String} {entry : Fields}
    {drawn after : ℕ} {message : Message}
    (h : conversation origin entry chatId drawn = .ok (some message, after)) :
    ∃ kind content metadata, Converts entry kind content metadata ∧
      message = (stamp origin entry chatId kind content metadata drawn).1 := by
  have hcontent : messageContent entry =
      Json.field ((Json.field entry "message").object?.getD []) "content" := rfl
  unfold conversation at h
  dsimp only at h
  rw [← hcontent] at h
  cases content : messageContent entry with
  | string text =>
    rw [content] at h
    dsimp only at h
    split at h
    · obtain ⟨blocks, hblocks, h⟩ := bind_eq_ok_iff.1 h
      obtain rfl : [.text text] = blocks := by simpa [userBlocks] using hblocks
      obtain ⟨-, rfl⟩ := stamp_of_ite h
      exact ⟨_, _, _, .words text content, rfl⟩
    · rename_i assistant
      obtain ⟨filled, rfl⟩ := stamp_of_ite h
      exact ⟨_, _, _, converts_reply content assistant filled, rfl⟩
  | array items =>
    rw [content] at h
    dsimp only at h
    split at h
    · obtain ⟨blocks, hblocks, h⟩ := bind_eq_ok_iff.1 h
      obtain ⟨change, changed, rfl⟩ := userBlocks_array hblocks
      obtain ⟨filled, rfl⟩ := stamp_of_ite h
      exact ⟨_, _, _, converts_items content changed (become_toolResults items change)
        (Become.filterMap userBlock?_eq_some_iff items) filled, rfl⟩
    · rename_i assistant
      obtain ⟨filled, rfl⟩ := stamp_of_ite h
      exact ⟨_, _, _, converts_reply content assistant filled, rfl⟩
  | _ =>
    rw [content] at h
    simp only [pure_eq_ok, Except.ok.injEq, Prod.mk.injEq, Option.some.injEq] at h
    exact ⟨_, _, _, .unknown (by simp [content]) (by simp [content]), h.1.symm⟩

/-- Whatever an entry becomes is stamped with an identifier and a time. -/
lemma converts_of_toMessage {origin : Origin} {chatId : String} {entry : Fields}
    {drawn after : ℕ} {message : Message}
    (h : toMessage origin chatId entry drawn = .ok (some message, after)) :
    ∃ kind content metadata, Converts entry kind content metadata ∧
      message = (stamp origin entry chatId kind content metadata drawn).1 := by
  unfold toMessage at h
  obtain ⟨treatment, -, h⟩ := bind_eq_ok_iff.1 h
  cases treatment with
  | drop => simp at h
  | compactNotice =>
    simp only [pure_eq_ok, Except.ok.injEq, Prod.mk.injEq, Option.some.injEq] at h
    exact ⟨_, _, _, .notice, h.1.symm⟩
  | sessionError =>
    simp only [pure_eq_ok, Except.ok.injEq, Prod.mk.injEq, Option.some.injEq] at h
    exact ⟨_, _, _, .failure, h.1.symm⟩
  | message => exact converts_of_conversation h

/-! ## Well-formed messages -/

/-- A message of an entry that the stages behind can rely on. -/
structure WellFormed (entry : Fields) (message : Message) : Prop where
  filled : message.content ≠ []
  identified : message.id ≠ ""
  timed : message.timestamp ≠ ""
  kind : message.kind ∈ [.user, .assistant, .toolResult, .system, .error]
  /-- Tool results stand in messages of their own kind. -/
  results : message.kind = .toolResult ↔ ∃ result, .toolResult result ∈ message.content
  /-- They stand in front, and behind them what the user wrote beside them. -/
  ordered : message.kind = .toolResult → ∃ items change results own,
    messageContent entry = .array items ∧
    fileChange (Json.field entry "toolUseResult") = .ok change ∧
    message.content = results ++ own ∧
    Become (IsResult change) items results ∧ Become IsOwn items own
  /-- Tools are used by the assistant only. -/
  uses : ∀ use, .toolUse use ∈ message.content → message.kind = .assistant
  /-- Only the assistant is seen thinking. -/
  thoughts : ∀ thought, .thinking thought ∈ message.content → message.kind = .assistant
  notice : message.kind = .system → ∃ text, message.content = [.text text]
  failure : message.kind = .error → ∃ reason, message.content = [.error reason]
  /-- Among the items of a user's content, those that tell of an interruption are left out. -/
  uninterrupted : Json.field entry "type" = .string "user" →
    ∀ items, messageContent entry = .array items → ∀ text, .text text ∈ message.content →
      ¬"[Request interrupted".toList <+: text.toList

/-- The block of an assistant's item is no result of a tool. -/
lemma not_toolResult_of_assistantBlock? {item : Json} {result : ToolResult} :
    assistantBlock? item ≠ some (.toolResult result) := by
  intro h
  cases item with
  | object item =>
    simp only [assistantBlock?] at h
    split at h
    case h_4 =>
      obtain ⟨source, -, -, hblock⟩ := imageOf?_eq_some_iff.1 h
      cases hblock
    all_goals cases h
  | _ => cases h

/-- A reply of the assistant holds no results of tools. -/
lemma not_toolResult_mem_assistantBlocks {content : Json} {result : ToolResult} :
    .toolResult result ∉ assistantBlocks content := by
  cases content with
  | array items =>
    intro h
    obtain ⟨item, -, hitem⟩ := List.mem_filterMap.1 h
    exact not_toolResult_of_assistantBlock? hitem
  | _ => simp [assistantBlocks]

namespace Converts

variable {entry : Fields} {kind : MessageKind} {content : List Block} {metadata : Fields}

/-- No message of an entry is empty. -/
lemma ne_nil (h : Converts entry kind content metadata) : content ≠ [] := by
  cases h <;> first | assumption | simp

/-- Entries become messages of five kinds. -/
lemma kind_mem (h : Converts entry kind content metadata) :
    kind ∈ [MessageKind.user, .assistant, .toolResult, .system, .error] := by
  cases h with
  | items items change results own => split <;> simp
  | _ => simp

/-- A block of a user's items is the result of a tool, a text or an image. -/
lemma block_cases {change : FileChange} {items : List Json} {results own : List Block}
    (brought : Become (IsResult change) items results) (shown : Become IsOwn items own)
    {block : Block} (h : block ∈ results ++ own) :
    (∃ result, block = .toolResult result ∧ block ∈ results) ∨
    (∃ text, block = .text text ∧ ¬"[Request interrupted".toList <+: text.toList) ∨
    ∃ mediaType data, block = .image mediaType data := by
  rcases List.mem_append.1 h with hresults | hown
  · obtain ⟨item, -, hresult⟩ := brought.exists_of_mem hresults
    cases hresult with
    | mk item type => exact .inl ⟨_, rfl, hresults⟩
  · obtain ⟨item, -, hown⟩ := shown.exists_of_mem hown
    cases hown with
    | text item type uninterrupted => exact .inr (.inl ⟨_, rfl, uninterrupted⟩)
    | image item source type encoded encoding => exact .inr (.inr ⟨_, _, rfl⟩)

/-- The kind of results is the kind of messages that hold results. -/
lemma kind_eq_toolResult_iff (h : Converts entry kind content metadata) :
    kind = .toolResult ↔ ∃ result, .toolResult result ∈ content := by
  cases h with
  | items items change results own read changed brought shown filled =>
    constructor
    · intro hkind
      have some : results ≠ [] := by
        rintro rfl
        simp at hkind
      obtain ⟨block, hblock, isResult⟩ :=
        List.any_eq_true.1 ((any_isToolResult_append brought shown).2 some)
      cases block <;> simp [Block.isToolResult] at isResult
      exact ⟨_, hblock⟩
    · rintro ⟨result, hresult⟩
      have some : results ≠ [] := (any_isToolResult_append brought shown).1
        (List.any_eq_true.2 ⟨_, hresult, rfl⟩)
      exact if_neg some
  | reply assistant filled => simp [not_toolResult_mem_assistantBlocks]
  | _ => simp

/-- The use of a tool and a thought are the assistant's. -/
lemma kind_eq_assistant_of_mem (h : Converts entry kind content metadata) {block : Block}
    (hblock : block ∈ content)
    (own : (∃ use, block = .toolUse use) ∨ ∃ thought, block = .thinking thought) :
    kind = .assistant := by
  cases h with
  | items items change results mine read changed brought shown filled =>
    rcases block_cases brought shown hblock with
      ⟨_, rfl, -⟩ | ⟨_, rfl, -⟩ | ⟨_, _, rfl⟩ <;> simp at own
  | reply | unknown => rfl
  | _ => simp_all

/-- A user's items that tell of an interruption are left out. -/
lemma uninterrupted (h : Converts entry kind content metadata)
    (byUser : Json.field entry "type" = .string "user") {items : List Json}
    (listed : messageContent entry = .array items) {text : String} (htext : .text text ∈ content) :
    ¬"[Request interrupted".toList <+: text.toList := by
  cases h with
  | notice =>
    obtain rfl : text = compactNotice := by simpa using htext
    decide
  | failure => simp at htext
  | unknown noText noArray => exact absurd listed (noArray items)
  | words text read => simp [read] at listed
  | items items change results own read changed brought shown filled =>
    rcases block_cases brought shown htext with ⟨_, h, -⟩ | ⟨_, h, uninterrupted⟩ | ⟨_, _, h⟩
    · cases h
    · cases h
      exact uninterrupted
    · cases h
  | reply assistant filled => exact absurd byUser assistant

/-- In a message of results, the results stand in front of what the user wrote beside them. -/
lemma ordered (h : Converts entry kind content metadata) (hkind : kind = .toolResult) :
    ∃ items change results own, messageContent entry = .array items ∧
      fileChange (Json.field entry "toolUseResult") = .ok change ∧ content = results ++ own ∧
      Become (IsResult change) items results ∧ Become IsOwn items own := by
  cases h with
  | items items change results own read changed brought shown filled =>
    exact ⟨items, change, results, own, read, changed, rfl, brought, shown⟩
  | _ => cases hkind

/-- Only a notice is a system message, and only a failure is an error message. -/
lemma singleton_of_kind (h : Converts entry kind content metadata) :
    (kind = .system → ∃ text, content = [.text text]) ∧
    (kind = .error → ∃ reason, content = [.error reason]) := by
  cases h with
  | items items change results own => constructor <;> intro hkind <;> split at hkind <;> cases hkind
  | _ => simp

/-- A message that holds what its entry becomes is well formed. -/
lemma wellFormed {message : Message}
    (h : Converts entry message.kind message.content metadata) (identified : message.id ≠ "")
    (timed : message.timestamp ≠ "") : WellFormed entry message where
  filled := h.ne_nil
  identified := identified
  timed := timed
  kind := h.kind_mem
  results := h.kind_eq_toolResult_iff
  ordered := h.ordered
  uses use huse := h.kind_eq_assistant_of_mem huse (.inl ⟨use, rfl⟩)
  thoughts thought hthought := h.kind_eq_assistant_of_mem hthought (.inr ⟨thought, rfl⟩)
  notice := h.singleton_of_kind.1
  failure := h.singleton_of_kind.2
  uninterrupted byUser _ listed _ := h.uninterrupted byUser listed

/-- What users bring into a log carries no metadata but the source. -/
lemma metadata_eq (h : Converts entry kind content metadata)
    (byUser : kind = .user ∨ kind = .toolResult) : metadata = sourceMetadata := by
  cases h <;> simp_all

/-- No text beside the results of tools tells of an interruption. -/
lemma not_isInterruption (h : Converts entry kind content metadata) (hkind : kind = .toolResult)
    {text : String} (htext : .text text ∈ content) : ¬isInterruption text := by
  obtain ⟨items, change, results, own, -, -, rfl, brought, shown⟩ := h.ordered hkind
  rcases block_cases brought shown htext with ⟨_, h, -⟩ | ⟨_, h, uninterrupted⟩ | ⟨_, _, h⟩
  · cases h
  · cases h
    rwa [isInterruption, List.isPrefixOf_iff_prefix]
  · cases h

end Converts

/-- The messages of some entries are what these become. -/
lemma converts_of_mem_toMessages {origin : Origin} {chatId : String} {entries : List Fields}
    {drawn after : ℕ} {messages : List Message}
    (h : toMessages origin chatId entries drawn = (.ok messages, after)) {message : Message}
    (hm : message ∈ messages) :
    ∃ entry ∈ entries, Converts entry message.kind message.content message.metadata := by
  induction entries generalizing drawn messages with
  | nil =>
    obtain rfl : messages = [] := by simpa [toMessages] using (congrArg Prod.fst h).symm
    simp at hm
  | cons entry entries ih =>
    unfold toMessages at h
    split at h
    · simp at h
    · rename_i made drawn hmade
      cases hrest : toMessages origin chatId entries drawn with
      | mk rest last =>
        rw [hrest] at h
        cases rest with
        | error fault => simp [Except.map] at h
        | ok rest =>
          obtain ⟨rfl, rfl⟩ : made.toList ++ rest = messages ∧ last = after := by
            simpa [Except.map] using h
          rcases List.mem_append.1 hm with hmade' | hlater
          · obtain rfl := Option.mem_toList.1 hmade'
            obtain ⟨kind, content, metadata, hconverts, rfl⟩ := converts_of_toMessage hmade
            refine ⟨entry, List.mem_cons_self, ?_⟩
            rwa [stamp_fst]
          · obtain ⟨source, hsource, hconverts⟩ := ih hrest hlater
            exact ⟨source, List.mem_cons_of_mem _ hsource, hconverts⟩

/-- Every message of an entry is well formed, whatever the entry holds, as long as the origin
supplies what it lacks. -/
theorem toMessage_wellFormed {origin : Origin} {chatId : String} {entry : Fields}
    {drawn after : ℕ} {message : Message} (fresh : ∀ number, origin.freshId number ≠ "")
    (now : origin.now ≠ "")
    (h : toMessage origin chatId entry drawn = .ok (some message, after)) :
    WellFormed entry message := by
  obtain ⟨kind, content, metadata, hconverts, rfl⟩ := converts_of_toMessage h
  rw [stamp_fst]
  exact Converts.wellFormed hconverts (orSupplied_ne_empty (fresh _)) (orSupplied_ne_empty now)

/-- An entry without an identifier or a time, whose user wrote around the result of a tool before
stopping the turn. -/
theorem toMessage_wellFormed_beside_result :
    let origin : Origin := ⟨fun number => "fresh " ++ toString number, "2026-01-01"⟩
    let item (type key text : String) : Json :=
      .object [("type", .string type), (key, .string text)]
    let entry : Fields := [("type", .string "user"), ("message", .object [("content", .array
      [item "text" "text" "before", item "tool_result" "tool_use_id" "t",
        item "text" "text" "[Request interrupted by user]", item "text" "text" "after"])])]
    let result : Block := .toolResult ⟨"t", "\"\"", false, [], none, none⟩
    let message : Message := ⟨"fresh 1", "c", .toolResult, [result, .text "before", .text "after"],
      "2026-01-01", sourceMetadata⟩
    toMessage origin "c" entry 0 = .ok (some message, 1) ∧ WellFormed entry message := by
  intro origin item entry result message
  have made : toMessage origin "c" entry 0 = .ok (some message, 1) := by rfl
  have fresh (number : ℕ) : origin.freshId number ≠ "" := by
    simp [origin]
  exact ⟨made, toMessage_wellFormed fresh (by decide) made⟩

end Entry

end ChatHistory
