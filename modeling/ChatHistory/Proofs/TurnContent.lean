import ChatHistory.Entry.Conversion
import ChatHistory.Proofs.Part.Arrangement
import ChatHistory.Proofs.ToolCalls

/-!
# What a turn shows

A turn of the assistant shows its blocks in order (`turn_shows_blocks`): when the groups of its
parts are opened, there is one leaf for every block (`ShownAs`), and the reports of progress are the
items of the one progress entry.  Hidden tools leave no part.  Neither do images
(`turn_loses_image`), although entries of the assistant may hold them, and although those of a user
are shown.

Each block has its part by `turnPart?`, and the parts are arranged without loss; `shownAs_of_shows`
puts the two steps together.
-/

namespace ChatHistory

open ChatHistory.Part (Leaf listNodes flatten)

namespace DisplayedMessage

variable {vocabulary : ToolVocabulary} {results : Assoc ToolResult} {blocks : List Block}

/-- A block that uses a hidden tool. -/
def isHidden (vocabulary : ToolVocabulary) : Block → Bool
  | .toolUse use => vocabulary.hides use.name
  | _ => false

/-- A block that is an image. -/
def isImage : Block → Bool
  | .image _ _ => true
  | _ => false

/-- A block that reports progress. -/
def isReport (vocabulary : ToolVocabulary) : Block → Bool
  | .toolUse use => vocabulary.reports use.name
  | _ => false

/-- A block is shown as a leaf of the displayed parts. -/
inductive ShownAs (vocabulary : ToolVocabulary) (results : Assoc ToolResult) : Block → Leaf → Prop
  | text (shown : String) : ShownAs vocabulary results (.text shown) (.part (.text shown))
  | thinking (thought : String) :
      ShownAs vocabulary results (.thinking thought) (.part (.reasoning thought))
  | call (use : ToolUse) :
      ShownAs vocabulary results (.toolUse use) (.part (.call (callOf results use)))
  /-- The call of a sub-agent heads the task with the calls that it takes in. -/
  | task (use : ToolUse) (agent : vocabulary.delegates use.name) :
      ShownAs vocabulary results (.toolUse use) (.task (callOf results use).toInvocation)
  | orphan (result : ToolResult) :
      ShownAs vocabulary results (.toolResult result)
        (.part (.text ("[Tool Result] " ++ result.content)))
  | error (message : String) :
      ShownAs vocabulary results (.error message) (.part (.error message))
  | permission (request : Json) :
      ShownAs vocabulary results (.permissionRequest request) (.part (.permission request))

/-! ## Blocks and their parts -/

/-- The part of a block is one that folding and nesting have not made. -/
lemma isPlain_of_turnPart? {block : Block} {part : Part}
    (h : turnPart? vocabulary results block = some part) : part.isPlain := by
  cases block with
  | toolUse use =>
    simp only [turnPart?] at h
    split at h <;> cases h
    rfl
  | image mediaType data => cases h
  | _ =>
    cases h
    rfl

lemma isPlain_of_mem_filterMap_turnPart? (vocabulary : ToolVocabulary)
    (results : Assoc ToolResult) (blocks : List Block) :
    ∀ part ∈ blocks.filterMap (turnPart? vocabulary results), part.isPlain := by
  intro part hpart
  obtain ⟨block, -, hblock⟩ := List.mem_filterMap.1 hpart
  exact isPlain_of_turnPart? hblock

/-- The blocks without a part are the hidden tools and the images. -/
lemma turnPart?_eq_none_iff (block : Block) :
    turnPart? vocabulary results block = none ↔
      ¬(!isHidden vocabulary block && !isImage block) := by
  cases block with
  | toolUse use => simp [turnPart?, isHidden, isImage]
  | _ => simp [turnPart?, isHidden, isImage]

/-- All blocks but images and hidden tools have their part. -/
lemma forall₂_turnPart? (vocabulary : ToolVocabulary) (results : Assoc ToolResult)
    (blocks : List Block) :
    List.Forall₂ (fun block part => turnPart? vocabulary results block = some part)
      (blocks.filter fun block =>
        !isReport vocabulary block && (!isHidden vocabulary block && !isImage block))
      ((blocks.filterMap (turnPart? vocabulary results)).filter fun part =>
        (part.report? vocabulary).isNone) := by
  induction blocks with
  | nil => exact .nil
  | cons block blocks ih =>
    cases block with
    | toolUse use =>
      by_cases hidden : vocabulary.hides use.name
      · simpa [isHidden, turnPart?, hidden] using ih
      by_cases reports : vocabulary.reports use.name
      · simpa [isReport, turnPart?, hidden, Part.report?, callOf, reports] using ih
      · simpa [isHidden, isImage, isReport, turnPart?, hidden, Part.report?, callOf, reports]
          using ih
    | image mediaType data =>
      rw [List.filterMap_cons_none rfl]
      simpa [isImage] using ih
    | _ => simpa [isHidden, isImage, isReport, turnPart?, Part.report?] using ih

/-- The parts that report progress are the calls of the visible tools that do. -/
lemma filterMap_report?_turnPart? (vocabulary : ToolVocabulary) (results : Assoc ToolResult)
    (blocks : List Block) :
    (blocks.filterMap (turnPart? vocabulary results)).filterMap (Part.report? vocabulary) =
      ((visibleUses vocabulary blocks).filter fun use => vocabulary.reports use.name).map
        (callOf results) := by
  induction blocks with
  | nil => rfl
  | cons block blocks ih =>
    cases block with
    | toolUse use =>
      by_cases hidden : vocabulary.hides use.name
      · simpa [visibleUses, Block.toolUse?, turnPart?, hidden] using ih
      have hname : (callOf results use).name = use.name := rfl
      by_cases reports : vocabulary.reports use.name
      · simpa [visibleUses, Block.toolUse?, turnPart?, hidden, Part.report?, hname, reports]
          using ih
      · simpa [visibleUses, Block.toolUse?, turnPart?, hidden, Part.report?, hname, reports]
          using ih
    | image mediaType data =>
      rw [List.filterMap_cons_none rfl, ih]
      simp [visibleUses, Block.toolUse?]
    | _ =>
      simpa [List.filterMap_cons, turnPart?, Part.report?, visibleUses, Block.toolUse?] using ih

/-- A leaf that shows the part of a block shows the block. -/
lemma shownAs_of_shows {block : Block} {part : Part} {leaf : Leaf}
    (hpart : turnPart? vocabulary results block = some part)
    (shows : Leaf.Shows vocabulary leaf (.part part)) :
    ShownAs vocabulary results block leaf := by
  cases block with
  | toolUse use =>
    simp only [turnPart?] at hpart
    split at hpart <;> cases hpart
    cases shows with
    | same => exact .call use
    | task made agent => exact .task use agent
  | image mediaType data => cases hpart
  | text shown =>
    cases hpart
    cases shows
    exact .text shown
  | thinking thought =>
    cases hpart
    cases shows
    exact .thinking thought
  | toolResult result =>
    cases hpart
    cases shows
    exact .orphan result
  | error message =>
    cases hpart
    cases shows
    exact .error message
  | permissionRequest request =>
    cases hpart
    cases shows
    exact .permission request

/-- Arranging does not lose all parts. -/
lemma arrangeParts_ne_nil (vocabulary : ToolVocabulary) {parts : List Part}
    (plain : ∀ part ∈ parts, part.isPlain) (h : parts ≠ []) :
    arrangeParts vocabulary parts ≠ [] := by
  intro hnil
  have hnested := nestCalls_nested vocabulary (foldCalls vocabulary parts)
  rw [← arrangeParts, hnil] at hnested
  have hfolded : foldCalls vocabulary parts = [] := by
    generalize foldCalls vocabulary parts = folded at hnested
    cases hnested
    rfl
  have hleaves := flatMap_leaves_foldCalls vocabulary plain
  have hprogress := filter_isProgress_foldCalls vocabulary plain
  rw [hfolded] at hleaves hprogress
  -- A part that reports no progress would have left a leaf, and a report the progress entry.
  obtain ⟨part, hpart⟩ := List.exists_mem_of_ne_nil _ h
  cases hreport : part.report? vocabulary with
  | none =>
    have hothers := List.map_eq_nil_iff.1 hleaves.symm
    exact List.filter_eq_nil_iff.1 hothers part hpart (by simp [hreport])
  | some made =>
    have hreports : parts.filterMap (Part.report? vocabulary) = [] := by
      cases hmade : parts.filterMap (Part.report? vocabulary) with
      | nil => rfl
      | cons first more => simp [hmade, Folding.progressParts] at hprogress
    have hnone := List.filterMap_eq_nil_iff.1 hreports part hpart
    simp [hreport] at hnone

/-- Lists that are related to a third one, element by element, are related to each other. -/
lemma forall₂_trans {α β γ : Type} {R : α → β → Prop} {S : γ → β → Prop} {T : α → γ → Prop}
    (compose : ∀ a b c, R a b → S c b → T a c) {as : List α} {bs : List β} {cs : List γ}
    (hr : List.Forall₂ R as bs) (hs : List.Forall₂ S cs bs) : List.Forall₂ T as cs := by
  induction hr generalizing cs with
  | nil =>
    cases hs
    exact .nil
  | cons head _ ih =>
    cases hs with
    | cons shown rest => exact .cons (compose _ _ _ head shown) (ih rest)

/-! ## Turns -/

/-- The arranged parts of a turn show its blocks, and gather its reports of progress. -/
lemma shows_arrangeParts_turnPart? (vocabulary : ToolVocabulary) (results : Assoc ToolResult)
    (blocks : List Block) :
    let arranged := arrangeParts vocabulary (blocks.filterMap (turnPart? vocabulary results))
    List.Forall₂ (ShownAs vocabulary results)
        (blocks.filter fun block =>
          !isReport vocabulary block && (!isHidden vocabulary block && !isImage block))
        (flatten arranged) ∧
      (listNodes arranged).filter Part.isProgress =
        Folding.progressParts (((visibleUses vocabulary blocks).filter fun use =>
          vocabulary.reports use.name).map (callOf results)) := by
  intro arranged
  have plain := isPlain_of_mem_filterMap_turnPart? vocabulary results blocks
  have flat : ∀ part ∈ foldCalls vocabulary (blocks.filterMap (turnPart? vocabulary results)),
      ¬part.isTask :=
    fun part hpart => (not_isTask_of_mem_foldCalls vocabulary plain hpart).1
  have hnested := nestCalls_nested vocabulary
    (foldCalls vocabulary (blocks.filterMap (turnPart? vocabulary results)))
  constructor
  · have hshows := hnested.shows flat
    rw [flatMap_leaves_foldCalls vocabulary plain, List.forall₂_map_right_iff] at hshows
    refine forall₂_trans ?_ (forall₂_turnPart? vocabulary results blocks) hshows
    intro block part leaf hpart shows
    exact shownAs_of_shows hpart shows
  · rw [← filterMap_report?_turnPart?, ← filter_isProgress_foldCalls vocabulary plain]
    exact hnested.filter_isProgress flat

/-- If nothing is left of the blocks of a turn without its hidden tools and its images, it shows an
empty text.  Otherwise its parts, with their groups opened, show the other blocks in order, and its
reports of progress are the items of the only progress entry. -/
theorem turn_shows_blocks (vocabulary : ToolVocabulary) (message : AnsweredMessage)
    (turn : message.kind.isTurn) :
    let shown := message.content.filter fun block => !isHidden vocabulary block && !isImage block
    let content := (ofAnswered vocabulary message).content
    (shown = [] → content = [.text ""]) ∧
      (shown ≠ [] →
        List.Forall₂ (ShownAs vocabulary message.toolResults)
            (shown.filter fun block => !isReport vocabulary block) (flatten content) ∧
          (listNodes content).filter Part.isProgress =
            match ((visibleUses vocabulary message.content).filter fun use =>
              vocabulary.reports use.name).map (callOf message.toolResults) with
            | [] => []
            | first :: more => [.taskProgress first.id (first :: more)]) := by
  intro shown content
  have hcontent : content = turnParts vocabulary message :=
    partsOf_eq_turnParts vocabulary (.inl turn)
  have hempty : message.content.filterMap (turnPart? vocabulary message.toolResults) = [] ↔
      shown = [] := by
    simp only [List.filterMap_eq_nil_iff, turnPart?_eq_none_iff, shown, List.filter_eq_nil_iff]
  constructor
  · intro hnone
    rw [hcontent, turnParts, hempty.2 hnone]
    rfl
  · intro hsome
    have harranged : content = arrangeParts vocabulary
        (message.content.filterMap (turnPart? vocabulary message.toolResults)) := by
      have hne := arrangeParts_ne_nil vocabulary
        (isPlain_of_mem_filterMap_turnPart? vocabulary message.toolResults message.content)
        (mt hempty.1 hsome)
      rw [hcontent, turnParts, orEmptyText, if_neg (by simpa using hne)]
    obtain ⟨hshows, hprogress⟩ :=
      shows_arrangeParts_turnPart? vocabulary message.toolResults message.content
    rw [harranged, List.filter_filter]
    refine ⟨hshows, hprogress.trans ?_⟩
    cases ((visibleUses vocabulary message.content).filter fun use =>
      vocabulary.reports use.name).map (callOf message.toolResults) <;> rfl

/-- A turn with every kind of block: the hidden tool and the image are not shown, and the sub-agent
takes in the call behind it. -/
theorem turn_shows_blocks_every_kind :
    let vocabulary : ToolVocabulary := ⟨["Read"], ["TodoWrite"], ["TaskUpdate"], ["Task"]⟩
    let use (id name : String) : ToolUse := ⟨id, name, []⟩
    let result : ToolResult := ⟨"r", "done", false, [], none, none⟩
    let message : AnsweredMessage := ⟨⟨"a", "c", .assistant, [.thinking "how",
      .toolUse (use "h" "TodoWrite"), .toolUse (use "t" "Task"), .toolUse (use "r" "Read"),
      .toolUse (use "p" "TaskUpdate"), .image "image/png" "AAA", .text "", .error "stop",
      .toolResult ⟨"x", "late", false, [], none, none⟩, .permissionRequest .null], "", []⟩,
      [("r", result)]⟩
    let content := (ofAnswered vocabulary message).content
    List.Forall₂ (ShownAs vocabulary message.toolResults)
        [.thinking "how", .toolUse (use "t" "Task"), .toolUse (use "r" "Read"), .text "",
          .error "stop", .toolResult ⟨"x", "late", false, [], none, none⟩, .permissionRequest .null]
        (flatten content) ∧
      (listNodes content).filter Part.isProgress =
        [.taskProgress "p" [callOf message.toolResults (use "p" "TaskUpdate")]] := by
  intro vocabulary use result message content
  have shown : (message.content.filter fun block =>
      !isHidden vocabulary block && !isImage block) ≠ [] :=
    List.ne_nil_of_mem (List.mem_filter.2 ⟨List.mem_cons_self, rfl⟩)
  exact (turn_shows_blocks vocabulary message rfl).2 shown

/-- The message of an entry of the assistant holds the image of the entry, and does not show it. -/
theorem turn_loses_image :
    let origin : Origin := ⟨fun _ => "", ""⟩
    let source : Fields := [("type", .string "base64"), ("media_type", .string "image/png"),
      ("data", .string "AAA")]
    let entry : Fields := [("type", .string "assistant"), ("uuid", .string "a"),
      ("message", .object [("content", .array [
        .object [("type", .string "text"), ("text", .string "chart")],
        .object [("type", .string "image"), ("source", .object source)]])])]
    ∃ message, Entry.toMessage origin "c" entry 0 = .ok (some message, 0) ∧
      message.content = [.text "chart", .image "image/png" "AAA"] ∧
      (ofMessages .claude [message]).map content = [[.text "chart"]] := by
  refine ⟨_, rfl, rfl, rfl⟩

end DisplayedMessage

end ChatHistory
