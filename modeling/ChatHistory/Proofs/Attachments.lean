import ChatHistory.DisplayedMessage
import ChatHistory.Proofs.Assoc
import Mathlib.Data.List.Basic
import Mathlib.Data.List.Induction

/-!
# Files attached by the user

The files that the texts of a user attach are listed in the metadata of the displayed message.  Each
text that attaches files sets the list anew, so the files of the last one are listed and those of
the others are not, although the tags of all are removed (`attachedFiles_eq`,
`attachedFiles_of_two_texts`).
-/

namespace ChatHistory

namespace DisplayedMessage

/-- The names of the files that a block attaches, in order. -/
def attachedNames : Block → List String
  | .text text => if isInterruption text then [] else (Attachment.parse text).1
  | _ => []

/-- The list of some attached files, if there are any. -/
def listing : List String → Option Json
  | [] => none
  | names => some (.array (names.map fun name => .object [("name", .string name)]))

/-- Different files are listed differently. -/
lemma listing_injective : Function.Injective listing := by
  have item : Function.Injective fun name : String => Json.object [("name", .string name)] := by
    intro name other same
    simpa using same
  intro names others same
  cases names with
  | nil =>
    cases others with
    | nil => rfl
    | cons other others => cases same
  | cons name names =>
    cases others with
    | nil => cases same
    | cons other others =>
      exact List.map_injective_iff.2 item (Json.array.inj (Option.some.inj same))

/-- What a block of the user gives as attached files is the list of its own. -/
lemma valuesOf_userMetadata (block : Block) :
    Assoc.valuesOf "attachedFiles" (userMetadata block) =
      (listing (attachedNames block)).toList := by
  cases block with
  | text text =>
    have command : Assoc.valuesOf "attachedFiles" (commandMetadata text) = [] := by
      unfold commandMetadata
      split <;> rfl
    have attachments : Assoc.valuesOf "attachedFiles" (attachmentMetadata text) =
        (listing (Attachment.parse text).1).toList := by
      unfold attachmentMetadata
      cases (Attachment.parse text).1 <;> rfl
    by_cases interruption : isInterruption text
    · rw [userMetadata, attachedNames, if_pos interruption, if_pos interruption]
      rfl
    · rw [userMetadata, attachedNames, if_neg interruption, if_neg interruption,
        Assoc.valuesOf_append, command, attachments, List.nil_append]
  | _ => rfl

/-- Each block of the user that attaches files gives a list of them. -/
lemma valuesOf_flatMap_userMetadata (content : List Block) :
    Assoc.valuesOf "attachedFiles" (content.flatMap userMetadata) =
      (content.map attachedNames).filterMap listing := by
  induction content with
  | nil => rfl
  | cons block content ih =>
    rw [List.flatMap_cons, Assoc.valuesOf_append, valuesOf_userMetadata, ih, List.map_cons,
      List.filterMap_cons]
    cases listing (attachedNames block) <;> rfl

/-- The last of some lists is the list of all files only if the others are empty. -/
lemma getLast?_listing_eq_iff (lists : List (List String)) (given : Option Json) :
    (lists.filterMap listing).getLast?.or given = listing lists.flatten ↔
      lists.countP (· ≠ []) ≤ 1 ∧ (lists.flatten = [] → given = none) := by
  -- From the right, since the last list with a name in it decides.
  induction lists using List.reverseRecOn with
  | nil => simp [listing]
  | append_singleton lists names ih =>
    cases names with
    | nil => simpa [listing] using ih
    | cons name names =>
      have last : ((lists ++ [name :: names]).filterMap listing).getLast?.or given =
          listing (name :: names) := by
        simp [listing]
      rw [last, listing_injective.eq_iff]
      simp

/-- The attached files of the user are those of the last text that attaches any, or else what the
message already tells of them.  So all files that the texts attach are listed if a single text
attaches them, but never if several do. -/
theorem attachedFiles_eq (vocabulary : ToolVocabulary) (message : AnsweredMessage)
    (user : message.kind = .user) :
    let given := Assoc.get? message.metadata "attachedFiles"
    let listed := Assoc.get? (ofAnswered vocabulary message).metadata "attachedFiles"
    listed = ((message.content.map attachedNames).filterMap listing).getLast?.or given ∧
    (listed = listing (message.content.flatMap attachedNames) ↔
      message.content.countP (attachedNames · ≠ []) ≤ 1 ∧
      (message.content.flatMap attachedNames = [] → given = none)) := by
  intro given listed
  have metadata : (ofAnswered vocabulary message).metadata =
      Assoc.merge message.metadata (message.content.flatMap userMetadata) := if_pos user
  have last : listed =
      ((message.content.map attachedNames).filterMap listing).getLast?.or given := by
    simp only [listed, given, metadata, Assoc.get?_merge, valuesOf_flatMap_userMetadata]
  have whole := getLast?_listing_eq_iff (message.content.map attachedNames) given
  rw [← last, List.countP_map] at whole
  exact ⟨last, whole⟩

/-- A text with two attached files in front of an image and a text without any: both are listed. -/
theorem attachedFiles_eq_beside_image :
    let content : List Block := [.text
        "<attached_file_path name=\"a &amp; b\"/> <attached_file_path name=\"c\"/> check",
      .image "image/png" "AAA", .text "now"]
    let message : AnsweredMessage := ⟨⟨"u", "c", .user, content, "", []⟩, []⟩
    message.kind = .user ∧
    Assoc.get? (ofAnswered ToolVocabulary.claude message).metadata "attachedFiles" =
      listing ["a & b", "c"] := by
  intro content message
  obtain ⟨-, whole⟩ := attachedFiles_eq ToolVocabulary.claude message rfl
  exact ⟨rfl, whole.2 ⟨by decide, fun _ => rfl⟩⟩

/-- Two texts with an attached file each: both tags are removed, and the first file is not
listed. -/
theorem attachedFiles_of_two_texts :
    let content : List Block := [.text "<attached_file_path name=\"a.py\"/> one",
      .text "<attached_file_path name=\"b.py\"/> two"]
    let message : AnsweredMessage := ⟨⟨"u", "c", .user, content, "", []⟩, []⟩
    let shown := ofAnswered ToolVocabulary.claude message
    shown.content = [.text "one", .text "two"] ∧
    Assoc.get? shown.metadata "attachedFiles" = listing ["b.py"] ∧
    Assoc.get? shown.metadata "attachedFiles" ≠ listing (content.flatMap attachedNames) := by
  intro content message shown
  have listed : Assoc.get? shown.metadata "attachedFiles" = listing ["b.py"] := by rfl
  have attached : content.flatMap attachedNames = ["a.py", "b.py"] := by rfl
  refine ⟨by rfl, listed, ?_⟩
  rw [listed, attached, listing_injective.ne_iff]
  decide

end DisplayedMessage

end ChatHistory
