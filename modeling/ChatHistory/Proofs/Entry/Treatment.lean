import ChatHistory.Entry.Conversion
import ChatHistory.Proofs.Fault
import Mathlib.Tactic.Common

/-!
# The table of treatments

`Treatment.table` lists the rules for log entries in the order in which they are tried, and
`Treatment.Decides` says that a treatment is that of the first rule which applies.  The table
decides every entry in exactly one way, and `Treatment.ofEntry` follows it for every entry whose
type is a single value (`ofEntry_follows_table`).

An entry whose type is an array or an object should be dropped, as the table says, but is a fault
(`ofEntry_composite`), and no log that holds one has a history (`toMessages_composite`).
-/

namespace ChatHistory

namespace Treatment

/-- A rule: the entries that it applies to, and what becomes of them. -/
structure Rule where
  applies : Fields → Prop
  treatment : Treatment

/-- The rules about what the client writes for itself. -/
def hidingRules : List Rule :=
  ⟨fun entry => Json.field entry "type" = .string "progress" ∨
      Json.field entry "type" = .string "queue-operation", .drop⟩ ::
    ["isMeta", "isVisibleInTranscriptOnly", "isCompactSummary"].map fun flag =>
      ⟨fun entry => Json.field entry flag = .bool true, .drop⟩

/-- The rules about entries that are of neither a user nor an assistant. -/
def noticeRules : List Rule :=
  [⟨fun entry => Json.field entry "type" = .string "system" ∧
      Json.field entry "subtype" = .string "compact_boundary", .compactNotice⟩,
    ⟨fun entry => Json.field entry "type" = .string "result" ∧
      ¬(Json.field entry "subtype" = .string "error_during_execution" ∧
        Json.field entry "is_error" = .bool true), .drop⟩,
    ⟨fun entry => Json.field entry "type" = .string "result", .sessionError⟩,
    ⟨fun entry => Json.field entry "type" ≠ .string "user" ∧
      Json.field entry "type" ≠ .string "assistant", .drop⟩]

/-- The rules about the message of a user or an assistant.  The last one applies to all. -/
def messageRules : List Rule :=
  [⟨fun entry => ∀ message, Json.field entry "message" ≠ .object message, .drop⟩,
    ⟨fun entry => Json.field entry "type" = .string "user" ∧
      ∃ message text, Json.field entry "message" = .object message ∧
        Json.field message "content" = .string text ∧
        taskNotification.toList <+: text.toList, .drop⟩,
    ⟨fun entry => ∃ message, Json.field entry "message" = .object message ∧
      Json.field message "content" = .array [], .drop⟩,
    ⟨fun _ => True, .message⟩]

/-- All rules, in the order in which they are tried. -/
def table : List Rule :=
  hidingRules ++ (noticeRules ++ messageRules)

/-- The first of some rules that applies to an entry gives a treatment. -/
inductive Decides (entry : Fields) : List Rule → Treatment → Prop
  | first {rule : Rule} (rules : List Rule) (applies : rule.applies entry) :
      Decides entry (rule :: rules) rule.treatment
  | later {rule : Rule} {rules : List Rule} {treatment : Treatment} (passes : ¬rule.applies entry)
      (rest : Decides entry rules treatment) : Decides entry (rule :: rules) treatment

/-- Rules give an entry at most one treatment. -/
lemma Decides.unique {entry : Fields} {rules : List Rule} {treatment other : Treatment}
    (h : Decides entry rules treatment) (h' : Decides entry rules other) :
    other = treatment := by
  induction h with
  | first rules applies =>
    cases h' with
    | first _ _ => rfl
    | later passes _ => exact absurd applies passes
  | later passes _ ih =>
    cases h' with
    | first _ applies => exact absurd applies passes
    | later _ rest => exact ih rest

/-- Rules that do not apply change nothing. -/
lemma Decides.append {entry : Fields} {passed rules : List Rule} {treatment : Treatment}
    (passes : ∀ rule ∈ passed, ¬rule.applies entry) (h : Decides entry rules treatment) :
    Decides entry (passed ++ rules) treatment := by
  induction passed with
  | nil => exact h
  | cons rule passed ih =>
    refine .later (passes rule List.mem_cons_self) ?_
    exact ih fun r hr => passes r (List.mem_cons_of_mem _ hr)

/-- Where all of some rules give the same treatment, it does not matter which of them applies. -/
lemma decides_of_agree {entry : Fields} {group : List Rule} {treatment : Treatment}
    (agree : ∀ rule ∈ group, rule.treatment = treatment)
    (applies : ∃ rule ∈ group, rule.applies entry) (rules : List Rule) :
    Decides entry (group ++ rules) treatment := by
  induction group with
  | nil => simp at applies
  | cons rule more ih =>
    have hrule := agree rule List.mem_cons_self
    by_cases first : rule.applies entry
    · rw [← hrule]
      exact .first _ first
    · refine .later first (ih (fun r hr => agree r (List.mem_cons_of_mem _ hr)) ?_)
      obtain ⟨other, hother, happlies⟩ := applies
      rcases List.mem_cons.1 hother with rfl | hmore
      · exact absurd happlies first
      · exact ⟨other, hmore, happlies⟩

/-! ## Entries and the table -/

/-- The rules about messages decide as `ofMessage` does. -/
lemma decides_messageRules (entry : Fields) :
    Decides entry messageRules
      (ofMessage ((Json.field entry "type").isString "user") (Json.field entry "message")) := by
  cases hmessage : Json.field entry "message" with
  | object message =>
    refine .later (by simp [hmessage]) ?_
    cases hcontent : Json.field message "content" with
    | string text =>
      have htreatment (byUser : Bool) : ofMessage byUser (.object message) =
          if byUser && taskNotification.toList.isPrefixOf text.toList then .drop else .message := by
        simp [ofMessage, hcontent, reportsTask]
      rw [htreatment]
      split
      · rename_i reports
        rw [Bool.and_eq_true, Json.isString_iff, List.isPrefixOf_iff_prefix] at reports
        exact .first _ ⟨reports.1, message, text, hmessage, hcontent, reports.2⟩
      · rename_i reports
        rw [Bool.and_eq_true, Json.isString_iff, List.isPrefixOf_iff_prefix] at reports
        refine .later ?_ (.later ?_ (.first [] trivial))
        · simpa [hmessage, hcontent] using reports
        · simp [hmessage, hcontent]
    | array items =>
      refine .later (by simp [hmessage, hcontent]) ?_
      cases items with
      | nil =>
        have htreatment (byUser : Bool) : ofMessage byUser (.object message) = .drop := by
          simp [ofMessage, hcontent]
        rw [htreatment]
        exact .first _ ⟨message, hmessage, hcontent⟩
      | cons item items =>
        have htreatment (byUser : Bool) : ofMessage byUser (.object message) = .message := by
          simp [ofMessage, hcontent, reportsTask]
        rw [htreatment]
        exact .later (by simp [hmessage, hcontent]) (.first [] trivial)
    | _ =>
      have htreatment (byUser : Bool) : ofMessage byUser (.object message) = .message := by
        simp [ofMessage, hcontent, reportsTask]
      rw [htreatment]
      refine .later ?_ (.later ?_ (.first [] trivial)) <;> simp [hmessage, hcontent]
  | _ => exact .first _ (by simp [hmessage])

/-- The entries that the client writes for itself. -/
def IsHidden (entry : Fields) : Prop :=
  ∃ rule ∈ hidingRules, rule.applies entry

lemma isHidden_iff {entry : Fields} :
    IsHidden entry ↔
      (Json.field entry "type").isString "progress" ∨
        (Json.field entry "type").isString "queue-operation" ∨
        hiddenFlags.any fun flag => (Json.field entry flag).isTrue := by
  simp [IsHidden, hidingRules, hiddenFlags, Json.isString_iff, Json.isTrue_iff, or_assoc]

lemma IsHidden.decides {entry : Fields} (h : IsHidden entry) : Decides entry table .drop := by
  refine decides_of_agree ?_ h _
  simp [hidingRules]

lemma decides_table_of_not_isHidden {entry : Fields} {treatment : Treatment}
    (visible : ¬IsHidden entry) (h : Decides entry (noticeRules ++ messageRules) treatment) :
    Decides entry table treatment :=
  .append (fun rule hrule applies => visible ⟨rule, hrule, applies⟩) h

/-- An entry that is of neither a user nor an assistant is treated by the rules about notices. -/
lemma ofEntry_notice {entry : Fields} (single : ¬(Json.field entry "type").isComposite)
    (visible : ¬IsHidden entry) (user : Json.field entry "type" ≠ .string "user")
    (assistant : Json.field entry "type" ≠ .string "assistant") :
    ∃ treatment, ofEntry entry = .ok treatment ∧
      Decides entry (noticeRules ++ messageRules) treatment := by
  rw [isHidden_iff, not_or, not_or] at visible
  obtain ⟨progress, queued, flagged⟩ := visible
  by_cases system : Json.field entry "type" = .string "system"
  · have hentry : ofEntry entry = .ok (if (Json.field entry "subtype").isString "compact_boundary"
        then .compactNotice else .drop) := by
      simp [ofEntry, flagged, system, Json.isComposite, Json.isString_iff]
    refine ⟨_, hentry, ?_⟩
    split
    · rename_i compact
      exact .first _ ⟨system, Json.isString_iff.1 compact⟩
    · rename_i compact
      rw [Json.isString_iff] at compact
      refine .later (fun h => compact h.2) (.later ?_ (.later ?_ (.first _ ⟨user, assistant⟩))) <;>
        simp [system]
  by_cases result : Json.field entry "type" = .string "result"
  · have hentry : ofEntry entry = .ok (if (Json.field entry "subtype").isString
        "error_during_execution" && (Json.field entry "is_error").isTrue
        then .sessionError else .drop) := by
      simp [ofEntry, flagged, result, Json.isComposite, Json.isString_iff]
    refine ⟨_, hentry, .later (fun h => system h.1) ?_⟩
    split
    · rename_i failure
      rw [Bool.and_eq_true, Json.isString_iff, Json.isTrue_iff] at failure
      exact .later (fun h => h.2 failure) (.first _ result)
    · rename_i failure
      rw [Bool.and_eq_true, Json.isString_iff, Json.isTrue_iff] at failure
      exact .first _ ⟨result, failure⟩
  · refine ⟨.drop, ?_, ?_⟩
    · simp [ofEntry, single, flagged, progress, queued, system, result, user, assistant,
        Json.isString_iff]
    · exact .later (fun h => system h.1) (.later (fun h => result h.1)
        (.later result (.first _ ⟨user, assistant⟩)))

/-- An entry of a user or an assistant is treated by the rules about messages. -/
lemma ofEntry_conversation {entry : Fields} (visible : ¬IsHidden entry)
    (conversation : Json.field entry "type" = .string "user" ∨
      Json.field entry "type" = .string "assistant") :
    ∃ treatment, ofEntry entry = .ok treatment ∧
      Decides entry (noticeRules ++ messageRules) treatment := by
  rw [isHidden_iff, not_or, not_or] at visible
  refine ⟨_, ?_, .append ?_ (decides_messageRules entry)⟩
  · rcases conversation with h | h <;>
      simp [ofEntry, visible.2.2, h, Json.isComposite, Json.isString_iff]
  · rcases conversation with h | h <;> simp [noticeRules, h]

/-- An entry whose type is a single value is treated by the table. -/
lemma ofEntry_single {entry : Fields} (single : ¬(Json.field entry "type").isComposite) :
    ∃ treatment, ofEntry entry = .ok treatment ∧ Decides entry table treatment := by
  by_cases hidden : IsHidden entry
  · refine ⟨.drop, ?_, hidden.decides⟩
    rw [isHidden_iff] at hidden
    rcases hidden with h | h | h <;> simp [ofEntry, single, h]
  by_cases conversation : Json.field entry "type" = .string "user" ∨
      Json.field entry "type" = .string "assistant"
  · obtain ⟨treatment, hentry, hrules⟩ := ofEntry_conversation hidden conversation
    exact ⟨treatment, hentry, decides_table_of_not_isHidden hidden hrules⟩
  · rw [not_or] at conversation
    obtain ⟨treatment, hentry, hrules⟩ :=
      ofEntry_notice single hidden conversation.1 conversation.2
    exact ⟨treatment, hentry, decides_table_of_not_isHidden hidden hrules⟩

/-- An entry whose type is an array or an object is a fault, though the table drops it. -/
lemma ofEntry_composite {entry : Fields} (composite : (Json.field entry "type").isComposite) :
    ofEntry entry = .error .compositeName ∧ Decides entry table .drop := by
  refine ⟨by simp [ofEntry, composite], ?_⟩
  have htype (name : String) : Json.field entry "type" ≠ .string name := by
    intro h
    simp [h, Json.isComposite] at composite
  by_cases hidden : IsHidden entry
  · exact hidden.decides
  · refine decides_table_of_not_isHidden hidden ?_
    exact .later (fun h => htype _ h.1) (.later (fun h => htype _ h.1)
      (.later (htype _) (.first _ ⟨htype _, htype _⟩)))

/-- For every entry the table decides on exactly one treatment.  This is what becomes of the entry
if its type is a single value; if it is an array or an object, the entry is a fault instead. -/
theorem ofEntry_follows_table (entry : Fields) :
    ∃ treatment, (∀ other, Decides entry table other ↔ other = treatment) ∧
      ofEntry entry =
        if (Json.field entry "type").isComposite then .error .compositeName
        else .ok treatment := by
  by_cases composite : (Json.field entry "type").isComposite
  · obtain ⟨hentry, hrules⟩ := ofEntry_composite composite
    refine ⟨.drop, fun other => ⟨hrules.unique, ?_⟩, ?_⟩
    · rintro rfl
      exact hrules
    · rw [if_pos composite, hentry]
  · obtain ⟨treatment, hentry, hrules⟩ := ofEntry_single composite
    refine ⟨treatment, fun other => ⟨hrules.unique, ?_⟩, ?_⟩
    · rintro rfl
      exact hrules
    · rw [if_neg composite, hentry]

end Treatment

namespace Entry

/-- A log with an entry whose type is an array or an object has no history, whatever else it
holds. -/
theorem toMessages_composite (origin : Origin) (chatId : String) {entry : Fields}
    (composite : (Json.field entry "type").isComposite) (before after : List Fields)
    (drawn : ℕ) : ∃ fault, (toMessages origin chatId (before ++ entry :: after) drawn).1 =
      .error fault := by
  induction before generalizing drawn with
  | nil =>
    have hentry := (Treatment.ofEntry_composite composite).1
    refine ⟨.compositeName, ?_⟩
    simp [toMessages, toMessage, hentry]
  | cons first before ih =>
    rw [List.cons_append, toMessages]
    cases hfirst : toMessage origin chatId first drawn with
    | error fault => exact ⟨fault, rfl⟩
    | ok made =>
      obtain ⟨message, drawn⟩ := made
      obtain ⟨fault, hrest⟩ := ih drawn
      exact ⟨fault, by simp [hrest, Except.map]⟩

/-- An entry whose type is an array holding the name of a type should be dropped, but is a fault,
and takes the message in front of it with it. -/
theorem toMessages_array_type :
    let malformed : Fields := [("type", .array [.string "user"])]
    let greeting : Fields := [("type", .string "user"), ("uuid", .string "u"),
      ("timestamp", .string "t"), ("message", .object [("content", .string "hello")])]
    let origin : Origin := ⟨fun n => toString n, ""⟩
    Treatment.Decides malformed Treatment.table .drop ∧
      Treatment.ofEntry malformed = .error .compositeName ∧
      (toMessages origin "s" [greeting] 0).1 =
        .ok [⟨"u", "s", .user, [.text "hello"], "t", sourceMetadata⟩] ∧
      (toMessages origin "s" [greeting, malformed] 0).1 = .error .compositeName := by
  intro malformed greeting origin
  have hcomposite : (Json.field malformed "type").isComposite := rfl
  obtain ⟨hentry, hrules⟩ := Treatment.ofEntry_composite hcomposite
  exact ⟨hrules, hentry, rfl, rfl⟩

end Entry

end ChatHistory
