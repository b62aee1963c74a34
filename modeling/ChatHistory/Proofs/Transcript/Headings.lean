import ChatHistory.Proofs.Transcript.TopLines

/-!
# The headings of a transcript

A transcript of the assistant's messages has headings of its own, of the levels one and two: the
title, and one for every message.  Headings in the texts of the assistant are moved below them
(`Heading.isTop_lower`).  Whatever else the log gives is put behind an indent and the beginning of a
line, so that it cannot make a heading of the line that it begins in (`topLines_indented`).
Arguments and results are previews, which are on one line, and the description of a task that is no
text is a literal, which is on one line as well.

Some texts of the log are shown as they are, though, and can make headings of lines that begin
inside them.  `Part.rawTexts` lists these texts: the name of a tool, the kind of an image, the
description or the identifier of a task, and the message of an error.  Besides the headings behind
a line feed of such a text, the title and the headings of the messages are the only headings of the
first three levels (`topLines_ofMessages`).
-/

namespace ChatHistory

/-! ## Texts that are shown as they are -/

namespace Invocation

/-- The text of the log that describes a task: its description if that is a text, and its identifier
if there is no description.  A description of another kind is not shown as it is. -/
def rawDescription (task : Invocation) : Option String :=
  match Json.field task.args "description" with
  | .string s => some (if s = "" then task.id else s)
  | value => if value.isTruthy then none else some task.id

end Invocation

namespace Part

mutual

/-- The texts of the log that a part shows as they are, each with what is put behind it if that can
complete a heading: the mark of a failed task begins with a space. -/
def rawTexts : Part → List String
  | .text _ => []
  | .reasoning _ => []
  | .image mediaType _ => [mediaType]
  | .call made => [made.name]
  | .toolGroup _ items => items.map Call.name
  | .taskProgress _ items => items.map Call.name
  | .taskGroup task children =>
    let mark := if task.isError = some true then " **(error)**" else ""
    task.rawDescription.toList.map (· ++ mark) ++ listRawTexts children
  | .error message => [message]
  | .permission _ => []

/-- The texts of the log that some parts show as they are. -/
def listRawTexts : List Part → List String
  | [] => []
  | part :: parts => part.rawTexts ++ listRawTexts parts

end

/-- The headings of the first three levels behind the line feeds of such texts. -/
def strayLines (parts : List Part) : List String :=
  (listRawTexts parts).flatMap Transcript.strayLines

end Part

namespace Transcript

open Text

/-! ## Calls -/

/-- Behind the name of its tool, a call goes on in the same line: with a quote, a preview of the
arguments, and the mark of a failed call. -/
lemma exists_callLine_eq (call : Call) :
    ∃ rest, IsLine rest ∧ rest.toList.head? = some '`' ∧
      ∀ indent, callLine indent call = indent ++ "- `" ++ (call.name ++ rest) := by
  let args := if call.args.isEmpty then "" else Preview.ofJson (.object call.args)
  let mark := if call.isError = some true then errorMark else ""
  have hargs : IsLine args := by
    dsimp only [args]
    split
    · exact isLine_empty
    · exact isLine_preview _
  have hmark : IsLine mark := by
    dsimp only [mark]
    split <;> decide
  have hquote : stripEnd ("` " ++ args).toList ≠ [] :=
    stripEnd_ne_nil (c := '`') (by simp) (by decide)
  have hkept : stripEnd ("` " ++ args).toList <+: ("` " ++ args).toList := stripEnd_isPrefix _
  refine ⟨String.ofList (stripEnd ("` " ++ args).toList) ++ mark, ?_, ?_, fun indent => ?_⟩
  · refine IsLine.append ?_ hmark
    rw [IsLine, String.toList_ofList]
    exact fun hfeed => (IsLine.append (by decide) hargs : IsLine ("` " ++ args)) (hkept.mem hfeed)
  · rw [String.toList_append, String.toList_ofList, List.head?_append_of_ne_nil _ hquote,
      List.head?_eq_some_head hquote, hkept.head hquote]
    simp
  · calc callLine indent call
        = String.ofList (stripEnd (indent ++ "- `" ++ call.name ++ "` " ++ args).toList) ++ mark :=
          rfl
      _ = String.ofList (stripEnd ((indent ++ "- `" ++ call.name).toList ++
            ("` " ++ args).toList)) ++ mark := by
          simp only [String.toList_append, List.append_assoc]
      _ = indent ++ "- `" ++ (call.name ++
            (String.ofList (stripEnd ("` " ++ args).toList) ++ mark)) := by
          rw [stripEnd_append _ hquote, String.ofList_append, String.ofList_toList]
          simp only [String.append_assoc]

/-- The line of a call brings along the headings of the name of its tool. -/
lemma topLines_callLine {indent : String} (h : IsIndent indent) (call : Call) :
    Continued (strayLines call.name) (topLines (callLine indent call)) := by
  obtain ⟨rest, hrest, hquote, hcall⟩ := exists_callLine_eq call
  have hstart : IsLine "- `" := by decide
  rw [hcall, topLines_indented h hstart rfl]
  refine strayLines_continued hrest ?_ call.name
  simp [hquote]

/-- The result of a call brings along no heading. -/
lemma topLines_resultLines {indent : String} (h : IsIndent indent) (call : Call) :
    (resultLines indent call).flatMap topLines = [] := by
  rw [resultLines]
  split
  · rfl
  · have hline : IsLine "  - → " := by decide
    have hpreview := isLine_preview (shownResult call.result)
    have hresult := topLines_indented h hline rfl (Preview.ofJson (shownResult call.result))
    rw [strayLines_of_isLine hpreview] at hresult
    rw [List.flatMap_singleton]
    exact hresult

/-- The line in front of the calls of a unit is no heading. -/
lemma topLines_countLine {indent start finish : String} (h : IsIndent indent)
    (hstart : IsLine start) (plain : start.toList.head?.any (· ≠ '#')) (count : ℕ)
    (hfinish : IsLine finish) :
    topLines (indent ++ start ++ toString count ++ finish) = [] := by
  have hcount : IsLine (toString count ++ finish) := (isLine_repr count).append hfinish
  rw [String.append_assoc, topLines_indented h hstart plain,
    strayLines_of_isLine hcount]

/-- A unit of calls brings along the headings of the names of their tools. -/
lemma topLines_unitLines {indent : String} (h : IsIndent indent) (items : List Call)
    {heading : String} (plain : topLines heading = []) :
    Continued ((items.map Call.name).flatMap strayLines)
      ((unitLines indent heading items).flatMap topLines) := by
  rw [unitLines, List.flatMap_cons, plain, List.nil_append, List.flatMap_map, List.flatMap_map]
  exact Continued.flatMap fun made _ => topLines_callLine h.deeper made

/-! ## Tasks -/

/-- A task is described by the text of the log that stands for it, or on one line. -/
lemma taskDescription_cases (task : Invocation) :
    task.rawDescription = some (taskDescription task) ∨
      task.rawDescription = none ∧ IsLine (taskDescription task) := by
  unfold taskDescription Invocation.rawDescription
  split
  · rename_i s hdescription
    left
    by_cases empty : s = "" <;> simp [hdescription, Json.isTruthy, Json.display, empty]
  · rename_i noText
    dsimp only
    split
    · exact .inr ⟨rfl, Json.newline_notMem_display noText⟩
    · exact .inl rfl

/-- A task brings along the headings of the text of the log that describes it, if there is one. -/
lemma strayLines_taskDescription (task : Invocation) {mark : String} (hmark : IsLine mark) :
    strayLines (taskDescription task ++ mark) =
      (task.rawDescription.toList.map (· ++ mark)).flatMap strayLines := by
  rcases taskDescription_cases task with raw | ⟨none, hline⟩
  · simp [raw]
  · rw [none, strayLines_of_isLine (hline.append hmark)]
    rfl

/-- Texts whose headings are moved down bring along none. -/
lemma topLines_lower {line : String} (h : IsLine line) :
    topLines (String.ofList (Heading.lower line.toList)) = [] := by
  have hlower : IsLine (String.ofList (Heading.lower line.toList)) := by
    rw [IsLine, String.toList_ofList]
    exact Heading.not_mem_lower h
  rw [topLines_of_isLine hlower, List.filter_cons_of_neg (by simp [Heading.isTop_lower])]
  rfl

lemma topLines_empty : topLines "" = [] := by
  rw [topLines_of_isLine isLine_empty]
  rfl

lemma topLines_rule : topLines "---" = [] := by
  rw [topLines_of_isLine (by decide)]
  rfl

/-! ## Parts -/

mutual

/-- The headings of the first three levels among the lines of a part are those of the texts that it
shows as they are. -/
lemma topLines_partLines {indent : String} (h : IsIndent indent) : (part : Part) →
    Continued (part.rawTexts.flatMap strayLines) ((partLines true indent part).flatMap topLines)
  | .text shown => by
    have hnone : (partLines true indent (.text shown)).flatMap topLines = [] := by
      rw [partLines]
      split
      · rfl
      · rw [List.flatMap_append, List.flatMap_map, List.append_eq_nil_iff]
        refine ⟨List.flatMap_eq_nil_iff.2 fun line hline => ?_, by simp [topLines_empty]⟩
        exact topLines_lower (isLine_of_mem_textLines hline)
    rw [hnone]
    exact .nil
  | .reasoning thought => by
    have hline : IsLine "> " := by decide
    have hnone : (partLines true indent (.reasoning thought)).flatMap topLines = [] := by
      rw [partLines, List.flatMap_append, List.flatMap_map, List.append_eq_nil_iff]
      refine ⟨List.flatMap_eq_nil_iff.2 fun line hmem => ?_, by simp [topLines_empty]⟩
      exact topLines_plain hline rfl (isLine_of_mem_textLines hmem)
    rw [hnone]
    exact .nil
  | .image mediaType _ => by
    have hline : IsLine "[Image: " := by decide
    have hbracket : IsLine "]" := by decide
    have himage : topLines s!"{indent}[Image: {mediaType}]" = strayLines (mediaType ++ "]") := by
      rw [← topLines_indented h hline rfl, ← String.append_assoc]
      rfl
    simpa [partLines, Part.rawTexts, himage, topLines_empty] using
      strayLines_continued hbracket (by simp) mediaType
  | .call made => by
    rw [partLines, Part.rawTexts, List.flatMap_singleton, List.flatMap_cons,
      topLines_resultLines h, List.append_nil]
    exact topLines_callLine h made
  | .toolGroup _ items => by
    rw [partLines, Part.rawTexts]
    have hstart : IsLine "- Explored (" := by decide
    have hfinish : IsLine " calls)" := by decide
    exact topLines_unitLines h items (topLines_countLine h hstart rfl items.length hfinish)
  | .taskProgress _ items => by
    rw [partLines, Part.rawTexts]
    have hstart : IsLine "- Task progress (" := by decide
    have hfinish : IsLine " updates)" := by decide
    exact topLines_unitLines h items (topLines_countLine h hstart rfl items.length hfinish)
  | .taskGroup task children => by
    have hline : IsLine "- Task: " := by decide
    have hmark : IsLine (if task.isError = some true then errorMark else "") := by
      split <;> decide
    have htask : topLines (s!"{indent}- Task: {taskDescription task}" ++
        if task.isError = some true then errorMark else "") =
          (task.rawDescription.toList.map
            (· ++ if task.isError = some true then errorMark else "")).flatMap strayLines := by
      rw [← strayLines_taskDescription task hmark, ← topLines_indented h hline rfl,
        ← String.append_assoc]
      rfl
    rw [partLines, Part.rawTexts, List.flatMap_cons, htask, List.flatMap_append]
    exact (Continued.refl _).append (topLines_childLines h.deeper children)
  | .error message => by
    have hline : IsLine "**Error**: " := by decide
    have herror : topLines s!"**Error**: {message}" = strayLines message := by
      rw [← topLines_indented isIndent_empty hline rfl]
      rfl
    simpa [partLines, Part.rawTexts, herror, topLines_empty] using
      Continued.refl (strayLines message)
  | .permission _ => by
    have hline : IsLine "**Permission requested**" := by decide
    have hnone : topLines "**Permission requested**" = [] := by
      rw [topLines_of_isLine hline]
      rfl
    simpa [partLines, Part.rawTexts, hnone, topLines_empty] using Continued.refl []

/-- The headings of the first three levels among the lines of nested parts are those of the texts
that they show as they are. -/
lemma topLines_childLines {indent : String} (h : IsIndent indent) : (parts : List Part) →
    Continued ((Part.listRawTexts parts).flatMap strayLines)
      ((childLines true indent parts).flatMap topLines)
  | [] => .nil
  | part :: parts => by
    rw [childLines, Part.listRawTexts, List.flatMap_append, List.flatMap_append]
    exact (topLines_partLines h part).append (topLines_childLines h parts)

end

/-- The headings of the first three levels in the content of a message are those of the texts that
its parts show as they are. -/
lemma topLines_contentLines (inList : Bool) (parts : List Part) :
    Continued (Part.strayLines parts) ((contentLines true inList parts).flatMap topLines) := by
  unfold Part.strayLines
  induction parts generalizing inList with
  | nil =>
    have hnone : (contentLines true inList []).flatMap topLines = [] := by
      cases inList <;> simp [contentLines, topLines_empty]
    rw [hnone]
    exact .nil
  | cons part parts ih =>
    have hclose : (if inList && !part.isCall then [""] else []).flatMap topLines = [] := by
      split <;> simp [topLines_empty]
    rw [contentLines, Part.listRawTexts, List.flatMap_append, List.flatMap_append,
      List.flatMap_append, hclose, List.nil_append]
    exact (topLines_partLines isIndent_empty part).append (ih part.isCall)

/-! ## Messages -/

/-- The heading of a message: its number, the icon of its role, its time, its role, and its
duration. -/
def IsHeading (clock : LocalClock) (numbered : DisplayedMessage × ℕ) (heading : String) : Prop :=
  ∃ time duration, shortTime clock numbered.1.createdAt = .ok time ∧
    durationText numbered.1.metadata = .ok duration ∧
    heading = s!"## {numbered.2}. {icon numbered.1.role} {time} ({numbered.1.role.name}){duration}"

/-- The heading of a message of the assistant is one line, and a heading of the second level. -/
lemma IsHeading.topLines_eq {clock : LocalClock} {numbered : DisplayedMessage × ℕ}
    {heading : String} (h : IsHeading clock numbered heading)
    (assistant : numbered.1.role = .assistant) :
    topLines heading = [heading] := by
  obtain ⟨time, duration, htime, hduration, rfl⟩ := h
  rw [assistant]
  have hdot : IsLine ". " := by decide
  have hnumber : IsLine s!"{numbered.2}. " := (isLine_repr numbered.2).append hdot
  have hicon : IsLine (icon .assistant ++ " ") := by decide
  have hrole : IsLine (" (" ++ Role.assistant.name ++ ")") := by decide
  have hrest := (((hnumber.append hicon).append (isLine_shortTime htime)).append hrole).append
    (isLine_durationText hduration)
  have hheading : s!"## {numbered.2}. {icon .assistant} {time} ({Role.assistant.name}){duration}" =
      "## " ++ (s!"{numbered.2}. " ++ (icon .assistant ++ " ") ++ time ++
        (" (" ++ Role.assistant.name ++ ")") ++ duration) := by
    simp only [String.append_assoc]
    rfl
  rw [hheading, topLines_of_isLine (IsLine.append (by decide) hrest)]
  exact List.filter_cons_of_pos (by simp [Heading.isTop])

/-- A message of the assistant has one heading of the first three levels, and behind it those of the
texts that it shows as they are. -/
lemma topLines_messageLines {clock : LocalClock} {number : ℕ} {message : DisplayedMessage}
    {lines : List String} (assistant : message.role = .assistant)
    (h : messageLines clock number message = .ok lines) :
    ∃ heading stray, IsHeading clock (message, number) heading ∧
      Continued (Part.strayLines message.content) stray ∧
      lines.flatMap topLines = heading :: stray := by
  obtain ⟨time, htime, h⟩ := bind_eq_ok_iff.1 h
  obtain ⟨duration, hduration, h⟩ := bind_eq_ok_iff.1 h
  obtain rfl := Except.ok.inj h
  have hheading : IsHeading clock (message, number)
      s!"## {number}. {icon message.role} {time} ({message.role.name}){duration}" :=
    ⟨time, duration, htime, hduration, rfl⟩
  refine ⟨_, _, hheading, topLines_contentLines false message.content, ?_⟩
  rw [List.flatMap_append, List.flatMap_append, List.flatMap_cons, hheading.topLines_eq assistant,
    assistant]
  simp [topLines_empty, topLines_rule]

/-- Headings, each followed by some lines. -/
def interleave (headings : List String) (strays : List (List String)) : List String :=
  (headings.zip strays).flatMap fun (heading, stray) => heading :: stray

lemma length_interleave {headings : List String} {strays : List (List String)}
    (h : headings.length = strays.length) :
    (interleave headings strays).length = headings.length + strays.flatten.length := by
  induction headings generalizing strays with
  | nil =>
    obtain rfl := List.length_eq_zero_iff.1 h.symm
    rfl
  | cons heading headings ih =>
    obtain ⟨stray, strays, rfl⟩ := List.exists_cons_of_length_eq_add_one h.symm
    have hrest := ih (Nat.succ.inj h)
    unfold interleave at hrest ⊢
    rw [List.zip_cons_cons, List.flatMap_cons, List.length_append, hrest]
    simp only [List.length_cons, List.flatten_cons, List.length_append]
    omega

/-- Nothing is left but the headings if and only if none of them is followed by anything. -/
lemma interleave_eq_iff {headings : List String} {strays : List (List String)}
    (h : headings.length = strays.length) :
    interleave headings strays = headings ↔ ∀ stray ∈ strays, stray = [] := by
  constructor
  · intro alone
    have hlength := length_interleave h
    rw [alone] at hlength
    exact List.flatten_eq_nil_iff.1 (List.length_eq_zero_iff.1 (by omega))
  · intro none
    have halone : ∀ pair ∈ headings.zip strays, pair.1 :: pair.2 = [pair.1] := by
      rintro ⟨heading, stray⟩ hpair
      rw [none stray (List.of_mem_zip hpair).2]
    rw [interleave, List.flatMap_congr halone, ← List.map_eq_flatMap, List.map_fst_zip h.le]

lemma topLines_messagesLines {clock : LocalClock} {messages : List DisplayedMessage}
    (assistant : ∀ message ∈ messages, message.role = .assistant) {number : ℕ} {lines : List String}
    (h : messagesLines clock number messages = .ok lines) :
    ∃ headings strays, List.Forall₂ (IsHeading clock) (messages.zipIdx number) headings ∧
      List.Forall₂ (fun message stray => Continued (Part.strayLines message.content) stray)
        messages strays ∧
      lines.flatMap topLines = interleave headings strays := by
  induction messages generalizing number lines with
  | nil =>
    obtain rfl := Except.ok.inj h
    exact ⟨[], [], .nil, .nil, rfl⟩
  | cons message messages ih =>
    obtain ⟨first, hfirst, h⟩ := bind_eq_ok_iff.1 h
    obtain ⟨more, hmore, h⟩ := bind_eq_ok_iff.1 h
    obtain rfl := Except.ok.inj h
    obtain ⟨heading, stray, hheading, hstray, hlines⟩ :=
      topLines_messageLines (assistant message List.mem_cons_self) hfirst
    obtain ⟨headings, strays, hheadings, hstrays, hrest⟩ :=
      ih (fun m hm => assistant m (List.mem_cons_of_mem _ hm)) hmore
    refine ⟨heading :: headings, stray :: strays, .cons hheading hheadings,
      .cons hstray hstrays, ?_⟩
    rw [List.flatMap_append, hlines, hrest]
    rfl

/-- The period of the messages is no heading. -/
lemma topLines_periodLines {clock : LocalClock} {messages : List DisplayedMessage}
    {lines : List String} (h : periodLines clock messages = .ok lines) :
    lines.flatMap topLines = [] := by
  unfold periodLines at h
  split at h
  · obtain ⟨start, hstart, h⟩ := bind_eq_ok_iff.1 h
    obtain ⟨finish, hfinish, h⟩ := bind_eq_ok_iff.1 h
    obtain rfl := Except.ok.inj h
    have hline : IsLine "- **Period**: " := by decide
    have hdash : IsLine " - " := by decide
    have hperiod := topLines_plain hline rfl
      ((isLine_shortTime hstart).append (hdash.append (isLine_shortTime hfinish)))
    rw [List.flatMap_singleton, ← hperiod]
    simp only [← String.append_assoc]
    rfl
  · obtain rfl := Except.ok.inj h
    rfl

/-- The title of a transcript is a heading of the first level. -/
lemma topLines_title {title : String} (h : IsLine title) :
    topLines s!"# {title} - Export" = [s!"# {title} - Export"] := by
  have htitle : s!"# {title} - Export" = "# " ++ (title ++ " - Export") := by
    rw [← String.append_assoc]
    rfl
  have hrest : IsLine (title ++ " - Export") := h.append (by decide)
  rw [htitle, topLines_of_isLine (IsLine.append (by decide) hrest)]
  exact List.filter_cons_of_pos (by simp [Heading.isTop])

/-- A transcript has its title, the headings of the messages, and those of the texts that they show
as they are, as its headings of the first three levels. -/
lemma topLines_of_ofMessages (clock : LocalClock) {title text : String}
    {messages : List DisplayedMessage} (htitle : IsLine title)
    (assistant : ∀ message ∈ messages, message.role = .assistant)
    (h : ofMessages clock title messages = .ok text) :
    ∃ headings strays, List.Forall₂ (IsHeading clock) (messages.zipIdx 1) headings ∧
      List.Forall₂ (fun message stray => Continued (Part.strayLines message.content) stray)
        messages strays ∧
      topLines text = s!"# {title} - Export" :: interleave headings strays := by
  obtain ⟨period, hperiod, h⟩ := bind_eq_ok_iff.1 h
  obtain ⟨body, hbody, h⟩ := bind_eq_ok_iff.1 h
  obtain rfl := Except.ok.inj h
  obtain ⟨headings, strays, hheadings, hstrays, hlines⟩ := topLines_messagesLines assistant hbody
  have hgenerated : topLines s!"**Generated**: {generatedText clock}" = [] :=
    topLines_plain (by decide) rfl (isLine_generatedText clock)
  have hcount : topLines s!"- **Messages**: {messages.length}" = [] :=
    topLines_plain (by decide) rfl (isLine_repr messages.length)
  refine ⟨headings, strays, hheadings, hstrays, ?_⟩
  rw [topLines_intercalate (by simp)]
  simp only [List.flatMap_append, List.flatMap_cons, List.flatMap_nil,
    topLines_periodLines hperiod, topLines_title htitle, hgenerated, hcount, topLines_empty,
    topLines_rule, hlines, List.append_nil]
  rfl

/-- No message is followed by other headings if and only if the texts that are shown as they are
have none. -/
lemma forall_stray_iff {messages : List DisplayedMessage} {strays : List (List String)}
    (h : List.Forall₂ (fun message stray => Continued (Part.strayLines message.content) stray)
      messages strays) :
    (∀ stray ∈ strays, stray = []) ↔
      ∀ message ∈ messages, ∀ raw ∈ Part.listRawTexts message.content, strayLines raw = [] := by
  induction h with
  | nil => simp
  | cons hstray _ ih =>
    rw [List.forall_mem_cons, List.forall_mem_cons, ih, hstray.eq_nil_iff, Part.strayLines,
      List.flatMap_eq_nil_iff]

/-- The headings of the first three levels in a transcript of the assistant's messages are the title
and the heading of each message, followed by those that stand behind a line feed of a text which the
message shows as it is.  So there are no others if and only if these texts have none, as it is when
each of them is on one line. -/
theorem topLines_ofMessages (clock : LocalClock) {title text : String}
    {messages : List DisplayedMessage} (htitle : IsLine title)
    (assistant : ∀ message ∈ messages, message.role = .assistant)
    (h : ofMessages clock title messages = .ok text) :
    ∃ headings strays, List.Forall₂ (IsHeading clock) (messages.zipIdx 1) headings ∧
      List.Forall₂ (fun message stray => Continued (Part.strayLines message.content) stray)
        messages strays ∧
      topLines text = s!"# {title} - Export" :: interleave headings strays ∧
      (topLines text = s!"# {title} - Export" :: headings ↔
        ∀ message ∈ messages, ∀ raw ∈ Part.listRawTexts message.content, strayLines raw = []) ∧
      ((∀ message ∈ messages, ∀ raw ∈ Part.listRawTexts message.content, IsLine raw) →
        topLines text = s!"# {title} - Export" :: headings) := by
  obtain ⟨headings, strays, hheadings, hstrays, htext⟩ :=
    topLines_of_ofMessages clock htitle assistant h
  have hlength : headings.length = strays.length := by
    rw [← hheadings.length_eq, List.length_zipIdx, hstrays.length_eq]
  have alone : topLines text = s!"# {title} - Export" :: headings ↔
      ∀ message ∈ messages, ∀ raw ∈ Part.listRawTexts message.content, strayLines raw = [] := by
    rw [htext, List.cons_inj_right, interleave_eq_iff hlength, forall_stray_iff hstrays]
  refine ⟨headings, strays, hheadings, hstrays, htext, alone, fun lines => alone.2 ?_⟩
  exact fun message hmessage raw hraw => strayLines_of_isLine (lines message hmessage raw hraw)

/-- Marks in texts, in arguments and in results make no headings, nor do those in the description
of a task that is no text. -/
theorem topLines_ofMessages_quoted :
    let clock : LocalClock := ⟨⟨⟨2001, 2, 3⟩, 4, 5, 6, 0, none⟩, 0⟩
    let call : Call := ⟨⟨"t", [("path", .string "a\n# b")], .string "# c\n## d", some true⟩, "Read"⟩
    let task : Invocation := ⟨"u", [("description", .array [.string "a\n# b"])], .null, some true⟩
    let parts : List Part :=
      [.text "# e\n### f", .call call, .reasoning "# g", .taskGroup task [.call call]]
    let message : DisplayedMessage := ⟨"m", .assistant, parts, none, []⟩
    ∃ text, ofMessages clock "p" [message, message] = .ok text ∧
      ∃ headings, List.Forall₂ (IsHeading clock) [(message, 1), (message, 2)] headings ∧
        topLines text = "# p - Export" :: headings := by
  intro clock call task parts message
  refine ⟨_, rfl, ?_⟩
  have assistant : ∀ m ∈ [message, message], m.role = .assistant := by simp [message]
  have lines : ∀ m ∈ [message, message], ∀ raw ∈ Part.listRawTexts m.content, IsLine raw := by
    decide
  have htitle : IsLine "p" := by decide
  obtain ⟨headings, -, hheadings, -, -, -, alone⟩ := topLines_ofMessages clock htitle assistant rfl
  exact ⟨headings, hheadings, alone lines⟩

/-- The description of a task that goes on behind a line feed makes a heading of the first level. -/
theorem topLines_taskDescription :
    let clock : LocalClock := ⟨⟨⟨2001, 2, 3⟩, 4, 5, 6, 0, none⟩, 0⟩
    let task : Invocation := ⟨"t", [("description", .string "a\n# b")], .null, none⟩
    let message : DisplayedMessage :=
      ⟨"m", .assistant, [.taskGroup task [.call ⟨⟨"r", [], .null, none⟩, "Read"⟩]], none, []⟩
    ∃ text heading, ofMessages clock "p" [message] = .ok text ∧
      topLines text = ["# p - Export", heading, "# b"] := by
  intro clock task message
  refine ⟨_, "## 1. 🤖  (assistant)", rfl, ?_⟩
  decide +kernel

end Transcript

end ChatHistory
