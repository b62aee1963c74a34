import ChatHistory.Proofs.Fault
import ChatHistory.Proofs.Number.Range
import ChatHistory.Proofs.Time.Bounds
import ChatHistory.Transcript.Document

/-!
# When there is a transcript

A transcript fails only for what single messages hold (`exists_ofMessages_iff`): a time that has no
reading in the local zone, or a whole number of milliseconds that has no double.  A message with
neither is `Presentable`.  The times that are read from a log all have their reading, but for some
in the first and in the last year of the calendar (`exists_transcript_iff`).
-/

namespace ChatHistory

namespace Transcript

/-- A message that can be shown in the transcripts of a zone: its time has a reading in the zone,
and its duration, if that is a whole number, has a double. -/
structure Presentable (zone : ℤ) (message : DisplayedMessage) : Prop where
  time : ∀ time ∈ message.createdAt, time.HasReading zone
  duration : ∀ n, Json.field message.metadata turnDurationField = .int n → n.natAbs < Double.limit

/-- There is a local time if the timestamp has a reading in the zone. -/
lemma exists_shortTime_iff (clock : LocalClock) (time : Option Timestamp) :
    (∃ text, shortTime clock time = .ok text) ↔ ∀ t ∈ time, t.HasReading clock.zone := by
  cases time with
  | none => simp [shortTime]
  | some time =>
    rw [shortTime, exists_bind_eq_ok_iff]
    simp [← Timestamp.exists_inZone_iff]

/-- A whole number of milliseconds can be shown if it has a double. -/
lemma exists_text_whole_iff (n : ℤ) :
    (∃ text, (Milliseconds.whole n).text = .ok text) ↔ n.natAbs < Double.limit := by
  rw [← Nat.not_le, ← Double.isInfinite_ofInt, Milliseconds.text]
  cases Double.ofInt n <;> simp [Double.isInfinite]

/-- A duration can be shown unless it is a whole number beyond the doubles. -/
lemma exists_durationText_iff (metadata : Fields) :
    (∃ text, durationText metadata = .ok text) ↔
      ∀ n, Json.field metadata turnDurationField = .int n → n.natAbs < Double.limit := by
  unfold durationText
  cases Json.field metadata turnDurationField with
  | int n =>
    simp only [Milliseconds.ofJson?, exists_bind_eq_ok_iff]
    simpa using exists_text_whole_iff n
  | double x =>
    simp only [Milliseconds.ofJson?, exists_bind_eq_ok_iff]
    simp [Milliseconds.text]
  | _ => simp [Milliseconds.ofJson?]

/-- A message has its lines if it can be shown. -/
lemma exists_messageLines_iff (clock : LocalClock) (number : ℕ) (message : DisplayedMessage) :
    (∃ lines, messageLines clock number message = .ok lines) ↔
      Presentable clock.zone message := by
  have htime := exists_shortTime_iff clock message.createdAt
  have hduration := exists_durationText_iff message.metadata
  rw [messageLines]
  simp only [exists_bind_eq_ok_iff]
  constructor
  · rintro ⟨time, ht, duration, hd, -⟩
    exact ⟨htime.1 ⟨time, ht⟩, hduration.1 ⟨duration, hd⟩⟩
  · intro h
    obtain ⟨time, ht⟩ := htime.2 h.time
    obtain ⟨duration, hd⟩ := hduration.2 h.duration
    exact ⟨time, ht, duration, hd, _, rfl⟩

/-- The lines of messages fail only for a message that cannot be shown. -/
lemma exists_messagesLines_iff (clock : LocalClock) (number : ℕ)
    (messages : List DisplayedMessage) :
    (∃ lines, messagesLines clock number messages = .ok lines) ↔
      ∀ message ∈ messages, Presentable clock.zone message := by
  induction messages generalizing number with
  | nil => simp [messagesLines]
  | cons message messages ih =>
    rw [messagesLines, List.forall_mem_cons, ← exists_messageLines_iff clock number,
      ← ih (number + 1)]
    simp only [exists_bind_eq_ok_iff]
    constructor
    · rintro ⟨lines, hlines, more, hmore, -⟩
      exact ⟨⟨lines, hlines⟩, more, hmore⟩
    · rintro ⟨⟨lines, hlines⟩, more, hmore⟩
      exact ⟨lines, hlines, more, hmore, _, rfl⟩

/-- The period can be shown if the messages can. -/
lemma exists_periodLines (clock : LocalClock) {messages : List DisplayedMessage}
    (h : ∀ message ∈ messages, Presentable clock.zone message) :
    ∃ lines, periodLines clock messages = .ok lines := by
  unfold periodLines
  split
  · rename_i first last hfirst hlast
    obtain ⟨start, hstart⟩ := (exists_shortTime_iff clock first.createdAt).2
      (h first (List.mem_of_head? hfirst)).time
    obtain ⟨finish, hfinish⟩ := (exists_shortTime_iff clock last.createdAt).2
      (h last (List.mem_of_getLast? hlast)).time
    simp [hstart, hfinish]
  · exact ⟨[], rfl⟩

/-- There is a transcript of messages exactly if each of them can be shown. -/
theorem exists_ofMessages_iff (clock : LocalClock) (title : String)
    (messages : List DisplayedMessage) :
    (∃ text, ofMessages clock title messages = .ok text) ↔
      ∀ message ∈ messages, Presentable clock.zone message := by
  rw [← exists_messagesLines_iff clock 1, ofMessages]
  simp only [exists_bind_eq_ok_iff]
  constructor
  · rintro ⟨period, -, body, hbody, -⟩
    exact ⟨body, hbody⟩
  · rintro ⟨body, hbody⟩
    obtain ⟨period, hperiod⟩ :=
      exists_periodLines clock ((exists_messagesLines_iff clock 1 messages).1 ⟨body, hbody⟩)
    exact ⟨period, hperiod, body, hbody, _, rfl⟩

/-- The transcript of displayed messages fails only for the time or the duration of one of them.  In
every zone, a message can be shown if its year is neither the first nor the last one of the calendar
and its duration, if that is a whole number, has a double. -/
theorem exists_transcript_iff (vocabulary : ToolVocabulary) (clock : LocalClock)
    (zone : clock.zone.natAbs < 24 * 60) (title : String) (answered : List AnsweredMessage) :
    let messages := answered.map (DisplayedMessage.ofAnswered vocabulary)
    ((∃ text, ofMessages clock title messages = .ok text) ↔
        ∀ message ∈ messages, Presentable clock.zone message) ∧
      ∀ message ∈ messages,
        (∀ time ∈ message.createdAt, 1 < time.date.year ∧ time.date.year < Date.maxYear) →
        (∀ n, Json.field message.metadata turnDurationField = .int n →
          n.natAbs < Double.limit) →
        Presentable clock.zone message := by
  intro messages
  refine ⟨exists_ofMessages_iff clock title messages, fun message hmessage inner within => ?_⟩
  refine ⟨fun time htime => ?_, within⟩
  obtain ⟨source, -, rfl⟩ := List.mem_map.1 hmessage
  have sound : time.Sound := Timestamp.read_sound htime
  obtain ⟨first, last⟩ := inner time htime
  exact Timestamp.hasReading_of_inner_year sound first last zone

/-- A message with a leap day and a duration has its transcript. -/
theorem exists_transcript_iff_leapDay :
    let clock : LocalClock := ⟨⟨⟨2001, 2, 3⟩, 4, 5, 6, 0, none⟩, 60⟩
    let message : AnsweredMessage := ⟨⟨"a", "c", .assistant, [], "2024-02-29T23:59:59.5Z",
      [(turnDurationField, .int 2500)]⟩, []⟩
    ∃ text, ofMessages clock "p" [.ofAnswered .claude message] = .ok text := by
  intro clock message
  obtain ⟨hiff, hinner⟩ := exists_transcript_iff .claude clock (by decide) "p" [message]
  refine hiff.2 fun shown hshown => hinner shown hshown ?_ ?_
  · obtain rfl := List.mem_singleton.1 hshown
    intro time htime
    have hread : Timestamp.read message.timestamp =
        some ⟨⟨2024, 2, 29⟩, 23, 59, 59, 500000, some 0⟩ := by decide +kernel
    rw [DisplayedMessage.ofAnswered, hread, Option.mem_some_iff] at htime
    obtain rfl := htime
    decide
  · obtain rfl := List.mem_singleton.1 hshown
    intro n hn
    obtain rfl : 2500 = n := Json.int.inj hn
    have hstep := Double.halfStep_pos
    rw [Double.limit]
    omega

/-- At the end of the calendar there is no local time east of universal time, and a whole number
that has no double is no duration. -/
theorem ofMessages_fails :
    let clock : LocalClock := ⟨⟨⟨2001, 2, 3⟩, 4, 5, 6, 0, none⟩, 60⟩
    let message (timestamp : String) (metadata : Fields) : DisplayedMessage :=
      .ofAnswered .claude ⟨⟨"a", "c", .assistant, [], timestamp, metadata⟩, []⟩
    ofMessages clock "p" [message "9999-12-31T23:59:59Z" []] = .error .dateOutOfRange ∧
      ofMessages clock "p" [message "" [(turnDurationField, .int Double.limit)]] =
        .error .hugeNumber := by
  intro clock message
  refine ⟨rfl, ?_⟩
  set huge := message "" [(turnDurationField, .int Double.limit)] with hhuge
  have htext : (Milliseconds.whole Double.limit).text = .error .hugeNumber := by
    have hinfinite := (Double.isInfinite_ofInt Double.limit).2 (Nat.le_refl _)
    rw [Milliseconds.text]
    cases hdouble : Double.ofInt Double.limit with
    | infinite negative => rfl
    | _ => simp [hdouble, Double.isInfinite] at hinfinite
  have hduration : durationText huge.metadata = .error .hugeNumber := by
    calc durationText huge.metadata
        = (Milliseconds.whole Double.limit).text.bind _ := rfl
      _ = .error .hugeNumber := by rw [htext]; rfl
  have htime : shortTime clock huge.createdAt = .ok "" := rfl
  simp [ofMessages, periodLines, messagesLines, messageLines, htime, hduration]

end Transcript

end ChatHistory
