import ChatHistory.Session.Chain
import ChatHistory.Proofs.Fault
import Mathlib.Data.List.Perm.Subperm
import Mathlib.Order.Nat

/-!
# What a chain finds

`Chain.continuations` finds the first candidates that continue a session, in their order, as many
as there is room for (`continuations_eq`), provided that no candidate begins with a number that has
too many digits.  `Reaches` says what `Chain.followFrom` makes of this: no candidate is found twice,
every one found continues a pending session or one found before it, and if there is room left,
all candidates that do so have been found (`followFrom_reaches`).  The bound on the sessions looked
at is never met, because each candidate found leaves the list.

If the candidates are a single line in which each continues the one before it, they are found in
this order, whatever the order in which they are tried (`followFrom_line`).
-/

namespace ChatHistory

namespace Candidate

/-- A file that may be read. -/
def isReadable (candidate : Candidate) : Bool :=
  match candidate.head with
  | .unreadable => false
  | _ => true

lemma continues_iff {candidate : Candidate} {id : String} :
    candidate.continues id ↔
      ∃ fields, candidate.head = .entry fields ∧ Json.field fields "sessionId" = .string id := by
  unfold continues
  cases candidate.head <;> simp [Json.isString_iff]

/-- A file continues one session at most. -/
lemma eq_of_continues {candidate : Candidate} {id other : String} (h : candidate.continues id)
    (h' : candidate.continues other) : id = other := by
  obtain ⟨fields, hhead, hid⟩ := continues_iff.1 h
  obtain ⟨fields', hhead', hother⟩ := continues_iff.1 h'
  rw [hhead, Head.entry.injEq] at hhead'
  subst hhead'
  rw [hid, Json.string.injEq] at hother
  exact hother

/-- A file that continues a session may be read. -/
lemma isReadable_of_continues {candidate : Candidate} {id : String} (h : candidate.continues id) :
    candidate.isReadable := by
  obtain ⟨fields, hhead, -⟩ := continues_iff.1 h
  simp [isReadable, hhead]

end Candidate

namespace Chain

/-- No candidate begins with a number that has too many digits. -/
def Sized (candidates : List Candidate) : Prop :=
  ∀ candidate ∈ candidates, candidate.head ≠ .oversized

/-- The candidates that stay when those which continue a session have been found. -/
def others (id : String) (candidates : List Candidate) : List Candidate :=
  candidates.filter fun candidate => !candidate.continues id && candidate.isReadable

lemma Sized.others {candidates : List Candidate} (h : Sized candidates) (id : String) :
    Sized (others id candidates) :=
  fun candidate hc => h candidate (List.mem_of_mem_filter hc)

/-! ## One session -/

/-- The continuations of a session are the first candidates that continue it.  If there is room for
all of them, the others stay, but for those that may not be read. -/
lemma continuations_eq (id : String) {candidates : List Candidate} (sized : Sized candidates)
    (room : ℕ) :
    ∃ remaining, continuations id room candidates =
        .ok ((candidates.filter (·.continues id)).take room, remaining) ∧
      ((candidates.filter (·.continues id)).length < room → remaining = others id candidates) := by
  induction candidates generalizing room with
  | nil =>
    refine ⟨[], ?_, fun _ => rfl⟩
    cases room <;> rfl
  | cons candidate rest ih =>
    cases room with
    | zero => exact ⟨candidate :: rest, rfl, fun h => absurd h (Nat.not_lt_zero _)⟩
    | succ room =>
      have hrest : Sized rest := fun c hc => sized c (List.mem_cons_of_mem _ hc)
      have hsized := sized candidate List.mem_cons_self
      by_cases hcontinues : candidate.continues id
      · obtain ⟨fields, hhead, -⟩ := Candidate.continues_iff.1 hcontinues
        obtain ⟨remaining, hfound, hall⟩ := ih hrest room
        refine ⟨remaining, ?_, fun h => ?_⟩
        · simp [continuations, hhead, hcontinues, hfound]
        · have hlength : (rest.filter (·.continues id)).length < room := by
            simpa [hcontinues] using h
          rw [hall hlength]
          simp [others, hcontinues]
      · obtain ⟨remaining, hfound, hall⟩ := ih hrest (room + 1)
        have hfilter : (candidate :: rest).filter (·.continues id) =
            rest.filter (·.continues id) := by
          simp [hcontinues]
        rw [hfilter]
        cases hhead : candidate.head with
        | oversized => exact absurd hhead hsized
        | unreadable =>
          refine ⟨remaining, ?_, fun h => ?_⟩
          · simp [continuations, hhead, hfound]
          · rw [hall h]
            simp [others, Candidate.isReadable, hhead]
        | _ =>
          refine ⟨candidate :: remaining, ?_, fun h => ?_⟩
          · simp [continuations, hhead, hcontinues, hfound]
          · rw [hall h]
            simp [others, Candidate.isReadable, hcontinues, hhead]

/-- The candidates that continue a session and those that stay are different ones. -/
lemma subperm_filter_append_others (id : String) (candidates : List Candidate) :
    (candidates.filter (·.continues id) ++ others id candidates).Subperm candidates := by
  have hothers : (others id candidates).Sublist
      (candidates.filter fun candidate => !candidate.continues id) := by
    have hsplit : others id candidates =
        (candidates.filter fun candidate => !candidate.continues id).filter
          Candidate.isReadable := by
      rw [List.filter_filter, others]
      exact List.filter_congr fun candidate _ => Bool.and_comm _ _
    rw [hsplit]
    exact List.filter_sublist
  refine ((List.Sublist.refl _).append hothers).subperm.trans ?_
  exact (List.filter_append_perm _ candidates).subperm

/-! ## All sessions -/

/-- Some of the candidates are those that continue the pending sessions, directly or through others,
as far as there is room for them. -/
structure Reaches (room : ℕ) (pending : List String) (candidates found : List Candidate) :
    Prop where
  subperm : found.Subperm candidates
  fits : found.length ≤ room
  linked : ∀ before candidate after, found = before ++ candidate :: after →
    ∃ id ∈ pending ++ before.map Candidate.sessionId, candidate.continues id
  complete : found.length < room → ∀ candidate ∈ candidates,
    ∀ id ∈ pending ++ found.map Candidate.sessionId, candidate.continues id → candidate ∈ found

/-- Without room nothing is found. -/
lemma followFrom_no_room (bound : ℕ) (pending : List String) (candidates : List Candidate) :
    followFrom bound 0 pending candidates = .ok [] := by
  cases bound with
  | zero => rfl
  | succ bound => cases pending <;> rfl

/-- The next session is looked at. -/
lemma followFrom_cons {bound room : ℕ} (id : String) (pending : List String)
    {candidates found remaining more : List Candidate} (hroom : room ≠ 0)
    (hfound : continuations id room candidates = .ok (found, remaining))
    (hmore : followFrom bound (room - found.length)
      (pending ++ found.map Candidate.sessionId) remaining = .ok more) :
    followFrom (bound + 1) room (id :: pending) candidates = .ok (found ++ more) := by
  simp [followFrom, hroom, hfound, hmore]

/-- If there is no room for more than the first session has, only its continuations are found. -/
lemma Reaches.of_full {room : ℕ} {id : String} {pending : List String}
    {candidates : List Candidate} (full : room ≤ (candidates.filter (·.continues id)).length) :
    Reaches room (id :: pending) candidates
      ((candidates.filter (·.continues id)).take room) := by
  have hsublist : ((candidates.filter (·.continues id)).take room).Sublist candidates :=
    (List.take_sublist room _).trans List.filter_sublist
  have hlength : ((candidates.filter (·.continues id)).take room).length = room := by
    rw [List.length_take]
    omega
  refine ⟨hsublist.subperm, hlength.le, ?_, fun h => absurd hlength h.ne⟩
  intro before candidate after hfound
  have hmem : candidate ∈ (candidates.filter (·.continues id)).take room := by
    rw [hfound]
    exact List.mem_append_right _ List.mem_cons_self
  have hcontinues := List.of_mem_filter (List.mem_of_mem_take hmem)
  exact ⟨id, List.mem_append_left _ List.mem_cons_self, hcontinues⟩

/-- What is found, but not among the first, stands behind them. -/
lemma exists_behind {first more before after : List Candidate} {candidate : Candidate}
    (h : first ++ more = before ++ candidate :: after) (other : candidate ∉ first) :
    ∃ between, before = first ++ between ∧ more = between ++ candidate :: after := by
  rcases List.append_eq_append_iff.1 h with hbehind | ⟨between, hsplit, hcons⟩
  · exact hbehind
  rcases List.cons_eq_append_iff.1 hcons with ⟨rfl, hmore⟩ | ⟨tail, rfl, -⟩
  · exact ⟨[], by simpa using hsplit.symm, hmore⟩
  · have hmem : candidate ∈ first := by
      rw [hsplit]
      exact List.mem_append_right _ List.mem_cons_self
    exact absurd hmem other

/-- The continuations of the first session, and what they and the others lead to. -/
lemma Reaches.append {room : ℕ} {id : String} {pending : List String}
    {candidates more : List Candidate}
    (roomy : (candidates.filter (·.continues id)).length < room)
    (rest : Reaches (room - (candidates.filter (·.continues id)).length)
      (pending ++ (candidates.filter (·.continues id)).map Candidate.sessionId)
      (others id candidates) more) :
    Reaches room (id :: pending) candidates (candidates.filter (·.continues id) ++ more) := by
  have hsubperm := subperm_filter_append_others id candidates
  have hfits := rest.fits
  refine ⟨?_, ?_, ?_, ?_⟩
  · exact ((List.subperm_append_left _).2 rest.subperm).trans hsubperm
  · rw [List.length_append]
    omega
  · intro before candidate after hfound
    by_cases hfirst : candidate.continues id
    · exact ⟨id, List.mem_append_left _ List.mem_cons_self, hfirst⟩
    -- A candidate that continues another session is none of the first.
    obtain ⟨between, rfl, hmore⟩ := exists_behind hfound fun hmem =>
      hfirst (List.mem_filter.1 hmem).2
    obtain ⟨origin, horigin, hcontinues⟩ := rest.linked between candidate after hmore
    refine ⟨origin, ?_, hcontinues⟩
    rw [List.map_append, List.cons_append, ← List.append_assoc]
    exact List.mem_cons_of_mem _ horigin
  · intro hroom candidate hcandidate origin horigin hcontinues
    by_cases hfirst : candidate.continues id
    · exact List.mem_append_left _ (List.mem_filter.2 ⟨hcandidate, hfirst⟩)
    · have hother : candidate ∈ others id candidates := by
        have hreadable := Candidate.isReadable_of_continues hcontinues
        exact List.mem_filter.2 ⟨hcandidate, by simp [hfirst, hreadable]⟩
      refine List.mem_append_right _ (rest.complete ?_ candidate hother origin ?_ hcontinues)
      · rw [List.length_append] at hroom
        omega
      · rw [List.map_append, List.cons_append, ← List.append_assoc] at horigin
        rcases List.mem_cons.1 horigin with rfl | horigin
        · exact absurd hcontinues hfirst
        · exact horigin

/-- Following the pending sessions finds what they lead to. -/
theorem followFrom_reaches {bound room : ℕ} {pending : List String} {candidates : List Candidate}
    (sized : Sized candidates) (enough : pending.length + candidates.length ≤ bound) :
    ∃ found, followFrom bound room pending candidates = .ok found ∧
      Reaches room pending candidates found := by
  -- Each step takes one session away and adds one for each candidate that it takes away.
  induction bound generalizing room pending candidates with
  | zero =>
    have hpending : pending = [] := List.length_eq_zero_iff.1 (by omega)
    have hcandidates : candidates = [] := List.length_eq_zero_iff.1 (by omega)
    subst hpending hcandidates
    exact ⟨[], rfl, List.Subperm.refl _, Nat.zero_le _, by simp, by simp⟩
  | succ bound ih =>
    cases pending with
    | nil => exact ⟨[], rfl, List.nil_subperm, Nat.zero_le _, by simp, by simp⟩
    | cons id pending =>
      by_cases hroom : room = 0
      · subst hroom
        refine ⟨[], followFrom_no_room _ _ _, List.nil_subperm, le_rfl, by simp, by simp⟩
      obtain ⟨remaining, hfound, hall⟩ := continuations_eq id sized room
      by_cases roomy : (candidates.filter (·.continues id)).length < room
      · rw [hall roomy, List.take_of_length_le roomy.le] at hfound
        have hlength := (subperm_filter_append_others id candidates).length_le
        rw [List.length_append] at hlength
        have hbound : (pending ++
            (candidates.filter (·.continues id)).map Candidate.sessionId).length +
              (others id candidates).length ≤ bound := by
          rw [List.length_append, List.length_map]
          rw [List.length_cons] at enough
          omega
        obtain ⟨more, hmore, hreaches⟩ := ih (sized.others id) hbound
        exact ⟨_, followFrom_cons id pending hroom hfound hmore, .append roomy hreaches⟩
      · have hfull : room - ((candidates.filter (·.continues id)).take room).length = 0 := by
          rw [List.length_take]
          omega
        have hmore := followFrom_no_room bound (pending ++
          ((candidates.filter (·.continues id)).take room).map Candidate.sessionId) remaining
        rw [← hfull] at hmore
        have hfollow := followFrom_cons id pending hroom hfound hmore
        rw [List.append_nil] at hfollow
        exact ⟨_, hfollow, .of_full (not_lt.1 roomy)⟩

/-- Following one session finds what it leads to. -/
theorem follow_reaches (id : String) (room : ℕ) {candidates : List Candidate}
    (sized : Sized candidates) :
    ∃ found, follow id room candidates = .ok found ∧ Reaches room [id] candidates found := by
  refine followFrom_reaches sized ?_
  rw [List.length_singleton]
  omega

/-! ## A single line -/

/-- The first candidate continues a given session, and each other one that of the candidate before
it. -/
def InLine : String → List Candidate → Prop
  | _, [] => True
  | id, candidate :: rest => candidate.continues id ∧ InLine candidate.sessionId rest

/-- Every candidate in line continues some session of the line. -/
lemma InLine.exists_continues {id : String} {line : List Candidate} (h : InLine id line) :
    ∀ candidate ∈ line, ∃ origin ∈ id :: line.map Candidate.sessionId,
      candidate.continues origin := by
  induction line generalizing id with
  | nil => simp
  | cons first rest ih =>
    intro candidate hcandidate
    rcases List.mem_cons.1 hcandidate with rfl | hrest
    · exact ⟨id, List.mem_cons_self, h.1⟩
    · obtain ⟨origin, horigin, hcontinues⟩ := ih h.2 candidate hrest
      exact ⟨origin, List.mem_cons_of_mem _ horigin, hcontinues⟩

/-- If the sessions of a line differ, only its first candidate continues the given one, and the
others stay. -/
lemma InLine.first {id : String} {candidate : Candidate} {rest : List Candidate}
    (h : InLine id (candidate :: rest))
    (distinct : (id :: (candidate :: rest).map Candidate.sessionId).Nodup) :
    (candidate :: rest).filter (·.continues id) = [candidate] ∧
      others id (candidate :: rest) = rest := by
  have hrest : ∀ other ∈ rest, ¬other.continues id ∧ other.isReadable := by
    intro other hother
    obtain ⟨origin, horigin, hcontinues⟩ := h.2.exists_continues other hother
    refine ⟨fun hid => ?_, Candidate.isReadable_of_continues hcontinues⟩
    obtain rfl := Candidate.eq_of_continues hid hcontinues
    exact (List.nodup_cons.1 distinct).1 horigin
  constructor
  · have hnone : rest.filter (·.continues id) = [] :=
      List.filter_eq_nil_iff.2 fun other ho => (hrest other ho).1
    simp [h.1, hnone]
  · rw [others, List.filter_cons_of_neg (by simp [h.1])]
    refine List.filter_eq_self.2 fun other ho => ?_
    simp [(hrest other ho).1, (hrest other ho).2]

/-- Candidates in line are found in this order, in whatever order they are tried. -/
theorem followFrom_line {bound room : ℕ} {id : String} {candidates line : List Candidate}
    (sized : Sized candidates) (perm : candidates.Perm line) (inLine : InLine id line)
    (distinct : (id :: line.map Candidate.sessionId).Nodup) (fits : line.length ≤ room)
    (enough : line.length < bound) :
    followFrom bound room [id] candidates = .ok line := by
  induction line generalizing bound room id candidates with
  | nil =>
    obtain rfl := List.perm_nil.1 perm
    obtain ⟨found, hfollow, hreaches⟩ : ∃ found, followFrom bound room [id] [] = .ok found ∧
        Reaches room [id] [] found := followFrom_reaches sized enough
    rw [hfollow, List.subperm_nil.1 hreaches.subperm]
  | cons candidate rest ih =>
    obtain ⟨bound, rfl⟩ := Nat.exists_eq_succ_of_ne_zero (Nat.ne_zero_of_lt enough)
    rw [List.length_cons] at fits enough
    obtain ⟨hline, hothers⟩ := inLine.first distinct
    have hfirst : candidates.filter (·.continues id) = [candidate] := by
      have hperm := perm.filter (·.continues id)
      rwa [hline, List.perm_singleton] at hperm
    have hrest : (others id candidates).Perm rest := by
      have hperm := perm.filter fun c => !c.continues id && c.isReadable
      rwa [← others, ← others, hothers] at hperm
    obtain ⟨remaining, hfound, hall⟩ := continuations_eq id sized room
    rw [hfirst, List.take_of_length_le (by rw [List.length_singleton]; omega)] at hfound
    have hmore : followFrom bound (room - 1) [candidate.sessionId] remaining = .ok rest := by
      by_cases hroom : room = 1
      · obtain rfl : rest = [] := List.length_eq_zero_iff.1 (by omega)
        subst hroom
        exact followFrom_no_room bound _ remaining
      · have hremaining : remaining = others id candidates := hall (by
          rw [hfirst, List.length_singleton]
          omega)
        rw [hremaining]
        exact ih (sized.others id) hrest inLine.2 (List.nodup_cons.1 distinct).2 (by omega)
          (by omega)
    exact followFrom_cons id [] (by omega) hfound hmore

/-- A single line of candidates is followed to its end. -/
theorem follow_line {room : ℕ} {id : String} {candidates line : List Candidate}
    (sized : Sized candidates) (perm : candidates.Perm line) (inLine : InLine id line)
    (distinct : (id :: line.map Candidate.sessionId).Nodup) (fits : line.length ≤ room) :
    follow id room candidates = .ok line := by
  refine followFrom_line sized perm inLine distinct fits ?_
  rw [perm.length_eq]
  omega

end Chain

end ChatHistory
