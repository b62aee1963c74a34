import ChatHistory.Proofs.Session.Chain

/-!
# Searches with one more candidate

A search that succeeds can be taken apart without any condition on the candidates
(`continuations_cons_iff`, `followFrom_cons_iff`): what it finds are candidates, and a larger bound
changes nothing.

`Extended` relates the candidates of a search to those with one more, through the whole search.  If
the additional one continues none of the sessions that are looked at, it only ever remains or is
dropped, and the same is found (`follow_extended`).
-/

namespace ChatHistory

namespace Chain

variable {id : String} {room bound : ℕ} {pending : List String}
  {candidates larger found remaining all : List Candidate} {candidate extra : Candidate}

/-! ## What a search returns -/

/-- The first candidate is dropped, or found, or it remains. -/
lemma continuations_cons_iff {rest : List Candidate} :
    continuations id (room + 1) (candidate :: rest) = .ok (found, remaining) ↔
      candidate.head = .unreadable ∧ continuations id (room + 1) rest = .ok (found, remaining) ∨
      candidate.continues id ∧ (∃ others,
        continuations id room rest = .ok (others, remaining) ∧ candidate :: others = found) ∨
      (candidate.head ≠ .oversized ∧ candidate.isReadable ∧ ¬candidate.continues id) ∧
        ∃ others, continuations id (room + 1) rest = .ok (found, others) ∧
          candidate :: others = remaining := by
  rw [continuations]
  cases hhead : candidate.head with
  | oversized => simp [Candidate.continues, hhead]
  | unreadable => simp [Candidate.continues, Candidate.isReadable, hhead]
  | nothing => simp [Candidate.continues, Candidate.isReadable, hhead, bind_eq_ok_iff]
  | entry fields =>
    by_cases h : candidate.continues id <;>
      simp [Candidate.isReadable, hhead, h, bind_eq_ok_iff]

/-- The candidates found and those that remain are different ones. -/
lemma subperm_of_continuations (h : continuations id room candidates = .ok (found, remaining)) :
    (found ++ remaining).Subperm candidates := by
  induction candidates generalizing room found remaining with
  | nil => cases room <;> cases h <;> exact List.Subperm.refl _
  | cons candidate rest ih =>
    cases room with
    | zero =>
      cases h
      exact List.Subperm.refl _
    | succ room =>
      rcases continuations_cons_iff.1 h with
        ⟨-, hrest⟩ | ⟨-, others, hrest, rfl⟩ | ⟨-, others, hrest, rfl⟩
      · exact (ih hrest).trans (List.sublist_cons_self candidate rest).subperm
      · exact (List.subperm_cons candidate).2 (ih hrest)
      · exact List.perm_middle.subperm.trans ((List.subperm_cons candidate).2 (ih hrest))

/-- A search looks at the first session, then at the others and at those found. -/
lemma followFrom_cons_iff :
    followFrom (bound + 1) room (id :: pending) candidates = .ok all ↔
      room = 0 ∧ all = [] ∨ room ≠ 0 ∧ ∃ found remaining more,
        continuations id room candidates = .ok (found, remaining) ∧
          followFrom bound (room - found.length) (pending ++ found.map Candidate.sessionId)
            remaining = .ok more ∧ found ++ more = all := by
  rw [followFrom]
  by_cases hroom : room = 0
  · simp [hroom, eq_comm]
  · simp [hroom, bind_eq_ok_iff]

/-- What a search finds are candidates. -/
lemma subperm_of_followFrom (h : followFrom bound room pending candidates = .ok all) :
    all.Subperm candidates := by
  induction bound generalizing room pending candidates all with
  | zero =>
    cases h
    exact List.nil_subperm
  | succ bound ih =>
    cases pending with
    | nil =>
      cases h
      exact List.nil_subperm
    | cons id pending =>
      rcases followFrom_cons_iff.1 h with ⟨-, rfl⟩ | ⟨-, found, remaining, more, hfound, hmore, rfl⟩
      · exact List.nil_subperm
      · have hremaining := (List.subperm_append_left found).2 (ih hmore)
        exact hremaining.trans (subperm_of_continuations hfound)

/-- A larger bound changes nothing, since every session that is looked at is pending or that of a
candidate. -/
lemma followFrom_succ (enough : pending.length + candidates.length ≤ bound)
    (h : followFrom bound room pending candidates = .ok all) :
    followFrom (bound + 1) room pending candidates = .ok all := by
  induction bound generalizing room pending candidates all with
  | zero =>
    obtain rfl : pending = [] := List.length_eq_zero_iff.1 (by omega)
    exact h
  | succ bound ih =>
    cases pending with
    | nil => exact h
    | cons id pending =>
      rcases followFrom_cons_iff.1 h with
        hfull | ⟨hroom, found, remaining, more, hfound, hmore, hall⟩
      · exact followFrom_cons_iff.2 (.inl hfull)
      · have hlength := (subperm_of_continuations hfound).length_le
        refine followFrom_cons_iff.2
          (.inr ⟨hroom, found, remaining, more, hfound, ih ?_ hmore, hall⟩)
        rw [List.length_append] at hlength
        rw [List.length_append, List.length_map]
        rw [List.length_cons] at enough
        omega

/-! ## One more candidate -/

/-- The second list has one more candidate than the first, or the same. -/
inductive Extended (extra : Candidate) : List Candidate → List Candidate → Prop
  | same (candidates : List Candidate) : Extended extra candidates candidates
  | here (candidates : List Candidate) : Extended extra candidates (extra :: candidates)
  | cons (candidate : Candidate) {candidates larger : List Candidate}
      (rest : Extended extra candidates larger) :
      Extended extra (candidate :: candidates) (candidate :: larger)

lemma Extended.append (extra : Candidate) (before after : List Candidate) :
    Extended extra (before ++ after) (before ++ extra :: after) := by
  induction before with
  | nil => exact .here after
  | cons candidate before ih => exact .cons candidate ih

/-- A candidate that does not continue the session is not found, and it hides no other one. -/
lemma continuations_extended (extended : Extended extra candidates larger)
    (sized : extra.head ≠ .oversized) (unrelated : ¬extra.continues id)
    (h : continuations id room candidates = .ok (found, remaining)) :
    ∃ others, continuations id room larger = .ok (found, others) ∧
      Extended extra remaining others := by
  induction extended generalizing room found remaining with
  | same candidates => exact ⟨remaining, h, .same remaining⟩
  | here candidates =>
    cases room with
    | zero =>
      rw [continuations] at h
      cases h
      exact ⟨_, rfl, .here candidates⟩
    | succ room =>
      cases hreadable : extra.isReadable with
      | false =>
        have hhead : extra.head = .unreadable := by
          unfold Candidate.isReadable at hreadable
          split at hreadable
          · assumption
          · contradiction
        exact ⟨remaining, continuations_cons_iff.2 (.inl ⟨hhead, h⟩), .same remaining⟩
      | true =>
        exact ⟨extra :: remaining, continuations_cons_iff.2
          (.inr (.inr ⟨⟨sized, hreadable, unrelated⟩, remaining, h, rfl⟩)), .here remaining⟩
  | cons candidate rest ih =>
    cases room with
    | zero =>
      cases h
      exact ⟨_, rfl, .cons candidate rest⟩
    | succ room =>
      rcases continuations_cons_iff.1 h with
        ⟨hhead, hrest⟩ | ⟨hcontinues, others, hrest, rfl⟩ | ⟨hremains, others, hrest, rfl⟩
      · obtain ⟨more, hmore, hextended⟩ := ih hrest
        exact ⟨more, continuations_cons_iff.2 (.inl ⟨hhead, hmore⟩), hextended⟩
      · obtain ⟨more, hmore, hextended⟩ := ih hrest
        exact ⟨more, continuations_cons_iff.2 (.inr (.inl ⟨hcontinues, others, hmore, rfl⟩)),
          hextended⟩
      · obtain ⟨more, hmore, hextended⟩ := ih hrest
        exact ⟨candidate :: more, continuations_cons_iff.2
          (.inr (.inr ⟨hremains, more, hmore, rfl⟩)), .cons candidate hextended⟩

/-- A candidate that continues none of the sessions that are looked at changes nothing. -/
lemma followFrom_extended (extended : Extended extra candidates larger)
    (sized : extra.head ≠ .oversized)
    (unrelated : ∀ id ∈ pending ++ all.map Candidate.sessionId, ¬extra.continues id)
    (h : followFrom bound room pending candidates = .ok all) :
    followFrom bound room pending larger = .ok all := by
  induction bound generalizing room pending candidates larger all with
  | zero => exact h
  | succ bound ih =>
    cases pending with
    | nil => exact h
    | cons id pending =>
      rcases followFrom_cons_iff.1 h with
        hfull | ⟨hroom, found, remaining, more, hfound, hmore, rfl⟩
      · exact followFrom_cons_iff.2 (.inl hfull)
      · have hid := unrelated id (List.mem_append_left _ List.mem_cons_self)
        obtain ⟨others, hothers, hextended⟩ := continuations_extended extended sized hid hfound
        refine followFrom_cons_iff.2 (.inr ⟨hroom, found, others, more, hothers, ?_, rfl⟩)
        refine ih hextended (fun other hother => unrelated other ?_) hmore
        rw [List.map_append, List.cons_append, ← List.append_assoc]
        exact List.mem_cons_of_mem _ hother

/-- A candidate that continues neither the session nor a file found changes nothing. -/
theorem follow_extended (before after : List Candidate) (sized : extra.head ≠ .oversized)
    (unrelated : ∀ other ∈ id :: all.map Candidate.sessionId, ¬extra.continues other)
    (h : follow id room (before ++ after) = .ok all) :
    follow id room (before ++ extra :: after) = .ok all := by
  have hlength : (before ++ extra :: after).length = (before ++ after).length + 1 := by
    simp [Nat.add_assoc]
  rw [follow, hlength]
  refine followFrom_extended (.append extra before after) sized unrelated (followFrom_succ ?_ h)
  rw [List.length_singleton, Nat.add_comm]

end Chain

end ChatHistory
