import ChatHistory.Proofs.Assoc
import ChatHistory.Proofs.ToolOwners
import Mathlib.Data.List.Induction

/-!
# Traces of tool owners

Tool uses may be assigned and results delivered in any order, identifiers may be repeated, and
several owners may use the same one.  `ToolOwners.run` is what is known after a trace of such
events, and `run_first_owner_last_result` says what this is in terms of the trace alone: a result is
accepted exactly if an earlier event uses its identifier, and an owner has a result for an
identifier exactly if the first event that uses the identifier is an assignment to this owner, and
the result is the last one for it behind that event.

The owner of an identifier is fixed by the first event that assigns it (`owner?_run`), and from then
on the last result counts (`result?_foldl_apply`).  Before that there is no result, because only
identifiers with an owner have any (`owned_run`); for the same reason an event changes what one
owner has at most, the owner of the result that it delivers.
-/

namespace ChatHistory

namespace ToolOwners

variable {κ : Type}

/-- What can happen to tool owners. -/
inductive Event (κ : Type) where
  /-- The tool uses among some blocks are assigned to an owner. -/
  | assigns (owner : κ) (blocks : List Block)
  /-- A result is delivered to the owner of its tool use. -/
  | delivers (result : ToolResult)

namespace Event

/-- The identifiers of the tool uses that an event assigns. -/
def useIds : Event κ → List String
  | .assigns _ blocks => Block.useIds blocks
  | .delivers _ => []

/-- The owner that an event gives to an identifier. -/
def ownerFor? (id : String) : Event κ → Option κ
  | .assigns owner blocks => if id ∈ Block.useIds blocks then some owner else none
  | .delivers _ => none

/-- The result that an event delivers. -/
def result? : Event κ → Option ToolResult
  | .assigns _ _ => none
  | .delivers result => some result

/-- An event gives an owner to the identifiers that it assigns. -/
lemma ownerFor?_eq_none_iff {id : String} {event : Event κ} :
    event.ownerFor? id = none ↔ id ∉ event.useIds := by
  cases event with
  | assigns owner blocks => simp [ownerFor?, useIds]
  | delivers result => simp [ownerFor?, useIds]

/-- Only an assignment gives an owner to an identifier. -/
lemma ownerFor?_eq_some_iff {id : String} {event : Event κ} {owner : κ} :
    event.ownerFor? id = some owner ↔
      ∃ blocks, event = .assigns owner blocks ∧ id ∈ Block.useIds blocks := by
  cases event with
  | assigns given blocks =>
    constructor
    · intro h
      simp only [ownerFor?] at h
      split at h
      · rename_i hid
        obtain rfl := Option.some.inj h
        exact ⟨blocks, rfl, hid⟩
      · cases h
    · rintro ⟨blocks, hevent, hid⟩
      obtain ⟨rfl, rfl⟩ := Event.assigns.inj hevent
      exact if_pos hid
  | delivers result => simp [ownerFor?]

end Event

/-- The owners after one more event. -/
def apply (known : ToolOwners κ) : Event κ → ToolOwners κ
  | .assigns owner blocks => known.assign owner blocks
  | .delivers result => known.deliver result

/-- What is known of owners and results after a trace of events. -/
def run (events : List (Event κ)) : ToolOwners κ :=
  events.foldl apply empty

/-- The results that some events deliver, in order. -/
def delivered (events : List (Event κ)) : List ToolResult :=
  events.filterMap Event.result?

@[simp] lemma delivered_cons_assigns (owner : κ) (blocks : List Block) (events : List (Event κ)) :
    delivered (.assigns owner blocks :: events) = delivered events := rfl

@[simp] lemma delivered_cons_delivers (result : ToolResult) (events : List (Event κ)) :
    delivered (.delivers result :: events) = result :: delivered events := rfl

@[simp] lemma run_nil : run ([] : List (Event κ)) = empty := rfl

@[simp] lemma run_concat (events : List (Event κ)) (event : Event κ) :
    run (events ++ [event]) = (run events).apply event := by
  simp [run]

@[simp] lemma owner?_empty (id : String) : (empty : ToolOwners κ).owner? id = none := rfl

@[simp] lemma result?_empty (id : String) : (empty : ToolOwners κ).result? id = none := rfl

/-! ## The first assignment counts -/

/-- An event gives an owner to identifiers that have none. -/
lemma owner?_apply (known : ToolOwners κ) (event : Event κ) (id : String) :
    (known.apply event).owner? id = (known.owner? id).or (event.ownerFor? id) := by
  cases event with
  | assigns owner blocks => exact owner?_assign known owner blocks id
  | delivers result => simp [apply, Event.ownerFor?]

/-- An identifier has the owner that the first event with it gives. -/
lemma owner?_run (events : List (Event κ)) (id : String) :
    (run events).owner? id = events.findSome? (Event.ownerFor? id) := by
  induction events using List.reverseRecOn with
  | nil => rfl
  | append_singleton events event ih =>
    rw [run_concat, owner?_apply, ih, List.findSome?_append]
    simp

/-- An identifier has an owner if some event assigns it. -/
lemma isSome_owner?_run (events : List (Event κ)) (id : String) :
    ((run events).owner? id).isSome ↔ ∃ event ∈ events, id ∈ event.useIds := by
  rw [owner?_run, List.findSome?_isSome_iff]
  apply exists_congr
  intro event
  rw [← Option.ne_none_iff_isSome, ne_eq, Event.ownerFor?_eq_none_iff, not_not]

/-- An owner got an identifier in the first event with it. -/
lemma owner?_run_eq_some_iff {events : List (Event κ)} {id : String} {owner : κ} :
    (run events).owner? id = some owner ↔
      ∃ before blocks behind, events = before ++ .assigns owner blocks :: behind ∧
        (∀ event ∈ before, id ∉ event.useIds) ∧ id ∈ Block.useIds blocks := by
  rw [owner?_run, List.findSome?_eq_some_iff]
  constructor
  · rintro ⟨before, event, behind, hevents, hevent, hbefore⟩
    obtain ⟨blocks, rfl, hid⟩ := Event.ownerFor?_eq_some_iff.1 hevent
    exact ⟨before, blocks, behind, hevents,
      fun earlier he => Event.ownerFor?_eq_none_iff.1 (hbefore earlier he), hid⟩
  · rintro ⟨before, blocks, behind, hevents, hbefore, hid⟩
    exact ⟨before, .assigns owner blocks, behind, hevents,
      Event.ownerFor?_eq_some_iff.2 ⟨blocks, rfl, hid⟩,
      fun earlier he => Event.ownerFor?_eq_none_iff.2 (hbefore earlier he)⟩

/-! ## The last delivery counts -/

/-- Once an identifier has an owner, the last result delivered for it is remembered. -/
lemma result?_foldl_apply {known : ToolOwners κ} {id : String} (owned : (known.owner? id).isSome)
    (events : List (Event κ)) :
    (events.foldl apply known).result? id =
      (lastFor? (delivered events) id).or (known.result? id) := by
  induction events generalizing known with
  | nil => rfl
  | cons event events ih =>
    have still : ((known.apply event).owner? id).isSome := by
      rw [owner?_apply, Option.isSome_or, owned, Bool.true_or]
    rw [List.foldl_cons, ih still]
    cases event with
    | assigns owner blocks => rw [apply, result?_assign, delivered_cons_assigns]
    | delivers result =>
      rw [apply, result?_deliver, delivered_cons_delivers, lastFor?_cons, Option.or_assoc]
      congr 1
      by_cases hid : result.toolUseId = id
      · simp [hid, owned]
      · simp [hid]

/-- Only identifiers with an owner have a result. -/
def Owned (known : ToolOwners κ) : Prop :=
  ∀ id, (known.result? id).isSome → (known.owner? id).isSome

/-- An event gives a result to no identifier without an owner. -/
lemma Owned.apply {known : ToolOwners κ} (h : Owned known) (event : Event κ) :
    Owned (known.apply event) := by
  intro id hresult
  rw [owner?_apply, Option.isSome_or]
  have before : (known.owner? id).isSome := by
    cases event with
    | assigns owner blocks => exact h id (by simpa [ToolOwners.apply] using hresult)
    | delivers result =>
      rw [ToolOwners.apply, result?_deliver] at hresult
      split at hresult
      · rename_i given
        exact given.1
      · exact h id hresult
  rw [before, Bool.true_or]

/-- After any trace, only identifiers with an owner have a result. -/
lemma owned_run (events : List (Event κ)) : Owned (run events) := by
  induction events using List.reverseRecOn with
  | nil => exact fun id h => h
  | append_singleton events event ih =>
    rw [run_concat]
    exact ih.apply event

/-- Behind the first event that assigns an identifier, the last result for it is remembered. -/
lemma result?_run_of_first {before : List (Event κ)} {owner : κ} {blocks : List Block}
    {id : String} (fresh : ∀ event ∈ before, id ∉ event.useIds) (used : id ∈ Block.useIds blocks)
    (behind : List (Event κ)) :
    (run (before ++ .assigns owner blocks :: behind)).result? id =
      lastFor? (delivered behind) id := by
  have hnone : (run before).result? id = none := by
    rw [← Option.not_isSome_iff_eq_none]
    intro hresult
    obtain ⟨event, hevent, hid⟩ := (isSome_owner?_run before id).1 (owned_run before id hresult)
    exact fresh event hevent hid
  have howned : (((run before).assign owner blocks).owner? id).isSome := by
    simp [owner?_assign, used]
  have hrun : run (before ++ .assigns owner blocks :: behind) =
      behind.foldl apply ((run before).assign owner blocks) := by
    rw [run, List.foldl_append, List.foldl_cons]
    rfl
  rw [hrun, result?_foldl_apply howned, result?_assign, hnone, Option.or_none]

/-! ## The results of the other owners -/

variable [DecidableEq κ]

/-- Assigning tool uses changes what no owner has. -/
lemma resultsOf_assign {known : ToolOwners κ} (owned : Owned known) (given owner : κ)
    (blocks : List Block) :
    (known.assign given blocks).resultsOf owner = known.resultsOf owner := by
  unfold resultsOf
  rw [results_assign]
  apply List.filter_congr
  intro entry hentry
  -- An identifier with a result has an owner already, and keeps it.
  have hresult : (known.result? entry.1).isSome := by
    rw [result?, ← Option.ne_none_iff_isSome, ne_eq, Assoc.get?_eq_none_iff, not_not]
    exact List.mem_map_of_mem hentry
  obtain ⟨current, hcurrent⟩ := Option.isSome_iff_exists.1 (owned entry.1 hresult)
  rw [owner?_assign, hcurrent, Option.some_or]

/-- Delivering a result changes what no owner has but that of the tool use. -/
lemma resultsOf_deliver {known : ToolOwners κ} {result : ToolResult} {owner : κ}
    (other : known.owner? result.toolUseId ≠ some owner) :
    (known.deliver result).resultsOf owner = known.resultsOf owner := by
  unfold resultsOf
  simp only [owner?_deliver]
  unfold deliver
  split
  · exact Assoc.filter_set_of_not (fun value => by simpa using other) known.results result
  · rfl

/-- What a trace of assignments and deliveries leads to.  A result is accepted exactly if an event
of the trace uses its identifier.  An owner has a result for an identifier exactly if it owns the
first event with the identifier and the result is the last one for it behind that event.  A further
assignment changes the results of no owner, and a further delivery those of no other owner. -/
theorem run_first_owner_last_result (events : List (Event κ)) :
    (∀ result, (run events).accepts result ↔
      ∃ event ∈ events, result.toolUseId ∈ event.useIds) ∧
    (∀ owner id result, ((run events).resultsOf owner).get? id = some result ↔
      ∃ before blocks behind, events = before ++ .assigns owner blocks :: behind ∧
        (∀ event ∈ before, id ∉ event.useIds) ∧ id ∈ Block.useIds blocks ∧
        lastFor? (delivered behind) id = some result) ∧
    (∀ given blocks owner,
      (run (events ++ [.assigns given blocks])).resultsOf owner = (run events).resultsOf owner) ∧
    ∀ result owner, (run events).owner? result.toolUseId ≠ some owner →
      (run (events ++ [.delivers result])).resultsOf owner = (run events).resultsOf owner := by
  refine ⟨fun result => isSome_owner?_run events result.toolUseId, ?_, ?_, ?_⟩
  · intro owner id result
    rw [get?_resultsOf]
    constructor
    · intro h
      split at h
      · rename_i howner
        obtain ⟨before, blocks, behind, rfl, fresh, used⟩ := owner?_run_eq_some_iff.1 howner
        rw [result?_run_of_first fresh used] at h
        exact ⟨before, blocks, behind, rfl, fresh, used, h⟩
      · cases h
    · rintro ⟨before, blocks, behind, rfl, fresh, used, hlast⟩
      rw [if_pos (owner?_run_eq_some_iff.2 ⟨before, blocks, behind, rfl, fresh, used⟩),
        result?_run_of_first fresh used, hlast]
  · intro given blocks owner
    rw [run_concat]
    exact resultsOf_assign (owned_run events) given owner blocks
  · intro result owner other
    rw [run_concat]
    exact resultsOf_deliver other

/-- Two owners compete for one identifier, whose results come before the first assignment, between
the two, and twice behind them: the first owner has the last one, and the other has none. -/
theorem run_first_owner_last_result_competing :
    let result (content : String) : ToolResult := ⟨"t", content, false, [], none, none⟩
    let use : Block := .toolUse ⟨"t", "Read", []⟩
    let events : List (Event String) := [.delivers (result "early"), .assigns "first" [use],
      .delivers (result "between"), .assigns "second" [.text "", use], .delivers (result "late")]
    let last := result "last"
    (run events).owner? last.toolUseId ≠ some "second" ∧
      ((run events).resultsOf "first").get? "t" = some (result "late") ∧
      ((run (events ++ [.delivers last])).resultsOf "first").get? "t" = some last ∧
      (run (events ++ [.delivers last])).resultsOf "second" = (run events).resultsOf "second" := by
  intro result use events last
  have other : (run events).owner? last.toolUseId ≠ some "second" := by decide
  have fresh : ∀ event ∈ [Event.delivers (κ := String) (result "early")], "t" ∉ event.useIds := by
    simp [Event.useIds]
  have used : "t" ∈ Block.useIds [use] := List.mem_singleton_self "t"
  obtain ⟨-, hresults, -, hothers⟩ := run_first_owner_last_result events
  obtain ⟨-, hlast, -⟩ := run_first_owner_last_result (events ++ [.delivers last])
  refine ⟨other, ?_, ?_, hothers last "second" other⟩
  · rw [hresults]
    exact ⟨[.delivers (result "early")], [use], [.delivers (result "between"),
      .assigns "second" [.text "", use], .delivers (result "late")], rfl, fresh, used, rfl⟩
  · rw [hlast]
    exact ⟨[.delivers (result "early")], [use], [.delivers (result "between"),
      .assigns "second" [.text "", use], .delivers (result "late"), .delivers last], rfl, fresh,
      used, rfl⟩

end ToolOwners

end ChatHistory
