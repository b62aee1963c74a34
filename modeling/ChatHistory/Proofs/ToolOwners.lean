import ChatHistory.ToolOwners
import Mathlib.Tactic.Lemma

/-!
# Laws of tool owners

What assigning tool uses and delivering results does to the two look-ups of `ToolOwners`: the owner
of an identifier (`owner?`), and the result that is remembered for it.  Assigning keeps earlier
owners and touches no result (`owner?_assign`, `results_assign`); delivering keeps all owners and
overwrites the result of an identifier that has an owner (`owner?_deliverAll`,
`result?_deliverAll`).

`ToolOwners.Agree` is equality of the two look-ups.  Both operations respect it, and delivering
results ahead of time makes no difference to it (`Agree.deliverAll_assign`,
`Agree.deliverAll_swap`).
-/

namespace ChatHistory

namespace Block

/-- The tool uses among some blocks. -/
def uses (blocks : List Block) : List ToolUse :=
  blocks.filterMap toolUse?

/-- The identifiers of the tool uses among some blocks. -/
def useIds (blocks : List Block) : List String :=
  (uses blocks).map ToolUse.id

/-- The tool results among some blocks. -/
def results (blocks : List Block) : List ToolResult :=
  blocks.filterMap toolResult?

@[simp] lemma uses_nil : uses [] = [] := rfl

@[simp] lemma uses_cons (block : Block) (blocks : List Block) :
    uses (block :: blocks) = block.toolUse?.toList ++ uses blocks := by
  cases h : block.toolUse? <;> simp [uses, h]

@[simp] lemma uses_append (blocks more : List Block) :
    uses (blocks ++ more) = uses blocks ++ uses more :=
  List.filterMap_append

/-- Some of several blocks without tool uses have no tool uses either. -/
lemma uses_eq_nil_of_sublist {blocks more : List Block} (h : blocks.Sublist more)
    (unused : uses more = []) : uses blocks = [] := by
  have huses : (uses blocks).Sublist (uses more) := h.filterMap toolUse?
  rw [unused] at huses
  exact List.sublist_nil.1 huses

@[simp] lemma useIds_nil : useIds [] = [] := rfl

@[simp] lemma useIds_cons (block : Block) (blocks : List Block) :
    useIds (block :: blocks) = block.toolUse?.toList.map ToolUse.id ++ useIds blocks := by
  simp [useIds]

@[simp] lemma useIds_append (blocks more : List Block) :
    useIds (blocks ++ more) = useIds blocks ++ useIds more := by
  simp [useIds]

end Block

/-- The last of some results for the given identifier. -/
def lastFor? (results : List ToolResult) (id : String) : Option ToolResult :=
  (results.filter fun result => result.toolUseId = id).getLast?

lemma lastFor?_nil (id : String) : lastFor? [] id = none := rfl

/-- The last result of a longer list is the last one behind its head, if there is one. -/
lemma lastFor?_cons (result : ToolResult) (results : List ToolResult) (id : String) :
    lastFor? (result :: results) id =
      (lastFor? results id).or (if result.toolUseId = id then some result else none) := by
  unfold lastFor?
  by_cases h : result.toolUseId = id
  · rw [List.filter_cons_of_pos (by simpa using h), List.getLast?_cons, if_pos h]
    cases (results.filter fun r => r.toolUseId = id).getLast? <;> rfl
  · rw [List.filter_cons_of_neg (by simpa using h), if_neg h, Option.or_none]

/-- The last result of two lists stands in the second one, if it has any. -/
lemma lastFor?_append (results more : List ToolResult) (id : String) :
    lastFor? (results ++ more) id = (lastFor? more id).or (lastFor? results id) := by
  simp [lastFor?, List.getLast?_append]

/-- There is a last result exactly if there is a result. -/
lemma lastFor?_eq_none_iff {results : List ToolResult} {id : String} :
    lastFor? results id = none ↔ ∀ result ∈ results, result.toolUseId ≠ id := by
  simp [lastFor?]

/-- The last result for an identifier is one of the results, and for this identifier. -/
lemma mem_of_lastFor?_eq_some {results : List ToolResult} {id : String} {result : ToolResult}
    (h : lastFor? results id = some result) : result ∈ results ∧ result.toolUseId = id := by
  have hmem : result ∈ results.filter fun r => r.toolUseId = id := List.mem_of_getLast? h
  simpa using hmem

namespace ToolOwners

variable {κ : Type}

/-- The owners with some results delivered in order. -/
def deliverAll (known : ToolOwners κ) (results : List ToolResult) : ToolOwners κ :=
  results.foldl deliver known

/-- The result remembered for an identifier. -/
def result? (known : ToolOwners κ) (id : String) : Option ToolResult :=
  known.results.get? id

/-! ## Assigning tool uses -/

/-- Assigning one identifier gives it an owner unless it has one. -/
lemma owner?_assignId (known : ToolOwners κ) (owner : κ) (given id : String) :
    (known.assignId owner given).owner? id =
      (known.owner? id).or (if given = id then some owner else none) := by
  unfold assignId
  by_cases h : given = id
  · subst h
    cases hg : known.owner? given with
    | some current => simp [hg]
    | none => simp [owner?, Assoc.get?_set]
  · rw [if_neg h, Option.or_none]
    split
    · rfl
    · simp [owner?, Assoc.get?_set, h]

lemma results_assignId (known : ToolOwners κ) (owner : κ) (given : String) :
    (known.assignId owner given).results = known.results := by
  unfold assignId
  split <;> rfl

/-- Assigning the tool uses of some blocks gives an owner to those that have none. -/
lemma owner?_assign (known : ToolOwners κ) (owner : κ) (blocks : List Block) (id : String) :
    (known.assign owner blocks).owner? id =
      (known.owner? id).or (if id ∈ Block.useIds blocks then some owner else none) := by
  unfold assign Block.useIds Block.uses
  induction blocks.filterMap Block.toolUse? generalizing known with
  | nil => simp
  | cons use uses ih =>
    rw [List.foldl_cons, ih, owner?_assignId, Option.or_assoc]
    congr 1
    by_cases h : use.id = id
    · simp [h]
    · simp [h, Ne.symm h]

/-- An owner after assigning is an owner from before, or the one assigned. -/
lemma owner?_assign_cases {known : ToolOwners κ} {owner current : κ} {blocks : List Block}
    {id : String} (h : (known.assign owner blocks).owner? id = some current) :
    known.owner? id = some current ∨ current = owner := by
  rw [owner?_assign, Option.or_eq_some_iff] at h
  rcases h with hold | ⟨-, hnew⟩
  · exact .inl hold
  · split at hnew
    · exact .inr (Option.some.inj hnew).symm
    · simp at hnew

/-- Assigning tool uses touches no result. -/
@[simp] lemma results_assign (known : ToolOwners κ) (owner : κ) (blocks : List Block) :
    (known.assign owner blocks).results = known.results := by
  unfold assign
  induction blocks.filterMap Block.toolUse? generalizing known with
  | nil => rfl
  | cons use uses ih => rw [List.foldl_cons, ih, results_assignId]

@[simp] lemma result?_assign (known : ToolOwners κ) (owner : κ) (blocks : List Block)
    (id : String) : (known.assign owner blocks).result? id = known.result? id := by
  simp [result?]

/-! ## Delivering results -/

@[simp] lemma owner?_deliver (known : ToolOwners κ) (result : ToolResult) (id : String) :
    (known.deliver result).owner? id = known.owner? id := by
  unfold deliver
  split <;> rfl

/-- Delivering a result changes what is remembered for its own identifier, if that has an owner. -/
lemma result?_deliver (known : ToolOwners κ) (result : ToolResult) (id : String) :
    (known.deliver result).result? id =
      if (known.owner? id).isSome ∧ result.toolUseId = id then some result
      else known.result? id := by
  by_cases h : result.toolUseId = id
  · subst h
    cases ho : known.owner? result.toolUseId with
    | some owner => simp [deliver, accepts, ho, result?, Assoc.get?_set]
    | none => simp [deliver, accepts, ho]
  · simp only [h, and_false, if_false]
    unfold deliver
    split
    · simp [result?, Assoc.get?_set, h]
    · rfl

@[simp] lemma owner?_deliverAll (known : ToolOwners κ) (results : List ToolResult) (id : String) :
    (known.deliverAll results).owner? id = known.owner? id := by
  unfold deliverAll
  induction results generalizing known with
  | nil => rfl
  | cons result results ih => rw [List.foldl_cons, ih, owner?_deliver]

/-- Of several delivered results the last one for an identifier is remembered, if that has an
owner. -/
lemma result?_deliverAll (known : ToolOwners κ) (results : List ToolResult) (id : String) :
    (known.deliverAll results).result? id =
      if (known.owner? id).isSome then (lastFor? results id).or (known.result? id)
      else known.result? id := by
  unfold deliverAll
  induction results generalizing known with
  | nil => simp [lastFor?_nil]
  | cons result results ih =>
    rw [List.foldl_cons, ih, owner?_deliver, result?_deliver, lastFor?_cons, Option.or_assoc]
    by_cases ho : (known.owner? id).isSome
    · by_cases h : result.toolUseId = id <;> simp [ho, h]
    · simp [ho]

/-! ## The results of one owner -/

/-- An owner has the results of the identifiers that are assigned to it. -/
lemma get?_resultsOf [DecidableEq κ] (known : ToolOwners κ) (owner : κ) (id : String) :
    (known.resultsOf owner).get? id =
      if known.owner? id = some owner then known.result? id else none := by
  unfold resultsOf result?
  rw [Assoc.get?_filter known.results (fun key => known.owner? key = some owner) id]
  simp

/-! ## Equal look-ups -/

/-- Two records of owners that answer every look-up alike. -/
structure Agree (known other : ToolOwners κ) : Prop where
  owner : ∀ id, known.owner? id = other.owner? id
  result : ∀ id, known.result? id = other.result? id

namespace Agree

variable {known other : ToolOwners κ}

lemma refl (known : ToolOwners κ) : Agree known known :=
  ⟨fun _ => rfl, fun _ => rfl⟩

lemma trans {last : ToolOwners κ} (h : Agree known other) (h' : Agree other last) :
    Agree known last :=
  ⟨fun id => (h.owner id).trans (h'.owner id), fun id => (h.result id).trans (h'.result id)⟩

/-- Assigning tool uses respects equal look-ups. -/
lemma assign (h : Agree known other) (owner : κ) (blocks : List Block) :
    Agree (known.assign owner blocks) (other.assign owner blocks) where
  owner id := by rw [owner?_assign, owner?_assign, h.owner]
  result id := by rw [result?_assign, result?_assign, h.result]

/-- Delivering results respects equal look-ups. -/
lemma deliverAll (h : Agree known other) (results : List ToolResult) :
    Agree (known.deliverAll results) (other.deliverAll results) where
  owner id := by rw [owner?_deliverAll, owner?_deliverAll, h.owner]
  result id := by rw [result?_deliverAll, result?_deliverAll, h.owner, h.result]

/-- Results of assigned tool uses may be delivered before or after further uses are assigned. -/
lemma deliverAll_assign {results : List ToolResult}
    (assigned : ∀ result ∈ results, known.accepts result) (owner : κ) (blocks : List Block) :
    Agree ((known.deliverAll results).assign owner blocks)
      ((known.assign owner blocks).deliverAll results) where
  owner id := by simp [owner?_assign]
  result id := by
    rw [result?_assign, result?_deliverAll, result?_deliverAll, result?_assign, owner?_assign]
    cases ho : known.owner? id with
    | some current => simp
    | none =>
      -- An identifier that gets its owner only now has no result among those delivered.
      have hnone : lastFor? results id = none := by
        rw [lastFor?_eq_none_iff]
        rintro result hmem rfl
        have := assigned result hmem
        simp [accepts, ho] at this
      simp [hnone]

/-- Results for different tool uses may be delivered in either order. -/
lemma deliverAll_swap {results more : List ToolResult}
    (apart : ∀ result ∈ results, ∀ other ∈ more, other.toolUseId ≠ result.toolUseId) :
    Agree ((known.deliverAll results).deliverAll more)
      ((known.deliverAll more).deliverAll results) where
  owner id := by simp
  result id := by
    simp only [result?_deliverAll, owner?_deliverAll]
    by_cases ho : (known.owner? id).isSome
    · simp only [ho, if_true]
      cases hr : lastFor? results id with
      | none => rfl
      | some result =>
        have hmore : lastFor? more id = none := by
          obtain ⟨hmem, rfl⟩ := mem_of_lastFor?_eq_some hr
          rw [lastFor?_eq_none_iff]
          exact apart result hmem
        simp [hmore]
    · simp [ho]

end Agree

end ToolOwners

end ChatHistory
