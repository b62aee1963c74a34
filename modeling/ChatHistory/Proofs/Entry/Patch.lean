import ChatHistory.Proofs.Entry.Conversion
import Mathlib.Data.Int.Notation
import Mathlib.Data.List.Forall2

/-!
# Patches of tool results

Whatever stands beside a message, its tool results are read in order, and all of them carry the same
patch: the hunks whose four positions count as integers (`Hunk.readable`), in order.  Other hunks
are skipped, except that an infinite position stops everything if no position in front of it makes
the hunk skipped (`toolResultBlocks_answers_iff`, `toolResultBlocks_infinite_position`).

What counts as an integer is said by `Hunk.IsPosition`, apart from the function that reads it.
-/

namespace ChatHistory

/-- The items of an array; a value of another kind has none. -/
def Json.items : Json → List Json
  | .array items => items
  | _ => []

namespace Hunk

variable {value : Json} {n : ℤ} {fields : Fields} {hunk : Hunk}

/-! ## Positions -/

/-- A value counts as an integer: an empty value as zero, `true` as one, a number without its
fraction, and a numeral as the number that it writes. -/
inductive IsPosition : Json → ℤ → Prop
  | empty {value : Json} (empty : ¬value.isTruthy) : IsPosition value 0
  | true : IsPosition (.bool true) 1
  | int (n : ℤ) : IsPosition (.int n) n
  | double {x : Double} {n : ℤ} (whole : x.truncate? = some n) : IsPosition (.double x) n
  | numeral {text : String} {n : ℤ} (written : Numeral.readInt? text.toList = some n) :
      IsPosition (.string text) n

/-- The value is one of the two infinities. -/
def IsInfinity (value : Json) : Prop :=
  ∃ negative, value = .double (.infinite negative)

/-- A zero has no fraction to lose. -/
lemma eq_zero_of_truncate? {x : Double} (zero : x.isZero) (whole : x.truncate? = some n) :
    n = 0 := by
  cases x with
  | finite negative significand exponent =>
    obtain rfl : significand = 0 := by simpa [Double.isZero] using zero
    have reached : 0 = n := by
      by_cases grown : 0 ≤ exponent <;>
        simpa [Double.truncate?, Double.ratio?, grown] using whole
    exact reached.symm
  | _ => cases zero

/-- A numeral has at least one digit. -/
lemma ne_empty_of_readInt? {text : String} (written : Numeral.readInt? text.toList = some n) :
    text ≠ "" := by
  rintro rfl
  cases written

/-- A position that is read counts as the integer that is read. -/
lemma isPosition_of_position (h : position value = .ok n) : IsPosition value n := by
  unfold position at h
  split at h
  · rename_i filled
    split at h
    · obtain rfl : _ = true := filled
      obtain rfl : 1 = n := by simpa using h
      exact .true
    · obtain rfl := Except.ok.inj h
      exact .int _
    · cases h
    · split at h
      · rename_i whole
        obtain rfl := Except.ok.inj h
        exact .double whole
      · cases h
    · split at h
      · rename_i written
        obtain rfl := Except.ok.inj h
        exact .numeral written
      · cases h
    · cases h
  · rename_i empty
    obtain rfl := Except.ok.inj h
    exact .empty empty

/-- A position is read as the integer that it counts as. -/
lemma position_of_isPosition (h : IsPosition value n) : position value = .ok n := by
  unfold position
  cases h with
  | empty empty => rw [if_neg empty]
  | true => rfl
  | int =>
    by_cases zero : n = 0
    · subst zero
      rfl
    · rw [if_pos (by simpa [Json.isTruthy] using zero)]
  | @double x _ whole =>
    split
    · cases x with
      | finite negative significand exponent => simp [whole]
      | _ => cases whole
    · rename_i zero
      rw [eq_zero_of_truncate? (by simpa [Json.isTruthy] using zero) whole]
  | numeral written =>
    have filled := ne_empty_of_readInt? written
    simp [Json.isTruthy, filled, written]

/-- A position is read if the value counts as an integer. -/
lemma position_eq_ok_iff : position value = .ok n ↔ IsPosition value n :=
  ⟨isPosition_of_position, position_of_isPosition⟩

/-- Of the values that count as no integer, the infinities are told apart. -/
lemma position_eq_infinite_iff : position value = .error .infinite ↔ IsInfinity value := by
  constructor
  · intro h
    unfold position at h
    split at h
    · split at h
      case h_3 negative _ => exact ⟨negative, rfl⟩
      all_goals try split at h
      all_goals cases h
    · cases h
  · rintro ⟨negative, rfl⟩
    rfl

/-- Whether a value counts as an integer is decided by reading it. -/
instance (value : Json) : Decidable (∃ n, IsPosition value n) :=
  match h : position value with
  | .ok n => .isTrue ⟨n, isPosition_of_position h⟩
  | .error _ => .isFalse fun ⟨_, hposition⟩ => by
      rw [position_of_isPosition hposition] at h
      cases h

/-! ## Hunks -/

/-- The fields of the four positions of a hunk, in the order in which they are read. -/
def positions : List String :=
  ["oldStart", "oldLines", "newStart", "newLines"]

/-- All positions of a hunk count as integers. -/
def HasPositions (fields : Fields) : Prop :=
  ∀ name ∈ positions, ∃ n, IsPosition (Json.field fields name) n

instance (fields : Fields) : Decidable (HasPositions fields) :=
  inferInstanceAs (Decidable (∀ name ∈ positions, _))

/-- Reading the fields of the given names in turn, one meets an infinity before anything else that
counts as no integer. -/
def MeetsInfinity (fields : Fields) : List String → Prop
  | [] => False
  | name :: names => IsInfinity (Json.field fields name) ∨
      (∃ n, IsPosition (Json.field fields name) n) ∧ MeetsInfinity fields names

/-- The fields describe the hunk: the four positions, and the lines as they are displayed. -/
structure Describes (fields : Fields) (hunk : Hunk) : Prop where
  oldStart : IsPosition (Json.field fields "oldStart") hunk.oldStart
  oldLines : IsPosition (Json.field fields "oldLines") hunk.oldLines
  newStart : IsPosition (Json.field fields "newStart") hunk.newStart
  newLines : IsPosition (Json.field fields "newLines") hunk.newLines
  lines : hunk.lines = (Json.field fields "lines").items.map Json.display

/-- The fields of the hunks that can be read: objects whose positions count as integers. -/
def readable (items : List Json) : List Fields :=
  (items.filterMap Json.object?).filter (HasPositions ·)

/-- The lines of a hunk are the items of its lines, as they are displayed. -/
lemma lines_eq_items (value : Json) :
    (match value with
      | .array items => items.map Json.display
      | _ => []) = value.items.map Json.display := by
  cases value <;> rfl

/-- A hunk is read if the fields describe it. -/
lemma ofFields_eq_ok_iff : ofFields fields = .ok hunk ↔ Describes fields hunk := by
  simp only [ofFields, bind_eq_ok_iff, position_eq_ok_iff, pure_eq_ok, Except.ok.injEq]
  constructor
  · rintro ⟨_, oldStart, _, oldLines, _, newStart, _, newLines, rfl⟩
    exact ⟨oldStart, oldLines, newStart, newLines, lines_eq_items _⟩
  · intro ⟨oldStart, oldLines, newStart, newLines, lines⟩
    have shown := (lines_eq_items _).trans lines.symm
    exact ⟨_, oldStart, _, oldLines, _, newStart, _, newLines, congrArg (Hunk.mk _ _ _ _) shown⟩

/-- Fields describe a hunk if all their positions count as integers. -/
lemma hasPositions_iff : HasPositions fields ↔ ∃ hunk, Describes fields hunk := by
  constructor
  · intro h
    obtain ⟨⟨_, oldStart⟩, ⟨_, oldLines⟩, ⟨_, newStart⟩, ⟨_, newLines⟩⟩ := by
      simpa [HasPositions, positions] using h
    exact ⟨⟨_, _, _, _, _⟩, oldStart, oldLines, newStart, newLines, rfl⟩
  · rintro ⟨hunk, oldStart, oldLines, newStart, newLines, -⟩
    simpa [HasPositions, positions] using
      ⟨⟨_, oldStart⟩, ⟨_, oldLines⟩, ⟨_, newStart⟩, ⟨_, newLines⟩⟩

/-- Reading a hunk stops at an infinity if it meets one. -/
lemma ofFields_eq_infinite_iff :
    ofFields fields = .error .infinite ↔ MeetsInfinity fields positions := by
  simp [ofFields, positions, MeetsInfinity, bind_eq_error_iff, position_eq_infinite_iff,
    position_eq_ok_iff]

end Hunk

namespace Entry

/-! ## Patches -/

/-- Whatever a patch is read to, its hunks are those that can be read, in order. -/
lemma forall₂_of_hunks {items : List Json} {patch : List Hunk} (h : hunks items = .ok patch) :
    List.Forall₂ Hunk.Describes (Hunk.readable items) patch := by
  induction items generalizing patch with
  | nil =>
    obtain rfl := Except.ok.inj h
    exact .nil
  | cons item items ih =>
    cases item with
    | object fields =>
      unfold hunks at h
      split at h
      · rename_i hunk read
        have described := Hunk.ofFields_eq_ok_iff.1 read
        obtain ⟨rest, hrest, hpatch⟩ := bind_eq_ok_iff.1 h
        obtain rfl : hunk :: rest = patch := by simpa using hpatch
        have readable := Hunk.hasPositions_iff.2 ⟨hunk, described⟩
        simpa [Hunk.readable, Json.object?, readable] using ⟨described, ih hrest⟩
      · cases h
      · rename_i why _ read
        -- What is skipped describes no hunk, so one of its positions counts as no integer.
        have unreadable : ¬Hunk.HasPositions fields := by
          intro readable
          obtain ⟨hunk, described⟩ := Hunk.hasPositions_iff.1 readable
          rw [Hunk.ofFields_eq_ok_iff.2 described] at read
          cases read
        simpa [Hunk.readable, Json.object?, unreadable] using ih h
    | _ => exact ih h

/-- A patch is read unless one of its hunks meets an infinity. -/
lemma hunks_eq_error_iff {items : List Json} {fault : Fault} :
    hunks items = .error fault ↔ fault = .notInteger .infinite ∧
      ∃ fields, .object fields ∈ items ∧ Hunk.MeetsInfinity fields Hunk.positions := by
  induction items with
  | nil => simp [hunks]
  | cons item items ih =>
    cases item with
    | object fields =>
      simp only [← Hunk.ofFields_eq_infinite_iff] at ih ⊢
      unfold hunks
      split
      · rename_i hunk read
        simp [bind_eq_error_iff, ih, read]
      · rename_i read
        simp [read, eq_comm]
      · rename_i why other read
        have skipped : why ≠ .infinite := other
        simp [ih, read, skipped]
    | _ => simpa [hunks] using ih

/-- A patch is read if none of its hunks meets an infinity. -/
lemma exists_hunks_iff {items : List Json} :
    (∃ patch, hunks items = .ok patch) ↔
      ∀ fields, .object fields ∈ items → ¬Hunk.MeetsInfinity fields Hunk.positions := by
  cases read : hunks items with
  | ok patch =>
    refine iff_of_true ⟨patch, rfl⟩ fun fields hfields meets => ?_
    have stopped := hunks_eq_error_iff.2 ⟨rfl, fields, hfields, meets⟩
    rw [read] at stopped
    cases stopped
  | error fault =>
    obtain ⟨-, fields, hfields, meets⟩ := hunks_eq_error_iff.1 read
    exact iff_of_false (by simp) fun unmet => unmet fields hfields meets

/-- The items of the patch in the value beside a message; there are none unless it is an array in an
object. -/
def patchItems : Json → List Json
  | .object details => (Json.field details "structuredPatch").items
  | _ => []

/-- The patch is all that can stop reading what a tool did to a file. -/
lemma exists_fileChange_eq (details : Json) : ∃ before after,
    fileChange details = (hunks (patchItems details)).map fun patch => ⟨patch, before, after⟩ := by
  cases details with
  | object details =>
    cases details with
    | nil => exact ⟨none, none, rfl⟩
    | cons first rest =>
      let before := (Json.field (first :: rest) "originalFile").string?
      refine ⟨before, fileAfter? (first :: rest) before, ?_⟩
      cases given : Json.field (first :: rest) "structuredPatch" with
      | array items =>
        simp only [fileChange, patchItems, given, Json.items]
        cases hunks items <;> rfl
      | _ =>
        simp only [fileChange, patchItems, given, Json.items]
        rfl
  | _ => exact ⟨none, none, rfl⟩

/-! ## Results -/

/-- A result among some that items become carries the patch of the change. -/
lemma patch_eq_of_become {change : FileChange} {items : List Json} {results : List ToolResult}
    (brought : Become (IsResult change) items (results.map .toolResult)) {result : ToolResult}
    (hresult : result ∈ results) : result.patch = change.patch := by
  obtain ⟨item, -, shown⟩ := brought.exists_of_mem (List.mem_map_of_mem hresult)
  cases shown
  rfl

/-- The tool results of a content are answered unless a hunk of the patch beside it meets an
infinity: each result in the content becomes one block, in order, and all of them carry the hunks
that can be read. -/
theorem toolResultBlocks_answers_iff (content details : Json) :
    (∃ results change, toolResultBlocks content details = .ok results ∧
      Become (IsResult change) content.items (results.map .toolResult) ∧
      ∀ result ∈ results,
        List.Forall₂ Hunk.Describes (Hunk.readable (patchItems details)) result.patch) ↔
    ((∃ items, content = .array items) →
      ∀ fields, .object fields ∈ patchItems details →
        ¬Hunk.MeetsInfinity fields Hunk.positions) := by
  cases content with
  | array items =>
    obtain ⟨before, after, hchange⟩ := exists_fileChange_eq details
    cases hpatch : hunks (patchItems details) with
    | ok patch =>
      have change : fileChange details = .ok ⟨patch, before, after⟩ := by
        rw [hchange, hpatch, Except.map]
      have brought := become_toolResults items ⟨patch, before, after⟩
      constructor
      · intro _ _ fields hfields meets
        have stopped := hunks_eq_error_iff.2 ⟨rfl, fields, hfields, meets⟩
        rw [hpatch] at stopped
        cases stopped
      · intro _
        refine ⟨_, _, ?_, brought, fun result hresult => ?_⟩
        · simp [toolResultBlocks, change]
        · rw [patch_eq_of_become brought hresult]
          exact forall₂_of_hunks hpatch
    | error fault =>
      have stopped : toolResultBlocks (.array items) details = .error fault := by
        simp [toolResultBlocks, hchange, hpatch, Except.map]
      obtain ⟨-, fields, hfields, meets⟩ := hunks_eq_error_iff.1 hpatch
      constructor
      · rintro ⟨results, change, answered, -⟩
        rw [stopped] at answered
        cases answered
      · intro unmet
        exact absurd meets (unmet ⟨items, rfl⟩ fields hfields)
  | _ =>
    refine iff_of_true ⟨[], ⟨[], none, none⟩, rfl, .nil, by simp⟩ ?_
    rintro ⟨items, listed⟩
    cases listed

/-- A result beside a patch with one hunk, which starts at an infinity: nothing is answered. -/
theorem toolResultBlocks_infinite_position :
    toolResultBlocks
      (.array [.object [("type", .string "tool_result"), ("tool_use_id", .string "t"),
        ("content", .string "x")]])
      (.object [("structuredPatch",
        .array [.object [("oldStart", .double (.infinite false))]])]) =
    .error (.notInteger .infinite) := by
  rfl

end Entry

end ChatHistory
