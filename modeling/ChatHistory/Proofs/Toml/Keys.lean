import ChatHistory.Proofs.Assoc
import ChatHistory.Toml.Document

/-!
# Keys of settings documents

In the table that a document writes, no key stands twice, and neither does one in a table inside it
(`distinctKeys_read`).  All tables are built by `changeAt`, which only ever sets the value of a key,
so it is enough that each change at the end of a path keeps keys different (`KeepsDistinct`).
Arrays count as single values here; nothing that is done to a table looks into them but `changeAt`.
-/

namespace ChatHistory

namespace Toml

/-- The keys of a table are different, and so are the keys of each table in it. -/
inductive DistinctKeys : Table → Prop
  | mk {table : Table} (keys : (table.map Prod.fst).Nodup)
      (inner : ∀ name entries, (name, Value.table entries) ∈ table → DistinctKeys entries) :
      DistinctKeys table

/-- If a value is a table, its keys are different. -/
def Value.Distinct (value : Value) : Prop :=
  ∀ entries, value = .table entries → DistinctKeys entries

namespace Value.Distinct

lemma table {entries : Table} (h : DistinctKeys entries) : (Value.table entries).Distinct := by
  rintro other ⟨⟩
  exact h

lemma of_ne_table {value : Value} (h : ∀ entries, value ≠ .table entries) : value.Distinct :=
  fun entries hentries => absurd hentries (h entries)

end Value.Distinct

namespace DistinctKeys

lemma nil : DistinctKeys [] :=
  .mk List.nodup_nil (by simp)

lemma keys {table : Table} (h : DistinctKeys table) : (table.map Prod.fst).Nodup := by
  cases h with
  | mk keys inner => exact keys

lemma inner {table entries : Table} {name : String} (h : DistinctKeys table)
    (hentries : Assoc.get? table name = some (.table entries)) : DistinctKeys entries := by
  cases h with
  | mk keys inner => exact inner name entries (Assoc.mem_of_get? hentries)

lemma set {table : Table} (h : DistinctKeys table) (name : String) {value : Value}
    (distinct : value.Distinct) : DistinctKeys (Assoc.set table name value) := by
  obtain ⟨keys, inner⟩ := h
  refine .mk (Assoc.nodup_keys_set keys name value) fun other entries hentries => ?_
  rcases Assoc.mem_of_mem_set hentries with hnew | hold
  · exact distinct entries (Prod.mk.inj hnew).2.symm
  · exact inner other entries hold

end DistinctKeys

/-- A change that keeps keys different. -/
def KeepsDistinct (change : Table → Option Table) : Prop :=
  ∀ ⦃table after⦄, DistinctKeys table → change table = some after → DistinctKeys after

/-- A change behind a path keeps keys different if the change itself does. -/
lemma KeepsDistinct.changeAt {enterArrays : Bool} {change : Table → Option Table}
    (h : KeepsDistinct change) (path : List String) :
    KeepsDistinct (Toml.changeAt enterArrays change path) := by
  induction path with
  | nil => exact h
  | cons name path ih =>
    intro table after distinct hafter
    unfold Toml.changeAt at hafter
    split at hafter
    · obtain ⟨inner, hinner, hset⟩ := Option.bind_eq_some_iff.1 hafter
      obtain rfl := Option.some.inj hset
      exact distinct.set name (.table (ih .nil hinner))
    · rename_i entries hentries
      obtain ⟨inner, hinner, hset⟩ := Option.bind_eq_some_iff.1 hafter
      obtain rfl := Option.some.inj hset
      exact distinct.set name (.table (ih (distinct.inner hentries) hinner))
    · split at hafter
      · split at hafter
        · obtain ⟨inner, hinner, hset⟩ := Option.bind_eq_some_iff.1 hafter
          obtain rfl := Option.some.inj hset
          exact distinct.set name (.of_ne_table (by simp))
        · cases hafter
      · cases hafter
    · cases hafter

lemma keepsDistinct_addEntry (name : String) {value : Value} (distinct : value.Distinct) :
    KeepsDistinct (addEntry name value) := by
  intro table after h hafter
  unfold addEntry at hafter
  split at hafter
  · cases hafter
  · obtain rfl := Option.some.inj hafter
    exact h.set name distinct

lemma keepsDistinct_insert (enterArrays : Bool) (key : List String) {value : Value}
    (distinct : value.Distinct) : KeepsDistinct (insert enterArrays key value) := by
  intro table after h hafter
  unfold insert at hafter
  split at hafter
  · exact (keepsDistinct_addEntry _ distinct).changeAt key.dropLast h hafter
  · cases hafter

lemma keepsDistinct_appendTable (name : String) : KeepsDistinct (appendTable name) := by
  intro table after h hafter
  unfold appendTable at hafter
  split at hafter
  · obtain rfl := Option.some.inj hafter
    exact h.set name (.of_ne_table (by simp))
  · obtain rfl := Option.some.inj hafter
    exact h.set name (.of_ne_table (by simp))
  · cases hafter

/-! ## Values -/

/-- A word that is read is one of the list. -/
lemma mem_of_readWord {words : List (List Char × Value)} {text rest : List Char} {value : Value}
    (h : readWord words text = some (value, rest)) : ∃ word, (word, value) ∈ words := by
  obtain ⟨⟨word, other⟩, hword, hfound⟩ := List.exists_of_findSome?_eq_some h
  obtain ⟨remaining, -, hsame⟩ := Option.map_eq_some_iff.1 hfound
  obtain ⟨rfl, -⟩ := Prod.mk.inj hsame
  exact ⟨word, hword⟩

lemma ne_table_of_readMoment {text rest : List Char} {value : Value}
    (h : readMoment text = some (some (value, rest))) (entries : Table) :
    value ≠ .table entries := by
  obtain ⟨⟨date, more⟩, -, hmoment⟩ := Option.map_eq_some_iff.1 h
  rintro rfl
  dsimp only at hmoment
  split at hmoment
  · split at hmoment <;> simp at hmoment
  · cases hmoment

lemma ne_table_of_readBased {text rest : List Char} {value : Value}
    (h : readBased text = some (value, rest)) (entries : Table) : value ≠ .table entries := by
  rintro rfl
  unfold readBased at h
  dsimp only at h
  split at h <;> simp at h

lemma ne_table_of_readDecimal {text rest : List Char} {value : Value}
    (h : readDecimal text = some (value, rest)) (entries : Table) : value ≠ .table entries := by
  rintro rfl
  unfold readDecimal at h
  dsimp only at h
  split at h
  all_goals
    obtain ⟨digits, -, hnumber⟩ := Option.bind_eq_some_iff.1 h
    split at hnumber
    · split at hnumber <;> simp at hnumber
    · simp at hnumber

/-- A scalar is no table. -/
lemma ne_table_of_readScalar {text rest : List Char} {value : Value}
    (h : readScalar text = some (value, rest)) (entries : Table) : value ≠ .table entries := by
  have hword (words : List (List Char × Value)) (hwords : ∀ word ∈ words, word.2 ≠ .table entries)
      (hvalue : readWord words text = some (value, rest)) : value ≠ .table entries := by
    obtain ⟨word, hword⟩ := mem_of_readWord hvalue
    exact hwords _ hword
  have htext : (readText text).map (fun found => (Value.string found.1, found.2)) =
      some (value, rest) → value ≠ .table entries := by
    rintro hvalue rfl
    simp at hvalue
  unfold readScalar at h
  split at h
  · exact htext h
  · exact htext h
  split at h
  · rename_i hfound
    exact hword _ (by simp) (hfound.trans h)
  split at h
  · rename_i hmoment
    exact ne_table_of_readMoment (hmoment.trans (congrArg some h)) entries
  split at h
  · simp at h
    exact h.1 ▸ by simp
  · rw [Option.orElse_eq_or, Option.orElse_eq_or] at h
    rcases Option.or_eq_some_iff.1 h with hbased | ⟨-, hrest⟩
    · exact ne_table_of_readBased hbased entries
    rcases Option.or_eq_some_iff.1 hrest with hdecimal | ⟨-, hnumber⟩
    · exact ne_table_of_readDecimal hdecimal entries
    · exact hword _ (by simp [wordNumbers]) hnumber

/-- The keys of a table are different in each value, and in a table that entries are added to. -/
lemma distinct_readValue_readEntries (bound : ℕ) :
    (∀ text value rest, readValue bound text = some (value, rest) → value.Distinct) ∧
      ∀ table closed text after rest, readEntries bound table closed text = some (after, rest) →
        DistinctKeys table → DistinctKeys after := by
  induction bound with
  | zero => simp [readValue, readEntries]
  | succ bound ih =>
    obtain ⟨ihValue, ihEntries⟩ := ih
    constructor
    · intro text value rest h
      unfold readValue at h
      split at h
      · -- An array counts as one value.
        refine .of_ne_table ?_
        rintro entries rfl
        obtain ⟨filled, -, harray⟩ := Option.bind_eq_some_iff.1 h
        split at harray
        · simp at harray
        · obtain ⟨items, -, hitems⟩ := Option.bind_eq_some_iff.1 harray
          simp at hitems
      · split at h
        · obtain ⟨rfl, -⟩ := Prod.mk.inj (Option.some.inj h)
          exact .table .nil
        · obtain ⟨⟨table, more⟩, htable, hvalue⟩ := Option.bind_eq_some_iff.1 h
          obtain ⟨rfl, -⟩ := Prod.mk.inj (Option.some.inj hvalue)
          exact .table (ihEntries _ _ _ _ _ htable .nil)
      · exact .of_ne_table (ne_table_of_readScalar h)
    · intro table closed text after rest h distinct
      unfold readEntries at h
      obtain ⟨⟨key, text⟩, -, h⟩ := Option.bind_eq_some_iff.1 h
      obtain ⟨text, -, h⟩ := Option.bind_eq_some_iff.1 h
      obtain ⟨⟨value, text⟩, hvalue, h⟩ := Option.bind_eq_some_iff.1 h
      dsimp only at h
      split at h
      · cases h
      obtain ⟨table, htable, h⟩ := Option.bind_eq_some_iff.1 h
      have filled := keepsDistinct_insert _ _ (ihValue _ _ _ hvalue) distinct htable
      split at h
      · obtain ⟨rfl, -⟩ := Prod.mk.inj (Option.some.inj h)
        exact filled
      · exact ihEntries _ _ _ _ _ h filled
      · cases h

/-! ## Documents -/

lemma distinct_openTable {draft after : Draft} {key : List String}
    (h : draft.openTable key = some after) (distinct : DistinctKeys draft.table) :
    DistinctKeys after.table := by
  unfold Draft.openTable at h
  split at h
  · cases h
  · obtain ⟨table, htable, h⟩ := Option.bind_eq_some_iff.1 h
    obtain rfl := Option.some.inj h
    have keeps : KeepsDistinct some := by
      rintro table after distinct ⟨⟩
      exact distinct
    exact keeps.changeAt key distinct htable

lemma distinct_openArrayTable {draft after : Draft} {key : List String}
    (h : draft.openArrayTable key = some after) (distinct : DistinctKeys draft.table) :
    DistinctKeys after.table := by
  unfold Draft.openArrayTable at h
  split at h
  · cases h
  · obtain ⟨name, -, h⟩ := Option.bind_eq_some_iff.1 h
    obtain ⟨table, htable, h⟩ := Option.bind_eq_some_iff.1 h
    obtain rfl := Option.some.inj h
    exact (keepsDistinct_appendTable name).changeAt key.dropLast distinct htable

lemma distinct_setValue {draft after : Draft} {key : List String} {value : Value}
    (h : draft.setValue key value = some after) (distinct : DistinctKeys draft.table)
    (distinctValue : value.Distinct) : DistinctKeys after.table := by
  unfold Draft.setValue at h
  dsimp only at h
  split at h
  · cases h
  · obtain ⟨table, htable, h⟩ := Option.bind_eq_some_iff.1 h
    obtain rfl := Option.some.inj h
    exact keepsDistinct_insert _ _ distinctValue distinct htable

lemma distinct_readStatement {draft after : Draft} {text rest : List Char}
    (h : readStatement draft text = some (after, rest)) (distinct : DistinctKeys draft.table) :
    DistinctKeys after.table := by
  unfold readStatement at h
  split at h
  · obtain ⟨⟨key, more⟩, -, h⟩ := Option.bind_eq_some_iff.1 h
    obtain ⟨opened, hopened, h⟩ := Option.bind_eq_some_iff.1 h
    obtain ⟨behind, -, h⟩ := Option.bind_eq_some_iff.1 h
    obtain ⟨rfl, -⟩ := Prod.mk.inj (Option.some.inj h)
    exact distinct_openArrayTable hopened distinct
  · obtain ⟨⟨key, more⟩, -, h⟩ := Option.bind_eq_some_iff.1 h
    obtain ⟨opened, hopened, h⟩ := Option.bind_eq_some_iff.1 h
    obtain ⟨behind, -, h⟩ := Option.bind_eq_some_iff.1 h
    obtain ⟨rfl, -⟩ := Prod.mk.inj (Option.some.inj h)
    exact distinct_openTable hopened distinct
  · obtain ⟨⟨key, more⟩, -, h⟩ := Option.bind_eq_some_iff.1 h
    obtain ⟨behind, -, h⟩ := Option.bind_eq_some_iff.1 h
    obtain ⟨⟨value, more⟩, hvalue, h⟩ := Option.bind_eq_some_iff.1 h
    obtain ⟨filled, hfilled, h⟩ := Option.bind_eq_some_iff.1 h
    obtain ⟨rfl, -⟩ := Prod.mk.inj (Option.some.inj h)
    exact distinct_setValue hfilled distinct ((distinct_readValue_readEntries _).1 _ _ _ hvalue)

lemma distinct_readLines {bound : ℕ} {draft : Draft} {text : List Char} {table : Table}
    (h : readLines bound draft text = some table) (distinct : DistinctKeys draft.table) :
    DistinctKeys table := by
  induction bound generalizing draft text with
  | zero => cases h
  | succ bound ih =>
    unfold readLines at h
    split at h
    · obtain rfl := Option.some.inj h
      exact distinct
    · exact ih h distinct
    · split at h
      all_goals
        obtain ⟨⟨line, rest⟩, hline, h⟩ := Option.bind_eq_some_iff.1 h
        obtain ⟨behind, -, h⟩ := Option.bind_eq_some_iff.1 h
      -- A comment leaves the draft as it is.
      case' isTrue =>
        have filled : DistinctKeys line.table := by
          obtain ⟨rfl, -⟩ := Prod.mk.inj (Option.some.inj hline)
          exact distinct
      case' isFalse => have filled := distinct_readStatement hline distinct
      all_goals
        split at h
        · obtain rfl := Option.some.inj h
          exact filled
        · exact ih h filled
        · cases h

/-- The keys in the table that a document writes are different. -/
theorem distinctKeys_read {text : List Char} {table : Table} (h : read text = some table) :
    DistinctKeys table :=
  distinct_readLines h .nil

end Toml

end ChatHistory
