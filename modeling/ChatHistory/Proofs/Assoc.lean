import ChatHistory.Assoc
import Mathlib.Tactic.Common

/-!
# Entries of ordered string maps

How the view of a map by `Assoc.get?` belongs to its entries, and what setting a value does to them:
it adds at most one entry, and names that are different stay different (`nodup_keys_set`).  After
merging two maps, the last value that the second one gives to a name counts (`get?_merge`), and the
names of both have a value (`isSome_get?_merge`).  Entries with different names describe themselves
(`ofEntries_of_nodup`).
-/

namespace ChatHistory

namespace Assoc

variable {α : Type}

/-- A name has no value if no entry bears it. -/
lemma get?_eq_none_iff {map : Assoc α} {name : String} :
    map.get? name = none ↔ name ∉ map.map Prod.fst := by
  induction map with
  | nil => simp [get?]
  | cons entry rest ih =>
    by_cases h : entry.1 = name
    · simp [get?, h]
    · simp [get?, h, ih, Ne.symm h]

/-- The value of a name is the value of an entry. -/
lemma mem_of_get? {map : Assoc α} {name : String} {value : α} (h : map.get? name = some value) :
    (name, value) ∈ map := by
  induction map with
  | nil => simp [get?] at h
  | cons entry rest ih =>
    obtain ⟨key, first⟩ := entry
    unfold get? at h
    split at h
    · rename_i same
      obtain rfl := Option.some.inj h
      simp [same]
    · exact List.mem_cons_of_mem _ (ih h)

/-- An entry of a map with one value set is the one that was set, or an entry of the map. -/
lemma mem_of_mem_set {map : Assoc α} {name : String} {new : α} {entry : String × α}
    (h : entry ∈ map.set name new) : entry = (name, new) ∨ entry ∈ map := by
  induction map with
  | nil => simpa [set] using h
  | cons first rest ih =>
    unfold set at h
    split at h
    · rename_i same
      rcases List.mem_cons.1 h with rfl | hrest
      · exact .inl (by rw [same])
      · exact .inr (List.mem_cons_of_mem _ hrest)
    · rcases List.mem_cons.1 h with rfl | hrest
      · exact .inr List.mem_cons_self
      · exact (ih hrest).imp_right (List.mem_cons_of_mem _)

/-- Setting a value keeps names different. -/
lemma nodup_keys_set {map : Assoc α} (h : (map.map Prod.fst).Nodup) (name : String) (new : α) :
    ((map.set name new).map Prod.fst).Nodup := by
  induction map with
  | nil => simp [set]
  | cons first rest ih =>
    obtain ⟨fresh, hrest⟩ := List.nodup_cons.1 h
    unfold set
    split
    · rename_i same
      exact List.nodup_cons.2 ⟨fresh, hrest⟩
    · rename_i other
      refine List.nodup_cons.2 ⟨fun repeated => ?_, ih hrest⟩
      obtain ⟨entry, hentry, hkey⟩ := List.mem_map.1 repeated
      rcases mem_of_mem_set hentry with rfl | hold
      · exact other hkey.symm
      · exact fresh (List.mem_map.2 ⟨entry, hold, hkey⟩)

/-- Of two values that are set for one name, the later one counts. -/
lemma set_set (map : Assoc α) (name : String) (first new : α) :
    (map.set name first).set name new = map.set name new := by
  induction map with
  | nil => simp [set]
  | cons entry rest ih =>
    obtain ⟨key, value⟩ := entry
    by_cases h : key = name <;> simp [set, h, ih]

/-- A new name goes to the end. -/
lemma set_of_notMem {map : Assoc α} {name : String} (h : name ∉ map.map Prod.fst) (new : α) :
    map.set name new = map ++ [(name, new)] := by
  induction map with
  | nil => rfl
  | cons entry rest ih =>
    rw [List.map_cons, List.mem_cons, not_or] at h
    rw [set, if_neg (Ne.symm h.1), ih h.2]
    rfl

/-- Merging a map with entries of new names appends them. -/
lemma merge_of_nodup {map others : Assoc α} (distinct : ((map ++ others).map Prod.fst).Nodup) :
    map.merge others = map ++ others := by
  unfold merge
  induction others generalizing map with
  | nil => simp
  | cons entry others ih =>
    have hnext : map ++ entry :: others = map ++ [entry] ++ others := by simp
    have fresh : entry.1 ∉ map.map Prod.fst := by
      rw [List.map_append, List.map_cons, List.nodup_append] at distinct
      exact fun hmem => distinct.2.2 entry.1 hmem entry.1 List.mem_cons_self rfl
    rw [List.foldl_cons, set_of_notMem fresh, hnext]
    exact ih (hnext ▸ distinct)

/-- Entries with different names are the map that they describe. -/
lemma ofEntries_of_nodup {entries : List (String × α)} (distinct : (entries.map Prod.fst).Nodup) :
    ofEntries entries = entries :=
  merge_of_nodup distinct

/-- Setting a value does not show among entries of other names. -/
lemma filter_set_of_not {keep : String × α → Bool} {name : String}
    (h : ∀ value, keep (name, value) = false) (map : Assoc α) (new : α) :
    (map.set name new).filter keep = map.filter keep := by
  induction map with
  | nil => simp [set, h]
  | cons entry rest ih =>
    obtain ⟨key, value⟩ := entry
    by_cases hkey : key = name
    · subst hkey
      simp [set, h]
    · rw [set, if_neg hkey, List.filter_cons, List.filter_cons, ih]

/-- The values that some entries give to a name, in order. -/
def valuesOf (name : String) (entries : Assoc α) : List α :=
  entries.filterMap fun entry => if entry.1 = name then some entry.2 else none

lemma valuesOf_append (name : String) (entries others : Assoc α) :
    valuesOf name (entries ++ others) = valuesOf name entries ++ valuesOf name others :=
  List.filterMap_append

/-- After merging, a name has the last value that the entries of the second map give to it, or the
value that it had. -/
lemma get?_merge (map others : Assoc α) (name : String) :
    (map.merge others).get? name = (valuesOf name others).getLast?.or (map.get? name) := by
  unfold merge
  induction others generalizing map with
  | nil => simp [valuesOf]
  | cons entry others ih =>
    rw [List.foldl_cons, ih, get?_set]
    by_cases h : entry.1 = name
    · simp [valuesOf, h, List.getLast?_cons]
    · simp [valuesOf, h]

/-- A name is given a value if an entry bears it. -/
lemma valuesOf_ne_nil_iff {name : String} {entries : Assoc α} :
    valuesOf name entries ≠ [] ↔ name ∈ entries.map Prod.fst := by
  simp [valuesOf, List.filterMap_eq_nil_iff]

/-- After merging, the names of both maps have a value. -/
lemma isSome_get?_merge (map others : Assoc α) (name : String) :
    ((map.merge others).get? name).isSome ↔
      (map.get? name).isSome ∨ name ∈ others.map Prod.fst := by
  rw [get?_merge, Option.isSome_or, Bool.or_eq_true, List.getLast?_isSome, valuesOf_ne_nil_iff,
    or_comm]

end Assoc

end ChatHistory
