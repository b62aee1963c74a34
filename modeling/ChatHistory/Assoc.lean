/-!
# Ordered string maps

A map from names to values that remembers the order in which its names were first set.  Setting a
name that is present changes its value in place; a new name goes to the end.  `get?` is the view of
such a map: `get?_set` says what setting does to it.
-/

namespace ChatHistory

/-- A list of named values. -/
abbrev Assoc (α : Type) := List (String × α)

namespace Assoc

variable {α : Type}

/-- The value of a name. -/
def get? : Assoc α → String → Option α
  | [], _ => none
  | (key, value) :: rest, name => if key = name then some value else get? rest name

/-- The map with the value of one name changed, or the name added at the end. -/
def set : Assoc α → String → α → Assoc α
  | [], name, new => [(name, new)]
  | (key, value) :: rest, name, new =>
    if key = name then (key, new) :: rest else (key, value) :: set rest name new

/-- Whether a name has a value. -/
def contains (map : Assoc α) (name : String) : Bool :=
  (map.get? name).isSome

/-- The map without a name. -/
def erase (map : Assoc α) (name : String) : Assoc α :=
  map.filter fun entry => entry.1 ≠ name

/-- The first map with all entries of the second one set in turn. -/
def merge (map others : Assoc α) : Assoc α :=
  others.foldl (fun m entry => m.set entry.1 entry.2) map

/-- The map that a list of entries describes: the last value of a name counts, in the place of its
first. -/
def ofEntries (entries : List (String × α)) : Assoc α :=
  merge [] entries

theorem get?_set (map : Assoc α) (name other : String) (new : α) :
    (map.set name new).get? other = if name = other then some new else map.get? other := by
  induction map with
  | nil => simp [set, get?]
  | cons entry rest ih =>
    obtain ⟨key, value⟩ := entry
    by_cases h : key = name
    · subst h
      by_cases ho : key = other <;> simp [set, get?, ho]
    · by_cases ho : key = other
      · subst ho
        simp [set, get?, h, Ne.symm h]
      · simp [set, get?, h, ho, ih]

theorem get?_filter (map : Assoc α) (keep : String → Bool) (name : String) :
    get? (map.filter fun entry => keep entry.1) name =
      if keep name then map.get? name else none := by
  induction map with
  | nil => simp [get?]
  | cons entry rest ih =>
    obtain ⟨key, value⟩ := entry
    by_cases hk : keep key
    · by_cases hn : key = name
      · subst hn
        simp [get?, hk]
      · simp [get?, hk, hn, ih]
    · by_cases hn : key = name
      · subst hn
        simp [hk, ih]
      · simp [get?, hk, hn, ih]

end Assoc

end ChatHistory
