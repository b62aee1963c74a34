import ChatHistory.Proofs.Files.Tree
import Mathlib.Data.List.Infix
import Mathlib.Tactic.Common

/-!
# Writing a new file

A file that is written under a new name changes nothing else: all paths in its directory lead to
what they led to before (`IsFree.find_put_of_ne`), and the directory lists the same names with the
new one behind them (`IsFree.entryNames_put`).

`nodeAt_put_of_ne` is the reason for both.  A place that is not the new one holds what it held, also
if it only exists because something lies in it: the directory of the new file was there before.
-/

namespace ChatHistory

/-- The path of an entry of a directory. -/
def Path.entry (directory : Path) (name : String) : Path :=
  { directory with parts := directory.parts ++ [name] }

namespace FileTree

variable {tree : FileTree} {start place spot directory : Path} {name other : String} {node : Node}

/-! ## Walks -/

lemma walk_nil_iff : tree.walk start [] = .ok (place, node) ↔
    start = place ∧ tree.nodeAt start = some node := by
  rw [walk]
  cases tree.nodeAt start <;> simp

lemma walk_cons_iff {rest : List String} {found : Path × Node} :
    tree.walk start (name :: rest) = .ok found ↔ tree.nodeAt start = some .directory ∧
      name.utf8ByteSize ≤ maxNameLength ∧ tree.walk (step start name) rest = .ok found := by
  rw [walk]
  cases hnode : tree.nodeAt start with
  | none => simp
  | some node =>
    cases node with
    | file content => simp
    | directory =>
      by_cases hlong : maxNameLength < name.utf8ByteSize
      · simp [hlong, not_le.2 hlong]
      · simp [hlong, not_lt.1 hlong]

/-- A walk ends at what the last place holds. -/
lemma nodeAt_of_walk {parts : List String} (h : tree.walk start parts = .ok (place, node)) :
    tree.nodeAt place = some node := by
  induction parts generalizing start with
  | nil =>
    obtain ⟨rfl, hnode⟩ := walk_nil_iff.1 h
    exact hnode
  | cons name rest ih => exact ih (walk_cons_iff.1 h).2.2

/-- A walk to a directory begins at one. -/
lemma nodeAt_start_of_walk {parts : List String}
    (h : tree.walk start parts = .ok (place, .directory)) :
    tree.nodeAt start = some .directory := by
  cases parts with
  | nil => exact (walk_nil_iff.1 h).2
  | cons name rest => exact (walk_cons_iff.1 h).1

/-- A walk to a directory goes on with one more component. -/
lemma walk_concat {parts : List String} (h : tree.walk start parts = .ok (place, .directory))
    (name : String) :
    tree.walk start (parts ++ [name]) =
      if maxNameLength < name.utf8ByteSize then .error .nameTooLong
      else tree.walk (step place name) [] := by
  induction parts generalizing start with
  | nil =>
    obtain ⟨rfl, hnode⟩ := walk_nil_iff.1 h
    conv_lhs => rw [List.nil_append, walk, hnode]
  | cons first rest ih =>
    obtain ⟨hnode, hshort, hrest⟩ := walk_cons_iff.1 h
    conv_lhs => rw [List.cons_append, walk, hnode]
    rw [← ih hrest]
    exact if_neg (not_lt.2 hshort)

/-- No directory has to be made on the way to one that exists. -/
lemma makeDirectories_of_walk {parts : List String}
    (h : tree.walk start parts = .ok (place, .directory)) :
    tree.makeDirectories start parts = .ok (tree, place) := by
  induction parts generalizing start with
  | nil =>
    obtain ⟨rfl, -⟩ := walk_nil_iff.1 h
    rfl
  | cons name rest ih =>
    obtain ⟨-, hshort, hrest⟩ := walk_cons_iff.1 h
    simp only [makeDirectories, not_lt.2 hshort, if_false, nodeAt_start_of_walk hrest]
    exact ih hrest

/-! ## Places inside others -/

lemma isInside_iff {inner outer : Path} :
    isInside inner outer ↔
      inner.root = outer.root ∧ ∃ more, more ≠ [] ∧ inner.parts = outer.parts ++ more := by
  simp only [isInside, Bool.and_eq_true, decide_eq_true_eq, List.isPrefixOf_iff_prefix, and_assoc]
  refine and_congr_right fun _ => ?_
  constructor
  · rintro ⟨⟨more, hmore⟩, hlonger⟩
    refine ⟨more, ?_, hmore.symm⟩
    rintro rfl
    simp [← hmore] at hlonger
  · rintro ⟨more, hne, hmore⟩
    refine ⟨⟨more, hmore.symm⟩, ?_⟩
    have hpos := List.length_pos_iff.2 hne
    rw [hmore, List.length_append]
    omega

lemma isInside_trans {inner middle outer : Path} (h : isInside inner middle)
    (h' : isInside middle outer) : isInside inner outer := by
  rw [isInside_iff] at h h' ⊢
  obtain ⟨hroot, more, hne, hmore⟩ := h
  obtain ⟨hroot', more', -, hmore'⟩ := h'
  refine ⟨hroot.trans hroot', more' ++ more, by simp [hne], ?_⟩
  rw [hmore, hmore', List.append_assoc]

/-- An entry of a directory lies in the directory, and in what this lies in. -/
lemma isInside_entry_iff :
    isInside (place.entry name) spot ↔ spot = place ∨ isInside place spot := by
  rw [isInside_iff, isInside_iff]
  constructor
  · rintro ⟨hroot, more, hne, hmore⟩
    obtain ⟨between, last, rfl⟩ := (List.eq_nil_or_concat more).resolve_left hne
    rw [List.concat_eq_append, ← List.append_assoc] at hmore
    have hparts : place.parts = spot.parts ++ between := List.append_inj_left' hmore rfl
    by_cases hbetween : between = []
    · subst hbetween
      rw [List.append_nil] at hparts
      exact .inl (congrArg₂ Path.mk hroot.symm hparts.symm)
    · exact .inr ⟨hroot, between, hbetween, hparts⟩
  · rintro (rfl | ⟨hroot, more, -, hmore⟩)
    · exact ⟨rfl, [name], by simp, rfl⟩
    · refine ⟨hroot, more ++ [name], by simp, ?_⟩
      rw [Path.entry, hmore, List.append_assoc]

/-- What lies in a place that is not above the start is not above the start either. -/
lemma isAbove_of_isInside (h : isInside place spot) (above : isAbove place) : isAbove spot := by
  obtain ⟨-, more, -, hmore⟩ := isInside_iff.1 h
  rw [isAbove, hmore, List.all_append, Bool.and_eq_true] at above
  exact above.1

/-! ## Steps into a directory -/

/-- A name that is none of the detours leads to an entry. -/
lemma step_eq_entry (plain : name ≠ "" ∧ name ≠ "." ∧ name ≠ "..") :
    step place name = place.entry name := by
  obtain ⟨hempty, hpoint, hup⟩ := plain
  simp [step, hempty, hpoint, hup, Path.entry]

/-- No other name leads to an entry, detours included. -/
lemma step_ne_entry (inner : name ≠ "..") (hne : other ≠ name) :
    step place other ≠ place.entry name := by
  have hlength : ∀ parts : List String, parts.length ≤ place.parts.length →
      parts ≠ place.parts ++ [name] := by
    intro parts hle heq
    rw [heq, List.length_append, List.length_singleton] at hle
    omega
  intro h
  have hparts := congrArg Path.parts h
  rw [step] at hparts
  split at hparts
  · rw [up] at hparts
    split at hparts
    · split at hparts
      · have hlast := List.append_inj_right' hparts rfl
        exact inner (List.singleton_inj.1 hlast).symm
      · exact hlength _ le_rfl hparts
    · refine hlength _ ?_ hparts
      simp [Path.parent]
  · split at hparts
    · exact hlength _ le_rfl hparts
    · have hlast := List.append_inj_right' hparts rfl
      exact hne (List.singleton_inj.1 hlast)

/-! ## A new name -/

/-- A directory has no entry of a certain name. -/
structure IsFree (tree : FileTree) (directory place : Path) (name : String) : Prop where
  /-- The directory exists, and the path leads to its place. -/
  found : tree.find directory = .ok (place, .directory)
  /-- The name leads into the directory. -/
  plain : name ≠ "" ∧ name ≠ "." ∧ name ≠ ".."
  /-- The name is none of those that the directory lists. -/
  new : name ∉ tree.entryNames directory

/-- A name that is new goes behind those without repetitions. -/
lemma eraseDups_concat {names : List String} (new : name ∉ names) :
    (names ++ [name]).eraseDups = names.eraseDups ++ [name] := by
  simp [List.eraseDups_append, List.removeAll, new, List.eraseDups_cons]

namespace IsFree

variable (free : tree.IsFree directory place name)
include free

lemma walk_eq : tree.walk (startOf directory) directory.parts = .ok (place, .directory) := by
  have found := free.found
  rw [find] at found
  split at found
  · contradiction
  · exact found

lemma step_eq : step place name = place.entry name :=
  step_eq_entry free.plain

lemma not_isAbove : ¬isAbove (place.entry name) := by
  simp [isAbove, Path.entry, free.plain.2.2]

/-- Nothing is at the place of the new entry or in it. -/
lemma vacant : ∀ entry ∈ tree.nodes,
    entry.1 ≠ place.entry name ∧ ¬isInside entry.1 (place.entry name) := by
  -- Otherwise the directory would list the name.
  have hlisted : ∀ entry ∈ tree.nodes, isInside entry.1 place →
      entry.1.parts[place.parts.length]? ≠ some name := by
    intro entry hentry inside hname
    refine free.new ?_
    rw [entryNames, free.found]
    dsimp only
    rw [List.mem_filter, List.mem_eraseDups, List.mem_filterMap]
    exact ⟨⟨entry, List.mem_filter.2 ⟨hentry, inside⟩, hname⟩, by simpa using free.plain.2.2⟩
  have hentry : isInside (place.entry name) place := isInside_entry_iff.2 (.inl rfl)
  intro entry hmem
  refine ⟨fun heq => ?_, fun inside => ?_⟩
  · refine hlisted entry hmem (heq ▸ hentry) ?_
    simp [heq, Path.entry]
  · refine hlisted entry hmem (isInside_trans inside hentry) ?_
    obtain ⟨-, more, -, hmore⟩ := isInside_iff.1 inside
    simp [hmore, Path.entry]

lemma nodes_put (node : Node) :
    (tree.put (place.entry name) node).nodes = tree.nodes ++ [(place.entry name, node)] := by
  have hkept : tree.nodes.filter (fun entry => entry.1 ≠ place.entry name) = tree.nodes :=
    List.filter_eq_self.2 fun entry hentry => by simpa using (free.vacant entry hentry).1
  simp only [put, hkept]

/-- Nothing was at the place of the new entry. -/
lemma nodeAt_eq_none : tree.nodeAt (place.entry name) = none := by
  have hfind : tree.nodes.find? (fun entry => entry.1 = place.entry name) = none :=
    List.find?_eq_none.2 fun entry hentry => by simpa using (free.vacant entry hentry).1
  have hany : (tree.nodes.any fun entry => isInside entry.1 (place.entry name)) = false :=
    List.any_eq_false.2 fun entry hentry => (free.vacant entry hentry).2
  simp [nodeAt, free.not_isAbove, hfind, hany]

/-- The new entry is there. -/
lemma nodeAt_put_self (node : Node) :
    (tree.put (place.entry name) node).nodeAt (place.entry name) = some node := by
  have hfind : tree.nodes.find? (fun entry => entry.1 = place.entry name) = none :=
    List.find?_eq_none.2 fun entry hentry => by simpa using (free.vacant entry hentry).1
  simp [nodeAt, free.not_isAbove, free.nodes_put, hfind]

/-- All other places hold what they held. -/
lemma nodeAt_put_of_ne (node : Node) (hne : spot ≠ place.entry name) :
    (tree.put (place.entry name) node).nodeAt spot = tree.nodeAt spot := by
  unfold nodeAt
  by_cases above : isAbove spot
  · rw [if_pos above, if_pos above]
  rw [if_neg above, if_neg above, free.nodes_put, List.find?_append]
  cases hfind : tree.nodes.find? fun entry => entry.1 = spot with
  | some entry => rfl
  | none =>
    have hnew : isInside (place.entry name) spot →
        tree.nodes.any fun entry => isInside entry.1 spot := by
      intro inside
      have hplace := nodeAt_of_walk free.walk_eq
      rcases isInside_entry_iff.1 inside with rfl | inside
      · simpa [nodeAt, above, hfind] using hplace
      · -- What shows that the directory exists lies in the other place too.
        have habove : ¬isAbove place := fun h => above (isAbove_of_isInside inside h)
        rw [nodeAt, if_neg habove] at hplace
        rw [List.any_eq_true]
        split at hplace
        · rename_i entry hentry
          have heq : entry.1 = place := by simpa using List.find?_some hentry
          exact ⟨entry, List.mem_of_find?_eq_some hentry, heq ▸ inside⟩
        · split at hplace
          · rename_i hany
            obtain ⟨entry, hentry, hinside⟩ := List.any_eq_true.1 hany
            exact ⟨entry, hentry, isInside_trans hinside inside⟩
          · contradiction
    have hsame : (decide (place.entry name = spot)) = false := decide_eq_false hne.symm
    simp only [List.find?_cons, hsame, List.find?_nil, Option.none_or, List.any_append,
      List.any_cons, List.any_nil, Bool.or_false]
    by_cases inside : isInside (place.entry name) spot
    · rw [hnew inside, Bool.true_or]
    · rw [Bool.not_eq_true] at inside
      rw [inside, Bool.or_false]

/-- A walk that led somewhere still leads there. -/
lemma walk_put (node : Node) {parts : List String} {found : Path × Node}
    (h : tree.walk start parts = .ok found) :
    (tree.put (place.entry name) node).walk start parts = .ok found := by
  have hkept : ∀ {spot : Path} {held : Node}, tree.nodeAt spot = some held →
      (tree.put (place.entry name) node).nodeAt spot = some held := by
    intro spot held hspot
    rw [free.nodeAt_put_of_ne node, hspot]
    rintro rfl
    simp [free.nodeAt_eq_none] at hspot
  induction parts generalizing start with
  | nil =>
    obtain ⟨hplace, hnode⟩ := walk_nil_iff.1 h
    exact walk_nil_iff.2 ⟨hplace, hkept hnode⟩
  | cons first rest ih =>
    obtain ⟨hnode, hshort, hrest⟩ := walk_cons_iff.1 h
    exact walk_cons_iff.2 ⟨hkept hnode, hshort, ih hrest⟩

/-- A path that led somewhere still leads there. -/
lemma find_put (node : Node) {path : Path} {found : Path × Node} (h : tree.find path = .ok found) :
    (tree.put (place.entry name) node).find path = .ok found := by
  unfold find at h ⊢
  split at h
  · contradiction
  · rename_i short
    rw [if_neg short]
    exact free.walk_put node h

/-- No other name leads to the new entry. -/
lemma step_ne (hne : other ≠ name) : step place other ≠ place.entry name :=
  step_ne_entry free.plain.2.2 hne

/-- All other paths in the directory lead to what they led to. -/
theorem find_put_of_ne (node : Node) (hne : other ≠ name) :
    (tree.put (place.entry name) node).find (directory.entry other) =
      tree.find (directory.entry other) := by
  have hwalk := free.walk_eq
  have hstep := free.nodeAt_put_of_ne node (free.step_ne hne)
  unfold find
  split
  · rfl
  · have hlater := walk_concat (free.walk_put node hwalk) other
    have hbefore := walk_concat hwalk other
    rw [walk, hstep] at hlater
    rw [walk] at hbefore
    exact hlater.trans hbefore.symm

/-- All paths in the directory with other names lead to what they led to, also where the path of the
directory itself has no components. -/
lemma find_put_of_name_ne (node : Node) {path : Path} (parent : path.parent = directory)
    (hne : path.name ≠ name) :
    (tree.put (place.entry name) node).find path = tree.find path := by
  subst parent
  rcases List.eq_nil_or_concat path.parts with hparts | ⟨parts, last, hparts⟩
  · have hpath : path.parent = path := by
      rw [Path.parent, hparts]
      exact congrArg (Path.mk path.root) hparts.symm
    have found := free.found
    rw [hpath] at found
    rw [free.find_put node found, found]
  · have hname : path.name = last := by simp [Path.name, hparts]
    have hpath : path = path.parent.entry last := by
      refine congrArg (Path.mk path.root) ?_
      simp [Path.parent, hparts]
    rw [hpath]
    exact free.find_put_of_ne node (hname ▸ hne)

/-- The directory lists the new name in addition. -/
theorem entryNames_put (node : Node) :
    (tree.put (place.entry name) node).entryNames directory =
      tree.entryNames directory ++ [name] := by
  have hnew := free.new
  have hinside : isInside (place.entry name) place := isInside_entry_iff.2 (.inl rfl)
  have hadded : ([(place.entry name, node)].filter fun entry => isInside entry.1 place).filterMap
      (fun entry => entry.1.parts[place.parts.length]?) = [name] := by
    rw [List.filter_cons_of_pos (by exact hinside)]
    simp [Path.entry]
  have hup := free.plain.2.2
  unfold entryNames at hnew ⊢
  rw [free.found] at hnew ⊢
  rw [free.find_put node free.found, free.nodes_put]
  dsimp only at hnew ⊢
  rw [List.mem_filter, List.mem_eraseDups, decide_eq_true hup, and_iff_left rfl] at hnew
  rw [List.filter_append, List.filterMap_append, hadded, eraseDups_concat hnew, List.filter_append]
  simp [hup]

/-- The path of the new entry leads to it, unless it is too long. -/
lemma find_put_self (node : Node)
    (short : (directory.entry name).text.utf8ByteSize < pathLengthLimit)
    (shortName : name.utf8ByteSize ≤ maxNameLength) :
    (tree.put (place.entry name) node).find (directory.entry name) =
      .ok (place.entry name, node) := by
  rw [find, if_neg (not_le.2 short)]
  refine (walk_concat (free.walk_put node free.walk_eq) name).trans ?_
  rw [if_neg (not_lt.2 shortName), free.step_eq, walk, free.nodeAt_put_self]

/-- A file is written under a new name, unless its path is not valid or too long. -/
theorem write_eq (content : List UInt8) :
    tree.write (directory.entry name) content =
      if (directory.entry name).isInvalid then .error .invalidPath
      else if pathLengthLimit ≤ (directory.entry name).text.utf8ByteSize ∨
          maxNameLength < name.utf8ByteSize then refuse (directory.entry name) .nameTooLong
      else .ok (tree.put (place.entry name) (.file content)) := by
  have hparent : (directory.entry name).parts.dropLast = directory.parts := by simp [Path.entry]
  have hlast : (directory.entry name).parts.getLast? = some name := by simp [Path.entry]
  have hstart : startOf (directory.entry name) = startOf directory := rfl
  rw [write, hparent, hstart, makeDirectories_of_walk free.walk_eq, hlast]
  dsimp only
  rw [free.step_eq, free.nodeAt_eq_none]
  by_cases invalid : (directory.entry name).isInvalid
  · rw [if_pos invalid, if_pos invalid]
  by_cases long : pathLengthLimit ≤ (directory.entry name).text.utf8ByteSize
  · rw [if_neg invalid, if_neg invalid, if_pos long, if_pos (.inl long)]
  by_cases longName : maxNameLength < name.utf8ByteSize
  · simp [invalid, long, longName]
  · simp [invalid, long, longName]

/-- A file that has been written under a new name is in the directory, and its path leads to it. -/
theorem put_of_write {content : List UInt8} {written : FileTree}
    (h : tree.write (directory.entry name) content = .ok written) :
    written = tree.put (place.entry name) (.file content) ∧
      written.isFile (directory.entry name) = .ok true := by
  rw [free.write_eq] at h
  split at h
  · contradiction
  rename_i valid
  split at h
  · contradiction
  rename_i short
  rw [not_or, not_le, not_lt] at short
  obtain rfl := Except.ok.inj h
  refine ⟨rfl, ?_⟩
  simp [isFile, node?, valid, free.find_put_self _ short.1 short.2]

end IsFree

end FileTree

end ChatHistory
