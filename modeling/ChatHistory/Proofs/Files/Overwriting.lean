import ChatHistory.Proofs.Files.Writing

/-!
# Writing a file that exists

A file that is written again changes nothing but its content: every path leads to the place that it
led to, and only what stands at the place of the file is another (`find_put_of_file`).  A directory
lists the same names, but for their order (`entryNames_put_perm`).

Two paths in one directory lead to different places if their names differ (`find_ne_of_name_ne`).
-/

namespace ChatHistory.FileTree

variable {tree : FileTree} {start place spot path other directory : Path} {name : String}
  {node : Node} {old new content : List UInt8}

/-! ## Places of files -/

/-- A walk that goes one component further goes on from a directory. -/
lemma walk_concat_iff {parts : List String} {found : Path × Node} :
    tree.walk start (parts ++ [name]) = .ok found ↔ ∃ place,
      tree.walk start parts = .ok (place, .directory) ∧ name.utf8ByteSize ≤ maxNameLength ∧
        tree.walk (step place name) [] = .ok found := by
  constructor
  · intro h
    induction parts generalizing start with
    | nil =>
      obtain ⟨hnode, hshort, hrest⟩ := walk_cons_iff.1 h
      exact ⟨start, walk_nil_iff.2 ⟨rfl, hnode⟩, hshort, hrest⟩
    | cons first rest ih =>
      obtain ⟨hnode, hfirst, hrest⟩ := walk_cons_iff.1 h
      obtain ⟨place, hplace, hshort, hlast⟩ := ih hrest
      exact ⟨place, walk_cons_iff.2 ⟨hnode, hfirst, hplace⟩, hshort, hlast⟩
  · rintro ⟨place, hplace, hshort, hlast⟩
    rw [walk_concat hplace, if_neg (not_lt.2 hshort), hlast]

/-- A path leads to what a walk finds, unless it is too long. -/
lemma find_eq_ok_iff {found : Path × Node} :
    tree.find path = .ok found ↔ path.text.utf8ByteSize < pathLengthLimit ∧
      tree.walk (startOf path) path.parts = .ok found := by
  unfold find
  split
  · rename_i long
    simp [not_lt.2 long]
  · rename_i short
    simp [not_le.1 short]

/-- What a path leads to stands at its place. -/
lemma nodeAt_of_find (h : tree.find path = .ok (place, node)) : tree.nodeAt place = some node :=
  nodeAt_of_walk (find_eq_ok_iff.1 h).2

/-- The content of a file is what the place of its path holds. -/
lemma read_eq_ok_iff : tree.read path = .ok content ↔
    ¬path.isInvalid ∧ ∃ place, tree.find path = .ok (place, .file content) := by
  unfold read
  by_cases invalid : path.isInvalid
  · simp [invalid]
  · cases hfind : tree.find path with
    | error cause => simp [invalid, refuse]
    | ok found =>
      obtain ⟨place, node⟩ := found
      cases node <;> simp [invalid, refuse]

/-- A file has an entry of its own, and its place is not above the start. -/
lemma exists_entry_of_nodeAt (h : tree.nodeAt place = some (.file content)) :
    ¬isAbove place ∧ ∃ entry ∈ tree.nodes, entry.1 = place := by
  unfold nodeAt at h
  split at h
  · cases h
  rename_i below
  refine ⟨below, ?_⟩
  split at h
  · rename_i entry hentry
    exact ⟨entry, List.mem_of_find?_eq_some hentry, by simpa using List.find?_some hentry⟩
  · split at h <;> cases h

/-- The place of a file is one step away from the directory that holds it. -/
lemma exists_directory_of_find (h : tree.find path = .ok (place, .file content)) :
    path.parts = path.parts.dropLast ++ [path.name] ∧ ∃ directory,
      tree.walk (startOf path) path.parts.dropLast = .ok (directory, .directory) ∧
        path.name.utf8ByteSize ≤ maxNameLength ∧ step directory path.name = place := by
  obtain ⟨-, hwalk⟩ := find_eq_ok_iff.1 h
  rcases List.eq_nil_or_concat path.parts with hparts | ⟨parts, name, hparts⟩
  · -- The start is a directory, whether or not it is the root.
    rw [hparts] at hwalk
    obtain ⟨rfl, hnode⟩ := walk_nil_iff.1 hwalk
    refine absurd ?_ (exists_entry_of_nodeAt hnode).1
    unfold startOf
    split <;> rfl
  · have hname : path.name = name := by simp [Path.name, hparts]
    have hdrop : path.parts.dropLast = parts := by simp [hparts]
    rw [List.concat_eq_append] at hparts
    rw [hname, hdrop]
    refine ⟨hparts, ?_⟩
    rw [hparts] at hwalk
    obtain ⟨directory, hdirectory, hshort, hlast⟩ := walk_concat_iff.1 hwalk
    exact ⟨directory, hdirectory, hshort, (walk_nil_iff.1 hlast).1⟩

/-- Paths with different names in one directory lead to different places, if one of the names leads
into the directory. -/
theorem find_ne_of_name_ne {held : List UInt8} (parent : other.parent = path.parent)
    (plain : path.name ≠ "" ∧ path.name ≠ "." ∧ path.name ≠ "..") (hne : other.name ≠ path.name)
    (h : tree.find path = .ok (place, .file content)) :
    tree.find other ≠ .ok (place, .file held) := by
  intro hother
  have hroot : other.parent.root = path.parent.root := congrArg Path.root parent
  have hstart : startOf other = startOf path := by
    simp only [Path.parent] at hroot
    simp only [startOf, hroot]
  have hdrop : other.parts.dropLast = path.parts.dropLast := congrArg Path.parts parent
  obtain ⟨-, directory, hdirectory, -, hplace⟩ := exists_directory_of_find h
  obtain ⟨-, same, hsame, -, hplace'⟩ := exists_directory_of_find hother
  rw [hstart, hdrop, hdirectory] at hsame
  obtain rfl : directory = same := congrArg Prod.fst (Except.ok.inj hsame)
  have hentry : step directory other.name = directory.entry path.name := by
    rw [hplace', ← hplace, step_eq_entry plain]
  exact step_ne_entry plain.2.2 hne hentry

/-! ## The same place with another content -/

/-- Nothing but the content of the file is another. -/
lemma nodeAt_put_of_file (h : tree.nodeAt place = some (.file old)) (new : List UInt8)
    (spot : Path) :
    (tree.put place (.file new)).nodeAt spot =
      if spot = place then some (.file new) else tree.nodeAt spot := by
  obtain ⟨below, entry, hentry, hplace⟩ := exists_entry_of_nodeAt h
  have hnodes : (tree.put place (.file new)).nodes =
      tree.nodes.filter (fun entry => entry.1 ≠ place) ++ [(place, .file new)] := rfl
  unfold nodeAt
  by_cases hspot : spot = place
  · subst hspot
    have hfind : (tree.nodes.filter fun entry => entry.1 ≠ spot).find?
        (fun entry => entry.1 = spot) = none := by
      rw [List.find?_eq_none]
      intro entry hmem
      simpa using (List.mem_filter.1 hmem).2
    rw [if_neg below, if_pos rfl, hnodes, List.find?_append, hfind]
    simp
  · have hfind : (tree.nodes.filter fun entry => entry.1 ≠ place).find?
        (fun entry => entry.1 = spot) = tree.nodes.find? fun entry => entry.1 = spot := by
      rw [List.find?_filter]
      refine congrArg (List.find? · tree.nodes) (funext fun entry => ?_)
      by_cases hentry : entry.1 = spot <;> simp [hentry, hspot]
    -- What lies in another place is the same, the file included.
    have hany : ((tree.nodes.filter fun entry => entry.1 ≠ place) ++ [(place, Node.file new)]).any
          (fun entry => isInside entry.1 spot) =
        tree.nodes.any fun entry => isInside entry.1 spot := by
      rw [Bool.eq_iff_iff]
      simp only [List.any_append, List.any_cons, List.any_nil, Bool.or_false, Bool.or_eq_true,
        List.any_eq_true, List.mem_filter, decide_eq_true_eq]
      constructor
      · rintro (⟨inner, ⟨hinner, -⟩, hinside⟩ | hinside)
        · exact ⟨inner, hinner, hinside⟩
        · exact ⟨entry, hentry, hplace ▸ hinside⟩
      · rintro ⟨inner, hinner, hinside⟩
        by_cases hsame : inner.1 = place
        · exact .inr (hsame ▸ hinside)
        · exact .inl ⟨inner, ⟨hinner, hsame⟩, hinside⟩
    have hother : (decide (place = spot)) = false := decide_eq_false fun heq => hspot heq.symm
    rw [if_neg hspot, hnodes, List.find?_append, hfind, hany]
    simp only [List.find?_cons, hother, List.find?_nil, Option.or_none]

/-- What a path led to, where the file at a place has another content. -/
def rewritten (place : Path) (new : List UInt8) (found : Path × Node) : Path × Node :=
  if found.1 = place then (place, .file new) else found

/-- Every walk leads where it led. -/
lemma walk_put_of_file (h : tree.nodeAt place = some (.file old)) (new : List UInt8) (start : Path)
    (parts : List String) :
    (tree.put place (.file new)).walk start parts =
      (tree.walk start parts).map (rewritten place new) := by
  induction parts generalizing start with
  | nil =>
    rw [walk, walk, nodeAt_put_of_file h]
    by_cases hstart : start = place
    · subst hstart
      simp [h, Except.map, rewritten]
    · rw [if_neg hstart]
      cases tree.nodeAt start <;> simp [Except.map, rewritten, hstart]
  | cons name rest ih =>
    rw [walk, walk, nodeAt_put_of_file h]
    by_cases hstart : start = place
    · subst hstart
      simp [h, Except.map]
    · rw [if_neg hstart]
      cases tree.nodeAt start with
      | none => rfl
      | some node =>
        cases node with
        | file content => rfl
        | directory =>
          dsimp only
          split
          · rfl
          · exact ih _

/-- Every path leads where it led. -/
theorem find_put_of_file (h : tree.nodeAt place = some (.file old)) (new : List UInt8)
    (path : Path) :
    (tree.put place (.file new)).find path = (tree.find path).map (rewritten place new) := by
  unfold find
  split
  · rfl
  · exact walk_put_of_file h new _ _

/-- A path that leads elsewhere is not concerned. -/
lemma find_put_of_place_ne (h : tree.nodeAt place = some (.file old)) (new : List UInt8)
    (hne : ∀ content, tree.find path ≠ .ok (place, .file content)) :
    (tree.put place (.file new)).find path = tree.find path := by
  rw [find_put_of_file h]
  cases hfind : tree.find path with
  | error cause => rfl
  | ok found =>
    obtain ⟨spot, node⟩ := found
    have hplace : spot ≠ place := by
      rintro rfl
      have hnode := nodeAt_of_find hfind
      rw [h, Option.some.injEq] at hnode
      exact hne old (by rw [hfind, hnode])
    simp [Except.map, rewritten, hplace]

/-- The same paths lead to files. -/
lemma isFile_put_of_file (h : tree.nodeAt place = some (.file old)) (new : List UInt8)
    (path : Path) : (tree.put place (.file new)).isFile path = tree.isFile path := by
  unfold isFile node?
  rw [find_put_of_file h]
  by_cases invalid : path.isInvalid
  · rw [if_pos invalid, if_pos invalid]
  rw [if_neg invalid, if_neg invalid]
  cases hfind : tree.find path with
  | error cause => rfl
  | ok found =>
    obtain ⟨spot, node⟩ := found
    by_cases hspot : spot = place
    · subst hspot
      have hnode : node = .file old := Option.some.inj ((nodeAt_of_find hfind).symm.trans h)
      simp [Except.map, rewritten, hnode]
    · simp [Except.map, rewritten, hspot]

/-- A directory lists the same names. -/
theorem entryNames_put_perm (h : tree.nodeAt place = some (.file old)) (new : List UInt8)
    (directory : Path) :
    ((tree.put place (.file new)).entryNames directory).Perm (tree.entryNames directory) := by
  refine (List.perm_ext_iff_of_nodup (nodup_entryNames _ _) (nodup_entryNames _ _)).2 fun name => ?_
  unfold entryNames
  rw [find_put_of_file h]
  cases hfind : tree.find directory with
  | error cause => rfl
  | ok found =>
    obtain ⟨spot, node⟩ := found
    by_cases hspot : spot = place
    · subst hspot
      have hnode : node = .file old := Option.some.inj ((nodeAt_of_find hfind).symm.trans h)
      simp [Except.map, rewritten, hnode]
    · simp only [Except.map, rewritten, if_neg hspot]
      cases node with
      | file content => rfl
      | directory =>
        simp only [List.mem_filter, List.mem_eraseDups, List.mem_filterMap]
        refine and_congr_left fun _ => ?_
        obtain ⟨-, entry, hentry, hplace⟩ := exists_entry_of_nodeAt h
        constructor
        · rintro ⟨inner, ⟨hinner, hinside⟩, hname⟩
          rcases List.mem_append.1 hinner with hkept | hnew
          · exact ⟨inner, ⟨(List.mem_filter.1 hkept).1, hinside⟩, hname⟩
          · obtain rfl := List.mem_singleton.1 hnew
            exact ⟨entry, ⟨hentry, hplace ▸ hinside⟩, hplace ▸ hname⟩
        · rintro ⟨inner, ⟨hinner, hinside⟩, hname⟩
          by_cases hsame : inner.1 = place
          · refine ⟨(place, .file new), ⟨?_, ?_⟩, ?_⟩
            · exact List.mem_append_right _ (List.mem_singleton_self _)
            · exact hsame ▸ hinside
            · exact hsame ▸ hname
          · refine ⟨inner, ⟨?_, hinside⟩, hname⟩
            exact List.mem_append_left _ (List.mem_filter.2 ⟨hinner, by simpa using hsame⟩)

/-! ## Writing -/

/-- A file that can be read can be written again, at its place. -/
theorem write_of_find (valid : ¬path.isInvalid)
    (h : tree.find path = .ok (place, .file old)) (new : List UInt8) :
    tree.write path new = .ok (tree.put place (.file new)) := by
  obtain ⟨hshort, -⟩ := find_eq_ok_iff.1 h
  obtain ⟨hparts, directory, hdirectory, hname, hplace⟩ := exists_directory_of_find h
  have hlast : path.parts.getLast? = some path.name := by
    rw [hparts]
    simp
  rw [write, if_neg valid, if_neg (not_le.2 hshort), makeDirectories_of_walk hdirectory]
  dsimp only
  rw [hlast]
  dsimp only
  rw [if_neg (not_lt.2 hname), hplace, nodeAt_of_find h]

end ChatHistory.FileTree
