import ChatHistory.Files.Tree
import ChatHistory.Proofs.Fault
import Mathlib.Data.List.Basic

/-!
# Looking up files

A path leads to a file exactly if its content can be read (`isFile_iff`).  A directory lists each
name once (`nodup_entryNames`).  If all of some paths can be looked up, `FileTree.filesAmong` picks
those that lead to files (`filesAmong_eq`).
-/

namespace ChatHistory.FileTree

variable {tree : FileTree} {path : Path}

/-- What a path leads to is a file if its content can be read. -/
theorem isFile_iff : tree.isFile path = .ok true ↔ ∃ content, tree.read path = .ok content := by
  unfold isFile node? read
  by_cases invalid : path.isInvalid
  · simp [invalid]
  · cases hfind : tree.find path with
    | error cause =>
      cases cause <;> simp [invalid, refuse]
    | ok found =>
      obtain ⟨place, node⟩ := found
      cases node <;> simp [invalid, refuse]

/-- Erasing repetitions leaves none. -/
lemma nodup_eraseDups (names : List String) : names.eraseDups.Nodup := by
  -- The recursion goes on with the other names, which are fewer, but not the tail of the list.
  induction hlength : names.length using Nat.strongRecOn generalizing names with
  | ind length ih =>
    cases names with
    | nil => exact List.nodup_nil
    | cons name rest =>
      rw [List.eraseDups_cons]
      refine List.nodup_cons.2 ⟨?_, ?_⟩
      · rw [List.mem_eraseDups, List.mem_filter]
        simp
      · refine ih _ ?_ _ rfl
        rw [← hlength, List.length_cons]
        exact Nat.lt_succ_of_le (List.length_filter_le _ _)

/-- A directory lists each name once. -/
theorem nodup_entryNames (tree : FileTree) (directory : Path) :
    (tree.entryNames directory).Nodup := by
  unfold entryNames
  split
  · exact (nodup_eraseDups _).filter _
  · exact List.nodup_nil

/-- Among paths that can be looked up, those that lead to files are picked in order. -/
theorem filesAmong_eq {paths : List Path}
    (listed : ∀ path ∈ paths, ∃ regular, tree.isFile path = .ok regular) :
    tree.filesAmong paths =
      .ok (paths.filter fun path => (tree.isFile path).toOption = some true) := by
  induction paths with
  | nil => rfl
  | cons path rest ih =>
    have hrest := ih fun other ho => listed other (List.mem_cons_of_mem _ ho)
    obtain ⟨regular, hregular⟩ := listed path List.mem_cons_self
    cases regular <;>
      simp [filesAmong, hregular, hrest, Except.toOption]

/-- Whether a path leads to a file depends on what it leads to. -/
lemma isFile_congr {other : FileTree} (h : other.find path = tree.find path) :
    other.isFile path = tree.isFile path := by
  simp only [isFile, node?, h]

/-- What can be read depends on what a path leads to. -/
lemma read_congr {other : FileTree} (h : other.find path = tree.find path) :
    other.read path = tree.read path := by
  simp only [read, h]

/-- The same files are picked where the same paths lead to files. -/
lemma filesAmong_congr {other : FileTree} {paths : List Path}
    (h : ∀ path ∈ paths, other.isFile path = tree.isFile path) :
    other.filesAmong paths = tree.filesAmong paths := by
  induction paths with
  | nil => rfl
  | cons path rest ih =>
    rw [filesAmong, filesAmong, h path List.mem_cons_self,
      ih fun other ho => h other (List.mem_cons_of_mem _ ho)]

lemma filesAmong_cons_iff {rest files : List Path} :
    tree.filesAmong (path :: rest) = .ok files ↔
      ∃ regular, tree.isFile path = .ok regular ∧ ∃ others, tree.filesAmong rest = .ok others ∧
        (if regular then path :: others else others) = files := by
  simp [filesAmong, bind_eq_ok_iff]

/-- Files are picked among some paths and among others behind them. -/
lemma filesAmong_append_iff {paths more files : List Path} :
    tree.filesAmong (paths ++ more) = .ok files ↔
      ∃ first, tree.filesAmong paths = .ok first ∧ ∃ others, tree.filesAmong more = .ok others ∧
        first ++ others = files := by
  induction paths generalizing files with
  | nil => simp [filesAmong]
  | cons path rest ih =>
    simp only [List.cons_append, filesAmong_cons_iff, ih]
    constructor
    · rintro ⟨regular, hregular, -, ⟨first, hfirst, others, hothers, rfl⟩, rfl⟩
      refine ⟨_, ⟨regular, hregular, first, hfirst, rfl⟩, others, hothers, ?_⟩
      cases regular <;> rfl
    · rintro ⟨-, ⟨regular, hregular, first, hfirst, rfl⟩, others, hothers, rfl⟩
      refine ⟨regular, hregular, _, ⟨first, hfirst, others, hothers, rfl⟩, ?_⟩
      cases regular <;> rfl

/-- The files picked are among the paths. -/
lemma sublist_of_filesAmong {paths files : List Path} (h : tree.filesAmong paths = .ok files) :
    files.Sublist paths := by
  induction paths generalizing files with
  | nil =>
    cases h
    exact .slnil
  | cons path rest ih =>
    obtain ⟨regular, -, others, hothers, rfl⟩ := filesAmong_cons_iff.1 h
    cases regular with
    | false => exact (ih hothers).cons path
    | true => exact (ih hothers).cons_cons path

/-- What is picked are files. -/
lemma isFile_of_mem_filesAmong {paths files : List Path} (h : tree.filesAmong paths = .ok files)
    (hpath : path ∈ files) : tree.isFile path = .ok true := by
  induction paths generalizing files with
  | nil =>
    cases h
    contradiction
  | cons first rest ih =>
    obtain ⟨regular, hregular, others, hothers, rfl⟩ := filesAmong_cons_iff.1 h
    cases regular with
    | false => exact ih hothers hpath
    | true =>
      rcases List.mem_cons.1 hpath with rfl | hrest
      · exact hregular
      · exact ih hothers hrest

end ChatHistory.FileTree
