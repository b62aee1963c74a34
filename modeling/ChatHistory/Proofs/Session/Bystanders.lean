import ChatHistory.Proofs.Files.Writing
import ChatHistory.Proofs.Session.LogFiles
import ChatHistory.Proofs.Session.Search
import ChatHistory.Proofs.Text.Lines

/-!
# Files that have nothing to do with a session

A new log file in the directory of a session (`AddsLog`) changes neither the files of the session
nor its history, if the file continues neither the session nor one of its files, and its first line
holds no number with too many digits (`history_unrelated`).  Such a number, in a file of its own,
hides the whole session (`logFiles_long_number`).

`Undisturbed` says what the other paths in the directory keep; then the new file is one more
candidate, somewhere among the others (`candidates_added`).
-/

namespace ChatHistory

/-! ## One more file -/

/-- Sorted names stand in their order. -/
lemma pairwise_mergeSort_names (names : List String) :
    (names.mergeSort fun a b => decide (a ≤ b)).Pairwise (· ≤ ·) := by
  have transitive : ∀ a b c : String, decide (a ≤ b) → decide (b ≤ c) → decide (a ≤ c) := by
    simpa using fun a b c : String => String.le_trans
  have total : ∀ a b : String, decide (a ≤ b) || decide (b ≤ a) := by
    simpa using String.le_total
  simpa using List.pairwise_mergeSort transitive total names

/-- Names in their order are sorted, whatever their order was before. -/
lemma mergeSort_names_eq {names sorted : List String} (perm : sorted.Perm names)
    (ordered : sorted.Pairwise (· ≤ ·)) :
    (names.mergeSort fun a b => decide (a ≤ b)) = sorted :=
  ((List.mergeSort_perm names _).trans perm.symm).eq_of_pairwise
    (fun _ _ _ _ => String.le_antisymm) (pairwise_mergeSort_names names) ordered

/-- Sorted with one more name, the other names keep their order. -/
lemma exists_mergeSort_concat (names : List String) (name : String) :
    ∃ before after,
      ((names ++ [name]).mergeSort fun a b => decide (a ≤ b)) = before ++ name :: after ∧
        (names.mergeSort fun a b => decide (a ≤ b)) = before ++ after := by
  have hperm := List.mergeSort_perm (names ++ [name]) fun a b => decide (a ≤ b)
  have hsorted := pairwise_mergeSort_names (names ++ [name])
  obtain ⟨before, after, hsplit⟩ := List.append_of_mem
    (hperm.mem_iff.2 (List.mem_append_right names (List.mem_singleton_self name)))
  refine ⟨before, after, hsplit, ?_⟩
  rw [hsplit] at hperm hsorted
  have hothers : (before ++ after).Perm names := by
    have hmiddle := List.perm_middle.symm.trans (hperm.trans (List.perm_append_comm))
    exact hmiddle.cons_inv
  have hkept : (before ++ after).Pairwise (· ≤ ·) :=
    hsorted.sublist ((List.Sublist.refl before).append (List.sublist_cons_self name after))
  exact mergeSort_names_eq hothers hkept

lemma Path.parent_beside (path : Path) (name : String) :
    (path.beside name).parent = path.parent := by
  simp [Path.beside, Path.parent]

namespace SessionStore

variable {store more : SessionStore} {primary path : Path} {session project name : String}

/-- The second store is the first one with a new log file beside a path.  The name of the file may
be among those that are locked, so that the file may not be read. -/
structure AddsLog (store more : SessionStore) (primary : Path) (name : String) : Prop where
  /-- The directory exists. -/
  directory : ∃ place, store.tree.find primary.parent = .ok (place, .directory)
  /-- The file has the name of a log. -/
  log : isLogName name
  /-- The name is new. -/
  new : name ∉ store.tree.entryNames primary.parent
  /-- The path itself has another name. -/
  other : primary.name ≠ name
  /-- The file has been written, and nothing else. -/
  written : ∃ content tree, store.tree.write (primary.beside name) content = .ok tree ∧
    more = { store with tree := tree }

lemma plain_of_isLogName (log : isLogName name) : name ≠ "" ∧ name ≠ "." ∧ name ≠ ".." := by
  refine ⟨?_, ?_, ?_⟩ <;> rintro rfl <;> exact absurd log (by decide)

lemma readLines_congr (locked : more.tree.locked = store.tree.locked)
    (h : more.tree.find path = store.tree.find path) :
    more.readLines path = store.readLines path := by
  simp only [readLines, locked, FileTree.read_congr h]

lemma headOf_congr (h : more.readLines path = store.readLines path) :
    more.headOf path = store.headOf path := by
  simp only [headOf, firstEntry, h]

lemma readAllEntries_congr {paths : List Path}
    (h : ∀ path ∈ paths, more.readLines path = store.readLines path) :
    more.readAllEntries paths = store.readAllEntries paths := by
  induction paths with
  | nil => rfl
  | cons path rest ih =>
    rw [readAllEntries, readAllEntries, readEntries, readEntries, h path List.mem_cons_self,
      ih fun other ho => h other (List.mem_cons_of_mem _ ho)]

/-- What a new log file leaves as it was. -/
structure Undisturbed (store more : SessionStore) (primary : Path) (name : String) : Prop where
  projects : more.projects = store.projects
  limit : more.limit = store.limit
  locked : more.tree.locked = store.tree.locked
  /-- All other paths in the directory lead to what they led to. -/
  find_eq : ∀ path, path.parent = primary.parent → path.name ≠ name →
    more.tree.find path = store.tree.find path
  /-- The directory lists the new name in addition. -/
  entryNames : more.tree.entryNames primary.parent =
    store.tree.entryNames primary.parent ++ [name]
  /-- The path leads to the file. -/
  regular : more.tree.isFile (primary.beside name) = .ok true

lemma AddsLog.undisturbed (h : AddsLog store more primary name) :
    Undisturbed store more primary name := by
  obtain ⟨place, found⟩ := h.directory
  obtain ⟨content, tree, written, rfl⟩ := h.written
  have free : store.tree.IsFree primary.parent place name :=
    ⟨found, plain_of_isLogName h.log, h.new⟩
  obtain ⟨rfl, regular⟩ := free.put_of_write written
  exact ⟨rfl, rfl, rfl, fun _ parent hne => free.find_put_of_name_ne _ parent hne,
    free.entryNames_put _, regular⟩

lemma Undisturbed.readLines_eq (h : Undisturbed store more primary name)
    (parent : path.parent = primary.parent) (hne : path.name ≠ name) :
    more.readLines path = store.readLines path :=
  readLines_congr h.locked (h.find_eq path parent hne)

/-- The candidates are the files among the paths with names of logs, with their heads. -/
lemma candidates_eq_ok_iff {candidates : List Candidate} :
    store.candidates primary = .ok candidates ↔
      ∃ files, store.tree.filesAmong (store.logPaths primary) = .ok files ∧
        (files.map fun path => ⟨path, store.headOf path⟩) = candidates := by
  simp [candidates_eq_bind, bind_eq_ok_iff]

/-- The candidates lie beside the path, with names that the directory lists. -/
lemma beside_of_candidates {candidates : List Candidate}
    (h : store.candidates primary = .ok candidates) :
    ∀ candidate ∈ candidates, candidate.path.parent = primary.parent ∧
      candidate.path.name ∈ store.tree.entryNames primary.parent := by
  obtain ⟨files, hfiles, rfl⟩ := candidates_eq_ok_iff.1 h
  intro candidate hcandidate
  obtain ⟨path, hpath, rfl⟩ := List.mem_map.1 hcandidate
  obtain ⟨listed, hlisted, -, -, rfl⟩ :=
    mem_logPaths.1 ((FileTree.sublist_of_filesAmong hfiles).subset hpath)
  exact ⟨primary.parent_beside listed, by rwa [primary.name_beside]⟩

/-- A new log file is one more candidate. -/
lemma candidates_added (added : AddsLog store more primary name) {candidates : List Candidate}
    (h : store.candidates primary = .ok candidates) :
    ∃ before after, candidates = before ++ after ∧ more.candidates primary =
      .ok (before ++ ⟨primary.beside name, more.headOf (primary.beside name)⟩ :: after) := by
  have undisturbed := added.undisturbed
  obtain ⟨before, after, hlater, hbefore⟩ := exists_mergeSort_concat
    ((store.tree.entryNames primary.parent).filter fun other =>
      isLogName other && other ≠ primary.name) name
  have hpaths : store.logPaths primary = before.map primary.beside ++ after.map primary.beside := by
    rw [logPaths, hbefore, List.map_append]
  have hpathsLater : more.logPaths primary =
      before.map primary.beside ++ primary.beside name :: after.map primary.beside := by
    have hkept : [name].filter (fun other => isLogName other && other ≠ primary.name) = [name] := by
      simp [added.log, added.other.symm]
    rw [logPaths, undisturbed.entryNames, List.filter_append, hkept, hlater, List.map_append,
      List.map_cons]
  -- All paths but the new one lead to what they led to.
  have hfind : ∀ path ∈ store.logPaths primary, more.tree.find path = store.tree.find path := by
    intro path hpath
    obtain ⟨other, hother, -, -, rfl⟩ := mem_logPaths.1 hpath
    refine undisturbed.find_eq _ (primary.parent_beside other) ?_
    rw [primary.name_beside]
    rintro rfl
    exact added.new hother
  have hsame : ∀ paths ⊆ store.logPaths primary,
      more.tree.filesAmong paths = store.tree.filesAmong paths := fun paths hsub =>
    FileTree.filesAmong_congr fun path hpath => FileTree.isFile_congr (hfind path (hsub hpath))
  have hhead : ∀ paths ⊆ store.logPaths primary, ∀ files, store.tree.filesAmong paths = .ok files →
      (files.map fun path => (⟨path, more.headOf path⟩ : Candidate)) =
        files.map fun path => ⟨path, store.headOf path⟩ := by
    intro paths hsub files hfiles
    refine List.map_congr_left fun path hpath => ?_
    have hmem := hsub ((FileTree.sublist_of_filesAmong hfiles).subset hpath)
    rw [headOf_congr (readLines_congr undisturbed.locked (hfind path hmem))]
  have hfirst : before.map primary.beside ⊆ store.logPaths primary :=
    hpaths ▸ List.subset_append_left _ _
  have hlast : after.map primary.beside ⊆ store.logPaths primary :=
    hpaths ▸ List.subset_append_right _ _
  obtain ⟨files, hfiles, rfl⟩ := candidates_eq_ok_iff.1 h
  rw [hpaths, FileTree.filesAmong_append_iff] at hfiles
  obtain ⟨first, hfirstFiles, last, hlastFiles, rfl⟩ := hfiles
  refine ⟨_, _, List.map_append, candidates_eq_ok_iff.2 ?_⟩
  refine ⟨first ++ primary.beside name :: last, ?_, ?_⟩
  · rw [hpathsLater, FileTree.filesAmong_append_iff]
    refine ⟨first, (hsame _ hfirst).trans hfirstFiles, _, FileTree.filesAmong_cons_iff.2 ?_, rfl⟩
    exact ⟨true, undisturbed.regular, last, (hsame _ hlast).trans hlastFiles, rfl⟩
  · rw [List.map_append, List.map_cons, hhead _ hfirst _ hfirstFiles, hhead _ hlast _ hlastFiles]

/-- The files of a session are the first one, if it exists, and what a search finds. -/
lemma logFiles_eq_ok_iff {paths : List Path} :
    store.logFiles session project = .ok paths ↔
      store.tree.isFile (store.primaryPath session project) = .ok false ∧ [] = paths ∨
      store.tree.isFile (store.primaryPath session project) = .ok true ∧ ∃ candidates,
        store.candidates (store.primaryPath session project) = .ok candidates ∧ ∃ found,
          Chain.follow session (store.limit - 1) candidates = .ok found ∧
            store.primaryPath session project :: found.map Candidate.path = paths := by
  rw [logFiles]
  cases store.tree.isFile (store.primaryPath session project) with
  | error fault => simp
  | ok regular => cases regular <;> simp [bind_eq_ok_iff]

/-- A new log file that continues neither a session nor one of its files is none of these files. -/
lemma logFiles_added {paths : List Path}
    (added : AddsLog store more (store.primaryPath session project) name)
    (located : store.logFiles session project = .ok paths)
    (unrelated : ∀ id ∈ session :: paths.map Path.stem,
      ¬more.Continues ((store.primaryPath session project).beside name) id)
    (parses : more.Parses ((store.primaryPath session project).beside name)) :
    more.logFiles session project = .ok paths := by
  have undisturbed := added.undisturbed
  have hprimary : more.primaryPath session project = store.primaryPath session project := by
    rw [primaryPath, primaryPath, projectDirectory, projectDirectory, undisturbed.projects]
  have hregular := FileTree.isFile_congr
    (undisturbed.find_eq (store.primaryPath session project) rfl added.other)
  rw [logFiles_eq_ok_iff, hprimary, hregular, undisturbed.limit]
  rcases logFiles_eq_ok_iff.1 located with hnone | ⟨hfile, candidates, hcandidates, found, hfound,
    rfl⟩
  · exact .inl hnone
  obtain ⟨before, after, rfl, hmore⟩ := candidates_added added hcandidates
  refine .inr ⟨hfile, _, hmore, found, Chain.follow_extended before after ?_ ?_ hfound, rfl⟩
  · exact headOf_ne_oversized undisturbed.regular parses
  · intro id hid hcontinues
    refine unrelated id ?_ (continues_headOf.1 hcontinues)
    rw [List.map_cons, List.map_map]
    rcases List.mem_cons.1 hid with rfl | hid
    · exact List.mem_cons_self
    · exact List.mem_cons_of_mem _ (List.mem_cons_of_mem _ hid)

/-- The files of a session stand in one directory, under names that it lists but for the first. -/
lemma beside_of_logFiles {paths : List Path} (h : store.logFiles session project = .ok paths) :
    ∀ path ∈ paths, path.parent = (store.primaryPath session project).parent ∧
      (path = store.primaryPath session project ∨
        path.name ∈ store.tree.entryNames (store.primaryPath session project).parent) := by
  rcases logFiles_eq_ok_iff.1 h with ⟨-, rfl⟩ | ⟨-, candidates, hcandidates, found, hfound, rfl⟩
  · simp
  intro path hpath
  rcases List.mem_cons.1 hpath with rfl | hpath
  · exact ⟨rfl, .inl rfl⟩
  · obtain ⟨candidate, hcandidate, rfl⟩ := List.mem_map.1 hpath
    have hmem := (Chain.subperm_of_followFrom hfound).subset hcandidate
    exact (beside_of_candidates hcandidates candidate hmem).imp_right .inr

/-- Files that have nothing to do with a session do not disturb it: a new log file that continues
neither the session nor one of its files changes neither these files nor the history, if the first
line in it that is not blank holds no number with too many digits. -/
theorem history_unrelated {paths : List Path}
    (added : AddsLog store more (store.primaryPath session project) name)
    (located : store.logFiles session project = .ok paths)
    (unrelated : ∀ id ∈ session :: paths.map Path.stem,
      ¬more.Continues ((store.primaryPath session project).beside name) id)
    (parses : more.Parses ((store.primaryPath session project).beside name)) :
    more.logFiles session project = .ok paths ∧ ∀ origin drawn,
      more.history origin session project drawn = store.history origin session project drawn := by
  have hlocated := logFiles_added added located unrelated parses
  have hlines : ∀ path ∈ paths, more.readLines path = store.readLines path := by
    intro path hpath
    obtain ⟨parent, hname⟩ := beside_of_logFiles located path hpath
    refine added.undisturbed.readLines_eq parent ?_
    rcases hname with rfl | hname
    · exact added.other
    · rintro rfl
      exact added.new hname
  refine ⟨hlocated, fun origin drawn => ?_⟩
  unfold history
  rw [hlocated, located, ok_bind, ok_bind, readAllEntries_congr hlines]

/-- A file that continues another session does not disturb a session of two files, although its name
stands between theirs. -/
theorem history_unrelated_between :
    let bytes := fun text : String => text.toList.map fun c => UInt8.ofNat c.toNat
    let link := fun id : String => bytes ("\x7b\"sessionId\":\"" ++ id ++ "\"\x7d")
    let log := fun (name : String) (content : List UInt8) =>
      ((⟨"/", ["logs", "-p", name]⟩ : Path), Node.file content)
    let store : SessionStore := ⟨⟨[log "s.jsonl" [], log "z.jsonl" (link "s")], []⟩,
      ⟨"/", ["logs"]⟩, 32⟩
    let more : SessionStore := { store with
      tree := store.tree.put ⟨"/", ["logs", "-p", "t.jsonl"]⟩ (.file (link "t")) }
    let primary := store.primaryPath "s" "/p"
    let origin : Origin := ⟨fun n => toString n, ""⟩
    store.AddsLog more primary "t.jsonl" ∧
      store.logFiles "s" "/p" = .ok [primary, primary.beside "z.jsonl"] ∧
      (∀ id ∈ "s" :: [primary, primary.beside "z.jsonl"].map Path.stem,
        ¬more.Continues (primary.beside "t.jsonl") id) ∧
      more.Parses (primary.beside "t.jsonl") ∧
      more.logFiles "s" "/p" = .ok [primary, primary.beside "z.jsonl"] ∧
      more.history origin "s" "/p" 0 = store.history origin "s" "/p" 0 := by
  intro bytes link log store more primary origin
  have free : store.tree.IsFree primary.parent ⟨"/", ["logs", "-p"]⟩ "t.jsonl" :=
    ⟨ok_of_toOption (by decide +kernel), by decide, by decide +kernel⟩
  have written : store.tree.write (primary.beside "t.jsonl") (link "t") = .ok more.tree := by
    refine (free.write_eq (link "t")).trans ?_
    rw [if_neg (by decide +kernel), if_neg (by decide +kernel)]
    rfl
  have added : store.AddsLog more primary "t.jsonl" :=
    ⟨⟨_, free.found⟩, by decide, free.new, by decide +kernel, _, _, written, rfl⟩
  have located : store.logFiles "s" "/p" = .ok [primary, primary.beside "z.jsonl"] :=
    ok_of_toOption (by decide +kernel)
  have hother : ∀ id ∈ "s" :: [primary, primary.beside "z.jsonl"].map Path.stem,
      (⟨primary.beside "t.jsonl", more.headOf (primary.beside "t.jsonl")⟩ :
        Candidate).continues id = false := by decide +kernel
  have unrelated : ∀ id ∈ "s" :: [primary, primary.beside "z.jsonl"].map Path.stem,
      ¬more.Continues (primary.beside "t.jsonl") id := by
    intro id hid hcontinues
    rw [← continues_headOf, hother id hid] at hcontinues
    contradiction
  have hfirst : ∀ lines ∈ (more.readLines (primary.beside "t.jsonl")).toOption,
      ∀ text ∈ Entry.firstText? lines, (Json.read text).isOk := by decide +kernel
  have parses : more.Parses (primary.beside "t.jsonl") := by
    intro lines text hlines htext hread
    have hparsed := hfirst lines (by rw [hlines]; exact rfl) text htext
    rw [hread] at hparsed
    contradiction
  obtain ⟨hlocated, hhistory⟩ := history_unrelated added located unrelated parses
  exact ⟨added, located, unrelated, parses, hlocated, hhistory origin 0⟩

/-! ## A number with too many digits -/

/-- A first line that is refused stands at the beginning of a log file. -/
lemma headOf_eq_oversized {line : List Char} {rest : List (List Char)}
    (first : store.readLines path = .ok (line :: rest)) (oversized : Entry.isOversized line) :
    store.headOf path = .oversized := by
  rw [headOf, firstEntry, first, ok_bind, Entry.readFirst_of_isOversized oversized]

/-- A candidate that begins with a number with too many digits hides the session if it is the first
one to be looked at. -/
lemma logFiles_eq_error {candidate : Candidate} {others : List Candidate}
    (roomy : 2 ≤ store.limit)
    (regular : store.tree.isFile (store.primaryPath session project) = .ok true)
    (candidates : store.candidates (store.primaryPath session project) =
      .ok (candidate :: others))
    (oversized : candidate.head = .oversized) :
    store.logFiles session project = .error .tooManyDigits := by
  obtain ⟨room, hroom⟩ : ∃ room, store.limit - 1 = room + 1 := ⟨store.limit - 2, by omega⟩
  simp [logFiles, regular, candidates, Chain.follow, Chain.followFrom, Chain.continuations,
    oversized, hroom]

/-- Bytes that are digits are read as one line. -/
lemma fileLines_replicate (count : ℕ) :
    Text.fileLines (Text.Utf8.decodeLossy (List.replicate (count + 1) 57)) =
      [List.replicate (count + 1) '9'] := by
  have hpieces : ∀ count, Text.Utf8.decodeLossy (List.replicate count 57) =
      List.replicate count '9' := by
    intro count
    induction count with
    | zero => rfl
    | succ count ih =>
      rw [List.replicate_succ, List.replicate_succ, ← ih]
      rfl
  rw [hpieces]
  induction count with
  | zero => rfl
  | succ count ih => exact Text.fileLines_cons_of_plain (by decide) ih

/-- A file that is nothing but a number with too many digits hides a session that it has nothing to
do with. -/
theorem logFiles_long_number :
    let store : SessionStore := ⟨⟨[(⟨"/", ["logs", "-p", "s.jsonl"]⟩, .file [123, 125, 10])], []⟩,
      ⟨"/", ["logs"]⟩, 32⟩
    let more : SessionStore := { store with
      tree := store.tree.put ⟨"/", ["logs", "-p", "x.jsonl"]⟩ (.file (List.replicate 4301 57)) }
    let primary := store.primaryPath "s" "/p"
    store.AddsLog more primary "x.jsonl" ∧ store.logFiles "s" "/p" = .ok [primary] ∧
      (∀ id ∈ "s" :: [primary].map Path.stem, ¬more.Continues (primary.beside "x.jsonl") id) ∧
      more.logFiles "s" "/p" = .error .tooManyDigits := by
  intro store more primary
  have free : store.tree.IsFree primary.parent ⟨"/", ["logs", "-p"]⟩ "x.jsonl" :=
    ⟨ok_of_toOption (by decide +kernel), by decide, by decide +kernel⟩
  have written : store.tree.write (primary.beside "x.jsonl") (List.replicate 4301 57) =
      .ok more.tree := by
    refine (free.write_eq _).trans ?_
    rw [if_neg (by decide +kernel), if_neg (by decide +kernel)]
    rfl
  have added : store.AddsLog more primary "x.jsonl" :=
    ⟨⟨_, free.found⟩, by decide, free.new, by decide +kernel, _, _, written, rfl⟩
  have regular : store.tree.isFile primary = .ok true := ok_of_toOption (by decide +kernel)
  have hnone : store.logPaths primary = [] := by decide +kernel
  have candidates : store.candidates primary = .ok [] :=
    candidates_eq_ok_iff.2 ⟨[], by rw [hnone]; rfl, rfl⟩
  have located : store.logFiles "s" "/p" = .ok [primary] :=
    logFiles_eq_ok_iff.2 (.inr ⟨regular, [], candidates, [], rfl, rfl⟩)
  have first : more.readLines (primary.beside "x.jsonl") = .ok [List.replicate 4301 '9'] := by
    have hread : more.tree.read (primary.beside "x.jsonl") = .ok (List.replicate 4301 57) := by
      have hfind := free.find_put_self (.file (List.replicate 4301 57)) (by decide +kernel)
        (by decide +kernel)
      have valid : ¬(primary.beside "x.jsonl").isInvalid := by decide +kernel
      rw [FileTree.read, if_neg valid]
      exact hfind ▸ rfl
    rw [readLines, if_neg (by decide +kernel), hread, Except.map, fileLines_replicate]
  have head : more.headOf (primary.beside "x.jsonl") = .oversized :=
    headOf_eq_oversized first (Entry.isOversized_replicate (by decide))
  have unrelated : ∀ id ∈ "s" :: [primary].map Path.stem,
      ¬more.Continues (primary.beside "x.jsonl") id := by
    intro id _ hcontinues
    rw [← continues_headOf, Candidate.continues, head] at hcontinues
    contradiction
  obtain ⟨before, after, hnew, hmore⟩ := candidates_added added candidates
  obtain ⟨rfl, rfl⟩ := List.append_eq_nil_iff.1 hnew.symm
  have hregular := FileTree.isFile_congr (added.undisturbed.find_eq primary rfl added.other)
  exact ⟨added, located, unrelated,
    logFiles_eq_error (by decide) (hregular.trans regular) hmore head⟩

end SessionStore

end ChatHistory
