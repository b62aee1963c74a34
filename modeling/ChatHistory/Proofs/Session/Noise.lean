import ChatHistory.Proofs.Entry.Noise
import ChatHistory.Proofs.Files.Overwriting
import ChatHistory.Proofs.Session.Bystanders
import Mathlib.Logic.Relation

/-!
# Noise in the files of a session

Lines of noise may be put into the files of a session (`AddsNoise`), one file after the other: in
the file named for the session anywhere, and in any other one behind the first line that is not
blank, which links the file to the one that it continues.  The files of the session and its history
stay the same, with the numbers of the identifiers drawn for it (`history_noise`).

The step is `AddsNoise.logFiles_eq` and `AddsNoise.history_eq`.  A file keeps its place when it is
written again, so that the candidates stay the same; and all that is read is the same but for
entries that are dropped.
-/

namespace ChatHistory

open Text

namespace SessionStore

variable {store noisy : SessionStore} {session project : String} {path : Path}
  {paths : List Path}

/-- The lines of a file with the given content. -/
def contentLines (content : List UInt8) : List (List Char) :=
  fileLines (Utf8.decodeLossy content)

/-- One of the files of a session is written again with lines of noise in it. -/
inductive AddsNoise (session project : String) : SessionStore → SessionStore → Prop
  | write {store : SessionStore} {paths : List Path} {path : Path} {old new : List UInt8}
      {tree : FileTree} (located : store.logFiles session project = .ok paths)
      (member : path ∈ paths) (read : store.tree.read path = .ok old)
      (written : store.tree.write path new = .ok tree)
      (noise : path = store.primaryPath session project ∧
          Entry.Padded (contentLines old) (contentLines new) ∨
        Entry.PaddedBehindFirst (contentLines old) (contentLines new)) :
      AddsNoise session project store { store with tree := tree }

/-! ## One file -/

/-- The lines of a file that leads to a certain place, before and after it is written again. -/
lemma readLines_put_cases {place : Path} {old : List UInt8}
    (hnode : store.tree.nodeAt place = some (.file old)) (new : List UInt8) (path : Path) :
    let later : SessionStore := { store with tree := store.tree.put place (.file new) }
    later.readLines path = store.readLines path ∨
      store.tree.find path = .ok (place, .file old) ∧
        store.readLines path = .ok (contentLines old) ∧
        later.readLines path = .ok (contentLines new) := by
  intro later
  by_cases hplace : ∃ content, store.tree.find path = .ok (place, .file content)
  · obtain ⟨content, hfind⟩ := hplace
    obtain rfl : content = old := by
      simpa using (FileTree.nodeAt_of_find hfind).symm.trans hnode
    have hlater : later.tree.find path = .ok (place, .file new) := by
      rw [FileTree.find_put_of_file hnode, hfind]
      simp [Except.map, FileTree.rewritten]
    by_cases locked : store.tree.locked.contains path.name
    · have lockedLater : later.tree.locked.contains path.name := locked
      exact .inl (by rw [readLines, readLines, if_pos locked, if_pos lockedLater])
    have unlockedLater : ¬later.tree.locked.contains path.name := locked
    rw [readLines, readLines, if_neg locked, if_neg unlockedLater]
    by_cases invalid : path.isInvalid
    · exact .inl (by rw [FileTree.read, FileTree.read, if_pos invalid, if_pos invalid])
    · refine .inr ⟨hfind, ?_, ?_⟩
      · rw [FileTree.read_eq_ok_iff.2 ⟨invalid, place, hfind⟩]
        rfl
      · rw [FileTree.read_eq_ok_iff.2 ⟨invalid, place, hlater⟩]
        rfl
  · refine .inl (readLines_congr rfl (FileTree.find_put_of_place_ne hnode new ?_))
    exact fun content hfind => hplace ⟨content, hfind⟩

/-- A head is read from the first line that is not blank. -/
lemma headOf_eq_of_firstText? {lines others : List (List Char)}
    (before : store.readLines path = .ok lines) (after : noisy.readLines path = .ok others)
    (first : Entry.firstText? others = Entry.firstText? lines) :
    noisy.headOf path = store.headOf path := by
  have hfirst : Entry.readFirst others = Entry.readFirst lines := by
    rw [Entry.readFirst_eq, Entry.readFirst_eq, first]
  simp only [headOf, firstEntry, before, after, ok_bind, hfirst]

/-- Where a file is written again, the candidates stay the same if their heads do. -/
lemma candidates_put {place : Path} {old : List UInt8}
    (hnode : store.tree.nodeAt place = some (.file old)) (new : List UInt8) (primary : Path)
    (heads : ∀ path ∈ store.logPaths primary,
      headOf { store with tree := store.tree.put place (.file new) } path = store.headOf path) :
    candidates { store with tree := store.tree.put place (.file new) } primary =
      store.candidates primary := by
  set later : SessionStore := { store with tree := store.tree.put place (.file new) } with hlater
  have hnames : later.logPaths primary = store.logPaths primary := by
    have hperm := (FileTree.entryNames_put_perm hnode new primary.parent).filter
      fun name => isLogName name && decide (name ≠ primary.name)
    refine congrArg (List.map primary.beside) (mergeSort_names_eq ?_ (pairwise_mergeSort_names _))
    exact (List.mergeSort_perm _ _).trans hperm.symm
  have hfiles : later.tree.filesAmong (store.logPaths primary) =
      store.tree.filesAmong (store.logPaths primary) :=
    FileTree.filesAmong_congr fun path _ => FileTree.isFile_put_of_file hnode new path
  rw [candidates_eq_bind, candidates_eq_bind, hnames, hfiles]
  cases hamong : store.tree.filesAmong (store.logPaths primary) with
  | error fault => rfl
  | ok files =>
    rw [ok_bind, ok_bind]
    refine congrArg Except.ok (List.map_congr_left fun path hpath => ?_)
    rw [heads path ((FileTree.sublist_of_filesAmong hamong).subset hpath)]

/-- Entries that are dropped may be left out before entries are put together. -/
lemma map_kept_append (first others : Except Fault (List Fields)) :
    (do return (← first) ++ (← others) : Except Fault (List Fields)).map Entry.kept =
      (do return (← first.map Entry.kept) ++ (← others.map Entry.kept)) := by
  cases first with
  | error fault => rfl
  | ok entries =>
    cases others with
    | error fault => rfl
    | ok more => exact congrArg Except.ok (Entry.kept_append entries more)

/-- From files with noise the same is read, but for entries that are dropped. -/
lemma map_kept_readAllEntries
    (h : ∀ path ∈ paths, noisy.readLines path = store.readLines path ∨
      ∃ lines padded, store.readLines path = .ok lines ∧ noisy.readLines path = .ok padded ∧
        Entry.Padded lines padded) :
    (noisy.readAllEntries paths).map Entry.kept = (store.readAllEntries paths).map Entry.kept := by
  induction paths with
  | nil => rfl
  | cons path rest ih =>
    have hrest := ih fun other ho => h other (List.mem_cons_of_mem _ ho)
    have hpath : (noisy.readEntries path).map Entry.kept =
        (store.readEntries path).map Entry.kept := by
      rw [readEntries, readEntries]
      rcases h path List.mem_cons_self with hsame | ⟨lines, padded, hlines, hpadded, noise⟩
      · rw [hsame]
      · rw [hlines, hpadded]
        exact noise.map_kept_readLines
    rw [readAllEntries, readAllEntries, map_kept_append, map_kept_append, hpath, hrest]

/-- The history depends on the entries that are not dropped. -/
lemma history_congr (located : noisy.logFiles session project = store.logFiles session project)
    (same : ∀ paths, store.logFiles session project = .ok paths →
      (noisy.readAllEntries paths).map Entry.kept = (store.readAllEntries paths).map Entry.kept)
    (origin : Origin) (drawn : ℕ) :
    noisy.history origin session project drawn = store.history origin session project drawn := by
  unfold history
  rw [located]
  cases hpaths : store.logFiles session project with
  | error fault => rfl
  | ok paths =>
    have hentries := same paths hpaths
    rw [ok_bind, ok_bind]
    cases hnoisy : noisy.readAllEntries paths with
    | error fault =>
      cases hstore : store.readAllEntries paths with
      | error other => simpa [hnoisy, hstore, Except.map] using hentries
      | ok entries => simp [hnoisy, hstore, Except.map] at hentries
    | ok entries =>
      cases hstore : store.readAllEntries paths with
      | error fault => simp [hnoisy, hstore, Except.map] at hentries
      | ok others =>
        have hkept : Entry.kept entries = Entry.kept others := by
          simpa [hnoisy, hstore, Except.map] using hentries
        dsimp only
        rw [← Entry.toMessages_kept, hkept, Entry.toMessages_kept]

/-! ## One step and many -/

/-- What a step of noise does to the paths of a session: a file is written again at its place, and
every path that leads to it has more lines of noise. -/
lemma AddsNoise.cases (h : AddsNoise session project store noisy) :
    ∃ place old new, store.tree.nodeAt place = some (.file old) ∧
      noisy = { store with tree := store.tree.put place (.file new) } ∧
      Entry.Padded (contentLines old) (contentLines new) ∧
      ∀ path ∈ store.logPaths (store.primaryPath session project),
        store.tree.find path = .ok (place, .file old) →
          Entry.PaddedBehindFirst (contentLines old) (contentLines new) := by
  obtain ⟨located, member, read, written, noise⟩ := h
  rename_i paths path old new tree
  obtain ⟨valid, place, found⟩ := FileTree.read_eq_ok_iff.1 read
  obtain rfl := Except.ok.inj ((FileTree.write_of_find valid found new).symm.trans written)
  refine ⟨place, old, new, FileTree.nodeAt_of_find found, rfl, ?_, ?_⟩
  · rcases noise with ⟨-, padded⟩ | behind
    · exact padded
    · exact behind.padded
  · intro other hother hfind
    rcases noise with ⟨rfl, -⟩ | behind
    · -- No candidate is the file named for the session, which may have another first line.
      obtain ⟨name, -, hlog, hname, rfl⟩ := mem_logPaths.1 hother
      have plain := plain_of_isLogName hlog
      refine absurd found (FileTree.find_ne_of_name_ne (Path.parent_beside _ name).symm ?_ ?_ hfind)
      · rwa [Path.name_beside]
      · rw [Path.name_beside]
        exact hname.symm
    · exact behind

/-- The files of a session stay the same. -/
theorem AddsNoise.logFiles_eq (h : AddsNoise session project store noisy) :
    noisy.logFiles session project = store.logFiles session project := by
  obtain ⟨place, old, new, hnode, rfl, -, behind⟩ := h.cases
  have hcandidates := candidates_put hnode new (store.primaryPath session project)
    fun path hpath => by
      rcases readLines_put_cases hnode new path with hsame | ⟨hfind, hbefore, hafter⟩
      · exact headOf_congr hsame
      · exact headOf_eq_of_firstText? hbefore hafter (behind path hpath hfind).firstText?_eq
  have hregular := FileTree.isFile_put_of_file hnode new (store.primaryPath session project)
  have hprimary : primaryPath { store with tree := store.tree.put place (.file new) } session
      project = store.primaryPath session project := rfl
  simp only [logFiles, hprimary, hregular, hcandidates]

/-- The history of a session stays the same. -/
theorem AddsNoise.history_eq (h : AddsNoise session project store noisy) (origin : Origin)
    (drawn : ℕ) :
    noisy.history origin session project drawn = store.history origin session project drawn := by
  refine history_congr h.logFiles_eq (fun paths _ => map_kept_readAllEntries fun path _ => ?_)
    origin drawn
  obtain ⟨place, old, new, hnode, rfl, padded, -⟩ := h.cases
  rcases readLines_put_cases hnode new path with hsame | ⟨-, hbefore, hafter⟩
  · exact .inl hsame
  · exact .inr ⟨_, _, hbefore, hafter, padded⟩

/-- Noise in the files of a session changes neither these files nor the history of the session:
lines that are blank or malformed, that hold a value that is no object, or an entry that is dropped,
in any number and in any of the files, provided that the first line that is not blank stays the
first one in all files but the one named for the session. -/
theorem history_noise (noise : Relation.ReflTransGen (AddsNoise session project) store noisy) :
    noisy.logFiles session project = store.logFiles session project ∧ ∀ origin drawn,
      noisy.history origin session project drawn = store.history origin session project drawn := by
  induction noise with
  | refl => exact ⟨rfl, fun _ _ => rfl⟩
  | tail _ step ih =>
    exact ⟨step.logFiles_eq.trans ih.1, fun origin drawn =>
      (step.history_eq origin drawn).trans (ih.2 origin drawn)⟩

/-- Noise of every kind in both files of a session: in the first file also before the first line,
and in the second one behind the line that links it to the first. -/
theorem history_noise_linked :
    let bytes := fun text : String => text.toList.map fun c => UInt8.ofNat c.toNat
    let content := fun lines : List String => bytes ("\n".intercalate lines)
    let file := fun name : String => (⟨"/", ["logs", "-p", name]⟩ : Path)
    let hello := "\x7b\"type\":\"user\",\"message\":\x7b\"content\":\"hello\"\x7d\x7d"
    let link := "\x7b\"sessionId\":\"s\"\x7d"
    let untyped := "\x7b\x7d"
    let store : SessionStore := ⟨⟨[(file "s.jsonl", .file (content [hello])),
      (file "t.jsonl", .file (content ["", link, hello]))], []⟩, ⟨"/", ["logs"]⟩, 2⟩
    let first := store.tree.put (file "s.jsonl") (.file (content [untyped, " ", hello, "\x7b"]))
    let second := first.put (file "t.jsonl") (.file (content ["", link, "[7]", untyped, hello]))
    let noisy : SessionStore := { store with tree := second }
    let origin : Origin := ⟨fun n => toString n, ""⟩
    Relation.ReflTransGen (AddsNoise "s" "/p") store noisy ∧
      noisy.logFiles "s" "/p" = store.logFiles "s" "/p" ∧
      noisy.history origin "s" "/p" 0 = store.history origin "s" "/p" 0 := by
  intro bytes content file hello link untyped store first second noisy origin
  have isNoise : Entry.IsNoise untyped.toList := by decide +kernel
  have located : store.logFiles "s" "/p" = .ok [file "s.jsonl", file "t.jsonl"] :=
    ok_of_toOption (by decide +kernel)
  have intoFirst : AddsNoise "s" "/p" store { store with tree := first } := by
    have found : store.tree.find (file "s.jsonl") = .ok (file "s.jsonl", .file (content [hello])) :=
      ok_of_toOption (by decide +kernel)
    have valid : ¬(file "s.jsonl").isInvalid := by decide +kernel
    have hold : contentLines (content [hello]) = [hello.toList] := by decide +kernel
    have hnew : contentLines (content [untyped, " ", hello, "\x7b"]) =
        [untyped.toList, [' '], hello.toList, ['\x7b']] := by decide +kernel
    refine .write located List.mem_cons_self (FileTree.read_eq_ok_iff.2 ⟨valid, _, found⟩)
      (FileTree.write_of_find valid found _) (.inl ⟨by decide +kernel, ?_⟩)
    rw [hold, hnew]
    exact .noise isNoise (.noise (by decide) (.keep _ (.noise (by decide +kernel) .nil)))
  have intoSecond : AddsNoise "s" "/p" { store with tree := first } noisy := by
    have found : first.find (file "t.jsonl") =
        .ok (file "t.jsonl", .file (content ["", link, hello])) :=
      ok_of_toOption (by decide +kernel)
    have valid : ¬(file "t.jsonl").isInvalid := by decide +kernel
    have hold : contentLines (content ["", link, hello]) = [[], link.toList, hello.toList] := by
      decide +kernel
    have hnew : contentLines (content ["", link, "[7]", untyped, hello]) =
        [[], link.toList, "[7]".toList, untyped.toList, hello.toList] := by decide +kernel
    refine .write (intoFirst.logFiles_eq.trans located) (List.mem_cons_of_mem _ List.mem_cons_self)
      (FileTree.read_eq_ok_iff.2 ⟨valid, _, found⟩) (FileTree.write_of_find valid found _) (.inr ?_)
    rw [hold, hnew]
    exact .blank rfl (.first (by decide +kernel) (.noise (by decide +kernel)
      (.noise isNoise (.keep _ .nil))))
  have noise : Relation.ReflTransGen (AddsNoise "s" "/p") store noisy :=
    (Relation.ReflTransGen.single intoFirst).tail intoSecond
  obtain ⟨hfiles, hhistory⟩ := history_noise noise
  exact ⟨noise, hfiles, hhistory origin 0⟩

end SessionStore

end ChatHistory
