import ChatHistory.Session.Store
import ChatHistory.Proofs.Entry.Lines
import ChatHistory.Proofs.Files.Tree
import ChatHistory.Proofs.Session.Chain
import Mathlib.Data.List.Induction
import Mathlib.Data.List.Nodup

/-!
# The log files of a session

`SessionStore.logFiles` finds the files that continue a session among the log files beside the first
one (`IsBeside`).  A file continues a session if the first line in it that is not blank is an object
with the identifier of the session (`Continues`).  What is found is a `Continuation` of the session
(`logFiles_reaches`), whatever else the directory holds: files that may not be read, files that name
themselves, and files that name each other.  Below the limit these are all files that continue the
session, directly or through others (`Continuation.mem_iff`).
-/

namespace ChatHistory

/-- The path of a file in the directory of another one. -/
def Path.beside (path : Path) (name : String) : Path :=
  { path.parent with parts := path.parent.parts ++ [name] }

lemma Path.name_beside (path : Path) (name : String) : (path.beside name).name = name := by
  simp [Path.beside, Path.name]

lemma Path.stem_beside (path : Path) (name : String) :
    (path.beside name).stem = Path.stemOf name := by
  rw [Path.stem, Path.name_beside]

lemma Path.beside_injective (path : Path) : Function.Injective path.beside := by
  intro name other h
  rw [← path.name_beside name, h, path.name_beside]

namespace SessionStore

variable {store : SessionStore} {primary path : Path} {id : String}

/-! ## First lines -/

/-- The first line of a log file that is not blank holds an object with the identifier of a
session. -/
def Continues (store : SessionStore) (path : Path) (id : String) : Prop :=
  ∃ lines text fields, store.readLines path = .ok lines ∧ Entry.firstText? lines = some text ∧
    Json.read text = .ok (.object fields) ∧ Json.field fields "sessionId" = .string id

/-- If a log file may be read, the first line in it that is not blank holds no number with too many
digits. -/
def Parses (store : SessionStore) (path : Path) : Prop :=
  ∀ lines text, store.readLines path = .ok lines → Entry.firstText? lines = some text →
    Json.read text ≠ .error .tooManyDigits

/-- A log file that may be opened has lines, any other one is refused. -/
lemma readLines_of_isFile (regular : store.tree.isFile path = .ok true) :
    (∃ lines, store.readLines path = .ok lines) ∨
      ∃ cause, store.readLines path = .error (.file ⟨cause, path.text⟩) := by
  obtain ⟨content, hcontent⟩ := FileTree.isFile_iff.1 regular
  unfold readLines
  split
  · exact .inr ⟨.denied, rfl⟩
  · rw [hcontent]
    exact .inl ⟨_, rfl⟩

/-- The head of a file is the entry on its first line that is not blank. -/
lemma headOf_eq_entry_iff {fields : Fields} :
    store.headOf path = .entry fields ↔
      ∃ lines text, store.readLines path = .ok lines ∧ Entry.firstText? lines = some text ∧
        Json.read text = .ok (.object fields) := by
  have hhead : store.headOf path = .entry fields ↔ store.firstEntry path = .ok (some fields) := by
    unfold headOf
    split <;> simp_all
  rw [hhead, firstEntry]
  cases hlines : store.readLines path with
  | error fault => simp
  | ok lines =>
    rw [ok_bind, Entry.readFirst_eq_some_iff]
    simp

/-- A candidate continues a session if its file does. -/
lemma continues_headOf :
    (⟨path, store.headOf path⟩ : Candidate).continues id ↔ store.Continues path id := by
  rw [Candidate.continues_iff, Continues]
  simp only [headOf_eq_entry_iff]
  constructor
  · rintro ⟨fields, ⟨lines, text, hlines, htext, hread⟩, hid⟩
    exact ⟨lines, text, fields, hlines, htext, hread, hid⟩
  · rintro ⟨lines, text, fields, hlines, htext, hread, hid⟩
    exact ⟨fields, ⟨lines, text, hlines, htext, hread⟩, hid⟩

/-- A file whose first line can be parsed or may not be read is looked at without a fault. -/
lemma headOf_ne_oversized (regular : store.tree.isFile path = .ok true)
    (parses : store.Parses path) : store.headOf path ≠ .oversized := by
  rcases readLines_of_isFile regular with ⟨lines, hlines⟩ | ⟨cause, hlines⟩
  · cases hfirst : Entry.readFirst lines with
    | ok first =>
      cases first <;> simp [headOf, firstEntry, hlines, hfirst]
    | error fault =>
      obtain ⟨-, text, htext, hread⟩ := Entry.readFirst_eq_error hfirst
      exact absurd hread (parses lines text hlines htext)
  · simp [headOf, firstEntry, hlines]

/-! ## Candidates -/

/-- A log file in the directory of another one. -/
structure IsBeside (store : SessionStore) (primary path : Path) : Prop where
  listed : ∃ name ∈ store.tree.entryNames primary.parent,
    isLogName name ∧ name ≠ primary.name ∧ path = primary.beside name
  regular : store.tree.isFile path = .ok true

/-- A file does not lie beside itself. -/
lemma IsBeside.ne (h : store.IsBeside primary path) : path ≠ primary := by
  obtain ⟨name, -, -, hname, rfl⟩ := h.listed
  intro hpath
  have hself := congrArg Path.name hpath
  rw [Path.name_beside] at hself
  exact hname hself

/-- The other paths with names of logs in the directory of a file can be looked up. -/
def Listable (store : SessionStore) (primary : Path) : Prop :=
  ∀ name ∈ store.tree.entryNames primary.parent, isLogName name → name ≠ primary.name →
    ∃ regular, store.tree.isFile (primary.beside name) = .ok regular

/-- The paths with names of logs in the directory of a file, in the order of their names. -/
def logPaths (store : SessionStore) (primary : Path) : List Path :=
  let names := (store.tree.entryNames primary.parent).filter fun name =>
    isLogName name && name ≠ primary.name
  (names.mergeSort fun a b => decide (a ≤ b)).map primary.beside

lemma mem_logPaths :
    path ∈ store.logPaths primary ↔ ∃ name ∈ store.tree.entryNames primary.parent,
      isLogName name ∧ name ≠ primary.name ∧ path = primary.beside name := by
  unfold logPaths
  rw [List.mem_map]
  refine exists_congr fun name => ?_
  rw [List.mem_mergeSort, List.mem_filter, Bool.and_eq_true, decide_eq_true_eq, and_assoc,
    and_assoc, eq_comm (a := path)]

lemma nodup_logPaths (store : SessionStore) (primary : Path) :
    (store.logPaths primary).Nodup := by
  refine List.Nodup.map primary.beside_injective ?_
  rw [(List.mergeSort_perm _ _).nodup_iff]
  exact (FileTree.nodup_entryNames _ _).filter _

/-- The candidates are picked among the paths with names of logs. -/
lemma candidates_eq_bind (store : SessionStore) (primary : Path) :
    store.candidates primary = do
      let files ← store.tree.filesAmong (store.logPaths primary)
      return files.map fun path => ⟨path, store.headOf path⟩ := rfl

/-- The candidates are the log files beside the first one, each of them once. -/
theorem candidates_eq (listable : store.Listable primary) :
    ∃ paths : List Path,
      store.candidates primary = .ok (paths.map fun path => ⟨path, store.headOf path⟩) ∧
        paths.Nodup ∧ ∀ path, path ∈ paths ↔ store.IsBeside primary path := by
  have hlisted : ∀ path ∈ store.logPaths primary,
      ∃ regular, store.tree.isFile path = .ok regular := by
    intro path hpath
    obtain ⟨name, hname, hlog, hother, rfl⟩ := mem_logPaths.1 hpath
    exact listable name hname hlog hother
  rw [candidates_eq_bind, FileTree.filesAmong_eq hlisted]
  refine ⟨_, rfl, (nodup_logPaths store primary).filter _, fun path => ?_⟩
  rw [List.mem_filter, mem_logPaths, decide_eq_true_eq]
  constructor
  · rintro ⟨hpath, hfile⟩
    exact ⟨hpath, ok_of_toOption hfile⟩
  · rintro ⟨hpath, hfile⟩
    exact ⟨hpath, by rw [hfile]; rfl⟩

/-! ## Continuations -/

/-- Log files beside the first one of a session that continue it, directly or through others, as far
as the limit allows. -/
structure Continuation (store : SessionStore) (session : String) (primary : Path)
    (found : List Path) : Prop where
  /-- No file is found twice. -/
  distinct : (primary :: found).Nodup
  /-- No more files are found than the limit allows. -/
  fits : (primary :: found).length ≤ store.limit
  /-- Each file found continues the session, or that of a file found before. -/
  linked : ∀ before path after, found = before ++ path :: after →
    store.IsBeside primary path ∧ ∃ id ∈ session :: before.map Path.stem, store.Continues path id
  /-- If the limit is not met, all files that continue the session, or that of a file found, have
  been found. -/
  complete : (primary :: found).length < store.limit → ∀ path, store.IsBeside primary path →
    ∀ id ∈ session :: found.map Path.stem, store.Continues path id → path ∈ found

/-- A log file beside the first one of a session that continues it, directly or through others. -/
inductive Continued (store : SessionStore) (session : String) (primary : Path) : Path → Prop
  | first {path : Path} (beside : store.IsBeside primary path)
      (continues : store.Continues path session) : Continued store session primary path
  | next {path next : Path} (continued : Continued store session primary path)
      (beside : store.IsBeside primary next) (continues : store.Continues next path.stem) :
      Continued store session primary next

/-- The files found are the continued ones, unless the limit is met. -/
theorem Continuation.mem_iff {session : String} {found : List Path}
    (h : store.Continuation session primary found)
    (below : (primary :: found).length < store.limit) :
    path ∈ found ↔ store.Continued session primary path := by
  constructor
  · -- A file is continued because those found before it are.
    have hbefore : ∀ before after, found = before ++ after →
        ∀ path ∈ before, store.Continued session primary path := by
      intro before
      induction before using List.reverseRecOn with
      | nil => simp
      | append_singleton before last ih =>
        intro after hfound path hpath
        rw [List.append_assoc] at hfound
        have hcontinued := ih _ hfound
        obtain ⟨hbeside, id, hid, hcontinues⟩ := h.linked before last after hfound
        rcases List.mem_append.1 hpath with hpath | hlast
        · exact hcontinued path hpath
        obtain rfl := List.mem_singleton.1 hlast
        rcases List.mem_cons.1 hid with rfl | hid
        · exact .first hbeside hcontinues
        · obtain ⟨origin, horigin, rfl⟩ := List.mem_map.1 hid
          exact .next (hcontinued origin horigin) hbeside hcontinues
    exact hbefore found [] (List.append_nil _).symm path
  · intro hcontinued
    induction hcontinued with
    | first hbeside hcontinues =>
      exact h.complete below _ hbeside session List.mem_cons_self hcontinues
    | @next origin _ _ hbeside hcontinues ih =>
      have hid : origin.stem ∈ session :: found.map Path.stem :=
        List.mem_cons_of_mem _ (List.mem_map_of_mem ih)
      exact h.complete below _ hbeside _ hid hcontinues

/-- What is reached among the candidates continues the session. -/
lemma Continuation.of_reaches {session : String} {paths : List Path} {found : List Candidate}
    (limited : 1 ≤ store.limit) (distinct : paths.Nodup)
    (beside : ∀ path, path ∈ paths ↔ store.IsBeside primary path)
    (reaches : Chain.Reaches (store.limit - 1) [session]
      (paths.map fun path => ⟨path, store.headOf path⟩) found) :
    store.Continuation session primary (found.map Candidate.path) := by
  have hcandidate : ∀ candidate ∈ found, store.IsBeside primary candidate.path ∧
      candidate = ⟨candidate.path, store.headOf candidate.path⟩ := by
    intro candidate hfound
    obtain ⟨path, hpath, rfl⟩ := List.mem_map.1 (reaches.subperm.subset hfound)
    exact ⟨(beside path).1 hpath, rfl⟩
  have hfits := reaches.fits
  refine ⟨?_, ?_, ?_, ?_⟩
  · refine List.nodup_cons.2 ⟨?_, ?_⟩
    · intro hprimary
      obtain ⟨candidate, hfound, hpath⟩ := List.mem_map.1 hprimary
      exact (hcandidate candidate hfound).1.ne hpath
    · obtain ⟨candidates, hperm, hsublist⟩ := reaches.subperm
      have hpaths := hsublist.map Candidate.path
      rw [List.map_map, Function.comp_def, List.map_id'] at hpaths
      exact (hperm.map Candidate.path).nodup_iff.1 (distinct.sublist hpaths)
  · rw [List.length_cons, List.length_map]
    omega
  · intro before path after hsplit
    obtain ⟨first, rest, rfl, rfl, hrest⟩ := List.map_eq_append_iff.1 hsplit
    obtain ⟨candidate, last, rfl, rfl, rfl⟩ := List.map_eq_cons_iff.1 hrest
    have hmem : candidate ∈ first ++ candidate :: last :=
      List.mem_append_right _ List.mem_cons_self
    obtain ⟨hbeside, hhead⟩ := hcandidate candidate hmem
    obtain ⟨id, hid, hcontinues⟩ := reaches.linked first candidate last rfl
    rw [hhead, continues_headOf] at hcontinues
    refine ⟨hbeside, id, ?_, hcontinues⟩
    rwa [List.map_map]
  · intro hroom path hpath id hid hcontinues
    rw [List.length_cons, List.length_map] at hroom
    have hmem : (⟨path, store.headOf path⟩ : Candidate) ∈
        paths.map fun path => ⟨path, store.headOf path⟩ :=
      List.mem_map_of_mem ((beside path).2 hpath)
    rw [List.map_map] at hid
    have hfound := reaches.complete (by omega) _ hmem id hid (continues_headOf.2 hcontinues)
    exact List.mem_map_of_mem hfound

/-- The log files of a session are the first one and a continuation of it. -/
theorem logFiles_reaches {session project : String} (limited : 1 ≤ store.limit)
    (regular : store.tree.isFile (store.primaryPath session project) = .ok true)
    (listable : store.Listable (store.primaryPath session project))
    (parses : ∀ path, store.IsBeside (store.primaryPath session project) path →
      store.Parses path) :
    ∃ found, store.logFiles session project = .ok (store.primaryPath session project :: found) ∧
      store.Continuation session (store.primaryPath session project) found := by
  obtain ⟨paths, hcandidates, hdistinct, hbeside⟩ := candidates_eq listable
  have sized : Chain.Sized (paths.map fun path => ⟨path, store.headOf path⟩) := by
    intro candidate hcandidate
    obtain ⟨path, hpath, rfl⟩ := List.mem_map.1 hcandidate
    have hfile := (hbeside path).1 hpath
    exact headOf_ne_oversized hfile.regular (parses path hfile)
  obtain ⟨found, hfollow, hreaches⟩ := Chain.follow_reaches session (store.limit - 1) sized
  refine ⟨found.map Candidate.path, ?_, .of_reaches limited hdistinct hbeside hreaches⟩
  simp [logFiles, regular, hcandidates, hfollow]

/-- One file continues the session.  Two others name each other, one names itself, and one may not
be read. -/
theorem logFiles_reaches_tangled :
    let link := fun id : String => "\x7b\"sessionId\":\"" ++ id ++ "\"\x7d"
    let logs := [("s.jsonl", "[]"), ("a.jsonl", link "s"), ("b.jsonl", link "c"),
      ("c.jsonl", link "b"), ("d.jsonl", link "d"), ("e.jsonl", link "s")]
    let nodes : List (Path × Node) := logs.map fun log =>
      (⟨"/", ["logs", "p", log.1]⟩, .file (log.2.toList.map fun c => .ofNat c.toNat))
    let store : SessionStore := ⟨⟨nodes, ["e.jsonl"]⟩, ⟨"/", ["logs"]⟩, 4⟩
    let primary := store.primaryPath "s" "p"
    1 ≤ store.limit ∧ store.tree.isFile primary = .ok true ∧ store.Listable primary ∧
      (∀ path, store.IsBeside primary path → store.Parses path) ∧
      ∃ found, store.logFiles "s" "p" = .ok (primary :: found) ∧
        store.Continuation "s" primary found := by
  intro link logs nodes store primary
  have limited : 1 ≤ store.limit := by decide
  have hnames : store.tree.entryNames primary.parent = logs.map Prod.fst := by decide +kernel
  have hfiles : ∀ log ∈ logs, (store.tree.isFile (primary.beside log.1)).toOption = some true := by
    decide +kernel
  have hfirst : ∀ log ∈ logs, ∀ lines ∈ (store.readLines (primary.beside log.1)).toOption,
      ∀ text ∈ Entry.firstText? lines, (Json.read text).isOk := by
    decide +kernel
  have regular : store.tree.isFile primary = .ok true := ok_of_toOption (by decide +kernel)
  have listable : store.Listable primary := by
    intro name hname hlog hother
    rw [hnames] at hname
    obtain ⟨log, hmem, rfl⟩ := List.mem_map.1 hname
    exact ⟨true, ok_of_toOption (hfiles log hmem)⟩
  have parses : ∀ path, store.IsBeside primary path → store.Parses path := by
    rintro path ⟨⟨name, hname, -, -, rfl⟩, -⟩ lines text hlines htext hread
    rw [hnames] at hname
    obtain ⟨log, hmem, rfl⟩ := List.mem_map.1 hname
    have hparsed := hfirst log hmem lines (by rw [hlines]; rfl) text htext
    rw [hread] at hparsed
    contradiction
  exact ⟨limited, regular, listable, parses, logFiles_reaches limited regular listable parses⟩

end SessionStore

end ChatHistory
