import ChatHistory.Proofs.Session.LogFiles
import ChatHistory.Proofs.Text.Lines

/-!
# Logs in pieces

A log may lie in one file or in pieces, the first piece in the file named for the session, and each
other one in a file that continues the session of the piece before it (`InTurn`).  If nothing else
lies beside them, the pieces are found in their order, whatever the order of their names
(`HoldsPieces.logFiles_eq`), and the history of the session is that of the log in one file
(`history_pieces`).
-/

namespace ChatHistory

open Text

/-! ## Lines in files -/

/-- The bytes of lines, each with a line feed behind it. -/
def terminated (lines : List (List UInt8)) : List UInt8 :=
  lines.flatMap fun line => line ++ [0x0A]

/-- Some lines, and others behind them, are read as they are by themselves. -/
lemma fileLines_terminated_append (lines more : List (List UInt8)) :
    fileLines (Utf8.decodeLossy (terminated (lines ++ more))) =
      fileLines (Utf8.decodeLossy (terminated lines)) ++
        fileLines (Utf8.decodeLossy (terminated more)) := by
  induction lines with
  | nil => rfl
  | cons line rest ih =>
    have hcons : ∀ behind, terminated (line :: behind) = line ++ 0x0A :: terminated behind := by
      intro behind
      rw [terminated, List.flatMap_cons, List.append_assoc]
      rfl
    rw [List.cons_append, hcons, hcons, fileLines_decodeLossy_append,
      fileLines_decodeLossy_append line (terminated rest), ih, List.append_assoc]

/-- A piece of a log, and the name of the file that holds it. -/
structure Piece where
  name : String
  lines : List (List UInt8)

namespace SessionStore

variable {store : SessionStore} {session project : String}

/-- A file that may be opened, and holds some lines. -/
def Holds (store : SessionStore) (path : Path) (lines : List (List UInt8)) : Prop :=
  store.tree.read path = .ok (terminated lines) ∧ path.name ∉ store.tree.locked

lemma Holds.readLines_eq {path : Path} {lines : List (List UInt8)} (h : store.Holds path lines) :
    store.readLines path = .ok (fileLines (Utf8.decodeLossy (terminated lines))) := by
  rw [readLines, if_neg (by simpa using h.2), h.1]
  rfl

/-- The entries of several files are those on all of their lines. -/
lemma readAllEntries_eq {files : List (Path × List (List UInt8))}
    (h : ∀ file ∈ files, store.Holds file.1 file.2) :
    store.readAllEntries (files.map Prod.fst) =
      Entry.readLines (fileLines (Utf8.decodeLossy (terminated (files.flatMap Prod.snd)))) := by
  induction files with
  | nil => rfl
  | cons file rest ih =>
    have hfile := (h file List.mem_cons_self).readLines_eq
    have hrest := ih fun other ho => h other (List.mem_cons_of_mem _ ho)
    rw [List.flatMap_cons, fileLines_terminated_append, Entry.readLines_append, List.map_cons,
      readAllEntries, readEntries, hfile, hrest]
    rfl

/-! ## Pieces -/

/-- A session has its log in pieces: the first one in the file named for the session, the others in
files beside it, and there is no other log file in the directory. -/
structure HoldsPieces (store : SessionStore) (session project : String)
    (first : List (List UInt8)) (later : List Piece) : Prop where
  primary : store.Holds (store.primaryPath session project) first
  others : ∀ piece ∈ later,
    store.Holds ((store.primaryPath session project).beside piece.name) piece.lines
  only : ∀ name, (name ∈ store.tree.entryNames (store.primaryPath session project).parent ∧
    isLogName name ∧ name ≠ (store.primaryPath session project).name) ↔
      name ∈ later.map Piece.name

/-- The first of some files continues a session, and each other one that of the file before it. -/
def InTurn (store : SessionStore) : String → List Path → Prop
  | _, [] => True
  | id, path :: rest => store.Continues path id ∧ store.InTurn path.stem rest

/-- Files in turn are candidates in line. -/
lemma InTurn.inLine {id : String} {paths : List Path} (h : store.InTurn id paths) :
    Chain.InLine id (paths.map fun path => ⟨path, store.headOf path⟩) := by
  induction paths generalizing id with
  | nil => trivial
  | cons path rest ih => exact ⟨continues_headOf.2 h.1, ih h.2⟩

/-- The paths of the later pieces of a log. -/
def laterPaths (store : SessionStore) (session project : String) (later : List Piece) :
    List Path :=
  later.map fun piece => (store.primaryPath session project).beside piece.name

lemma stem_laterPaths (store : SessionStore) (session project : String) (later : List Piece) :
    (store.laterPaths session project later).map Path.stem =
      later.map fun piece => Path.stemOf piece.name := by
  simp [laterPaths, Path.stem_beside]

namespace HoldsPieces

variable {first : List (List UInt8)} {later : List Piece}

/-- The log files beside the first piece are the other pieces. -/
lemma isBeside_iff (h : store.HoldsPieces session project first later) {path : Path} :
    store.IsBeside (store.primaryPath session project) path ↔
      path ∈ store.laterPaths session project later := by
  constructor
  · rintro ⟨⟨name, hname, hlog, hother, rfl⟩, -⟩
    obtain ⟨piece, hpiece, rfl⟩ := List.mem_map.1 ((h.only name).1 ⟨hname, hlog, hother⟩)
    exact List.mem_map_of_mem hpiece
  · intro hpath
    obtain ⟨piece, hpiece, rfl⟩ := List.mem_map.1 hpath
    obtain ⟨hname, hlog, hother⟩ := (h.only piece.name).2 (List.mem_map_of_mem hpiece)
    exact ⟨⟨piece.name, hname, hlog, hother, rfl⟩,
      FileTree.isFile_iff.2 ⟨_, (h.others piece hpiece).1⟩⟩

/-- The pieces are found in their order.  The candidates are tried in the order of their names, but
each session has one continuation only. -/
theorem logFiles_eq (h : store.HoldsPieces session project first later)
    (fits : later.length ≤ store.limit - 1)
    (distinct : (session :: later.map fun piece => Path.stemOf piece.name).Nodup)
    (inTurn : store.InTurn session (store.laterPaths session project later)) :
    store.logFiles session project =
      .ok (store.primaryPath session project :: store.laterPaths session project later) := by
  have listable : store.Listable (store.primaryPath session project) := by
    intro name hname hlog hother
    obtain ⟨piece, hpiece, rfl⟩ := List.mem_map.1 ((h.only name).1 ⟨hname, hlog, hother⟩)
    exact ⟨true, FileTree.isFile_iff.2 ⟨_, (h.others piece hpiece).1⟩⟩
  obtain ⟨paths, hcandidates, hnodup, hbeside⟩ := candidates_eq listable
  rw [← stem_laterPaths store session project] at distinct
  have hperm : paths.Perm (store.laterPaths session project later) := by
    have hlater := (List.nodup_cons.1 distinct).2.of_map
    refine (List.perm_ext_iff_of_nodup hnodup hlater).2 fun path => ?_
    rw [hbeside, h.isBeside_iff]
  have hline := inTurn.inLine
  have sized : Chain.Sized (paths.map fun path => ⟨path, store.headOf path⟩) := by
    intro candidate hcandidate
    have hmem := (hperm.map _).mem_iff.1 hcandidate
    obtain ⟨id, -, hcontinues⟩ := hline.exists_continues candidate hmem
    obtain ⟨fields, hhead, -⟩ := Candidate.continues_iff.1 hcontinues
    simp [hhead]
  have hfollow : Chain.follow session (store.limit - 1)
      (paths.map fun path => ⟨path, store.headOf path⟩) =
        .ok ((store.laterPaths session project later).map fun path =>
          ⟨path, store.headOf path⟩) := by
    refine Chain.follow_line sized (hperm.map _) hline ?_ ?_
    · rw [List.map_map]
      exact distinct
    · rw [List.length_map, laterPaths, List.length_map]
      exact fits
  have regular := FileTree.isFile_iff.2 ⟨_, h.primary.1⟩
  simp [logFiles, regular, hcandidates, hfollow, Function.comp_def]

/-- The entries of a log in pieces are those on all of its lines. -/
lemma entries_eq (h : store.HoldsPieces session project first later)
    (fits : later.length ≤ store.limit - 1)
    (distinct : (session :: later.map fun piece => Path.stemOf piece.name).Nodup)
    (inTurn : store.InTurn session (store.laterPaths session project later)) :
    (store.logFiles session project >>= store.readAllEntries) =
      Entry.readLines (fileLines (Utf8.decodeLossy
        (terminated (first ++ later.flatMap Piece.lines)))) := by
  have hfiles : ∀ file ∈ (store.primaryPath session project, first) :: later.map fun piece =>
      ((store.primaryPath session project).beside piece.name, piece.lines),
      store.Holds file.1 file.2 := by
    intro file hfile
    rcases List.mem_cons.1 hfile with rfl | hlater
    · exact h.primary
    · obtain ⟨piece, hpiece, rfl⟩ := List.mem_map.1 hlater
      exact h.others piece hpiece
  have hentries := readAllEntries_eq hfiles
  rw [List.map_cons, List.map_map, List.flatMap_cons, List.flatMap_map] at hentries
  rw [h.logFiles_eq fits distinct inTurn]
  exact hentries

end HoldsPieces

/-- The history of a log in pieces is that of the log in one file.  This includes the fault that a
line may hold. -/
theorem history_pieces {split whole : SessionStore} {first : List (List UInt8)}
    {later : List Piece} (origin : Origin) (drawn : ℕ)
    (pieces : split.HoldsPieces session project first later)
    (alone : whole.HoldsPieces session project (first ++ later.flatMap Piece.lines) [])
    (fits : later.length + 1 ≤ split.limit)
    (distinct : (session :: later.map fun piece => Path.stemOf piece.name).Nodup)
    (inTurn : split.InTurn session (split.laterPaths session project later)) :
    split.history origin session project drawn = whole.history origin session project drawn := by
  have hsplit := pieces.entries_eq (by omega) distinct inTurn
  have hwhole := alone.entries_eq (Nat.zero_le _) (List.nodup_singleton _) trivial
  rw [List.flatMap_nil, List.append_nil] at hwhole
  unfold history
  rw [hsplit, hwhole]

/-- A log in three pieces, where the last file comes first by name. -/
theorem history_pieces_out_of_order :
    let bytes := fun text : String => text.toList.map fun c => UInt8.ofNat c.toNat
    let first := [bytes "\x7b\"type\":\"user\",\"message\":\x7b\"content\":\"hello\"\x7d\x7d",
      bytes ""]
    let later : List Piece := [⟨"z.jsonl", [bytes "", bytes "\x7b\"sessionId\":\"s\"\x7d"]⟩,
      ⟨"a.jsonl", [bytes "\x7b\"sessionId\":\"z\"\x7d", bytes "[]"]⟩]
    let log := fun (name : String) (lines : List (List UInt8)) =>
      ((⟨"/", ["logs", "p", name]⟩ : Path), Node.file (terminated lines))
    let split : SessionStore := ⟨⟨log "s.jsonl" first :: later.map fun piece =>
      log piece.name piece.lines, []⟩, ⟨"/", ["logs"]⟩, 3⟩
    let whole : SessionStore := ⟨⟨[log "s.jsonl" (first ++ later.flatMap Piece.lines)], []⟩,
      ⟨"/", ["logs"]⟩, 3⟩
    let origin : Origin := ⟨fun n => toString n, ""⟩
    split.HoldsPieces "s" "p" first later ∧
      whole.HoldsPieces "s" "p" (first ++ later.flatMap Piece.lines) [] ∧
      later.length + 1 ≤ split.limit ∧
      ("s" :: later.map fun piece => Path.stemOf piece.name).Nodup ∧
      split.InTurn "s" (split.laterPaths "s" "p" later) ∧
      split.history origin "s" "p" 0 = whole.history origin "s" "p" 0 := by
  intro bytes first later log split whole origin
  have hothers : ∀ piece ∈ later,
      (split.tree.read ((split.primaryPath "s" "p").beside piece.name)).toOption =
        some (terminated piece.lines) := by decide +kernel
  have hsplit : split.tree.entryNames (split.primaryPath "s" "p").parent =
      ["s.jsonl", "z.jsonl", "a.jsonl"] := by decide +kernel
  have hwhole : whole.tree.entryNames (whole.primaryPath "s" "p").parent = ["s.jsonl"] := by
    decide +kernel
  have hname : (split.primaryPath "s" "p").name = "s.jsonl" := by decide +kernel
  have hlogs : ∀ name ∈ later.map Piece.name, isLogName name ∧ name ≠ "s.jsonl" := by
    decide +kernel
  have pieces : split.HoldsPieces "s" "p" first later := by
    refine ⟨⟨ok_of_toOption (by decide +kernel), List.not_mem_nil⟩, ?_, fun name => ?_⟩
    · exact fun piece hpiece => ⟨ok_of_toOption (hothers piece hpiece), List.not_mem_nil⟩
    · rw [hsplit, hname]
      constructor
      · rintro ⟨hmem, -, hother⟩
        exact (List.mem_cons.1 hmem).resolve_left hother
      · exact fun hmem => ⟨List.mem_cons_of_mem _ hmem, hlogs name hmem⟩
  have alone : whole.HoldsPieces "s" "p" (first ++ later.flatMap Piece.lines) [] := by
    refine ⟨⟨ok_of_toOption (by decide +kernel), List.not_mem_nil⟩, by simp, fun name => ?_⟩
    rw [hwhole, show (whole.primaryPath "s" "p").name = "s.jsonl" from hname]
    constructor
    · rintro ⟨hmem, -, hother⟩
      exact absurd (List.mem_singleton.1 hmem) hother
    · exact fun hmem => absurd hmem List.not_mem_nil
  have fits : later.length + 1 ≤ split.limit := by decide
  have distinct : ("s" :: later.map fun piece => Path.stemOf piece.name).Nodup := by
    decide +kernel
  have inTurn : split.InTurn "s" (split.laterPaths "s" "p" later) := by
    refine ⟨continues_headOf.1 ?_, continues_headOf.1 ?_, trivial⟩
    · decide +kernel
    · decide +kernel
  exact ⟨pieces, alone, fits, distinct, inTurn,
    history_pieces origin 0 pieces alone fits distinct inTurn⟩

end SessionStore

end ChatHistory
