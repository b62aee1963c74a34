import ChatHistory.Proofs.Session.Bystanders

/-!
# The order of the files of a session

A smaller limit cuts the files of a session short and changes nothing else, and they stand in the
order of a breadth-first search (`logFiles_breadth`): behind their parents, in the order of their
parents, and in the order of their names where they have the same parent.  The parent of a file is
the first one whose session it continues (`IsParentAt`).

`Chain.Breadth` is the search without a limit and without a bound on the sessions looked at.  With a
limit, `Chain.followFrom` finds the beginning of what that search finds (`followFrom_eq_take`), so
that the order is proved once, by induction on `Breadth`.
-/

namespace ChatHistory

namespace Chain

variable {follows : String → Prop} {id : String} {ids pending : List String} {place : ℕ}
  {candidates found : List Candidate}

/-! ## Parents -/

/-- A place among some sessions is that of the parent: the session there is followed, and none of
those in front of it. -/
def IsParentAt (follows : String → Prop) (ids : List String) (place : ℕ) : Prop :=
  (∃ id, ids[place]? = some id ∧ follows id) ∧ ∀ earlier ∈ ids.take place, ¬follows earlier

/-- If the first session is followed, its place is that of the parent. -/
lemma isParentAt_cons_of_follows (h : follows id) (ids : List String) :
    IsParentAt follows (id :: ids) place ↔ place = 0 := by
  constructor
  · rintro ⟨-, hearlier⟩
    cases place with
    | zero => rfl
    | succ place => exact absurd h (hearlier id List.mem_cons_self)
  · rintro rfl
    exact ⟨⟨id, rfl, h⟩, by simp⟩

/-- Otherwise the parent stands behind it. -/
lemma isParentAt_cons_of_not (h : ¬follows id) (ids : List String) :
    IsParentAt follows (id :: ids) place ↔
      ∃ before, place = before + 1 ∧ IsParentAt follows ids before := by
  constructor
  · rintro ⟨⟨parent, hparent, hfollows⟩, hearlier⟩
    cases place with
    | zero =>
      obtain rfl : id = parent := by simpa using hparent
      exact absurd hfollows h
    | succ place =>
      refine ⟨place, rfl, ⟨parent, by simpa using hparent, hfollows⟩, fun earlier he => ?_⟩
      exact hearlier earlier (List.mem_cons_of_mem id he)
  · rintro ⟨before, rfl, ⟨parent, hparent, hfollows⟩, hearlier⟩
    refine ⟨⟨parent, by simpa using hparent, hfollows⟩, ?_⟩
    rw [List.take_succ_cons, List.forall_mem_cons]
    exact ⟨h, hearlier⟩

/-- The place of a parent is a place in the list. -/
lemma IsParentAt.lt_length (h : IsParentAt follows ids place) : place < ids.length := by
  obtain ⟨⟨id, hid, -⟩, -⟩ := h
  exact (List.getElem?_eq_some_iff.1 hid).1

/-- Sessions behind the parent do not count. -/
lemma isParentAt_append (inside : place < ids.length) (more : List String) :
    IsParentAt follows (ids ++ more) place ↔ IsParentAt follows ids place := by
  rw [IsParentAt, IsParentAt, List.getElem?_append_left inside,
    List.take_append_of_le_length inside.le]

/-! ## The search without a limit -/

/-- What a search finds that starts with some pending sessions: the candidates that continue the
first session, in their order, and then what the other sessions and theirs lead to. -/
inductive Breadth : List String → List Candidate → List Candidate → Prop
  | done (candidates : List Candidate) : Breadth [] candidates []
  | next {id : String} {pending : List String} {candidates more : List Candidate}
      (rest : Breadth
        (pending ++ (candidates.filter (·.continues id)).map Candidate.sessionId)
        (others id candidates) more) :
      Breadth (id :: pending) candidates (candidates.filter (·.continues id) ++ more)

/-- What is found are candidates. -/
lemma Breadth.subset (h : Breadth pending candidates found) : found ⊆ candidates := by
  induction h with
  | done candidates => exact List.nil_subset candidates
  | next rest ih =>
    intro candidate hcandidate
    rcases List.mem_append.1 hcandidate with hfirst | hmore
    · exact List.mem_of_mem_filter hfirst
    · exact List.mem_of_mem_filter (ih hmore)

/-- With a limit, the beginning of what the search without one finds is found. -/
theorem followFrom_eq_take {bound : ℕ} (sized : Sized candidates)
    (enough : pending.length + candidates.length ≤ bound) :
    ∃ all, Breadth pending candidates all ∧
      ∀ room, followFrom bound room pending candidates = .ok (all.take room) := by
  -- Each step takes one session away and adds one for each candidate that it takes away.
  induction bound generalizing pending candidates with
  | zero =>
    obtain rfl : pending = [] := List.length_eq_zero_iff.1 (by omega)
    exact ⟨[], .done candidates, fun room => by rw [List.take_nil]; rfl⟩
  | succ bound ih =>
    cases pending with
    | nil => exact ⟨[], .done candidates, fun room => by rw [List.take_nil]; rfl⟩
    | cons id pending =>
      have hlength := (subperm_filter_append_others id candidates).length_le
      rw [List.length_append] at hlength
      have hbound : (pending ++
          (candidates.filter (·.continues id)).map Candidate.sessionId).length +
            (others id candidates).length ≤ bound := by
        rw [List.length_append, List.length_map]
        rw [List.length_cons] at enough
        omega
      obtain ⟨more, hbreadth, hmore⟩ := ih (sized.others id) hbound
      refine ⟨_, .next hbreadth, fun room => ?_⟩
      by_cases hroom : room = 0
      · rw [hroom, followFrom_no_room, List.take_zero]
      obtain ⟨remaining, hfound, hall⟩ := continuations_eq id sized room
      by_cases roomy : (candidates.filter (·.continues id)).length < room
      · rw [hall roomy, List.take_of_length_le roomy.le] at hfound
        rw [followFrom_cons id pending hroom hfound (hmore _), List.take_append,
          List.take_of_length_le roomy.le]
      · have full := not_lt.1 roomy
        have hnone := followFrom_no_room bound (pending ++
          ((candidates.filter (·.continues id)).take room).map Candidate.sessionId) remaining
        have hleft : room - ((candidates.filter (·.continues id)).take room).length = 0 := by
          rw [List.length_take]
          omega
        rw [← hleft] at hnone
        rw [followFrom_cons id pending hroom hfound hnone, List.append_nil,
          List.take_append_of_le_length full]

/-! ## Its order -/

/-- The candidates found stand behind their parents and in the order of these, and in the order of
their names where they have the same parent. -/
structure InBreadth (pending : List String) (found : List Candidate) : Prop where
  behind : ∀ before candidate after, found = before ++ candidate :: after →
    ∃ place < pending.length + before.length,
      IsParentAt (candidate.continues ·) (pending ++ found.map Candidate.sessionId) place
  ordered : found.Pairwise fun candidate later => ∀ place next,
    IsParentAt (candidate.continues ·) (pending ++ found.map Candidate.sessionId) place →
    IsParentAt (later.continues ·) (pending ++ found.map Candidate.sessionId) next →
    place < next ∨ place = next ∧ candidate.path.name < later.path.name

/-- Candidates in the order of their names are found in breadth. -/
theorem Breadth.inBreadth (h : Breadth pending candidates found)
    (sorted : candidates.Pairwise fun candidate later =>
      candidate.path.name < later.path.name) : InBreadth pending found := by
  induction h with
  | done candidates => exact ⟨by simp, .nil⟩
  | @next id pending candidates more rest ih =>
    have hrest := ih (sorted.sublist List.filter_sublist)
    have hids : id :: pending ++ (candidates.filter (·.continues id) ++ more).map
        Candidate.sessionId = id :: (pending ++ (candidates.filter (·.continues id)).map
          Candidate.sessionId ++ more.map Candidate.sessionId) := by
      rw [List.map_append, List.cons_append, List.append_assoc]
    -- The first session is the parent of the candidates that continue it, and of no others.
    have hfirst : ∀ candidate ∈ candidates.filter (·.continues id), candidate.continues id :=
      fun candidate hc => (List.mem_filter.1 hc).2
    have hmore : ∀ candidate ∈ more, ¬candidate.continues id := by
      intro candidate hc
      have hother := List.of_mem_filter (rest.subset hc)
      simp only [Bool.and_eq_true, Bool.not_eq_true'] at hother
      simp [hother.1]
    refine ⟨?_, ?_⟩
    · intro before candidate after hfound
      rw [hids]
      by_cases hcontinues : candidate.continues id
      · refine ⟨0, ?_, (isParentAt_cons_of_follows hcontinues _).2 rfl⟩
        rw [List.length_cons]
        omega
      obtain ⟨between, rfl, hbehind⟩ := exists_behind hfound fun hmem =>
        hcontinues (hfirst candidate hmem)
      obtain ⟨place, hplace, hparent⟩ := hrest.behind between candidate after hbehind
      refine ⟨place + 1, ?_, (isParentAt_cons_of_not hcontinues _).2 ⟨place, rfl, hparent⟩⟩
      rw [List.length_append, List.length_map] at hplace
      rw [List.length_cons, List.length_append]
      omega
    · rw [hids, List.pairwise_append]
      refine ⟨?_, ?_, ?_⟩
      · refine (sorted.sublist List.filter_sublist).imp_of_mem ?_
        intro candidate later hc hl hname place next hplace hnext
        rw [isParentAt_cons_of_follows (hfirst candidate hc)] at hplace
        rw [isParentAt_cons_of_follows (hfirst later hl)] at hnext
        exact .inr ⟨hplace.trans hnext.symm, hname⟩
      · refine hrest.ordered.imp_of_mem ?_
        intro candidate later hc hl hordered place next hplace hnext
        obtain ⟨before, rfl, hbefore⟩ := (isParentAt_cons_of_not (hmore candidate hc) _).1 hplace
        obtain ⟨other, rfl, hother⟩ := (isParentAt_cons_of_not (hmore later hl) _).1 hnext
        rcases hordered before other hbefore hother with hlt | ⟨rfl, hname⟩
        · exact .inl (Nat.succ_lt_succ hlt)
        · exact .inr ⟨rfl, hname⟩
      · intro candidate hc later hl place next hplace hnext
        rw [isParentAt_cons_of_follows (hfirst candidate hc)] at hplace
        obtain ⟨other, rfl, -⟩ := (isParentAt_cons_of_not (hmore later hl) _).1 hnext
        rw [hplace]
        exact .inl (Nat.succ_pos other)

/-- The beginning of what is found in breadth is in breadth. -/
lemma InBreadth.take (h : InBreadth pending found) (room : ℕ) :
    InBreadth pending (found.take room) := by
  have hids : pending ++ found.map Candidate.sessionId =
      pending ++ (found.take room).map Candidate.sessionId ++
        (found.drop room).map Candidate.sessionId := by
    rw [List.append_assoc, ← List.map_append, List.take_append_drop]
  refine ⟨?_, ?_⟩
  · intro before candidate after hfound
    have hall : found = before ++ candidate :: (after ++ found.drop room) := by
      rw [← List.cons_append, ← List.append_assoc, ← hfound, List.take_append_drop]
    obtain ⟨place, hplace, hparent⟩ := h.behind before candidate _ hall
    refine ⟨place, hplace, ?_⟩
    rw [hids] at hparent
    refine (isParentAt_append ?_ _).1 hparent
    rw [hfound, List.length_append, List.length_map, List.length_append]
    omega
  · refine (h.ordered.sublist (List.take_sublist room found)).imp ?_
    intro candidate later hordered place next hplace hnext
    refine hordered place next ?_ ?_
    · rw [hids]
      exact (isParentAt_append hplace.lt_length _).2 hplace
    · rw [hids]
      exact (isParentAt_append hnext.lt_length _).2 hnext

end Chain

namespace SessionStore

variable {store : SessionStore} {primary : Path} {session project : String}
  {candidates : List Candidate}

/-! ## Candidates -/

/-- Each candidate is a file beside the first one, with what stands at its beginning. -/
lemma isBeside_of_candidates (h : store.candidates primary = .ok candidates) :
    ∀ candidate ∈ candidates, store.IsBeside primary candidate.path ∧
      candidate.head = store.headOf candidate.path := by
  obtain ⟨files, hfiles, rfl⟩ := candidates_eq_ok_iff.1 h
  intro candidate hcandidate
  obtain ⟨path, hpath, rfl⟩ := List.mem_map.1 hcandidate
  have hlisted := mem_logPaths.1 ((FileTree.sublist_of_filesAmong hfiles).subset hpath)
  exact ⟨⟨hlisted, FileTree.isFile_of_mem_filesAmong hfiles hpath⟩, rfl⟩

/-- The paths with names of logs stand in the order of these names. -/
lemma sorted_logPaths (store : SessionStore) (primary : Path) :
    (store.logPaths primary).Pairwise fun path later => path.name < later.name := by
  let names := (store.tree.entryNames primary.parent).filter fun name =>
    isLogName name && name ≠ primary.name
  have distinct : (names.mergeSort fun a b => decide (a ≤ b)).Nodup := by
    rw [(List.mergeSort_perm _ _).nodup_iff]
    exact (FileTree.nodup_entryNames _ _).filter _
  have hsorted : (names.mergeSort fun a b => decide (a ≤ b)).Pairwise (· < ·) := by
    refine (List.Pairwise.and (pairwise_mergeSort_names names) distinct).imp ?_
    rintro name later ⟨hle, hne⟩
    exact Std.lt_of_le_of_ne hle hne
  rw [logPaths, List.pairwise_map]
  refine hsorted.imp ?_
  intro name later hlt
  rwa [primary.name_beside, primary.name_beside]

/-- Candidates stand in the order of their names. -/
lemma sorted_candidates (h : store.candidates primary = .ok candidates) :
    candidates.Pairwise fun candidate later => candidate.path.name < later.path.name := by
  obtain ⟨files, hfiles, rfl⟩ := candidates_eq_ok_iff.1 h
  rw [List.pairwise_map]
  exact (store.sorted_logPaths primary).sublist (FileTree.sublist_of_filesAmong hfiles)

/-! ## Files -/

/-- The files found stand behind their parents and in the order of these, and in the order of their
names where they have the same parent.  The parents are among the first file of the session, which
stands at place zero, and the files found. -/
structure InBreadth (store : SessionStore) (session : String) (found : List Path) : Prop where
  /-- A file stands behind its parent. -/
  behind : ∀ before path after, found = before ++ path :: after → ∃ place < before.length + 1,
    Chain.IsParentAt (store.Continues path) (session :: found.map Path.stem) place
  /-- Of two files, the first has the earlier parent, or the same and the smaller name. -/
  ordered : found.Pairwise fun path later => ∀ place next,
    Chain.IsParentAt (store.Continues path) (session :: found.map Path.stem) place →
    Chain.IsParentAt (store.Continues later) (session :: found.map Path.stem) next →
    place < next ∨ place = next ∧ path.name < later.name

/-- Candidates in breadth are files in breadth. -/
lemma InBreadth.of_candidates {found : List Candidate}
    (heads : ∀ candidate ∈ found, candidate.head = store.headOf candidate.path)
    (h : Chain.InBreadth [session] found) :
    store.InBreadth session (found.map Candidate.path) := by
  have hcontinues : ∀ candidate ∈ found,
      (fun id => (candidate.continues id : Prop)) = store.Continues candidate.path := by
    intro candidate hcandidate
    funext id
    have hcandidate' : candidate = ⟨candidate.path, store.headOf candidate.path⟩ := by
      rw [← heads candidate hcandidate]
    rw [hcandidate']
    exact propext continues_headOf
  have hids : session :: (found.map Candidate.path).map Path.stem =
      [session] ++ found.map Candidate.sessionId := by
    rw [List.map_map]
    rfl
  refine ⟨?_, ?_⟩
  · intro before path after hfound
    obtain ⟨first, rest, rfl, rfl, hrest⟩ := List.map_eq_append_iff.1 hfound
    obtain ⟨candidate, last, rfl, rfl, rfl⟩ := List.map_eq_cons_iff.1 hrest
    obtain ⟨place, hplace, hparent⟩ := h.behind first candidate last rfl
    rw [hcontinues candidate (List.mem_append_right _ List.mem_cons_self)] at hparent
    refine ⟨place, ?_, by rwa [hids]⟩
    rw [List.length_map]
    rw [List.length_singleton] at hplace
    omega
  · rw [List.pairwise_map, hids]
    refine h.ordered.imp_of_mem ?_
    intro candidate later hcandidate hlater hordered
    rwa [hcontinues candidate hcandidate, hcontinues later hlater] at hordered

/-- If the paths in the directory cannot be looked up, no files are found. -/
lemma logFiles_eq_error_of_candidates {fault : Fault}
    (regular : store.tree.isFile (store.primaryPath session project) = .ok true)
    (h : store.candidates (store.primaryPath session project) = .error fault) :
    store.logFiles session project = .error fault := by
  simp [logFiles, regular, h]

/-- Whatever the limit is, the files of a session are the first ones of a search in breadth. -/
lemma logFiles_eq_take
    (regular : store.tree.isFile (store.primaryPath session project) = .ok true)
    (parses : ∀ path, store.IsBeside (store.primaryPath session project) path →
      store.Parses path)
    (h : store.candidates (store.primaryPath session project) = .ok candidates) :
    ∃ all, Chain.Breadth [session] candidates all ∧ ∀ limit,
      { store with limit := limit }.logFiles session project =
        .ok (store.primaryPath session project ::
          (all.take (limit - 1)).map Candidate.path) := by
  have sized : Chain.Sized candidates := by
    intro candidate hcandidate
    obtain ⟨hbeside, hhead⟩ := isBeside_of_candidates h candidate hcandidate
    rw [hhead]
    exact headOf_ne_oversized hbeside.regular (parses _ hbeside)
  have enough : [session].length + candidates.length ≤ candidates.length + 1 := by
    rw [List.length_singleton]
    omega
  obtain ⟨all, hbreadth, hall⟩ := Chain.followFrom_eq_take sized enough
  refine ⟨all, hbreadth, fun limit => logFiles_eq_ok_iff.2 (.inr ⟨regular, candidates, h, ?_⟩)⟩
  exact ⟨all.take (limit - 1), hall (limit - 1), rfl⟩

/-- A smaller limit cuts the files of a session short and changes nothing else.  If the paths in the
directory can be looked up, there are such files, and behind the first one they stand in breadth. -/
theorem logFiles_breadth {few many : ℕ} (limited : 1 ≤ few) (le : few ≤ many)
    (regular : store.tree.isFile (store.primaryPath session project) = .ok true)
    (parses : ∀ path, store.IsBeside (store.primaryPath session project) path →
      store.Parses path) :
    { store with limit := few }.logFiles session project =
        ({ store with limit := many }.logFiles session project).map (List.take few) ∧
      (store.Listable (store.primaryPath session project) →
        ∃ found, { store with limit := many }.logFiles session project =
            .ok (store.primaryPath session project :: found) ∧
          store.InBreadth session found) := by
  cases hcandidates : store.candidates (store.primaryPath session project) with
  | error fault =>
    have hfault : ∀ limit, { store with limit := limit }.logFiles session project =
        .error fault := by
      intro limit
      exact logFiles_eq_error_of_candidates regular hcandidates
    refine ⟨by rw [hfault few, hfault many]; rfl, fun listable => ?_⟩
    obtain ⟨paths, hpaths, -⟩ := candidates_eq listable
    rw [hcandidates] at hpaths
    cases hpaths
  | ok candidates =>
    obtain ⟨all, hbreadth, hfiles⟩ := logFiles_eq_take regular parses hcandidates
    obtain ⟨room, rfl⟩ : ∃ room, few = room + 1 := ⟨few - 1, by omega⟩
    refine ⟨?_, fun _ => ⟨_, hfiles many, ?_⟩⟩
    · have hcut : min room (many - 1) = room := by omega
      rw [hfiles (room + 1), hfiles many, Except.map, List.take_succ_cons, ← List.map_take,
        List.take_take, hcut, Nat.add_sub_cancel]
    · refine .of_candidates (fun candidate hcandidate => ?_)
        ((hbreadth.inBreadth (sorted_candidates hcandidates)).take (many - 1))
      have hmem := hbreadth.subset (List.mem_of_mem_take hcandidate)
      exact (isBeside_of_candidates hcandidates candidate hmem).2

/-- Two files continue the session, and three continue these, against the order of their names.  One
file names itself, and one may not be read.  A limit of four stops between the two files with the
same parent. -/
theorem logFiles_breadth_branching :
    let link := fun id : String => "\x7b\"sessionId\":\"" ++ id ++ "\"\x7d"
    let logs := [("s.jsonl", "[]"), ("x.jsonl", link "s"), ("y.jsonl", link "s"),
      ("b.jsonl", link "x"), ("a.jsonl", link "y"), ("c.jsonl", link "x"), ("d.jsonl", link "d"),
      ("e.jsonl", link "s")]
    let nodes : List (Path × Node) := logs.map fun log =>
      (⟨"/", ["logs", "p", log.1]⟩, .file (log.2.toList.map fun c => .ofNat c.toNat))
    let store : SessionStore := ⟨⟨nodes, ["e.jsonl"]⟩, ⟨"/", ["logs"]⟩, 32⟩
    let primary := store.primaryPath "s" "p"
    let found := ["x.jsonl", "y.jsonl", "b.jsonl", "c.jsonl", "a.jsonl"].map primary.beside
    1 ≤ 4 ∧ 4 ≤ 9 ∧ store.tree.isFile primary = .ok true ∧
      (∀ path, store.IsBeside primary path → store.Parses path) ∧
      { store with limit := 9 }.logFiles "s" "p" = .ok (primary :: found) ∧
      { store with limit := 4 }.logFiles "s" "p" = .ok (primary :: found.take 3) ∧
      store.InBreadth "s" found := by
  intro link logs nodes store primary found
  have few : 1 ≤ 4 := by decide
  have many : 4 ≤ 9 := by decide
  have hnames : store.tree.entryNames primary.parent = logs.map Prod.fst := by decide +kernel
  have hfiles : ∀ log ∈ logs, (store.tree.isFile (primary.beside log.1)).toOption = some true := by
    decide +kernel
  have hfirst : ∀ log ∈ logs, ∀ lines ∈ (store.readLines (primary.beside log.1)).toOption,
      ∀ text ∈ Entry.firstText? lines, (Json.read text).isOk := by
    decide +kernel
  have regular : store.tree.isFile primary = .ok true := ok_of_toOption (by decide +kernel)
  have listable : store.Listable primary := by
    intro name hname hlog hother
    rw [hnames] at hname
    obtain ⟨log, hmem, rfl⟩ := List.mem_map.1 hname
    exact ⟨true, ok_of_toOption (hfiles log hmem)⟩
  have parses : ∀ path, store.IsBeside primary path → store.Parses path := by
    rintro path ⟨⟨name, hname, -, -, rfl⟩, -⟩ lines text hlines htext hread
    rw [hnames] at hname
    obtain ⟨log, hmem, rfl⟩ := List.mem_map.1 hname
    have hparsed := hfirst log hmem lines (by rw [hlines]; rfl) text htext
    rw [hread] at hparsed
    exact absurd hparsed Bool.false_ne_true
  have located : { store with limit := 9 }.logFiles "s" "p" = .ok (primary :: found) := by
    let sorted := ["a.jsonl", "b.jsonl", "c.jsonl", "d.jsonl", "e.jsonl", "x.jsonl", "y.jsonl"]
    have hsorted : store.logPaths primary = sorted.map primary.beside :=
      congrArg (List.map primary.beside)
        (mergeSort_names_eq (by decide +kernel) (by decide +kernel))
    have picked : store.tree.filesAmong (sorted.map primary.beside) =
        .ok (sorted.map primary.beside) := ok_of_toOption (by decide +kernel)
    let candidates := (sorted.map primary.beside).map fun path =>
      (⟨path, store.headOf path⟩ : Candidate)
    have followed : ((Chain.follow "s" 8 candidates).map (List.map Candidate.path)).toOption =
        some found := by decide +kernel
    cases hfollow : Chain.follow "s" 8 candidates with
    | error fault =>
      rw [hfollow] at followed
      cases followed
    | ok chain =>
      rw [hfollow] at followed
      refine logFiles_eq_ok_iff.2 (.inr ⟨regular, candidates, ?_, chain, hfollow, ?_⟩)
      · exact candidates_eq_ok_iff.2 ⟨_, hsorted ▸ picked, rfl⟩
      · exact congrArg (primary :: ·) (Option.some.inj followed)
  obtain ⟨hcut, hbreadth⟩ := logFiles_breadth few many regular parses
  obtain ⟨others, hothers, hordered⟩ := hbreadth listable
  obtain rfl : found = others := by
    rw [located] at hothers
    exact (List.cons.inj (Except.ok.inj hothers)).2
  rw [located] at hcut
  exact ⟨few, many, regular, parses, located, hcut, hordered⟩

end SessionStore

end ChatHistory
