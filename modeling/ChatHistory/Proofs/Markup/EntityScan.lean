import ChatHistory.Proofs.Markup.Entity

/-!
# Decoding in one scan

Replacing one kind of entity after the other is the same as one scan that replaces all kinds at
once and never looks at its own output (`decode_eq_decodeOnce`).

One kind is added to the scan at a time (`readOnce_cons`).  Replacing the first kind of a table
leaves the entities of the other kinds as they are, and makes no new ones: each of them is an
ampersand and a name, and neither the ampersand that may come of the last kind nor the character of
another one stands in a name behind an ampersand of the text.
-/

namespace ChatHistory.Entity

open Text

variable {entries : List (List Char × Char)}

/-- The entity of a table at the beginning of a text, and how many characters it has beyond the
first. -/
def matchIn (entries : List (List Char × Char)) (text : List Char) : Option (Char × ℕ) :=
  entries.findSome? fun (entity, c) =>
    if entity.isPrefixOf text then some (c, entity.length - 1) else none

/-- The text with every entity of a table replaced by its character, in one scan. -/
def readOnce (entries : List (List Char × Char)) (text : List Char) : List Char :=
  (scan (matchIn entries) text).map fun
    | .inl c => c
    | .inr c => c

/-! ## One step of the scan -/

lemma matchIn_eq_none {text : List Char} (h : ∀ entry ∈ entries, ¬entry.1 <+: text) :
    matchIn entries text = none := by
  refine List.findSome?_eq_none_iff.2 fun entry hentry => if_neg ?_
  rw [List.isPrefixOf_iff_prefix]
  exact h entry hentry

/-- At most one entity of a table stands at the beginning of a text. -/
lemma matchIn_append (h : IsTable entries) {entry : List Char × Char} (hentry : entry ∈ entries)
    (rest : List Char) :
    matchIn entries (entry.1 ++ rest) = some (entry.2, entry.1.length - 1) := by
  induction h with
  | nil => simp at hentry
  | @cons name c entries _ apart _ _ _ ih =>
    rw [matchIn, List.findSome?_cons]
    rcases List.mem_cons.1 hentry with rfl | hother
    · have begins : ('&' :: name).isPrefixOf ('&' :: name ++ rest) :=
        List.isPrefixOf_iff_prefix.2 (List.prefix_append _ rest)
      simp only [if_pos begins]
    · have differs : ¬('&' :: name).isPrefixOf (entry.1 ++ rest) := by
        rw [List.isPrefixOf_iff_prefix]
        intro begins
        exact (List.prefix_or_prefix_of_prefix begins (List.prefix_append _ rest)).elim
          (apart entry hother).1 (apart entry hother).2
      simp only [if_neg differs]
      exact ih hother

/-- An entity is read as its character, and the scan goes on behind it. -/
lemma readOnce_append (h : IsTable entries) {entry : List Char × Char} (hentry : entry ∈ entries)
    (rest : List Char) :
    readOnce entries (entry.1 ++ rest) = entry.2 :: readOnce entries rest := by
  obtain ⟨name, hname, -⟩ := h.exists_name hentry
  have filled : entry.1 ≠ [] := by simp [hname]
  rw [readOnce, scan_append_of_match filled (matchIn_append h hentry rest), List.map_cons]
  rfl

/-- A character where no entity begins is left. -/
lemma readOnce_cons_of_none {c : Char} {rest : List Char}
    (h : ∀ entry ∈ entries, ¬entry.1 <+: c :: rest) :
    readOnce entries (c :: rest) = c :: readOnce entries rest := by
  rw [readOnce, scan_cons_of_none (matchIn_eq_none h), List.map_cons]
  rfl

/-- A character that stands in no entity is left. -/
lemma readOnce_cons_of_notMem (h : IsTable entries) {c : Char}
    (absent : ∀ entry ∈ entries, c ∉ entry.1) (rest : List Char) :
    readOnce entries (c :: rest) = c :: readOnce entries rest := by
  refine readOnce_cons_of_none fun entry hentry begins => ?_
  obtain ⟨name, hname, -⟩ := h.exists_name hentry
  rw [hname, List.cons_prefix_cons] at begins
  exact absent entry hentry (by simp [hname, ← begins.1])

/-! ## One kind more -/

/-- Replacing an entity makes no name of another one. -/
lemma prefix_of_prefix_replaceAll {name other text : List Char} {d : Char} (plain : '&' ∉ other)
    (absent : d ∉ other) (h : other <+: replaceAll ('&' :: name) [d] text) : other <+: text := by
  induction other generalizing text with
  | nil => exact List.nil_prefix
  | cons e other ih =>
    obtain ⟨hmark, hplain⟩ := not_or.1 (mt List.mem_cons.2 plain)
    obtain ⟨hd, habsent⟩ := not_or.1 (mt List.mem_cons.2 absent)
    have filled := List.cons_ne_nil '&' name
    by_cases begins : '&' :: name <+: text
    · obtain ⟨rest, rfl⟩ := begins
      rw [replaceAll_append_self filled, List.singleton_append, List.cons_prefix_cons] at h
      exact absurd h.1.symm hd
    · cases text with
      | nil => simp [replaceAll_nil filled] at h
      | cons c rest =>
        rw [replaceAll_cons_of_none filled begins, List.cons_prefix_cons] at h
        exact List.cons_prefix_cons.2 ⟨h.1, ih hplain habsent h.2⟩

/-- Scanning for one kind of entities more is the same as replacing this kind first. -/
lemma readOnce_cons {name : List Char} {d : Char} (h : IsTable (('&' :: name, d) :: entries))
    (fresh : ∀ other ∈ entries, d ∉ other.1) (text : List Char) :
    readOnce (('&' :: name, d) :: entries) text =
      readOnce entries (replaceAll ('&' :: name) [d] text) := by
  have filled := List.cons_ne_nil '&' name
  have hentries : IsTable entries := by cases h; assumption
  -- The scan jumps over whole entities, so the induction is on the length of the text.
  induction hlength : text.length using Nat.strong_induction_on generalizing text with
  | _ length ih =>
    subst hlength
    by_cases begins : ∃ entry ∈ ('&' :: name, d) :: entries, entry.1 <+: text
    · obtain ⟨entry, hentry, rest, rfl⟩ := begins
      have shorter : rest.length < (entry.1 ++ rest).length := by
        obtain ⟨behind, hbehind, -⟩ := h.exists_name hentry
        rw [hbehind, List.length_append, List.length_cons]
        omega
      rw [readOnce_append h hentry, ih _ shorter rest rfl]
      rcases List.mem_cons.1 hentry with rfl | hother
      · rw [replaceAll_append_self filled, List.singleton_append,
          readOnce_cons_of_notMem hentries fresh]
      · rw [replaceAll_append_entity h hother, readOnce_append hentries hother]
    · simp only [not_exists, not_and] at begins
      cases text with
      | nil => rw [replaceAll_nil filled]; rfl
      | cons c rest =>
        rw [readOnce_cons_of_none begins, ih _ (by simp) rest rfl,
          replaceAll_cons_of_none filled (begins _ List.mem_cons_self),
          readOnce_cons_of_none]
        -- What begins with an entity after the replacement did so before.
        intro other hother after
        obtain ⟨behind, hbehind, plain⟩ := hentries.exists_name hother
        have absent : d ∉ behind := fun hmem =>
          fresh other hother (hbehind ▸ List.mem_cons_of_mem _ hmem)
        rw [hbehind, List.cons_prefix_cons] at after
        refine begins other (List.mem_cons_of_mem _ hother) ?_
        rw [hbehind, List.cons_prefix_cons]
        exact ⟨after.1, prefix_of_prefix_replaceAll plain absent after.2⟩

/-! ## All kinds -/

/-- Where no entity is looked for, everything is left. -/
lemma readOnce_nil (text : List Char) : readOnce [] text = text := by
  induction text with
  | nil => rfl
  | cons c rest ih => rw [readOnce_cons_of_none (by simp), ih]

/-- Replacing the kinds of a table one after the other is one scan for all of them. -/
lemma foldl_replaceAll_eq_readOnce (h : IsTable entries)
    (fresh : entries.Pairwise fun entry other => entry.2 ∉ other.1) (text : List Char) :
    entries.foldl (fun t entry => replaceAll entry.1 [entry.2] t) text = readOnce entries text := by
  induction h generalizing text with
  | nil => exact (readOnce_nil text).symm
  | cons plain apart distinct marked rest ih =>
    obtain ⟨hfirst, hrest⟩ := List.pairwise_cons.1 fresh
    rw [List.foldl_cons, ih hrest,
      readOnce_cons (.cons plain apart distinct marked rest) hfirst]

/-- The scan reads a text in which only the ampersands are written as entities. -/
lemma decodeOnce_replaceAll (text : List Char) :
    decodeOnce (replaceAll ['&'] "&amp;".toList text) = text := by
  have hampersand : ("&amp;".toList, '&') ∈ table := by decide
  have filled := List.cons_ne_nil '&' []
  change readOnce table _ = text
  induction text with
  | nil => rfl
  | cons c rest ih =>
    by_cases hc : '&' = c
    · subst hc
      calc readOnce table (replaceAll ['&'] "&amp;".toList ('&' :: rest))
          = readOnce table ("&amp;".toList ++ replaceAll ['&'] "&amp;".toList rest) :=
            congrArg _ (replaceAll_append_self filled rest)
        _ = '&' :: readOnce table (replaceAll ['&'] "&amp;".toList rest) :=
            readOnce_append isTable_table hampersand _
        _ = '&' :: rest := by rw [ih]
    · rw [replaceAll_cons_of_none filled (by simp [hc]), readOnce_cons_of_none, ih]
      intro entry hentry begins
      obtain ⟨name, hname, -⟩ := isTable_table.exists_name hentry
      rw [hname, List.cons_prefix_cons] at begins
      exact hc begins.1

/-- Decoding one kind of entities after the other is decoding all of them in a single scan, which
never looks at its own output.  In particular, what is behind an ampersand that was written as an
entity is not decoded. -/
theorem decode_eq_decodeOnce (text : List Char) :
    decode text = decodeOnce text ∧ decode (replaceAll ['&'] "&amp;".toList text) = text := by
  have hscan (text : List Char) : decode text = decodeOnce text :=
    foldl_replaceAll_eq_readOnce isTable_table (by decide) text
  exact ⟨hscan text, (hscan _).trans (decodeOnce_replaceAll text)⟩

example : decode "&amp;lt;&lt;".toList = "&lt;<".toList := by decide +kernel

end ChatHistory.Entity
