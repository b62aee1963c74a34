import ChatHistory.Markup.Entity
import ChatHistory.Proofs.Text.Scan

/-!
# Writing a text with entities

`encode` replaces the four characters that have a meaning in tags by their entities, one after the
other and the ampersand first.  An encoded text decodes to what it was (`decode_encode`).

Both directions are followed along a table.  When some kinds of entities are replaced already, each
character of the text stands for itself or as an entity of the others (`escape`).  To write the next
kind, its character must not be part of the entities that are there.  To read it, `IsTable` is
needed: the entities share nothing but the ampersand that they begin with, and the ampersand is
decoded last.
-/

namespace ChatHistory.Entity

open Text

/-- The text with entities for the ampersand, for the brackets and for the quote. -/
def encode (text : List Char) : List Char :=
  let ampersands := replaceAll ['&'] "&amp;".toList text
  let opened := replaceAll ['<'] "&lt;".toList ampersands
  let closed := replaceAll ['>'] "&gt;".toList opened
  replaceAll ['"'] "&quot;".toList closed

/-- A character as an entity, if the table has one for it. -/
def escape : List (List Char × Char) → Char → List Char
  | [], c => [c]
  | (entity, d) :: entries, c => if c = d then entity else escape entries c

/-- Entities that can be read one kind after the other. -/
inductive IsTable : List (List Char × Char) → Prop
  | nil : IsTable []
  | cons {name : List Char} {c : Char} {entries : List (List Char × Char)} (plain : '&' ∉ name)
      (apart : ∀ other ∈ entries, ¬('&' :: name) <+: other.1 ∧ ¬other.1 <+: '&' :: name)
      (distinct : ∀ other ∈ entries, c ≠ other.2)
      (marked : '&' ∈ c :: entries.map Prod.snd) (rest : IsTable entries) :
      IsTable (('&' :: name, c) :: entries)

lemma isTable_table : IsTable table :=
  .cons (by decide) (by decide) (by decide) (by decide) <|
    .cons (by decide) (by decide) (by decide) (by decide) <|
      .cons (by decide) (by decide) (by decide) (by decide) <|
        .cons (by decide) (by decide) (by decide) (by decide) .nil

variable {entries : List (List Char × Char)}

/-- An entity is an ampersand and other characters. -/
lemma IsTable.exists_name (h : IsTable entries) {entry : List Char × Char}
    (hentry : entry ∈ entries) :
    ∃ name, entry.1 = '&' :: name ∧ '&' ∉ name := by
  induction h with
  | nil => simp at hentry
  | @cons name c entries plain _ _ _ _ ih =>
    rcases List.mem_cons.1 hentry with rfl | hrest
    · exact ⟨name, rfl, plain⟩
    · exact ih hrest

/-- A character stands for itself or as an entity. -/
lemma escape_cases (entries : List (List Char × Char)) (c : Char) :
    (escape entries c = [c] ∧ c ∉ entries.map Prod.snd) ∨
      ∃ entry ∈ entries, escape entries c = entry.1 ∧ c = entry.2 := by
  induction entries with
  | nil => simp [escape]
  | cons entry entries ih =>
    rw [escape]
    split
    · rename_i same
      exact .inr ⟨entry, List.mem_cons_self, rfl, same⟩
    · rename_i differs
      rcases ih with ⟨hself, hnone⟩ | ⟨other, hother, hentity, same⟩
      · exact .inl ⟨hself, by simpa [differs] using hnone⟩
      · exact .inr ⟨other, List.mem_cons_of_mem _ hother, hentity, same⟩

/-- Writing a character as its entity, when other characters are written as theirs already. -/
lemma replaceAll_escape {entity : List Char} {d : Char}
    (fresh : ∀ other ∈ entries, d ∉ other.1 ∧ d ≠ other.2) (text : List Char) :
    replaceAll [d] entity (text.flatMap (escape entries)) =
      text.flatMap (escape ((entity, d) :: entries)) := by
  refine replaceAll_flatMap (List.cons_ne_nil d []) (fun c rest => ?_) text
  rw [escape]
  rcases escape_cases entries c with ⟨hself, -⟩ | ⟨other, hother, hentity, same⟩
  · rw [hself]
    split
    · rename_i same
      rw [same]
      exact replaceAll_append_self (List.cons_ne_nil d []) rest
    · rename_i differs
      exact replaceAll_append_of_notMem (by simpa using Ne.symm differs) rest
  · obtain ⟨absent, differs⟩ := fresh other hother
    rw [hentity, if_neg fun h => differs (h.symm.trans same), replaceAll_append_of_notMem absent]

/-- The other entities of a table stay when the first one is replaced. -/
lemma replaceAll_append_entity {name : List Char} {d : Char}
    (h : IsTable (('&' :: name, d) :: entries)) {other : List Char × Char}
    (hother : other ∈ entries) (replacement rest : List Char) :
    replaceAll ('&' :: name) replacement (other.1 ++ rest) =
      other.1 ++ replaceAll ('&' :: name) replacement rest := by
  cases h with
  | cons _ apart _ _ hrest =>
    obtain ⟨behind, hbehind, absent⟩ := hrest.exists_name hother
    have hprefix : ¬('&' :: name) <+: other.1 ++ rest := by
      intro begins
      exact (List.prefix_or_prefix_of_prefix begins (List.prefix_append _ rest)).elim
        (apart other hother).1 (apart other hother).2
    rw [hbehind, List.cons_append] at hprefix ⊢
    rw [replaceAll_cons_of_none (List.cons_ne_nil '&' name) hprefix,
      replaceAll_append_of_notMem absent]
    rfl

/-- Reading an entity as its character, when other characters are still written as theirs. -/
lemma replaceAll_unescape {name : List Char} {d : Char} (h : IsTable (('&' :: name, d) :: entries))
    (text : List Char) :
    replaceAll ('&' :: name) [d] (text.flatMap (escape (('&' :: name, d) :: entries))) =
      text.flatMap (escape entries) := by
  have hkept {other : List Char × Char} (hother : other ∈ entries) (rest : List Char) :=
    replaceAll_append_entity h hother [d] rest
  cases h with
  | cons _ _ distinct marked _ =>
    refine replaceAll_flatMap (List.cons_ne_nil '&' name) (fun c rest => ?_) text
    rw [escape]
    rcases escape_cases entries c with ⟨hself, hnone⟩ | ⟨other, hother, hentity, same⟩
    · rw [hself]
      split
      · rename_i same
        rw [same]
        exact replaceAll_append_self (List.cons_ne_nil '&' name) rest
      · rename_i differs
        -- The ampersand has an entity of its own, so a character that stands for itself is another.
        have hampersand : '&' ∉ [c] := by
          rw [List.mem_singleton]
          rintro rfl
          exact (List.mem_cons.1 marked).elim differs hnone
        exact replaceAll_append_of_notMem hampersand rest
    · rw [hentity, if_neg fun h => distinct other hother (h.symm.trans same)]
      exact hkept hother rest

/-- Writing entities one kind after the other, from the last to the first. -/
lemma foldr_replaceAll
    (fresh : entries.Pairwise fun entry other => entry.2 ∉ other.1 ∧ entry.2 ≠ other.2)
    (text : List Char) :
    entries.foldr (fun entry t => replaceAll [entry.2] entry.1 t) text =
      text.flatMap (escape entries) := by
  induction entries with
  | nil => exact (List.flatMap_singleton' text).symm
  | cons entry entries ih =>
    obtain ⟨hentry, hentries⟩ := List.pairwise_cons.1 fresh
    rw [List.foldr_cons, ih hentries, replaceAll_escape hentry]

/-- Reading the entities of a table, from the first to the last. -/
lemma foldl_replaceAll (h : IsTable entries) (text : List Char) :
    entries.foldl (fun t entry => replaceAll entry.1 [entry.2] t) (text.flatMap (escape entries)) =
      text := by
  induction h with
  | nil => exact List.flatMap_singleton' text
  | cons plain apart distinct marked rest ih =>
    rw [List.foldl_cons, replaceAll_unescape (.cons plain apart distinct marked rest), ih]

/-- An encoded text has an entity for each character of the table. -/
lemma encode_eq_flatMap (text : List Char) : encode text = text.flatMap (escape table) := by
  -- The brackets are encoded in the order in which they are decoded, which makes no difference.
  let written := [("&quot;".toList, '"'), ("&gt;".toList, '>'), ("&lt;".toList, '<'),
    ("&amp;".toList, '&')]
  have fresh : written.Pairwise fun entry other => entry.2 ∉ other.1 ∧ entry.2 ≠ other.2 := by
    decide
  have hescape : escape written = escape table := by
    funext c
    simp only [written, table, escape]
    split_ifs <;> simp_all
  calc
    encode text = written.foldr (fun entry t => replaceAll [entry.2] entry.1 t) text := rfl
    _ = text.flatMap (escape table) := by rw [foldr_replaceAll fresh, hescape]

/-- An encoded text decodes to what it was. -/
theorem decode_encode (text : List Char) : decode (encode text) = text := by
  rw [encode_eq_flatMap]
  exact foldl_replaceAll isTable_table text

/-- Of the characters of the table an encoded text has none but the ampersand. -/
lemma notMem_encode {c : Char} (hc : c ∈ table.map Prod.snd) (other : c ≠ '&')
    (text : List Char) : c ∉ encode text := by
  have hentities : ∀ entry ∈ table, ∀ other ∈ table, other.2 ∈ entry.1 → other.2 = '&' := by decide
  rw [encode_eq_flatMap, List.mem_flatMap]
  rintro ⟨d, -, hd⟩
  rcases escape_cases table d with ⟨hself, hnone⟩ | ⟨entry, hentry, hentity, -⟩
  · rw [hself, List.mem_singleton] at hd
    exact hnone (hd ▸ hc)
  · obtain ⟨own, hown, rfl⟩ := List.mem_map.1 hc
    rw [hentity] at hd
    exact other (hentities entry hentry own hown hd)

/-- Nothing is lost when a text is encoded. -/
lemma encode_ne_nil {text : List Char} (h : text ≠ []) : encode text ≠ [] := by
  intro empty
  have hdecode := decode_encode text
  rw [empty] at hdecode
  exact h hdecode.symm

end ChatHistory.Entity
