import ChatHistory.Text.Scan
import Mathlib.Data.List.Basic
import Mathlib.Data.List.Infix

/-!
# What a scan finds

Where a match begins a scan gives it and goes on behind it (`scan_append_of_match`), and characters
where none begins are left (`scan_append_of_none`).  For the replacement of a pattern this means
that an occurrence at the beginning is replaced (`replaceAll_append_self`), and that a text which is
written piece by piece is replaced piece by piece if no piece depends on what follows it
(`replaceAll_flatMap`).
-/

namespace ChatHistory.Text

section Scan

variable {α : Type} {matchAt : List Char → Option (α × ℕ)}

/-- The characters that a match covers are passed over. -/
lemma scanFrom_eq_scan_drop (covered : ℕ) (text : List Char) :
    scanFrom matchAt covered text = scan matchAt (text.drop covered) := by
  induction text generalizing covered with
  | nil => cases covered <;> rfl
  | cons c rest ih =>
    cases covered with
    | zero => rfl
    | succ covered => exact ih covered

/-- Behind a match the scan goes on. -/
lemma scan_append_of_match {front rest : List Char} {a : α} (filled : front ≠ [])
    (h : matchAt (front ++ rest) = some (a, front.length - 1)) :
    scan matchAt (front ++ rest) = .inl a :: scan matchAt rest := by
  obtain ⟨c, front, rfl⟩ := List.exists_cons_of_ne_nil filled
  rw [List.cons_append] at h ⊢
  simp only [scan, scanFrom, h]
  rw [scanFrom_eq_scan_drop, List.length_cons, Nat.add_sub_cancel, List.drop_left]
  rfl

lemma scan_cons_of_none {c : Char} {rest : List Char} (h : matchAt (c :: rest) = none) :
    scan matchAt (c :: rest) = .inr c :: scan matchAt rest := by
  simp only [scan, scanFrom, h]

/-- Characters where no match begins are left. -/
lemma scan_append_of_none {front : List Char}
    (h : ∀ c ∈ front, ∀ behind, matchAt (c :: behind) = none) (rest : List Char) :
    scan matchAt (front ++ rest) = front.map .inr ++ scan matchAt rest := by
  induction front with
  | nil => rfl
  | cons c front ih =>
    obtain ⟨hc, hfront⟩ := List.forall_mem_cons.1 h
    rw [List.cons_append, scan_cons_of_none (hc _), ih hfront]
    rfl

variable (pieces others : List (α ⊕ Char))

lemma found_cons_inl (a : α) : found (.inl a :: pieces) = a :: found pieces := rfl

lemma unmatched_cons_inl (a : α) : unmatched (.inl a :: pieces) = unmatched pieces := rfl

lemma found_append : found (pieces ++ others) = found pieces ++ found others :=
  List.filterMap_append

lemma unmatched_append : unmatched (pieces ++ others) = unmatched pieces ++ unmatched others :=
  List.filterMap_append

lemma found_map_inr (text : List Char) : found (text.map (.inr : Char → α ⊕ Char)) = [] := by
  simp [found]

lemma unmatched_map_inr (text : List Char) :
    unmatched (text.map (.inr : Char → α ⊕ Char)) = text := by
  simp [unmatched, List.filterMap_map]

/-- A matcher is found in a text if it answers at some place. -/
lemma isSome_search_iff {matcher : List Char → Option α} {text : List Char} :
    (search matcher text).isSome ↔ ∃ rest, rest <:+ text ∧ (matcher rest).isSome := by
  induction text with
  | nil => simp [search]
  | cons c rest ih =>
    unfold search
    simp only [List.suffix_cons_iff, or_and_right, exists_or, exists_eq_left]
    cases h : matcher (c :: rest) with
    | some answer => simp
    | none => simpa using ih

/-- A matcher that answers at the beginning is found there. -/
lemma search_of_match {matcher : List Char → Option α} {text : List Char} {a : α}
    (h : matcher text = some a) : search matcher text = some a := by
  cases text with
  | nil => exact h
  | cons c rest => rw [search, h]

/-- The first answer to a search is the first match of a scan. -/
lemma search_eq_head?_found (empty : matchAt [] = none) (text : List Char) :
    search (fun rest => (matchAt rest).map Prod.fst) text = (found (scan matchAt text)).head? := by
  induction text with
  | nil => simp [search, empty, scan, scanFrom, found]
  | cons c rest ih =>
    cases h : matchAt (c :: rest) with
    | some answer => simp [search, scan, scanFrom, h, found_cons_inl]
    | none =>
      rw [scan_cons_of_none h, search, h]
      exact ih

lemma isPrefixOf?_append (pattern rest : List Char) :
    pattern.isPrefixOf? (pattern ++ rest) = some rest := by
  rw [List.isPrefixOf?_eq_some_iff_append_eq]

/-- Characters are taken up to the first of a kind. -/
lemma takeWhile_ne_append_cons {c : Char} {front : List Char} (h : c ∉ front) (rest : List Char) :
    (front ++ c :: rest).takeWhile (· ≠ c) = front := by
  have kept : ∀ d ∈ front, decide (d ≠ c) := fun d hd => by simpa using ne_of_mem_of_not_mem hd h
  rw [List.takeWhile_append_of_pos kept, List.takeWhile_cons_of_neg (by simp), List.append_nil]

end Scan

/-! ## Replacement -/

section Replacement

variable {pattern replacement : List Char}

lemma literally_eq_some {rest : List Char} (filled : pattern ≠ []) (h : pattern <+: rest) :
    literally pattern rest = some ((), pattern.length - 1) :=
  if_pos ⟨filled, List.isPrefixOf_iff_prefix.2 h⟩

lemma literally_eq_none {rest : List Char} (h : ¬pattern <+: rest) :
    literally pattern rest = none :=
  if_neg fun ⟨_, begins⟩ => h (List.isPrefixOf_iff_prefix.1 begins)

lemma replaceAll_nil (filled : pattern ≠ []) : replaceAll pattern replacement [] = [] :=
  if_neg filled

/-- An occurrence at the beginning is replaced. -/
lemma replaceAll_append_self (filled : pattern ≠ []) (rest : List Char) :
    replaceAll pattern replacement (pattern ++ rest) =
      replacement ++ replaceAll pattern replacement rest := by
  have hmatch := literally_eq_some filled (List.prefix_append pattern rest)
  rw [replaceAll, if_neg filled, scan_append_of_match filled hmatch, List.flatMap_cons, replaceAll,
    if_neg filled]

/-- A character stays if the pattern does not begin with it. -/
lemma replaceAll_cons_of_none {c : Char} {rest : List Char} (filled : pattern ≠ [])
    (h : ¬pattern <+: c :: rest) :
    replaceAll pattern replacement (c :: rest) = c :: replaceAll pattern replacement rest := by
  rw [replaceAll, if_neg filled, scan_cons_of_none (literally_eq_none h), List.flatMap_cons,
    replaceAll, if_neg filled, List.singleton_append]

/-- Characters stay if the pattern begins with none of them. -/
lemma replaceAll_append_of_notMem {c : Char} {name front : List Char} (h : c ∉ front)
    (rest : List Char) :
    replaceAll (c :: name) replacement (front ++ rest) =
      front ++ replaceAll (c :: name) replacement rest := by
  induction front with
  | nil => rfl
  | cons d front ih =>
    obtain ⟨hd, hfront⟩ : c ≠ d ∧ c ∉ front := by simpa using h
    rw [List.cons_append, replaceAll_cons_of_none (List.cons_ne_nil c name), ih hfront,
      List.cons_append]
    rw [List.cons_prefix_cons]
    exact fun ⟨same, _⟩ => hd same

/-- A text that is written piece by piece is replaced piece by piece. -/
lemma replaceAll_flatMap {piece other : Char → List Char} (filled : pattern ≠ [])
    (h : ∀ c rest, replaceAll pattern replacement (piece c ++ rest) =
      other c ++ replaceAll pattern replacement rest) (text : List Char) :
    replaceAll pattern replacement (text.flatMap piece) = text.flatMap other := by
  induction text with
  | nil => exact replaceAll_nil filled
  | cons c text ih => rw [List.flatMap_cons, h, ih, List.flatMap_cons]

end Replacement

end ChatHistory.Text
