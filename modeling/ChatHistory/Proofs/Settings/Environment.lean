import ChatHistory.Proofs.Text.Pieces
import ChatHistory.Settings.Environment

/-!
# Home directories that are known

A text that begins with a tilde names the home directory of a user, and can only be expanded if that
home directory is known.  Every other text stands for itself.  Hence `exists_expand_iff` says which
paths can be expanded, and `exists_expand_ofString_iff` which texts.
-/

namespace ChatHistory

namespace Environment

/-- The home directory of a user is known.  A name with a character that no path can have is the
name of no user, and a home directory may not itself begin with a tilde. -/
structure IsHome (environment : Environment) (user : List Char) (home : String) : Prop where
  valid : '\x00' ∉ user
  known : environment.home? (String.ofList user) = some home
  plain : home.startsWith "~" = false

/-- A known home directory takes the place of the tilde and the user. -/
lemma expand_home {environment : Environment} {user : List Char} {home : String}
    (isHome : environment.IsHome user home) (rest : List String) :
    environment.expand ⟨"", String.ofList ('~' :: user) :: rest⟩ =
      .ok ((Path.ofString home).append ⟨"", rest⟩) := by
  have plain : ¬['~'] <+: home.toList := by simpa using isHome.plain
  simp [expand, isHome.valid, isHome.known, plain]

/-- Without a known home directory, nothing takes their place. -/
lemma isHome_of_expand {environment : Environment} {user : List Char} {rest : List String}
    {expanded : Path}
    (h : environment.expand ⟨"", String.ofList ('~' :: user) :: rest⟩ = .ok expanded) :
    ∃ home, environment.IsHome user home := by
  simp only [expand, String.toList_ofList] at h
  split at h
  · cases h
  · rename_i valid
    split at h
    · rename_i home known
      split at h
      · cases h
      · rename_i plain
        exact ⟨home, by simpa using valid, known, by simpa using plain⟩
    · cases h

/-- A path that begins with no tilde stays as it is. -/
lemma expand_eq_self {environment : Environment} {path : Path}
    (h : ∀ user rest, path ≠ ⟨"", String.ofList ('~' :: user) :: rest⟩) :
    environment.expand path = .ok path := by
  unfold expand
  split
  · rename_i root parts first rest hroot hparts
    split
    · rename_i user huser
      refine absurd ?_ (h user rest)
      rw [← huser, String.ofList_toList, ← hroot, ← hparts]
    · rfl
  · rfl

/-- A path can be expanded if and only if it begins with no tilde, or with one that stands for a
known home directory. -/
theorem exists_expand_iff (environment : Environment) (path : Path) :
    (∃ expanded, environment.expand path = .ok expanded) ↔
      ∀ user rest, path = ⟨"", String.ofList ('~' :: user) :: rest⟩ →
        ∃ home, environment.IsHome user home := by
  constructor
  · rintro ⟨expanded, h⟩ user rest rfl
    exact isHome_of_expand h
  · intro h
    by_cases tilde : ∃ user rest, path = ⟨"", String.ofList ('~' :: user) :: rest⟩
    · obtain ⟨user, rest, rfl⟩ := tilde
      obtain ⟨home, isHome⟩ := h user rest rfl
      exact ⟨_, expand_home isHome rest⟩
    · exact ⟨path, expand_eq_self fun user rest h => tilde ⟨user, rest, h⟩⟩

/-- The first component of a relative text that leads anywhere is a tilde and a user behind it. -/
def NamesHome (text : String) (user : List Char) : Prop :=
  text.toList.head? ≠ some '/' ∧ ∃ detours rest,
    Text.splitAtChar '/' text.toList = detours ++ ('~' :: user) :: rest ∧
    ∀ piece ∈ detours, piece = [] ∨ piece = ['.']

lemma rootOf_eq_empty_iff (text : List Char) :
    Path.rootOf text = "" ↔ text.head? ≠ some '/' := by
  cases text with
  | nil => simp [Path.rootOf]
  | cons c rest =>
    unfold Path.rootOf
    split <;> simp_all

/-- The path of a text begins with the tilde and the user that the text names. -/
lemma exists_ofString_eq_iff (text : String) (user : List Char) :
    (∃ rest, Path.ofString text = ⟨"", String.ofList ('~' :: user) :: rest⟩) ↔
      NamesHome text user := by
  have hleads (piece : List Char) :
      ¬(String.ofList piece ≠ "" && String.ofList piece ≠ ".") = true ↔
        piece = [] ∨ piece = ['.'] := by
    simp [String.ext_iff, imp_iff_not_or]
  simp only [Path.ofString, Path.mk.injEq, rootOf_eq_empty_iff, NamesHome, exists_and_left,
    List.filter_map, List.map_eq_cons_iff, List.filter_eq_cons_iff]
  refine and_congr_right fun _ => ⟨?_, ?_⟩
  · rintro ⟨-, piece, -, ⟨detours, rest, hpieces, astray, -⟩, huser, -⟩
    obtain rfl := String.ofList_injective huser
    exact ⟨detours, rest, hpieces, fun piece hmem => (hleads piece).1 (astray piece hmem)⟩
  · rintro ⟨detours, rest, hpieces, astray⟩
    have ahead : ¬('~' :: user = [] ∨ '~' :: user = ['.']) := by simp
    exact ⟨_, '~' :: user, _, ⟨detours, rest, hpieces,
      fun piece hmem => (hleads piece).2 (astray piece hmem),
      not_not.1 ((hleads _).not.2 ahead), rfl⟩, rfl, rfl⟩

/-- A text can be expanded if and only if each home directory that it names is known. -/
theorem exists_expand_ofString_iff (environment : Environment) (text : String) :
    (∃ expanded, environment.expand (Path.ofString text) = .ok expanded) ↔
      ∀ user, NamesHome text user → ∃ home, environment.IsHome user home := by
  rw [exists_expand_iff]
  refine forall_congr' fun user => ?_
  rw [← exists_ofString_eq_iff]
  simp only [forall_exists_index]

end Environment

end ChatHistory
