import ChatHistory.Text.Utf8
import Mathlib.Tactic.Common

/-!
# Cutting texts behind a line feed

A byte that decoding looks at yields some characters and leaves a sequence that is not complete, or
none, whatever follows (`piecesFrom_cons`).  A line feed is part of no longer sequence, so that it
leaves none.  Therefore the lines of bytes that are cut behind a line feed are those of the first
piece, followed by those of the second one (`fileLines_decodeLossy_append`).
-/

namespace ChatHistory.Text

namespace Utf8

/-! ## Decoding -/

/-- A sequence that no ASCII character continues, as all are that begin with a byte of their own. -/
def Pending.NonAscii (pending : Pending) : Prop :=
  0x80 ≤ pending.low

/-- The sequences that a byte opens go on beyond ASCII. -/
lemma nonAscii_of_lead {byte : ℕ} {pending : Pending} (h : lead byte = .opens pending) :
    pending.NonAscii := by
  unfold lead at h
  unfold Pending.NonAscii
  repeat' split at h
  all_goals
    first
    | contradiction
    | rw [Lead.opens.injEq] at h
      subst h
      simp

/-- What a byte at the start of a sequence yields does not depend on the bytes behind it. -/
lemma piecesFrom_none_cons (byte : UInt8) :
    ∃ yielded next, (∀ pending ∈ next, Pending.NonAscii pending) ∧
      ∀ rest, piecesFrom none (byte :: rest) = yielded ++ piecesFrom next rest := by
  cases hlead : lead byte.toNat with
  | single c => exact ⟨[some c], none, by simp, fun rest => by simp [piecesFrom, hlead]⟩
  | invalid => exact ⟨[none], none, by simp, fun rest => by simp [piecesFrom, hlead]⟩
  | opens pending =>
    refine ⟨[], some pending, ?_, fun rest => by simp [piecesFrom, hlead]⟩
    rintro _ ⟨⟩
    exact nonAscii_of_lead hlead

/-- A byte that does not continue a sequence breaks it off, and starts another one. -/
lemma piecesFrom_some_of_breaks {pending : Pending} {byte : UInt8}
    (breaks : ¬(pending.low ≤ byte.toNat ∧ byte.toNat ≤ pending.high)) (rest : List UInt8) :
    piecesFrom (some pending) (byte :: rest) = none :: piecesFrom none (byte :: rest) := by
  rw [piecesFrom, piecesFrom, if_neg breaks]
  cases lead byte.toNat <;> rfl

/-- What a byte yields does not depend on the bytes behind it. -/
theorem piecesFrom_cons (pending : Option Pending) (byte : UInt8) :
    ∃ yielded next, (∀ pending ∈ next, Pending.NonAscii pending) ∧
      ∀ rest, piecesFrom pending (byte :: rest) = yielded ++ piecesFrom next rest := by
  cases pending with
  | none => exact piecesFrom_none_cons byte
  | some pending =>
    by_cases continues : pending.low ≤ byte.toNat ∧ byte.toNat ≤ pending.high
    · by_cases last : pending.missing ≤ 1
      · refine ⟨[some (Char.ofNat (pending.code * 64 + (byte.toNat - 0x80)))], none, by simp, ?_⟩
        intro rest
        simp [piecesFrom, continues, last]
      · refine ⟨[], some ⟨pending.code * 64 + (byte.toNat - 0x80), pending.missing - 1, 0x80, 0xBF⟩,
          ?_, ?_⟩
        · intro sequence h
          rw [Option.mem_some_iff] at h
          subst h
          exact Nat.le_refl _
        · intro rest
          simp [piecesFrom, continues, last]
    · obtain ⟨yielded, next, hnext, hyielded⟩ := piecesFrom_none_cons byte
      refine ⟨none :: yielded, next, hnext, fun rest => ?_⟩
      rw [piecesFrom_some_of_breaks continues, hyielded, List.cons_append]

/-- A line feed is decoded by itself. -/
lemma piecesFrom_lineFeed {pending : Option Pending}
    (nonAscii : ∀ sequence ∈ pending, Pending.NonAscii sequence) :
    ∃ broken, ∀ rest, piecesFrom pending (0x0A :: rest) =
      broken ++ some '\n' :: piecesFrom none rest := by
  have hfeed : ∀ rest, piecesFrom none (0x0A :: rest) = some '\n' :: piecesFrom none rest := by
    intro rest
    rfl
  cases pending with
  | none => exact ⟨[], hfeed⟩
  | some sequence =>
    have hlow : 0x80 ≤ sequence.low := nonAscii sequence rfl
    have hbyte : (0x0A : UInt8).toNat = 0x0A := rfl
    have breaks : ¬(sequence.low ≤ (0x0A : UInt8).toNat ∧
        (0x0A : UInt8).toNat ≤ sequence.high) := by
      omega
    refine ⟨[none], fun rest => ?_⟩
    rw [piecesFrom_some_of_breaks breaks, hfeed]
    rfl

/-- What bytes yield up to a line feed does not depend on the bytes behind it. -/
lemma piecesFrom_append_lineFeed (bytes : List UInt8) {pending : Option Pending}
    (nonAscii : ∀ sequence ∈ pending, Pending.NonAscii sequence) :
    ∃ yielded, ∀ rest, piecesFrom pending (bytes ++ 0x0A :: rest) =
      yielded ++ some '\n' :: piecesFrom none rest := by
  induction bytes generalizing pending with
  | nil => exact piecesFrom_lineFeed nonAscii
  | cons byte bytes ih =>
    obtain ⟨first, next, hnext, hfirst⟩ := piecesFrom_cons pending byte
    obtain ⟨yielded, hyielded⟩ := ih hnext
    refine ⟨first ++ yielded, fun rest => ?_⟩
    rw [List.cons_append, hfirst, hyielded, List.append_assoc]

/-- Bytes up to a line feed and those behind it are decoded by themselves. -/
theorem decodeLossy_append (bytes : List UInt8) :
    ∃ text, ∀ rest, decodeLossy (bytes ++ 0x0A :: rest) = text ++ '\n' :: decodeLossy rest := by
  have nonAscii : ∀ sequence ∈ (none : Option Pending), Pending.NonAscii sequence := by simp
  obtain ⟨yielded, hyielded⟩ := piecesFrom_append_lineFeed bytes nonAscii
  refine ⟨yielded.map (·.getD '\uFFFD'), fun rest => ?_⟩
  rw [decodeLossy, decodePieces, hyielded, List.map_append]
  rfl

end Utf8

/-! ## Lines -/

/-- A text that is not empty has lines. -/
lemma fileLines_cons_ne_nil (c : Char) (rest : List Char) : fileLines (c :: rest) ≠ [] := by
  rw [fileLines.eq_def]
  split
  · contradiction
  · simp
  · split
    · simp
    · split <;> simp

/-- A character that ends a line leaves the lines of what follows; a carriage return does so unless
a line feed follows. -/
lemma fileLines_cons_of_ends {c : Char} (ends : c = '\n' ∨ c = '\r') {rest : List Char}
    (alone : ∀ more, c = '\r' → rest ≠ '\n' :: more) :
    fileLines (c :: rest) = [] :: fileLines rest := by
  rw [fileLines.eq_def]
  split
  · contradiction
  · rename_i hcons
    obtain ⟨rfl, rfl⟩ := List.cons.inj hcons
    exact absurd rfl (alone _ rfl)
  · rename_i hcons
    obtain ⟨rfl, rfl⟩ := List.cons.inj hcons
    rw [if_pos ends]

/-- A character that ends no line belongs to the first line. -/
lemma fileLines_cons_of_plain {c : Char} (plain : ¬(c = '\n' ∨ c = '\r'))
    {rest line : List Char} {more : List (List Char)} (h : fileLines rest = line :: more) :
    fileLines (c :: rest) = (c :: line) :: more := by
  cases rest with
  | nil => simp [fileLines] at h
  | cons d rest =>
    rw [fileLines.eq_def]
    split
    · contradiction
    · rename_i hcons
      obtain ⟨rfl, -⟩ := List.cons.inj hcons
      simp at plain
    · rename_i hcons
      obtain ⟨rfl, rfl⟩ := List.cons.inj hcons
      rw [if_neg plain, h]

/-- A character that ends no line may be put in front of a text that is cut behind a line feed. -/
lemma fileLines_append_of_plain {c : Char} (plain : ¬(c = '\n' ∨ c = '\r')) {text rest : List Char}
    (h : fileLines (text ++ '\n' :: rest) = fileLines (text ++ ['\n']) ++ fileLines rest) :
    fileLines (c :: text ++ '\n' :: rest) = fileLines (c :: text ++ ['\n']) ++ fileLines rest := by
  obtain ⟨line, more, hlines⟩ : ∃ line more, fileLines (text ++ ['\n']) = line :: more := by
    refine List.exists_cons_of_ne_nil ?_
    cases text with
    | nil => exact fileLines_cons_ne_nil _ _
    | cons d text => exact fileLines_cons_ne_nil _ _
  rw [hlines, List.cons_append] at h
  rw [List.cons_append, List.cons_append, fileLines_cons_of_plain plain hlines,
    fileLines_cons_of_plain plain h, List.cons_append]

/-- A text that is cut behind a line feed has the lines of both pieces. -/
theorem fileLines_append (text rest : List Char) :
    fileLines (text ++ '\n' :: rest) = fileLines (text ++ ['\n']) ++ fileLines rest := by
  induction text using fileLines.induct with
  | case1 => rfl
  | case2 text ih => simp only [List.cons_append, fileLines, ih]
  | case3 c text single ends ih =>
    cases text with
    | nil => rcases ends with rfl | rfl <;> rfl
    | cons d text =>
      have hcut : ∀ behind, fileLines (c :: d :: text ++ behind) =
          [] :: fileLines (d :: text ++ behind) := by
        refine fun behind => fileLines_cons_of_ends ends fun more hc hcons => ?_
        obtain ⟨rfl, -⟩ := List.cons.inj hcons
        exact single text hc rfl
      rw [hcut, hcut, ih]
      rfl
  | case4 c plain _ ih => exact fileLines_append_of_plain plain ih
  | case5 c text _ plain _ _ ih => exact fileLines_append_of_plain plain ih
  | case6 c text _ plain line more _ _ ih => exact fileLines_append_of_plain plain ih

/-! ## Both -/

/-- Bytes that are cut behind a line feed have the lines of both pieces. -/
theorem fileLines_decodeLossy_append (bytes rest : List UInt8) :
    fileLines (Utf8.decodeLossy (bytes ++ 0x0A :: rest)) =
      fileLines (Utf8.decodeLossy (bytes ++ [0x0A])) ++ fileLines (Utf8.decodeLossy rest) := by
  obtain ⟨text, htext⟩ := Utf8.decodeLossy_append bytes
  rw [htext, htext, fileLines_append]
  rfl

end ChatHistory.Text
