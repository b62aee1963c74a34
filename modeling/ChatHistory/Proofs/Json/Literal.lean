import ChatHistory.Json.Literal
import Mathlib.Tactic.Common

/-!
# Literals on one line

A literal quotes texts with their line feeds escaped, and nothing else that it writes has any.
Therefore the literal of a JSON value is on one line, however deep the value goes
(`newline_notMem_literal`), and so is the value in running text, unless it is a string
(`newline_notMem_display`).
-/

namespace ChatHistory

/-! ## Numbers -/

lemma newline_notMem_toDigits {base : Nat} (large : 1 < base) (n : Nat) :
    '\n' ∉ Nat.toDigits base n := by
  have hdigit (digit : Nat) : '\n' ≠ Nat.digitChar digit := (Nat.digitChar_ne '\n' rfl).symm
  induction n using Nat.strongRecOn with
  | ind n ih =>
    rcases Nat.lt_or_ge n base with single | more
    · rw [Nat.toDigits_of_lt_base single, List.mem_singleton]
      exact hdigit n
    · have less : n / base < n := Nat.div_lt_self (by omega) large
      rw [Nat.toDigits_of_base_le large more, List.mem_append, List.mem_singleton, not_or]
      exact ⟨ih _ less, hdigit _⟩

lemma newline_notMem_repr (n : Nat) : '\n' ∉ (Nat.repr n).toList := by
  rw [Nat.toList_repr]
  exact newline_notMem_toDigits (by decide) n

lemma newline_notMem_toString (n : Int) : '\n' ∉ (toString n).toList := by
  cases n with
  | ofNat n => exact newline_notMem_repr n
  | negSucc n =>
    change '\n' ∉ ("-" ++ Nat.repr (n + 1)).toList
    rw [String.toList_append, List.mem_append, not_or]
    exact ⟨by decide, newline_notMem_repr (n + 1)⟩

namespace Layout

lemma newline_notMem_positional {digits : List Char} (h : '\n' ∉ digits) (leading : Int) :
    '\n' ∉ positional digits leading := by
  have htake (count : Nat) : '\n' ∉ digits.take count := fun hmem => h (List.mem_of_mem_take hmem)
  have hdrop (count : Nat) : '\n' ∉ digits.drop count := fun hmem => h (List.mem_of_mem_drop hmem)
  unfold positional
  split
  · simp [h]
  · dsimp only
    split <;> simp [htake, hdrop]

lemma newline_notMem_scientific (layout : Layout) {digits : List Char} (h : '\n' ∉ digits)
    (leading : Int) : '\n' ∉ scientific layout digits leading := by
  have hexponent := newline_notMem_toDigits (by decide : 1 < 10) leading.natAbs
  have hsign : '\n' ≠ if leading < 0 then '-' else '+' := by split <;> decide
  unfold scientific
  dsimp only
  split <;> simp_all

/-- A double is written without a line feed, if the words of the layout have none. -/
lemma newline_notMem_text {layout : Layout} (notANumber : '\n' ∉ layout.notANumber.toList)
    (infinity : '\n' ∉ layout.infinity.toList) (x : Double) :
    '\n' ∉ (layout.text x).toList := by
  cases x with
  | nan => exact notANumber
  | infinite negative =>
    rw [text]
    split
    · simp [infinity]
    · exact infinity
  | finite negative significand exponent =>
    have hdigits := newline_notMem_toDigits (by decide : 1 < 10)
      (Double.shortest significand exponent).digits
    have hpositional := newline_notMem_positional hdigits
    have hscientific := newline_notMem_scientific layout hdigits
    rw [text, String.toList_ofList]
    split <;> split <;> simp [hpositional, hscientific]

end Layout

/-! ## Texts -/

namespace Literal

lemma newline_notMem_hexDigits (width n : Nat) : '\n' ∉ hexDigits width n := by
  have hdigits := newline_notMem_toDigits (by decide : 1 < 16) n
  simp [hexDigits, hdigits]

/-- A line feed is escaped, and no escape has one. -/
lemma newline_notMem_escape {mark : Char} (hmark : mark ≠ '\n') (c : Char) :
    '\n' ∉ escape mark c := by
  by_cases hfeed : c = '\n'
  · subst hfeed
    simp [escape, hmark.symm]
  · unfold escape
    split_ifs <;> simp [newline_notMem_hexDigits, Ne.symm hfeed]

lemma newline_notMem_quote (text : List Char) : '\n' ∉ quote text := by
  unfold quote
  dsimp only
  have hmark : (if text.contains '\'' && !text.contains '"' then '"' else '\'') ≠ '\n' := by
    split <;> decide
  generalize (if text.contains '\'' && !text.contains '"' then '"' else '\'') = mark at hmark
  simp [newline_notMem_escape hmark, hmark.symm]

end Literal

/-! ## Values -/

namespace Json

mutual

/-- The literal of a value is on one line. -/
theorem newline_notMem_literal : (value : Json) → '\n' ∉ value.literal.write
  | .null => by decide
  | .bool true => by decide
  | .bool false => by decide
  | .int n => newline_notMem_toString n
  | .double x => Layout.newline_notMem_text (by decide) (by decide) x
  | .string s => Literal.newline_notMem_quote s.toList
  | .array [] => by decide
  | .array (item :: items) => by
    have hitem := newline_notMem_literal item
    have hitems := newline_notMem_literalItems items
    simp [literal, literalItems, Literal.write, hitem, hitems]
  | .object [] => by decide
  | .object ((name, value) :: fields) => by
    have hvalue := newline_notMem_literal value
    have hfields := newline_notMem_literalFields fields
    simp [literal, literalFields, Literal.write, Literal.newline_notMem_quote, hvalue, hfields]

lemma newline_notMem_literalItems :
    (items : List Json) → '\n' ∉ Literal.writeItems (literalItems items)
  | [] => by simp [literalItems, Literal.writeItems]
  | item :: items => by
    have hitem := newline_notMem_literal item
    have hitems := newline_notMem_literalItems items
    simp [literalItems, Literal.writeItems, hitem, hitems]

lemma newline_notMem_literalFields :
    (fields : List (String × Json)) → '\n' ∉ Literal.writeEntries (literalFields fields)
  | [] => by simp [literalFields, Literal.writeEntries]
  | (name, value) :: fields => by
    have hvalue := newline_notMem_literal value
    have hfields := newline_notMem_literalFields fields
    simp [literalFields, Literal.writeEntries, Literal.newline_notMem_quote, hvalue, hfields]

end

/-- In running text a value is on one line, unless it is a string. -/
theorem newline_notMem_display {value : Json} (h : ∀ s, value ≠ .string s) :
    '\n' ∉ value.display.toList := by
  have hliteral : value.display = value.literal.text := by
    cases value with
    | string s => exact absurd rfl (h s)
    | _ => rfl
  rw [hliteral, Literal.text, String.toList_ofList]
  exact newline_notMem_literal value

end Json

end ChatHistory
