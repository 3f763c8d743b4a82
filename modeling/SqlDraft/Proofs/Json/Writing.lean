/-
**What is written is a text of JSON.**

A quoted string is one of the texts of the string that was quoted, and the decimal digits of a
number are its token.

* **`Json.exists_units`**: a quoted string is a text of units that decode to the string.
* **`Json.spellsNumber_toDigits`**: decimal digits are a number, without a zero in front of others.
-/

import SqlDraft.Json.Quoted
import SqlDraft.Proofs.Json.Grammar

namespace SqlDraft.Json

/-! ### Strings -/

/-- The letters of short escapes are those of the grammar. -/
theorem mem_shortEscapes {char letter : Char} (short : shortEscape? char = some letter) :
    (letter, char) ∈ shortEscapes := by
  unfold shortEscape? at short
  repeat' split at short
  all_goals cases short
  all_goals
    subst char
    decide

/-- The digits that a small value is written with. -/
theorem isHex_hexDigit {value : Nat} (small : value < 16) : IsHex (hexDigit value) value :=
  ⟨small, .inl rfl⟩

/-- A character is written as itself or by an escape, and either way it is read back. -/
theorem exists_unit (char : Char) {units : List JsonUnit} {text : List Char}
    (spelled : SpellsUnits units text) :
    ∃ unit, SpellsUnits (unit :: units) (escaped char ++ text) ∧
      ∀ chars, Decodes units chars → Decodes (unit :: units) (char :: chars) := by
  cases short : shortEscape? char with
  | some letter =>
    refine ⟨.char char, ?_, fun chars rest => .char char rest⟩
    rw [escaped, short]
    exact .short (mem_shortEscapes short) spelled
  | none =>
    by_cases control : char.toNat < 32
    · have value : ((0 * 16 + 0) * 16 + char.toNat / 16) * 16 + char.toNat % 16 = char.toNat := by
        omega
      have zero : IsHex '0' 0 := ⟨by decide, .inl rfl⟩
      have third : IsHex (hexDigit (char.toNat / 16)) _ := isHex_hexDigit (by omega)
      have fourth : IsHex (hexDigit (char.toNat % 16)) _ := isHex_hexDigit (by omega)
      have code := SpellsUnits.code zero zero third fourth spelled
      rw [value] at code
      refine ⟨.code char.toNat, ?_, fun chars rest => .code char rest⟩
      rw [escaped, short]
      simp only [if_pos control]
      exact code
    · refine ⟨.char char, ?_, fun chars rest => .char char rest⟩
      rw [escaped, short]
      simp only [if_neg control]
      refine .plain (Nat.not_lt.mp control) ?_ ?_ spelled
      · rintro rfl
        exact absurd short (by decide)
      · rintro rfl
        exact absurd short (by decide)

/-- **A quoted string is a text of the string.** -/
theorem exists_units (text : List Char) :
    ∃ units, SpellsString units (quoted text) ∧ Decodes units text := by
  have all : ∃ units, SpellsUnits units (text.flatMap escaped) ∧ Decodes units text := by
    induction text with
    | nil => exact ⟨[], .nil, .nil⟩
    | cons char text step =>
      obtain ⟨units, spelled, decodes⟩ := step
      obtain ⟨unit, spelledAll, decodesAll⟩ := exists_unit char spelled
      exact ⟨unit :: units, spelledAll, decodesAll text decodes⟩
  obtain ⟨units, spelled, decodes⟩ := all
  exact ⟨units, .marked spelled, decodes⟩

/-! ### Numbers -/

/-- The digits of a number start with a zero only if it is zero. -/
theorem exists_first_digit {value : Nat} (positive : 0 < value) :
    ∃ first rest, Nat.toDigits 10 value = first :: rest ∧ first ≠ '0' := by
  induction value using Nat.strongRecOn with
  | ind value step =>
    by_cases small : value < 10
    · refine ⟨value.digitChar, [], Nat.toDigits_of_lt_base small, ?_⟩
      have all : ∀ digit < 10, 0 < digit → Nat.digitChar digit ≠ '0' := by decide
      exact all value small positive
    · obtain ⟨first, rest, same, other⟩ := step (value / 10) (by omega) (by omega)
      refine ⟨first, rest ++ [(value % 10).digitChar], ?_, other⟩
      rw [Nat.toDigits_of_base_le (by decide) (Nat.not_lt.mp small), same, List.cons_append]

/-- **The decimal digits of a number are its token.** -/
theorem spellsNumber_toDigits (value : Nat) : SpellsNumber (Nat.toDigits 10 value) := by
  have whole : SpellsWhole (Nat.toDigits 10 value) := by
    cases value with
    | zero => exact .zero
    | succ value =>
      have all : ∀ char ∈ Nat.toDigits 10 (value + 1), char.isDigit := fun char member =>
        Nat.isDigit_of_mem_toDigits (by decide) (by decide) member
      obtain ⟨first, rest, same, other⟩ := exists_first_digit (Nat.succ_pos value)
      rw [same] at all ⊢
      exact .digits ⟨List.cons_ne_nil _ _, all⟩ other
  have parts := SpellsUnsigned.parts whole .none .none
  rw [List.append_nil, List.append_nil] at parts
  exact .positive parts

end SqlDraft.Json
