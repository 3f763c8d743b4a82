/-
**What a template is expanded to.**

The text of a template with arguments is told by its segments alone: the arguments are put in the
places of the conversions, in order, and everything else stands for itself. So a text in which every
`%` is doubled stands for itself, whatever follows it:

* **`Template.expanded_as_read`**: a template is expanded as its grammar says.
* `Template.escape`: a text with every `%` doubled.
* **`Template.escape_expands_to_itself`**: such a text stands for itself, also in a condition.
-/

import SqlDraft.Condition
import SqlDraft.Proofs.Template.Offsets

namespace SqlDraft.Template

/-- **A template is expanded as it is read.** There is one way to read it. Its text is the texts of
its segments in a row: `%%` stands for `%`, a conversion for the argument of its number or, where
there is none, for itself, and everything else for itself. Further arguments are not looked at. The
search by byte offsets ends with the same text, and all its cuts fall between characters. -/
theorem expanded_as_read (template : String) (values : List Value) :
    ∃ pieces, Reads template.toList pieces ∧
      (∀ others, Reads template.toList others → others = pieces) ∧
      (expanded template values).toList = written pieces values ∧
      (conversions pieces ≤ values.length →
        ∀ more, expanded template (values ++ more) = expanded template values) ∧
      ∀ bound, template.length < bound →
        Scan.run? bound ⟨[], template.toList, values⟩ = some (expanded template values).toList := by
  have text : (expanded template values).toList = fill (segments template.toList) values :=
    String.toList_ofList
  refine ⟨segments template.toList, reads_segments _, fun others => reads_iff.mp, ?_, ?_, ?_⟩
  · rw [text, fill_eq_written]
  · intro enough more
    exact congrArg String.ofList (fill_append _ enough more)
  · intro bound enough
    rw [← String.length_toList] at enough
    rw [Scan.run?_eq _ enough, text]
    rfl

example : expanded "%-08.3f of %%, %s and %d" [.int 5, .string "%d"] = "5 of %, %d and %d" := by
  decide +kernel

/-! ### Texts that stand for themselves -/

/-- A text with every `%` doubled. -/
def doubled (text : List Char) : List Char :=
  text.flatMap fun char => if char = '%' then ['%', '%'] else [char]

/-- A text with every `%` doubled. -/
def escape (text : String) : String := String.ofList (doubled text.toList)

theorem expand_doubled_append (text rest : List Char) (values : List Value) :
    expand (doubled text ++ rest) values = text ++ expand rest values := by
  induction text with
  | nil => rfl
  | cons char text step =>
    rw [doubled, List.flatMap_cons, List.append_assoc]
    by_cases percent : char = '%'
    · rw [if_pos percent, percent]
      exact (expand_percent _ values).trans (congrArg ('%' :: ·) step)
    · rw [if_neg percent]
      have plain : '%' ∉ [char] := fun member => percent (List.mem_singleton.mp member).symm
      exact (expand_append_of_plain plain _ values).trans (congrArg (char :: ·) step)

/-- A doubled text has a `%` just where the text has one. -/
theorem mem_doubled (text : List Char) : '%' ∈ doubled text ↔ '%' ∈ text := by
  unfold doubled
  rw [List.mem_flatMap]
  constructor
  · rintro ⟨char, member, inside⟩
    split at inside
    · next percent => exact percent ▸ member
    · exact List.mem_singleton.mp inside ▸ member
  · exact fun member => ⟨'%', member, List.mem_cons_self⟩

theorem expanded_escape_append (text rest : String) (values : List Value) :
    expanded (escape text ++ rest) values = text ++ expanded rest values := by
  rw [expanded, escape, String.toList_append, String.toList_ofList, expand_doubled_append,
    String.ofList_append, String.ofList_toList]
  rfl

/-- **A text with every `%` doubled stands for itself**, at the front of a template and alone, and as
the operand of an equality, which is a template just where the text has a `%`. -/
theorem escape_expands_to_itself (text rest column : String) (values : List Value) :
    expanded (escape text ++ rest) values = text ++ expanded rest values ∧
      expanded (escape text) values = text ∧
      (hasMarker (escape text) ↔ '%' ∈ text.toList) ∧
      Condition.equals column (escape text) values = .comparison column "=" text ∧
      (Condition.equals column (escape text) values).sql = column ++ " = " ++ text := by
  have alone : expanded (escape text) values = text := by
    have front := expanded_escape_append text "" values
    have nothing : expanded "" values = "" := by
      rw [expanded, String.toList_empty, expand, segments, fill, String.ofList_nil]
    rwa [nothing, String.append_empty, String.append_empty] at front
  have condition : Condition.equals column (escape text) values = .comparison column "=" text := by
    rw [Condition.equals_eq_comparison, alone]
  refine ⟨expanded_escape_append text rest values, alone, ?_, condition, ?_⟩
  · rw [hasMarker, List.contains_iff_mem, escape, String.toList_ofList, mem_doubled]
  · have spaced : (column ++ " " ++ "=") ++ " " = column ++ " = " := by
      simp only [String.append_assoc]
      rfl
    rw [condition]
    exact congrArg (· ++ text) spaced

end SqlDraft.Template
