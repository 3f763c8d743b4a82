/-
**The text of a sheet.**

The clauses of a scope begin with words, so the text of a scope that has clauses is the same wherever
the scope stands, and its parentheses go around that text:

* `Sheet.alone_payloads`: what is said in clauses stands alone.
* `ScopeKind.wrap`: the text of a closed scope, given the text inside it.
* **`Sheet.text_enclosed`**: a closed scope is written around the text of what was said in it.
* `Sheet.payloads_completed`: a scope that returns all columns is written as if that was said first.
-/

import SqlDraft.Proofs.Sheet.Basic
import SqlDraft.Proofs.Text.Words

namespace SqlDraft

/-- The text of a closed scope. An empty one is written as two parentheses. -/
def ScopeKind.wrap (kind : ScopeKind) (text : String) : String :=
  if kind = .union then text else if text = "" then "( )" else "( " ++ text ++ " )"

namespace Sheet

variable {dialect : Dialect} {sheet : Sheet} {kind : ScopeKind}

/-! ### Clauses stand alone -/

theorem alone_flatMap {Thing : Type} {spell : Thing → List Payload} {things : List Thing}
    (alone : ∀ thing ∈ things, Line.Alone dialect (spell thing)) :
    Line.Alone dialect (things.flatMap spell) := by
  rw [List.flatMap_def]
  refine Line.alone_flatten fun piece member => ?_
  obtain ⟨thing, isThing, rfl⟩ := List.mem_map.mp member
  exact alone thing isThing

/-- A clause that is headed by a word stands alone. -/
theorem alone_headed {word : Keyword} (ranked : word.rank?.isSome = true)
    (visible : word ≠ .noLimit) (payloads : List Payload) :
    Line.Alone dialect (.keyword word :: payloads) := by
  have plain : (Payload.keyword word).isKeyword .comma = false := by
    cases word <;> first | rfl | exact absurd ranked (by decide)
  refine Line.alone_cons ?_ plain payloads
  cases word <;> first | exact absurd rfl visible | exact absurd ranked (by decide) |
    (cases dialect <;> decide)

theorem alone_page (page : Page) :
    Line.Alone dialect (.keyword page.keyword :: page.payloads) := by
  obtain ⟨limit, offset⟩ := page
  cases limit with
  | some count => exact alone_headed rfl (show Keyword.limit ≠ .noLimit by decide) _
  | none =>
    -- An offset without a limit may have no word before it, and begins with its own.
    refine Line.Alone.append (Line.alone_singleton rfl) (alone_flatMap fun count _ => ?_)
    exact Line.alone_cons (by cases dialect <;> decide) rfl _

theorem alone_row (rank : Nat) : Line.Alone dialect (sheet.row rank) := by
  match rank with
  | 0 =>
    refine alone_flatMap fun deed _ => alone_headed ?_ ?_ _
    · cases deed with
      | columns distinct _ | all distinct => cases distinct <;> rfl
      | removal which => cases which <;> rfl
    · cases deed with
      | columns distinct _ | all distinct => cases distinct <;> exact Keyword.noConfusion
      | removal which => cases which <;> exact Keyword.noConfusion
  | 1 =>
    refine alone_flatMap fun supply _ => alone_headed ?_ ?_ _
    · unfold tableKeyword
      split <;> rfl
    · unfold tableKeyword
      split <;> decide
  | 2 =>
    refine alone_flatMap fun link _ => alone_headed ?_ ?_ _
    · cases link.kind <;> rfl
    · cases link.kind <;> decide
  | 3 | 4 | 5 | 7 => exact alone_flatMap fun _ _ => alone_headed rfl (by decide) _
  | 6 =>
    refine alone_flatMap fun branch _ => alone_headed ?_ ?_ _
    · cases branch.1 <;> rfl
    · cases branch.1 <;> decide
  | 8 => exact alone_flatMap fun page _ => alone_page page
  | _ + 9 => exact Line.alone_nil

/-- **What is said in clauses stands alone.** -/
theorem alone_payloads (clausal : sheet.grouped = false) : Line.Alone dialect sheet.payloads := by
  rw [payloads, clausal, if_neg Bool.false_ne_true]
  exact alone_flatMap fun rank _ => alone_row rank

/-! ### Closed scopes -/

theorem grouped_completed : sheet.completed.grouped = sheet.grouped := by
  unfold completed
  split <;> rfl

/-- What a closed scope is written as stands alone. -/
theorem alone_enclosed (clausal : sheet.grouped = false) :
    Line.Alone dialect (sheet.enclosed kind) := by
  unfold enclosed
  split
  · exact alone_payloads (grouped_completed.trans clausal)
  · exact Line.alone_cons (by cases dialect <;> decide) rfl _

/-- **A closed scope is written around the text of what was said in it.** -/
theorem text_enclosed (clausal : sheet.grouped = false) :
    Line.ofPayloads dialect (sheet.enclosed kind) =
      kind.wrap (Line.ofPayloads dialect sheet.completed.payloads) := by
  unfold enclosed ScopeKind.wrap
  by_cases union : kind = .union
  · rw [if_pos union, if_pos union]
  · have alone : ∀ piece ∈ [[.keyword .leftParen], sheet.completed.payloads,
        [.keyword .rightParen]], Line.Alone dialect piece := by
      intro piece member
      rcases List.mem_cons.mp member with rfl | further
      · exact Line.alone_singleton rfl
      · rcases List.mem_cons.mp further with rfl | last
        · exact alone_payloads (grouped_completed.trans clausal)
        · rw [List.mem_singleton.mp last]
          exact Line.alone_singleton rfl
    have text := Line.ofPayloads_flatten alone
    rw [List.map_cons, List.map_cons, List.map_singleton, Line.ofPayloads_singleton,
      Line.ofPayloads_singleton] at text
    rw [if_neg union, if_neg union]
    refine text.trans ?_
    by_cases empty : Line.ofPayloads dialect sheet.completed.payloads = ""
    · rw [if_pos empty, empty]
      cases dialect <;> rfl
    · have row : [(Payload.keyword .leftParen).text dialect,
          Line.ofPayloads dialect sheet.completed.payloads,
          (Payload.keyword .rightParen).text dialect].filter (· ≠ "") =
            ["(", Line.ofPayloads dialect sheet.completed.payloads, ")"] := by
        have seen : decide (Line.ofPayloads dialect sheet.completed.payloads ≠ "") = true :=
          decide_eq_true empty
        cases dialect <;> exact (congrArg ("(" :: ·) (List.filter_cons_of_pos seen))
      rw [if_neg empty, row]
      simp only [Condition.spaced, String.intercalate_cons_cons, String.intercalate_singleton,
        String.append_assoc]
      rfl

/-- **A scope that returns all columns is written as if that was said first.** -/
theorem payloads_completed (sheet : Sheet) : sheet.completed.payloads =
    (if sheet.grouped = false ∧ sheet.command.isNone ∧ sheet.table.isSome then
      [.keyword .select, .keyword .star] else []) ++ sheet.payloads := by
  unfold completed
  by_cases lacking : sheet.grouped = false ∧ sheet.command.isNone ∧ sheet.table.isSome
  · have clausal := lacking.1
    have absent : sheet.command = none := Option.isNone_iff_eq_none.mp lacking.2.1
    rw [if_pos lacking, if_pos lacking, payloads, payloads, clausal, if_neg Bool.false_ne_true,
      if_neg Bool.false_ne_true]
    have first : sheet.row 0 = [] := by
      rw [row, absent]
      rfl
    have others : ∀ rank ∈ List.range' 1 8,
        row { sheet with command := some (.all false) } rank = sheet.row rank := by
      intro rank member
      match rank, member with
      | 0, member => exact absurd member (by decide)
      | 1, _ =>
        have word : tableKeyword { sheet with command := some (.all false) } =
            sheet.tableKeyword := by
          rw [tableKeyword, tableKeyword, absent]
        rw [row, row, word]
      | 2, _ | 3, _ | 4, _ | 5, _ | 6, _ | 7, _ | 8, _ | _ + 9, _ => rfl
    rw [show List.range 9 = 0 :: List.range' 1 8 from rfl, List.flatMap_cons, List.flatMap_cons,
      first, List.nil_append]
    exact congrArg₂ (· ++ ·) rfl (List.flatMap_congr others)
  · rw [if_neg lacking, if_neg lacking, List.nil_append]

end Sheet

end SqlDraft
