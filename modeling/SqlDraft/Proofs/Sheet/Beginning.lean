/-
**What the text of a scope begins with.**

A scope is written with its command first, and that of all columns is added where there is a table and
no command. No clause behind the table begins like a query, so the text shows which of them it is:

* `Line.Avoids`: the first token of some parts does not begin with a letter.
* `Sheet.avoids_payloads`: a scope with no command and no table begins with no `S`.
* `Sheet.payloads_of_command`: what a scope does is written first.
* **`Sheet.all_prefix_iff`**: a scope without a command begins as that of all columns where it has a
  table.
-/

import SqlDraft.Proofs.Run.Tokens
import SqlDraft.Proofs.Sheet.Basic

namespace SqlDraft

/-! ### The first token -/

namespace Line

variable {dialect : Dialect} {letter : Char}

theorem tokens_cons {payload : Payload} (visible : payload.text dialect ≠ "")
    (payloads : List Payload) :
    tokens dialect (payload :: payloads) = payload :: tokens dialect payloads :=
  List.filter_cons_of_pos (decide_eq_true visible)

/-- The first token of some parts, if there is one, does not begin with a letter. -/
def Avoids (dialect : Dialect) (letter : Char) (payloads : List Payload) : Prop :=
  ∀ first ∈ (tokens dialect payloads).head?, (first.text dialect).toList.head? ≠ some letter

theorem avoids_nil : Avoids dialect letter [] := nofun

theorem avoids_cons {payload : Payload} (visible : payload.text dialect ≠ "")
    (other : (payload.text dialect).toList.head? ≠ some letter) (payloads : List Payload) :
    Avoids dialect letter (payload :: payloads) := by
  unfold Avoids
  rw [tokens_cons visible]
  rintro _ ⟨⟩
  exact other

theorem Avoids.append {front back : List Payload} (avoids : Avoids dialect letter front)
    (further : Avoids dialect letter back) : Avoids dialect letter (front ++ back) := by
  unfold Avoids
  rw [tokens_append, List.head?_append]
  intro first member
  cases said : tokens dialect front with
  | nil =>
    rw [said] at member
    exact further first member
  | cons token rest =>
    rw [said] at member
    exact avoids first (said ▸ member)

theorem avoids_flatMap {Thing : Type} {spell : Thing → List Payload} {things : List Thing}
    (avoids : ∀ thing ∈ things, Avoids dialect letter (spell thing)) :
    Avoids dialect letter (things.flatMap spell) := by
  induction things with
  | nil => exact avoids_nil
  | cons thing rest step =>
    rw [List.flatMap_cons]
    exact (avoids thing List.mem_cons_self).append
      (step fun other member => avoids other (List.mem_cons_of_mem _ member))

/-- The text of some parts begins with their first token. -/
theorem Avoids.head?_ne {payloads : List Payload} (avoids : Avoids dialect letter payloads) :
    (ofPayloads dialect payloads).toList.head? ≠ some letter := by
  rw [ofPayloads_eq_joined]
  cases said : tokens dialect payloads with
  | nil => exact nofun
  | cons first rest =>
    have seen : first.text dialect ≠ "" := text_ne_of_mem_tokens (said ▸ List.mem_cons_self)
    have other := avoids first (by rw [said]; rfl)
    rw [joined, String.toList_append, List.head?_append_of_ne_nil]
    · exact other
    · exact mt String.toList_eq_nil_iff.mp seen

end Line

/-! ### Sheets -/

namespace Sheet

variable {dialect : Dialect} {sheet : Sheet}

/-- A clause behind the table begins with no `S`. -/
theorem avoids_headed {word : Keyword} (behind : 2 ≤ word.rank?.getD 0) (visible : word ≠ .noLimit)
    (payloads : List Payload) : Line.Avoids dialect 'S' (.keyword word :: payloads) := by
  refine Line.avoids_cons ?_ ?_ payloads <;>
    cases word <;> first | exact absurd rfl visible | exact absurd behind (by decide) |
      (cases dialect <;> decide)

theorem avoids_page (page : Page) :
    Line.Avoids dialect 'S' (.keyword page.keyword :: page.payloads) := by
  obtain ⟨limit, offset⟩ := page
  cases limit with
  | some count => exact avoids_headed (by decide) (show Keyword.limit ≠ .noLimit by decide) _
  | none =>
    have unbounded : Line.Avoids dialect 'S' [.keyword .noLimit] := by
      cases dialect with
      | postgres => exact nofun
      | mysql | sqlite => exact Line.avoids_cons (by decide) (by decide) _
    refine unbounded.append (Line.avoids_flatMap fun count _ => ?_)
    exact Line.avoids_cons (by cases dialect <;> decide) (by cases dialect <;> decide) _

/-- **What stands behind the table of a scope begins with no `S`.** -/
theorem avoids_row {rank : Nat} (behind : 2 ≤ rank) : Line.Avoids dialect 'S' (sheet.row rank) := by
  match rank with
  | 2 =>
    refine Line.avoids_flatMap fun link _ => avoids_headed ?_ ?_ _ <;>
      cases link.kind <;> decide
  | 3 | 4 | 5 | 7 => exact Line.avoids_flatMap fun _ _ => avoids_headed (by decide) (by decide) _
  | 6 =>
    refine Line.avoids_flatMap fun branch _ => avoids_headed ?_ ?_ _ <;>
      cases branch.1 <;> decide
  | 8 => exact Line.avoids_flatMap fun page _ => avoids_page page
  | _ + 9 => exact Line.avoids_nil

/-- A scope that does nothing and has no table begins with no `S`. -/
theorem avoids_payloads (clausal : sheet.grouped = false) (command : sheet.command = none)
    (table : sheet.table = none) : Line.Avoids dialect 'S' sheet.payloads := by
  rw [payloads, clausal, if_neg Bool.false_ne_true]
  refine Line.avoids_flatMap fun rank _ => ?_
  match rank with
  | 0 =>
    rw [row, command]
    exact Line.avoids_nil
  | 1 =>
    rw [row, table]
    exact Line.avoids_nil
  | rank + 2 => exact avoids_row (Nat.le_add_left 2 rank)

/-- What a scope does is written first. -/
theorem payloads_of_command {deed : Deed} (clausal : sheet.grouped = false)
    (said : sheet.command = some deed) :
    ∃ rest, sheet.payloads = .keyword deed.keyword :: (deed.payloads ++ rest) := by
  refine ⟨(List.range' 1 8).flatMap sheet.row, ?_⟩
  have ranks : List.range 9 = 0 :: List.range' 1 8 := rfl
  rw [payloads, clausal, if_neg Bool.false_ne_true, ranks, List.flatMap_cons, row, said]
  simp

theorem completed_of_command (said : sheet.command.isSome) : sheet.completed = sheet := by
  refine if_neg fun lacks => ?_
  rw [Option.isNone_iff_eq_none.mp lacks.2.1] at said
  exact absurd said nofun

/-- **A scope without a command is written as one for all columns just where it has a table.** -/
theorem all_prefix_iff (clausal : sheet.grouped = false) (command : sheet.command = none) :
    "SELECT *".toList <+: (Line.ofPayloads dialect sheet.completed.payloads).toList ↔
      sheet.table.isSome := by
  cases table : sheet.table with
  | none =>
    have same : sheet.completed = sheet := if_neg fun lacks => by
      rw [table] at lacks
      exact absurd lacks.2.2 nofun
    have other := @Line.Avoids.head?_ne dialect 'S' _ (avoids_payloads clausal command table)
    rw [same]
    refine ⟨fun ⟨rest, begins⟩ => ?_, nofun⟩
    rw [← begins] at other
    exact absurd rfl other
  | some supply =>
    have same : sheet.completed = { sheet with command := some (.all false) } :=
      if_pos ⟨clausal, by rw [command]; rfl, by rw [table]; rfl⟩
    have said : sheet.completed.command = some (.all false) := by rw [same]
    have clausalToo : sheet.completed.grouped = false := by rw [same]; exact clausal
    obtain ⟨rest, whole⟩ := payloads_of_command clausalToo said
    refine iff_of_true ?_ rfl
    have tokens : Line.tokens dialect sheet.completed.payloads =
        .keyword .select :: .keyword .star :: Line.tokens dialect rest := by
      rw [whole]
      exact (Line.tokens_cons (by cases dialect <;> decide) _).trans
        (congrArg _ (Line.tokens_cons (by cases dialect <;> decide) _))
    have text (later : List Payload) :
        Line.joined dialect (.keyword .select :: .keyword .star :: later) =
          "SELECT *" ++ String.join (later.map fun payload =>
            Line.gap payload ++ payload.text dialect) := by
      rw [Line.joined, List.map_cons, String.join_cons, ← String.append_assoc]
      cases dialect <;> rfl
    rw [Line.ofPayloads_eq_joined, tokens, text, String.toList_append]
    exact List.prefix_append _ _

end Sheet

/-- A projection is written as nothing only if its one column is an empty text. -/
theorem Deed.payloads_of_hidden {dialect : Dialect} {row : List (String × Option String)}
    (filled : row ≠ []) (hidden : Line.tokens dialect (spellList spellColumn row) = []) :
    spellList spellColumn row = [.literal ""] := by
  have blank : ∀ payload ∈ spellList spellColumn row, payload.text dialect = "" := by
    intro payload member
    have none := List.filter_eq_nil_iff.mp hidden payload member
    simpa using none
  match row, filled with
  | [(text, none)], _ =>
    have empty : text = "" := blank (.literal text) List.mem_cons_self
    rw [empty]
    rfl
  | (text, some name) :: _, _ =>
    have seen := blank (.keyword .asName) (List.mem_cons_of_mem _ List.mem_cons_self)
    exact absurd seen (by cases dialect <;> decide)
  | (text, none) :: next :: rest, _ =>
    have seen := blank (.keyword .comma) (List.mem_cons_of_mem _ List.mem_cons_self)
    exact absurd seen (by cases dialect <;> decide)

/-- A command has a text. -/
theorem Action.text_ne (action : Action) (dialect : Dialect) :
    (Payload.keyword action.keyword).text dialect ≠ "" := by
  have visible (word : Keyword) (command : word.isCommand = true) :
      (Payload.keyword word).text dialect ≠ "" := by
    cases word <;> first | exact absurd command (by decide) | (cases dialect <;> decide)
  refine visible _ ?_
  cases action with
  | columns distinct _ | all distinct => cases distinct <;> rfl
  | removal which => cases which <;> rfl

end SqlDraft
