/-
**A nested program is written as it is alone.**

What a program says in a scope that it fills is what it says in a new draft, and the scope is written
around that text, wherever it stands and whatever was said around it:

* `Drawing.payloads_eq`: a draft is written as the sheet of its statement.
* `Draft.payloads_runAll_start`: what a program in a new draft is written as.
* **`Draft.nested_program_written_alone`**: the text of the scope that a program filled.
-/

import SqlDraft.Proofs.Sheet.Programs
import SqlDraft.Proofs.Sheet.Text

namespace SqlDraft

namespace Drawing

variable (drawing : Drawing)

/-- A statement returns all columns if its sheet has a table and no command. -/
theorem lacksProjection_iff (inside : Slot → List Payload) :
    drawing.draft.base.lacksProjection = true ↔
      ((drawing.outlines drawing.draft.root).sheet inside).grouped = false ∧
        ((drawing.outlines drawing.draft.root).sheet inside).command.isNone ∧
        ((drawing.outlines drawing.draft.root).sheet inside).table.isSome :=
  drawing.sketched.heldBase.lacksProjection_iff.trans (Outline.lacking_sheet _)

/-- **A draft is written as the sheet of its statement**, which returns all columns if nothing else
was said. -/
theorem payloads_eq : drawing.draft.payloads =
    ((drawing.outlines drawing.draft.root).sheet
      drawing.draft.store.payloadsBelow).completed.payloads := by
  have below := drawing.spells_store [] _ drawing.sketched.root_mem List.not_mem_nil
  rw [Outline.payloads_trees drawing.sketched.heldBase.opened] at below
  rw [Draft.payloads, Sheet.payloads_completed, ← below]
  exact congrArg (· ++ _) (if_congr (drawing.lacksProjection_iff _) rfl rfl)

/-- A new draft is drawn by one silent scope. -/
def start (settings : Settings) : Drawing :=
  ⟨_, _, _, Draft.Sketched.start settings⟩

end Drawing

namespace Draft

/-- What a program says in a new draft, it says in clauses. -/
theorem grouped_sayAll {program : List Call} (on : Call.goOn program = true) :
    (Call.sayAll (.silent .statement) program).grouped = false := by
  obtain ⟨after, -, goes⟩ := (Drawing.start .standard).runAll program on
  have said := goes.sheet _ (after.spells_store _)
  have grouped := after.grouped_eq after.draft.store.payloadsBelow
  rw [said, inGroup_eq goes.frames] at grouped
  exact grouped

/-- The text of a program in a new draft is that of what it says. -/
theorem payloads_runAll_start (settings : Settings) {program : List Call}
    (on : Call.goOn program = true) : (Call.runAll (start settings) program).payloads =
      (Call.sayAll (.silent .statement) program).completed.payloads := by
  obtain ⟨after, draft, goes⟩ := (Drawing.start settings).runAll program on
  have root : after.draft.root = after.root :=
    (Draft.root_eq goes.frames).trans (Draft.scope_root_eq goes.frames).symm
  have said := goes.sheet _ (after.spells_store _)
  have result : after.draft = Call.runAll (start settings) program := draft
  rw [← result, after.payloads_eq, root]
  exact congrArg (fun sheet : Sheet => sheet.completed.payloads) said

/-- **A nested program is written as it is alone.** In a draft after any moves, something is opened
for a statement or for a branch of a union and filled by a program that goes on with the draft. Then
the node that was opened is written around the text that the program has in a new draft, in any
dialect and whatever the settings, and this text stands in that of the whole draft. -/
theorem nested_program_written_alone (settings : Settings) (moves : List Move)
    {opening : Opening} {kind : ScopeKind} (opened : openedKind? opening = some kind)
    (clausal : kind ≠ .group)
    (admits : (Story.after settings moves).draft.admits opening = true) {program : List Call}
    (on : Call.goOn program = true) (other : Settings) (dialect : Dialect) :
    ((Story.after settings moves).draft.enter opening).scope.kind = kind ∧
    (Call.run (Story.after settings moves).draft (.within opening program)).textAt dialect
        ((Story.after settings moves).draft.enter opening).scope.root =
      kind.wrap ((Call.runAll (start other) program).textIn dialect) ∧
    ((Call.run (Story.after settings moves).draft (.within opening program)).textAt dialect
        ((Story.after settings moves).draft.enter opening).scope.root).toList <:+:
      ((Call.run (Story.after settings moves).draft (.within opening program)).textIn
        dialect).toList := by
  obtain ⟨scopes, outlines, kept⟩ := Story.kept_after settings moves
  obtain ⟨sameKind, after, result, encloses⟩ := @Drawing.exists_encloses ⟨_, _, _, kept.sketched⟩ _ _
    program opened admits fun entered => entered.runAll program on
  have silent : Sheet.silent kind = .silent .statement := by
    cases kind <;> first | rfl | exact absurd rfl clausal
  have body := encloses.body _ (after.spells_store _)
  rw [silent] at body
  have drawn := after.sketched.drawn
  have written := congrArg₂ List.cons (drawn.blank _ encloses.isScope) body
  have alone : Line.Alone dialect (.blank :: (Call.sayAll (.silent .statement)
      program).enclosed kind) :=
    (Line.alone_singleton rfl).append (Sheet.alone_enclosed (grouped_sayAll on))
  have root : after.draft.root = (Story.after settings moves).draft.root :=
    root_eq encloses.goes.frames
  rw [← result]
  refine ⟨sameKind, ?_, ?_⟩
  · rw [textAt, textIn, payloads_runAll_start other on,
      ← Sheet.text_enclosed (grouped_sayAll on)]
    exact (congrArg (Line.ofPayloads dialect) written).trans (Line.ofPayloads_blank_cons _ _)
  · have nested : ((Story.after settings moves).draft.enter opening).scope.root ≠
        after.draft.root := by
      intro same
      exact encloses.isNew (same ▸ root ▸ kept.sketched.root_mem)
    rw [← written] at alone
    exact after.sketched.text_infix (drawn.inUse _ encloses.isScope) nested alone

/-- A statement behind `IN`, in a statement that has a table and a condition. It has no columns, and
returns all of them. -/
theorem nested_program_written_alone_operand :
    openedKind? (.condition .whereClause .orNot (.operand "id" "IN")) = some .subquery ∧
    ScopeKind.subquery ≠ .group ∧
    (Story.after .standard [.edit (.table "a"), .edit (.restrict .whereClause .and
      (.verbatim "x = 1"))]).draft.admits
        (.condition .whereClause .orNot (.operand "id" "IN")) = true ∧
    Call.goOn [.edit (.limit 3), .edit (.table "b")] = true ∧
    (Call.runAll (start .standard) [.edit (.limit 3), .edit (.table "b")]).textIn .sqlite =
      "SELECT * FROM b LIMIT 3" ∧
    (Call.run (Story.after .standard [.edit (.table "a"), .edit (.restrict .whereClause .and
      (.verbatim "x = 1"))]).draft (.within (.condition .whereClause .orNot (.operand "id" "IN"))
        [.edit (.limit 3), .edit (.table "b")])).textAt .sqlite
          ((Story.after .standard [.edit (.table "a"), .edit (.restrict .whereClause .and
            (.verbatim "x = 1"))]).draft.enter
              (.condition .whereClause .orNot (.operand "id" "IN"))).scope.root =
      "( SELECT * FROM b LIMIT 3 )" := by
  have text : (Call.runAll (start .standard) [.edit (.limit 3), .edit (.table "b")]).textIn
      .sqlite = "SELECT * FROM b LIMIT 3" := by
    decide +kernel
  have alone := nested_program_written_alone .standard [.edit (.table "a"), .edit (.restrict
    .whereClause .and (.verbatim "x = 1"))] (show openedKind? (.condition .whereClause .orNot
      (.operand "id" "IN")) = some .subquery from rfl) (by decide) rfl
        (show Call.goOn [.edit (.limit 3), .edit (.table "b")] = true
          from rfl) .standard .sqlite
  rw [text] at alone
  exact ⟨rfl, by decide, rfl, rfl, text, alone.2.1⟩

end Draft

end SqlDraft
