/-
**What a statement does.**

The command of a statement is made by one call and changed by others, and its columns come and go with
it. It follows from the edits in the scope of the statement alone, and the text of a draft begins with
it:

* `Command.mayBecome`: what a statement may do later.
* `Diary.command_eq`: the command is what the edits in the scope of the statement make it.
* `Diary.editsIn_step`: a move makes one edit at most, in the innermost scope.
* `Draft.BeginsAs`: what the text of a draft begins with.
* **`Story.command_follows_calls`**: how the command goes on, and what it says about the text.
-/

import SqlDraft.Proofs.Run.Lists
import SqlDraft.Proofs.Run.Nested
import SqlDraft.Proofs.Sheet.Beginning

namespace SqlDraft

/-! ### How a command goes on -/

namespace Command

/-- What a statement may do later, given what it does. A removal stays one. -/
def mayBecome : Command → Command → Prop
  | none, _ => True
  | select, later => later ≠ none
  | delete, later | truncate, later => later = delete ∨ later = truncate

theorem mayBecome_refl (command : Command) : command.mayBecome command := by
  cases command <;> simp [mayBecome]

theorem mayBecome_trans {first second third : Command} (further : first.mayBecome second)
    (last : second.mayBecome third) : first.mayBecome third := by
  cases first with
  | none => trivial
  | select => cases second <;> cases third <;> simp_all [mayBecome]
  | delete | truncate => rcases further with rfl | rfl <;> exact last

/-- **An edit changes a command to one that it may become.** -/
theorem mayBecome_revised (command : Command) (change : Edit) :
    command.mayBecome (command.revised change) := by
  cases change with
  | select columns =>
    show command.mayBecome (if columns = [] ∨ command ≠ none then command else select)
    split
    · exact command.mayBecome_refl
    · next begins =>
      rw [not_not.mp (not_or.mp begins).2]
      trivial
  | distinct =>
    show command.mayBecome (if command = none then select else command)
    split
    · next begins =>
      rw [begins]
      trivial
    · exact command.mayBecome_refl
  | remove which =>
    cases which <;> cases command <;> simp [mayBecome, revised, ofKeyword, Removal.keyword]
  | _ => exact command.mayBecome_refl

end Command

/-! ### The scope of the statement -/

/-- Whether a move starts the draft over. -/
def Move.restarts : Move → Bool
  | .startOver | .finish => true
  | .edit _ | .ask _ | .enter _ | .close => false

namespace Draft

/-- **The node of the statement stays the same** unless the draft is started over. -/
theorem root_move (draft : Draft) {move : Move} (on : move.restarts = false) :
    (draft.move move).root = draft.root := by
  cases move with
  | edit change => exact root_eq (draft.frames_apply change)
  | ask question => cases question <;> rfl
  | enter opening => exact draft.root_enter opening
  | close => exact draft.root_close
  | startOver | finish => exact nomatch on

end Draft

namespace Drawing

variable (drawing : Drawing)

theorem kind_root : (drawing.outlines drawing.draft.root).kind = .statement :=
  drawing.sketched.heldBase.kind.trans drawing.sketched.statement

/-- The command of a statement is drawn by a node of its own. -/
theorem command_shown {clause : Clause Action}
    (said : (drawing.outlines drawing.draft.root).command = some clause) :
    drawing.draft.base.command = some clause.slot ∧
      drawing.draft.store.payload clause.slot = .keyword clause.part.keyword ∧
      drawing.draft.store.Shows drawing.scopes (drawing.draft.store.children clause.slot)
        clause.part.trees := by
  have held := drawing.sketched.heldBase.command
  rw [said] at held
  have member : clause.tree clause.part.keyword clause.part.trees ∈
      (drawing.outlines drawing.draft.root).row 0 :=
    List.mem_map_of_mem (Option.mem_toList.mpr said)
  obtain ⟨-, -, payload, shows⟩ := drawing.sketched.clause_shown drawing.sketched.root_mem
    (drawing.kind_root ▸ nofun) (by decide) member
  exact ⟨held, payload, shows⟩

/-- **The command is that of the outline of the statement.** -/
theorem command_eq : drawing.draft.command = .ofKeyword
    ((drawing.outlines drawing.draft.root).command.map fun clause => clause.part.keyword) := by
  unfold Draft.command Draft.commandKeyword
  cases said : (drawing.outlines drawing.draft.root).command with
  | none => rw [drawing.sketched.heldBase.command, said]; rfl
  | some clause =>
    obtain ⟨command, payload, -⟩ := drawing.command_shown said
    have heads : (drawing.draft.store.node clause.slot).payload = .keyword clause.part.keyword :=
      payload
    rw [command, Option.bind_some, heads]
    rfl

theorem acts_root (inside : Slot → List Payload) :
    ((drawing.outlines drawing.draft.root).sheet inside).acts = drawing.draft.command := by
  rw [command_eq, Sheet.acts, Outline.sheet, Option.map_map]
  exact congrArg (Command.ofKeyword <| (drawing.outlines drawing.draft.root).command.map ·)
    (funext fun clause => clause.part.keyword_deed)

end Drawing

namespace Diary

/-- The scope of the statement is one of those that were opened. -/
theorem statement_mem (settings : Settings) (moves : List Move) :
    ((after settings moves).story.draft.root, .statement) ∈
      Event.openings (after settings moves).story.events := by
  obtain ⟨scopes, outlines, kept⟩ := Story.kept_after settings moves
  have opened := Story.mem_openings_of_open settings moves
    (List.mem_append_right _ (List.mem_singleton_self _))
  rw [kept.sketched.statement] at opened
  rw [story_after]
  exact opened

/-- **The command is what the edits in the scope of the statement make it.** -/
theorem command_eq (settings : Settings) (moves : List Move) :
    (after settings moves).story.draft.command =
      .ofEdits ((after settings moves).editsIn (after settings moves).story.draft.root) := by
  obtain ⟨drawing, told⟩ := told_after settings moves
  have tells := told.told _ _ (statement_mem settings moves) nofun
  rw [← told.draft] at tells ⊢
  exact (drawing.acts_root _).symm.trans (tells.acts drawing.sketched.heldBase.opened)

theorem after_concat (settings : Settings) (moves : List Move) (move : Move) :
    after settings (moves ++ [move]) = (after settings moves).step move := List.foldl_concat _ _ _ _

/-- **A move makes one edit at most**, in the innermost scope. -/
theorem editsIn_step (diary : Diary) {move : Move} (on : move.restarts = false) (root : Slot) :
    (diary.step move).editsIn root = diary.editsIn root ∨
      diary.story.draft.scope.root = root ∧
        ∃ change, (diary.step move).editsIn root = diary.editsIn root ++ [change] := by
  cases move with
  | edit change =>
    by_cases here : root = diary.story.draft.scope.root
    · subst here
      exact .inr ⟨rfl, change, Told.editsIn_concat diary.entries _ _ _ change⟩
    · exact .inl (Told.editsIn_concat_other diary.entries _ _ here change)
  | ask _ | enter _ | close => exact .inl rfl
  | startOver | finish => exact nomatch on

/-- The scope of the statement is the innermost one at depth one only. -/
theorem depth_eq_one (settings : Settings) (moves : List Move)
    (innermost : (after settings moves).story.draft.scope.root =
      (after settings moves).story.draft.root) : (after settings moves).story.draft.depth = 1 := by
  obtain ⟨scopes, outlines, kept⟩ := Story.kept_after settings moves
  rw [← story_after] at kept
  have stacked := kept.sketched.stacked
  generalize (after settings moves).story.draft = draft at innermost stacked
  cases nested : draft.nested with
  | nil => rw [Draft.depth, nested, List.length_nil]
  | cons inner outer =>
    refine absurd innermost.symm (stacked.ne_of_around ?_)
    rw [Draft.around, nested]
    exact List.mem_append_right _ (List.mem_singleton_self _)

/-- **A move that goes on changes the command at depth one only**, to one that it may become. -/
theorem command_step (settings : Settings) (moves : List Move) {move : Move}
    (on : move.restarts = false) :
    (after settings (moves ++ [move])).story.draft.command =
        (after settings moves).story.draft.command ∨
      (after settings moves).story.draft.depth = 1 ∧
        (after settings moves).story.draft.command.mayBecome
          (after settings (moves ++ [move])).story.draft.command := by
  have root : (after settings (moves ++ [move])).story.draft.root =
      (after settings moves).story.draft.root := by
    rw [after_concat]
    exact (congrArg Draft.root (Story.draft_step _ move)).trans (Draft.root_move _ on)
  rw [command_eq, command_eq, root, after_concat]
  rcases editsIn_step (after settings moves) on (after settings moves).story.draft.root with
    same | ⟨innermost, change, one⟩
  · exact .inl (congrArg Command.ofEdits same)
  · rw [one, Command.ofEdits_concat]
    exact .inr ⟨depth_eq_one settings moves innermost, Command.mayBecome_revised _ change⟩

/-- **Moves that go on change the command to one that it may become.** -/
theorem command_mayBecome (settings : Settings) (moves : List Move) {more : List Move}
    (on : ∀ move ∈ more, move.restarts = false) :
    (after settings moves).story.draft.command.mayBecome
      (after settings (moves ++ more)).story.draft.command := by
  induction more using List.reverseRecOn with
  | nil =>
    rw [List.append_nil]
    exact Command.mayBecome_refl _
  | append_singleton more move step =>
    rw [← List.append_assoc]
    have before := step fun earlier member => on earlier (List.mem_append_left _ member)
    rcases command_step settings (moves ++ more) (on move (List.mem_append_right _ (.head _))) with
      same | ⟨-, further⟩
    · rw [same]
      exact before
    · exact Command.mayBecome_trans before further

end Diary

/-! ### What a text begins with -/

namespace Draft

/-- The text of a draft begins with a removal, and nothing stands below its node. -/
def BeginsWithRemoval (draft : Draft) (dialect : Dialect) (which : Removal) : Prop :=
  ∃ clause, draft.base.command = some clause ∧
    draft.store.payload clause = .keyword which.keyword ∧ draft.store.children clause = [] ∧
    ∃ rest, Line.tokens dialect draft.payloads = .keyword which.keyword :: rest

/-- The text of a draft begins with a projection. Its node has a star or columns below it, and their
tokens follow. There are none only if there is one column and its text is empty. -/
def BeginsWithProjection (draft : Draft) (dialect : Dialect) : Prop :=
  ∃ clause word, draft.base.command = some clause ∧ word.isProjection = true ∧
    draft.store.payload clause = .keyword word ∧
    (draft.store.Starred (draft.store.children clause) ∨
      ∃ columns, draft.store.Lists draft.store.IsName (draft.store.children clause) columns) ∧
    (∃ rest, Line.tokens dialect draft.payloads = .keyword word ::
      (Line.tokens dialect (draft.store.payloadsBelow clause) ++ rest)) ∧
    (Line.tokens dialect (draft.store.payloadsBelow clause) = [] →
      draft.store.payloadsBelow clause = [.literal ""])

/-- **What the text of a draft begins with**, by what the statement does. -/
def BeginsAs (draft : Draft) (dialect : Dialect) : Command → Prop
  | .none => draft.base.command = none ∧
    ("SELECT *".toList <+: (draft.textIn dialect).toList ↔ draft.base.table.isSome)
  | .select => draft.BeginsWithProjection dialect
  | .delete => draft.BeginsWithRemoval dialect .delete
  | .truncate => draft.BeginsWithRemoval dialect .truncate

end Draft

namespace Drawing

variable (drawing : Drawing) {dialect : Dialect}

theorem clausal_root (inside : Slot → List Payload) :
    ((drawing.outlines drawing.draft.root).sheet inside).grouped = false :=
  decide_eq_false (drawing.kind_root ▸ nofun)

/-- The text begins with the command of the statement and what stands below it. -/
theorem tokens_of_command (dialect : Dialect) {clause : Clause Action}
    (said : (drawing.outlines drawing.draft.root).command = some clause) :
    ∃ rest, Line.tokens dialect drawing.draft.payloads = .keyword clause.part.keyword ::
      (Line.tokens dialect (drawing.draft.store.payloadsBelow clause.slot) ++ rest) := by
  obtain ⟨-, -, shows⟩ := drawing.command_shown said
  have command : ((drawing.outlines drawing.draft.root).sheet
      drawing.draft.store.payloadsBelow).command = some clause.part.deed := by
    rw [Outline.sheet, said]
    rfl
  obtain ⟨rest, whole⟩ := Sheet.payloads_of_command (drawing.clausal_root _) command
  refine ⟨Line.tokens dialect rest, ?_⟩
  rw [drawing.payloads_eq, Sheet.completed_of_command (by rw [command]; rfl), whole,
    clause.part.keyword_deed, Line.tokens_cons (clause.part.text_ne dialect), Line.tokens_append,
    drawing.sketched.drawn.payloadsBelow_eq shows, clause.part.payloads_trees]

theorem beginsWithRemoval {slot : Slot} {which : Removal}
    (said : (drawing.outlines drawing.draft.root).command = some ⟨slot, .removal which⟩) :
    drawing.draft.BeginsWithRemoval dialect which := by
  obtain ⟨command, payload, shows⟩ := drawing.command_shown said
  obtain ⟨rest, tokens⟩ := drawing.tokens_of_command dialect said
  exact ⟨slot, command, payload, Store.Shows.children_eq_nil shows, _, tokens⟩

/-- A statement without a command begins as one for all columns just where it has a table. -/
theorem beginsAs_none (said : (drawing.outlines drawing.draft.root).command = none) :
    drawing.draft.BeginsAs dialect .none := by
  have clausal := drawing.clausal_root drawing.draft.store.payloadsBelow
  have silent : ((drawing.outlines drawing.draft.root).sheet
      drawing.draft.store.payloadsBelow).command = none := by
    rw [Outline.sheet, said]
    rfl
  refine ⟨by rw [drawing.sketched.heldBase.command, said]; rfl, ?_⟩
  rw [drawing.sketched.heldBase.table, Option.isSome_map, Draft.textIn, drawing.payloads_eq,
    Sheet.all_prefix_iff clausal silent]
  exact iff_of_eq (congrArg (· = true) Option.isSome_map)

/-- A statement that returns something begins with its columns or a star. -/
theorem beginsWithProjection {clause : Clause Action} {closed : Bool} {edits : List Edit}
    (said : (drawing.outlines drawing.draft.root).command = some clause)
    (told : Deed.Tells closed edits (some clause.part.deed))
    (returns : clause.part.keyword.isProjection = true) :
    drawing.draft.BeginsWithProjection dialect := by
  obtain ⟨command, payload, shows⟩ := drawing.command_shown said
  have tokens := drawing.tokens_of_command dialect said
  have below := drawing.sketched.drawn.payloadsBelow_eq shows
  rw [clause.part.payloads_trees] at below
  refine ⟨clause.slot, _, command, returns, payload, ?_, tokens, ?_⟩
  · obtain ⟨slot, action⟩ := clause
    cases action with
    | columns distinct columns =>
      exact .inr ⟨_, Store.lists_of_shows Store.isItem_column (mt List.map_eq_nil_iff.mpr told.1)
        shows⟩
    | all distinct => exact .inl (Store.Shows.starred shows)
    | removal which => cases which <;> exact nomatch returns
  · rw [below]
    obtain ⟨slot, action⟩ := clause
    cases action with
    | columns distinct columns => exact Deed.payloads_of_hidden told.1
    | all distinct => cases dialect <;> exact nofun
    | removal which => cases which <;> exact nomatch returns

/-- **The text of a draft begins as its command says.** -/
theorem beginsAs {edits : List Edit} (tells : (drawing.outlines drawing.draft.root).Tells edits) :
    drawing.draft.BeginsAs dialect drawing.draft.command := by
  rw [drawing.command_eq]
  have told := tells.command
  cases said : (drawing.outlines drawing.draft.root).command with
  | none => exact drawing.beginsAs_none said
  | some clause =>
    rw [said] at told
    obtain ⟨slot, action⟩ := clause
    cases action with
    | columns distinct _ | all distinct =>
      cases distinct <;> exact drawing.beginsWithProjection said told rfl
    | removal which => cases which <;> exact drawing.beginsWithRemoval said

end Drawing

namespace Story

/-- **The command of a statement follows the calls, and the text follows it.** After any moves, as long
as the draft is not started over, the command goes on to what it may become, so that a removal stays
one. It is changed at depth one only, and starting over takes it away. At any time and in any dialect
the text begins with the command: a removal has nothing below it, a projection has columns or a star,
and without a command the text begins as that of all columns just where there is a table. -/
theorem command_follows_calls (settings : Settings) (moves : List Move) :
    (∀ more : List Move, (∀ move ∈ more, move.restarts = false) →
      (after settings moves).draft.command.mayBecome
        (after settings (moves ++ more)).draft.command) ∧
    (∀ move : Move, (after settings (moves ++ [move])).draft.command ≠
        (after settings moves).draft.command →
      move.restarts = true ∨ (after settings moves).draft.depth = 1) ∧
    (∀ move : Move, move.restarts = true →
      (after settings (moves ++ [move])).draft.command = .none) ∧
    ∀ dialect, (after settings moves).draft.textIn dialect =
        Line.joined dialect (Line.tokens dialect (after settings moves).draft.payloads) ∧
      (after settings moves).draft.BeginsAs dialect (after settings moves).draft.command := by
  refine ⟨fun more on => ?_, fun move changed => ?_, fun move restarts => ?_, fun dialect =>
    ⟨Line.ofPayloads_eq_joined dialect _, ?_⟩⟩
  · have later := Diary.command_mayBecome settings moves on
    rwa [Diary.story_after, Diary.story_after] at later
  · cases on : move.restarts with
    | true => exact .inl rfl
    | false =>
      have step := Diary.command_step settings moves on
      rw [Diary.story_after, Diary.story_after] at step
      rcases step with same | ⟨alone, -⟩
      · exact absurd same changed
      · exact .inr alone
  · rw [after, List.foldl_concat, draft_step]
    cases move with
    | startOver | finish => rfl
    | edit _ | ask _ | enter _ | close => exact nomatch restarts
  · obtain ⟨drawing, told⟩ := Diary.told_after settings moves
    have tells := told.told _ _ (Diary.statement_mem settings moves) nofun
    rw [← told.draft] at tells
    have begins := @Drawing.beginsAs drawing dialect _ tells
    rwa [told.draft, Diary.story_after] at begins

/-- A removal takes no columns and loses those that were there. -/
example : (after .standard [.edit (.select ["a"]), .edit (.giveName "b"), .edit (.remove .delete),
    .edit (.select ["c"]), .edit (.table "t")]).draft.text = "DELETE FROM t" := by decide +kernel

end Story

end SqlDraft
