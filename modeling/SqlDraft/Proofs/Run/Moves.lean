/-
**Programs as sequences of moves.**

A call that opens something is two moves, one that opens it and one that closes it, with the moves of
its program between them. A draft that is reached inside a program, at any depth, is the draft after
some of the first moves of the program:

* `Draft.move`: the draft after one move.
* `Call.moves`, `Call.movesAll`: the moves of a call and of a program.
* `Call.foldl_movesAll`: the moves of a program lead where the program does.
* `Call.Passes.exists_moves`: so does every draft that a program passes through, at any depth.
-/

import SqlDraft.Program.Call

namespace SqlDraft

/-- One step of a program. -/
inductive Move
  | edit (change : Edit)
  | ask (question : Question)
  | startOver
  | finish
  /-- Opens something that further moves fill. -/
  | enter (opening : Opening)
  /-- Closes the innermost scope. -/
  | close

/-- The draft after a move. -/
def Draft.move (draft : Draft) : Move → Draft
  | .edit change => draft.apply change
  | .ask question => draft.asked question
  | .startOver => draft.startOver
  | .finish => Draft.start Settings.standard
  | .enter opening => draft.enter opening
  | .close => draft.close

namespace Call

mutual

/-- The moves of a call. -/
def moves (draft : Draft) : Call → List Move
  | .edit change => [.edit change]
  | .ask question => [.ask question]
  | .startOver => [.startOver]
  | .finish => [.finish]
  | .within opening program =>
    if draft.admits opening then
      .enter opening :: (movesAll (draft.enter opening) program ++
        List.replicate ((runAll (draft.enter opening) program).depth - draft.depth) .close)
    else [.enter opening]

/-- The moves of a program. -/
def movesAll (draft : Draft) : List Call → List Move
  | [] => []
  | call :: rest => moves draft call ++ movesAll (run draft call) rest

end

theorem foldl_close (count : Nat) (draft : Draft) :
    (List.replicate count Move.close).foldl Draft.move draft = Draft.closeScopes count draft := by
  induction count generalizing draft with
  | zero => rfl
  | succ count step =>
    rw [List.replicate_succ, List.foldl_cons, step]
    rfl

mutual

theorem foldl_moves (draft : Draft) (call : Call) :
    (moves draft call).foldl Draft.move draft = run draft call := by
  cases call with
  | edit change => rfl
  | ask question => rfl
  | startOver => rfl
  | finish => rfl
  | within opening program =>
    rw [moves, run]
    split
    · rw [List.foldl_cons, List.foldl_append, foldl_close]
      show Draft.closeScopes _ ((movesAll (draft.enter opening) program).foldl Draft.move
        (draft.enter opening)) = _
      rw [foldl_movesAll]
      rfl
    · rfl

/-- **The moves of a program lead where the program does.** -/
theorem foldl_movesAll (draft : Draft) (program : List Call) :
    (movesAll draft program).foldl Draft.move draft = runAll draft program := by
  cases program with
  | nil => rfl
  | cons call rest =>
    rw [movesAll, runAll, List.foldl_append, foldl_moves, foldl_movesAll]

end

/-- A program passes through a draft: before one of its calls or behind the last one, or the same
inside what one of its calls fills. -/
inductive Passes : Draft → List Call → Draft → Prop
  | here (draft : Draft) (program : List Call) : Passes draft program draft
  | later {draft found : Draft} {call : Call} {rest : List Call}
      (further : Passes (run draft call) rest found) : Passes draft (call :: rest) found
  | inside {draft found : Draft} {opening : Opening} {program rest : List Call}
      (admits : draft.admits opening = true)
      (deeper : Passes (draft.enter opening) program found) :
      Passes draft (.within opening program :: rest) found

/-- **A draft that a program passes through is made by some first moves of the program.** -/
theorem Passes.exists_moves {draft found : Draft} {program : List Call}
    (passes : Passes draft program found) :
    ∃ moves, moves <+: movesAll draft program ∧ moves.foldl Draft.move draft = found := by
  induction passes with
  | here draft program => exact ⟨[], List.nil_prefix, rfl⟩
  | @later draft found call rest _ step =>
    obtain ⟨first, before, rfl⟩ := step
    refine ⟨moves draft call ++ first, ?_, ?_⟩
    · rw [movesAll]
      exact (List.prefix_append_right_inj _).mpr before
    · rw [List.foldl_append, foldl_moves]
  | @inside draft found opening program rest admits _ step =>
    obtain ⟨first, before, rfl⟩ := step
    refine ⟨.enter opening :: first, ?_, rfl⟩
    rw [movesAll, moves, if_pos admits, List.cons_append, List.append_assoc, List.prefix_cons_inj]
    exact before.trans (List.prefix_append _ _)

end Call

end SqlDraft
