/-
**Programs of calls.**

A program is a list of calls on one draft. A call either edits the draft, asks about it, starts it
over, or opens something and fills it by a program of its own. What is opened is closed when its
program is over, together with all that was left open in it; a program may also start the draft
over, and then nothing is left to close.

* `Call.run`, `Call.runAll`: the draft after a call and after a program.
* `Call.runAll_append`: a program in two parts runs one part after the other.
-/

import SqlDraft.Draft.Edit
import SqlDraft.Draft.Text

namespace SqlDraft

/-- What is asked about a draft. -/
inductive Question
  /-- The text, which is kept as the one last written. -/
  | render
  /-- The text in a dialect, which is kept as the one last written. -/
  | renderIn (dialect : Dialect)
  /-- The text. -/
  | text
  | settings
  | usage
deriving DecidableEq

/-- One call. -/
inductive Call
  | edit (change : Edit)
  | ask (question : Question)
  /-- Starts over with nothing said. -/
  | startOver
  /-- Takes the final text and starts over with a new draft in the standard settings. -/
  | finish
  /-- Opens something and fills it. -/
  | within (opening : Opening) (program : List Call)

namespace Draft

/-- The draft after a question. -/
def asked (draft : Draft) : Question → Draft
  | .render => draft.render draft.settings.dialect
  | .renderIn dialect => draft.render dialect
  | .text | .settings | .usage => draft

/-- The draft after a call opened something on `before` and filled it: whatever is open inside is
closed. -/
def leave (draft before : Draft) : Draft := draft.closeTo before.depth

end Draft

namespace Call

mutual

/-- The draft after a call. -/
def run (draft : Draft) : Call → Draft
  | .edit change => draft.apply change
  | .ask question => draft.asked question
  | .startOver => draft.startOver
  | .finish => Draft.start Settings.standard
  | .within opening program =>
    if draft.admits opening then (runAll (draft.enter opening) program).leave draft
    else draft.enter opening

/-- The draft after the calls of a program. -/
def runAll (draft : Draft) : List Call → Draft
  | [] => draft
  | call :: rest => runAll (run draft call) rest

end

theorem runAll_append (draft : Draft) (first second : List Call) :
    runAll draft (first ++ second) = runAll (runAll draft first) second := by
  induction first generalizing draft with
  | nil => rfl
  | cons call rest step => exact step (run draft call)

end Call

end SqlDraft
