/-
**The trace of a program.**

A program is run and written down call by call. An entry stands where its call is over, so the
entries of a program inside a call come before the entry of the call. It tells the answer or the
fault of the call, what was noticed since the entry before it, and the draft as it stands.

* `Session.call`, `Session.calls`: run a call and a program and write them down.
* `Session.draft_call`, `Session.draft_calls`: being written down does not change what the calls do.
-/

import SqlDraft.Draft.Notice
import SqlDraft.Program.Call

namespace SqlDraft

/-- The answer to a question. -/
inductive Answer
  | text (text : String)
  | settings (settings : Settings)
  | usage (usage : Store.Usage)
deriving DecidableEq

namespace Draft

/-- The answer to a question about a draft. -/
def answer (draft : Draft) : Question → Answer
  | .render | .text => .text draft.text
  | .renderIn dialect => .text (draft.textIn dialect)
  | .settings => .settings draft.settings
  | .usage => .usage draft.store.usage

/-- The notices of a question. -/
def questionNotices (draft : Draft) : Question → List Notice
  | .render | .text => draft.renderNotices draft.text
  | .renderIn dialect => draft.renderNotices (draft.textIn dialect)
  | .settings | .usage => []

end Draft

/-- What is written down about a call. -/
structure Entry where
  /-- The number of the call in its program, after the numbers of the calls around it. -/
  path : List Nat
  answer : Option Answer
  fault : Option Refusal
  /-- What was noticed since the entry before. -/
  notices : List Notice
  text : String
  depth : Nat
  command : Command
deriving DecidableEq

/-- A draft that calls are made on, with what was noticed since the last entry and all entries, the
last one first. -/
structure Session where
  draft : Draft
  noticed : List Notice := []
  entries : List Entry := []
deriving DecidableEq

namespace Session

/-- Goes on with a changed draft and further notices. -/
def advance (session : Session) (draft : Draft) (notices : List Notice) : Session :=
  { session with draft, noticed := session.noticed ++ notices }

/-- Writes an entry. -/
def record (session : Session) (path : List Nat) (answer : Option Answer) (fault : Option Refusal) :
    Session :=
  let entry : Entry :=
    { path, answer, fault
      notices := session.noticed
      text := session.draft.text
      depth := session.draft.depth
      command := session.draft.command }
  { session with noticed := [], entries := entry :: session.entries }

/-- Closes what a call opened on `before` and filled. -/
def leave (session : Session) (before : Draft) : Session :=
  session.advance (session.draft.leave before)
    (session.draft.closingNotices (session.draft.depth - before.depth))

mutual

/-- Runs a call and writes it down. -/
def call (session : Session) (path : List Nat) : Call → Session
  | .edit change =>
    let before := session.draft
    (session.advance (before.apply change) (before.editNotices change)).record path none
      (before.fault? change)
  | .ask question =>
    let before := session.draft
    (session.advance (before.asked question) (before.questionNotices question)).record path
      (some (before.answer question)) none
  | .startOver =>
    (session.advance session.draft.startOver session.draft.startOverNotices).record path none none
  | .finish =>
    (session.advance (Draft.start Settings.standard) session.draft.finalNotices).record path
      (some (.text session.draft.finalText)) none
  | .within opening program =>
    let before := session.draft
    let entered := session.advance (before.enter opening) (before.openingNotices opening)
    let filled :=
      if before.admits opening then (calls entered path 0 program).leave before else entered
    filled.record path none (before.openingFault? opening)

/-- Runs the calls of a program from a number on and writes them down. -/
def calls (session : Session) (path : List Nat) (number : Nat) : List Call → Session
  | [] => session
  | first :: rest => calls (call session (path ++ [number]) first) path (number + 1) rest

end

@[simp]
theorem draft_record (session : Session) (path : List Nat) (answer : Option Answer)
    (fault : Option Refusal) : (session.record path answer fault).draft = session.draft := rfl

mutual

theorem draft_call (session : Session) (path : List Nat) (made : Call) :
    (session.call path made).draft = made.run session.draft := by
  cases made with
  | edit change => rfl
  | ask question => rfl
  | startOver => rfl
  | finish => rfl
  | within opening program =>
    rw [call, Call.run]
    split
    · simp only [draft_record, leave, advance, draft_calls]
    · rfl

theorem draft_calls (session : Session) (path : List Nat) (number : Nat) (program : List Call) :
    (session.calls path number program).draft = Call.runAll session.draft program := by
  cases program with
  | nil => rfl
  | cons first rest =>
    rw [calls, Call.runAll, draft_calls, draft_call]

end

/-- The session of a program on a new draft. -/
def play (settings : Settings) (program : List Call) : Session :=
  calls { draft := .start settings } [] 0 program

end Session

end SqlDraft
