/-
**The text of a draft.**

The tree is read from the top down and from left to right, and the parts that have a text are put
in a row with one blank between them; a comma follows the part before it directly. A statement that
has a table and no command returns all columns, which is written as if it had been said.

* `Store.preorder`: the slots of a tree in the order of the text.
* `Draft.payloads`: the parts of a statement in that order.
* `Line.write`: adds one part to the text so far, whose end `Line.retract_write` describes.
* `Draft.textIn`: the text of a draft in a dialect.
-/

import SqlDraft.Draft.Nesting

namespace SqlDraft

/-- The slots of some trees with their siblings, each before those below it, at most `bound` of
them. -/
def Store.preorder (store : Store) : (bound : Nat) → List Slot → List Slot
  | 0, _ => []
  | _ + 1, [] => []
  | bound + 1, slot :: pending =>
    let node := store.node slot
    slot :: store.preorder bound (node.child.toList ++ node.next.toList ++ pending)

/-- The payloads below a node in the order of the text. A tree has no slot twice, so there are at
most as many as there are slots. -/
def Store.payloadsBelow (store : Store) (root : Slot) : List Payload :=
  (store.preorder store.slots (store.firstChild? root).toList).map fun slot =>
    (store.node slot).payload

/-- A text that grows at its end, its last character first. -/
abbrev Line := List Char

namespace Line

/-- The text without the blank at its end, if it has one. -/
def retract : Line → Line
  | ' ' :: line => line
  | line => line

/-- Adds the text of a part and a blank behind it. A comma takes the place of the blank before it,
and a part without text adds nothing. -/
def write (dialect : Dialect) (line : Line) (payload : Payload) : Line :=
  match (payload.text dialect).toList with
  | [] => line
  | text =>
    let before := if payload.isKeyword .comma then line.retract else line
    ' ' :: (text.reverse ++ before)

/-- The blank at the end of a text is the one that was written behind its last part. -/
theorem retract_write (dialect : Dialect) (line : Line) (payload : Payload)
    (visible : (payload.text dialect).toList ≠ []) :
    (write dialect line payload).retract = (payload.text dialect).toList.reverse ++
      if payload.isKeyword .comma then line.retract else line := by
  unfold write
  split
  · next hidden => exact absurd hidden visible
  · rfl

/-- The text of parts in a row. -/
def ofPayloads (dialect : Dialect) (payloads : List Payload) : String :=
  String.ofList (payloads.foldl (write dialect) []).retract.reverse

end Line

namespace Draft

/-- The parts of the statement in the order of its text. -/
def payloads (draft : Draft) : List Payload :=
  let implied : List Payload :=
    if draft.base.lacksProjection then [.keyword .select, .keyword .star] else []
  implied ++ draft.store.payloadsBelow draft.root

/-- The text of a draft in a dialect. -/
def textIn (draft : Draft) (dialect : Dialect) : String := Line.ofPayloads dialect draft.payloads

/-- The text of a draft. -/
def text (draft : Draft) : String := draft.textIn draft.settings.dialect

/-- Writes a draft in a dialect and keeps the text. -/
def render (draft : Draft) (dialect : Dialect) : Draft :=
  { draft with rendered := draft.textIn dialect }

/-- The text of a draft after all its scopes are closed. -/
def finalText (draft : Draft) : String := draft.closeNested.text

end Draft

end SqlDraft
