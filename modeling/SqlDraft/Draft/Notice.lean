/-
**What is noticed about the calls on a draft.**

A notice tells that a call was ignored, or what happened to the scopes and the text. It is about
the draft before the call, so the notices of a call can be told without making it.

* `Notice.message`: the text of a notice.
* `Draft.editNotices`, `Draft.openingNotices`, `Draft.closingNotices`, `Draft.renderNotices`: the
  notices of the calls, in the order in which they arise.
-/

import SqlDraft.Draft.Edit
import SqlDraft.Draft.Text

namespace SqlDraft

/-- How much a notice matters. -/
inductive Level
  | warn
  | debug
deriving DecidableEq

namespace Level

/-- The name of a level. -/
def name : Level → String
  | warn => "WARN"
  | debug => "DEBUG"

/-- Whether notices of a level are shown when notices down to another level are asked for. -/
def shownAt (level least : Level) : Bool := level = .warn || least = .debug

end Level

/-- Something to notice. -/
inductive Notice
  /-- A call was ignored for this reason. -/
  | ignored (refusal : Refusal)
  /-- A scope that has a table was given another one. -/
  | tableTwice
  /-- The rows before a page are more than can be written. -/
  | pageClamped (perPage page : UInt64)
  /-- A draft with these slots in use and scopes open was started over. -/
  | cleared (inUse scopes : Nat)
  /-- A scope was opened, and so many are open now. -/
  | opened (kind : ScopeKind) (depth : Nat)
  /-- A scope was closed, and so many are open now. -/
  | closed (kind : ScopeKind) (depth : Nat)
  /-- The statement was written with scopes open inside it. -/
  | stillOpen (scopes : Nat)
  /-- The statement was written as this text. -/
  | rendered (text : String)
deriving DecidableEq

namespace Notice

/-- The decimal text of a number. -/
def number (value : Nat) : String := String.ofList (Nat.toDigits 10 value)

/-- How much a notice matters. -/
def level : Notice → Level
  | ignored (.nothingToName _) => .debug
  | ignored _ | tableTwice | pageClamped _ _ | stillOpen _ => .warn
  | cleared _ _ | opened _ _ | closed _ _ | rendered _ => .debug

/-- The text of an ignored call. A refusal that could also be told to the caller does not say by
itself that the call was ignored. -/
def ignoredText (refusal : Refusal) : String :=
  match refusal with
  | .hasTable | .isRemoval _ | .withinGroup _ => refusal.text ++ ", call ignored"
  | .notDistinct _ | .noJoin | .noOrdering _ | .nothingToName _ => refusal.text

/-- The text of a notice. -/
def message : Notice → String
  | ignored refusal => ignoredText refusal
  | tableTwice => "FROM called twice in the same scope"
  | pageClamped perPage page =>
    "Page " ++ number (Paging.pageNumber page) ++ " of " ++ number perPage.toNat ++
      " rows overflows OFFSET, clamped"
  | cleared inUse scopes =>
    "Clearing query builder (" ++ number inUse ++ " live nodes, " ++ number scopes ++
      " open scopes)"
  | opened kind depth => "Opened " ++ kind.name ++ " scope at depth " ++ number depth
  | closed kind depth => "Closed " ++ kind.name ++ " scope, depth now " ++ number depth
  | stillOpen scopes => "Rendering with " ++ number scopes ++ " nested scope(s) still open"
  | rendered text => "Rendered SQL (" ++ number text.utf8ByteSize ++ " bytes): " ++ text

end Notice

namespace Draft

/-! ### Edits -/

/-- The notice of a call that was ignored. -/
def ignoredNotices (refusal : Option Refusal) : List Notice := refusal.toList.map .ignored

/-- The notice of a second table. -/
def tableNotices (draft : Draft) : List Notice :=
  if draft.refusesTable? = some .hasTable then [.tableTwice] else []

/-- The notices of an edit. An edit of two calls has the notices of both, and a refusal that the
caller is told is not noticed as well. -/
def editNotices (draft : Draft) : Edit → List Notice
  | .select _ | .remove _ => []
  | .table _ => draft.tableNotices
  | .joinOn kind table condition =>
    match draft.refusesPart? .join with
    | some refusal => [.ignored refusal]
    | none => ignoredNotices ((draft.join kind table).refusal? (.restrict .joinOn .and condition))
  | .orderDown columns =>
    ignoredNotices (draft.refusal? (.orderBy columns)) ++
      ignoredNotices ((draft.orderBy columns).refusal? (.direct .desc))
  | .showPage perPage page =>
    (if Paging.overflows perPage page then [.pageClamped perPage page] else []) ++
      ignoredNotices (draft.refusal? (.limit perPage)) ++
      ignoredNotices (draft.refusal? (.offset (Paging.skipped perPage page)))
  | edit => ignoredNotices (draft.refusal? edit)

/-! ### Scopes and text -/

/-- The kind of scope that is opened, if one is. -/
def openedKind? : Opening → Option ScopeKind
  | .table | .joinTable _ | .joinOperand _ _ _ _ => some .subquery
  | .union _ => some .union
  | .joinConditions _ _ => none
  | .condition _ _ nested => some nested.kind

/-- The notices of opening something. -/
def openingNotices (draft : Draft) (opening : Opening) : List Notice :=
  if draft.admits opening then
    (openedKind? opening).toList.map fun kind => .opened kind (draft.depth + 1)
  else if opening = .table then draft.tableNotices
  else ignoredNotices (draft.barrier? opening)

/-- The notices of closing a number of scopes. -/
def closingNotices (draft : Draft) : (count : Nat) → List Notice
  | 0 => []
  | count + 1 =>
    match draft.nested with
    | [] => []
    | closed :: _ => .closed closed.kind draft.close.depth :: draft.close.closingNotices count

/-- The notices of writing the statement as a text. -/
def renderNotices (draft : Draft) (text : String) : List Notice :=
  (if 1 < draft.depth then [.stillOpen (draft.depth - 1)] else []) ++ [.rendered text]

/-- The notices of closing all scopes and writing the statement. -/
def finalNotices (draft : Draft) : List Notice :=
  draft.closingNotices (draft.depth - 1) ++ draft.closeNested.renderNotices draft.finalText

/-- The notice of saying nothing any more. -/
def startOverNotices (draft : Draft) : List Notice := [.cleared draft.store.inUse draft.depth]

end Draft

end SqlDraft
