/-
**Clauses in the order of their ranks.**

The children of a statement's node are its clauses. They are kept in the order of their ranks, so
a search can stop early, and a clause can be added at any time and still stand in its place.

* `Store.clause?`: looks for a clause and stops at the first one of a higher rank.
* `Store.addClause`: adds a clause behind all clauses of its rank or a lower one.
* `Store.ensureClause`: adds a clause where there is none yet; `Store.clauseSlot` is its slot.
-/

import SqlDraft.Store.Links

namespace SqlDraft.Store

/-- The rank that a child is passed over with, which is the lowest one for a child that heads no
clause. -/
def passRank (store : Store) (child : Slot) : Nat := (store.node child).payload.rank?.getD 0

/-- The rank that a new child is placed with, which is above all others for a tag that heads no
clause. -/
def placeRank (keyword : Keyword) : Nat := keyword.rank?.getD 255

/-- Whether a child heads a clause that comes later than this rank. -/
def standsAfter (store : Store) (rank : Nat) (child : Slot) : Bool :=
  (store.node child).payload.rank?.any fun childRank => rank < childRank

/-- The clause with this tag among a list of children, which is not looked for behind a clause of
a higher rank. -/
def scanClause? (store : Store) (keyword : Keyword) (rank : Nat) : List Slot → Option Slot
  | [] => none
  | child :: rest =>
    if (store.node child).payload.isKeyword keyword then some child
    else if store.standsAfter rank child then none
    else store.scanClause? keyword rank rest

/-- The clause with this tag below a node. There is none for a tag that heads no clause. -/
def clause? (store : Store) (parent : Slot) (keyword : Keyword) : Option Slot :=
  keyword.rank?.bind fun rank => store.scanClause? keyword rank (store.children parent)

/-- The child that a new clause goes behind: the last one before the first of a higher rank. -/
def clauseBefore? (store : Store) (parent : Slot) (keyword : Keyword) : Option Slot :=
  let before := (store.children parent).takeWhile fun child =>
    store.passRank child ≤ placeRank keyword
  before.getLast?

/-- Adds a clause behind all clauses of its rank or a lower one. Its slot is the one that was fresh
before. -/
def addClause (store : Store) (parent : Slot) (keyword : Keyword) : Store :=
  let slot := store.fresh
  let allocated := store.allocate (.keyword keyword)
  match allocated.clauseBefore? parent keyword with
  | some previous => allocated.linkAfter previous slot
  | none => allocated.linkFirst parent slot

/-- The slot of a clause, which is the fresh one where the clause has to be added first. -/
def clauseSlot (store : Store) (parent : Slot) (keyword : Keyword) : Slot :=
  (store.clause? parent keyword).getD store.fresh

/-- Adds a clause where there is none with this tag. -/
def ensureClause (store : Store) (parent : Slot) (keyword : Keyword) : Store :=
  if (store.clause? parent keyword).isSome then store else store.addClause parent keyword

end SqlDraft.Store
