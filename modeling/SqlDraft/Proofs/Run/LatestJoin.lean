/-
**Conditions go to the join that was added last.**

A condition on a join goes to the join that the scope got last, unless that is a cross join or a scope
that lets go of it has closed since. Where there is no such join it is left out:

* `Turn.Current`: the join that conditions go to, by what happened in a scope.
* `Turn.join?_eq_some_iff`: a draft that remembers what happened remembers that join.
* `Draft.TakesOn`, `Draft.IgnoresOn`: conditions go to one join, or nowhere.
* **`Chronicle.conditions_go_to_the_latest_join`**: where they go after any moves, and what joins look
  like then.
-/

import SqlDraft.Proofs.Run.Attaching
import SqlDraft.Proofs.Run.Joining
import SqlDraft.Proofs.Run.Recounting

namespace SqlDraft

namespace Turn

/-! ### The current join -/

/-- **The join that conditions go to**, by what happened in a scope, the latest first: the join that was
added last, if it is no cross join, and every scope that closed since leaves it current. -/
def Current (turns : List Turn) (join : Slot) : Prop :=
  ∃ since kind earlier, turns = since ++ .joined join kind :: earlier ∧ kind ≠ .cross ∧
    (∀ slot kind, .joined slot kind ∉ since) ∧
    ∀ opening, .closed opening ∈ since → opening.keepsJoin = true

theorem Current.cons {turns : List Turn} {join : Slot} (current : Current turns join) {turn : Turn}
    (noJoin : ∀ slot kind, turn ≠ .joined slot kind)
    (keeps : ∀ opening, turn = .closed opening → opening.keepsJoin = true) :
    Current (turn :: turns) join := by
  obtain ⟨since, kind, earlier, rfl, ordinary, none, kept⟩ := current
  refine ⟨turn :: since, kind, earlier, rfl, ordinary, fun slot kind member => ?_,
    fun opening member => ?_⟩
  · rcases List.mem_cons.mp member with same | further
    · exact noJoin slot kind same.symm
    · exact none slot kind further
  · rcases List.mem_cons.mp member with same | further
    · exact keeps opening same.symm
    · exact kept opening further

/-- What happened since the join was added does not matter, if it leaves the join current. -/
theorem join?_append {since turns : List Turn} (none : ∀ slot kind, .joined slot kind ∉ since)
    (kept : ∀ opening, .closed opening ∈ since → opening.keepsJoin = true) :
    join? (since ++ turns) = join? turns := by
  induction since with
  | nil => rfl
  | cons turn rest step =>
    have further := step (fun slot kind member => none slot kind (List.mem_cons_of_mem turn member))
      fun opening member => kept opening (List.mem_cons_of_mem turn member)
    cases turn with
    | selected | tabled | removed => exact further
    | joined slot kind => exact absurd List.mem_cons_self (none slot kind)
    | closed opening => exact (if_pos (kept opening List.mem_cons_self)).trans further

theorem current_of_join? {turns : List Turn} {join : Slot} (found : join? turns = some join) :
    Current turns join := by
  induction turns with
  | nil => cases found
  | cons turn rest step =>
    cases turn with
    | selected | tabled | removed => exact (step found).cons nofun nofun
    | joined slot kind =>
      rw [join?] at found
      split at found
      · cases found
      · next ordinary =>
        obtain rfl := Option.some.inj found
        exact ⟨[], kind, rest, rfl, ordinary, nofun, nofun⟩
    | closed opening =>
      rw [join?] at found
      split at found
      · next keeps =>
        refine (step found).cons nofun fun other same => ?_
        obtain rfl := Turn.closed.inj same
        exact keeps
      · cases found

/-- **A draft that remembers what happened remembers the current join.** -/
theorem join?_eq_some_iff {turns : List Turn} {join : Slot} :
    join? turns = some join ↔ Current turns join := by
  refine ⟨current_of_join?, ?_⟩
  rintro ⟨since, kind, earlier, rfl, ordinary, none, kept⟩
  rw [join?_append none kept, join?, if_neg ordinary]

theorem join?_eq_none_iff {turns : List Turn} :
    join? turns = none ↔ ∀ join, ¬ Current turns join := by
  rw [Option.eq_none_iff_forall_ne_some]
  exact forall_congr' fun join => not_congr join?_eq_some_iff

end Turn

/-! ### The last join of a scope -/

/-- A join stands last among the joins below a node, and takes conditions. -/
def Store.EndsJoins (store : Store) (root join : Slot) : Prop :=
  ∃ kind front back, store.children root = front ++ join :: back ∧
    store.payload join = .keyword kind.keyword ∧ kind ≠ JoinKind.cross ∧
    ∀ other ∈ back, (store.payload other).rank? ≠ some 2

/-- What stands behind the clauses of a rank is of another rank. -/
theorem Outline.rank?_of_behind {outline : Outline} {rank : Nat} {mark : Option Slot}
    {content : Payload} {below : List Tree} (member : .node mark content below ∈ outline.behind rank) :
    content.rank? ≠ some rank := by
  obtain ⟨found, inRange, inRow⟩ := List.mem_flatMap.mp member
  have later := (List.mem_range'_1.mp inRange).1
  obtain ⟨slot, word, inner, same, ranked⟩ := Outline.rank?_of_mem_row inRow
  obtain ⟨-, rfl, -⟩ := Tree.node.inj same
  intro here
  have : found = rank := Option.some.inj (ranked.symm.trans here)
  omega

/-- **The join that a scope remembers is the last one in it.** -/
theorem Drawing.endsJoins (drawing : Drawing) (plain : drawing.draft.inGroup = false) {join : Slot}
    (remembered : drawing.draft.scope.join = some join) :
    drawing.draft.store.EndsJoins drawing.root join := by
  have held := drawing.sketched.heldScope
  rw [held.join] at remembered
  cases joining : (drawing.outlines drawing.draft.scope.root).joining with
  | false =>
    rw [joining, if_neg Bool.false_ne_true] at remembered
    cases remembered
  | true =>
    obtain ⟨clause, last, ordinary⟩ := held.crossing joining
    rw [joining, if_pos rfl, Option.mem_def.mp last] at remembered
    obtain rfl : clause.slot = join := Option.some.inj remembered
    obtain ⟨front, said⟩ := List.getLast?_eq_some_iff.mp last
    have row : (drawing.outlines drawing.draft.scope.root).row 2 =
        front.map (fun clause => clause.tree clause.part.kind.keyword clause.part.trees) ++
          .node (some clause.slot) (.keyword clause.part.kind.keyword) clause.part.trees :: [] := by
      show (drawing.outlines drawing.draft.scope.root).joins.map _ = _
      rw [said, List.map_append]
      rfl
    have shows := drawing.sketched.drawn.shows _ drawing.sketched.isScope
    rw [drawing.sketched.trees_at plain (by decide) row] at shows
    obtain ⟨before, rest, children, -, behind⟩ := shows.split
    obtain ⟨child, back, rfl, payload, marked, -, -, further⟩ := behind.uncons
    obtain rfl := marked clause.slot rfl
    refine ⟨clause.part.kind, before, back, children, payload, ordinary, fun other member => ?_⟩
    by_cases isScope : other ∈ drawing.scopes
    · rw [drawing.sketched.drawn.blank other isScope]
      exact nofun
    · obtain ⟨mark, below, stands, -⟩ := further.exists_tree member isScope
      exact Outline.rank?_of_behind stands

/-! ### Where conditions go -/

namespace Draft

/-- **Conditions on a join go to this one.** It is the last one in the scope, and whatever condition is
said is attached to it, also one with a scope that further calls fill. -/
structure TakesOn (draft : Draft) (join : Slot) : Prop where
  last : draft.store.EndsJoins draft.scope.root join
  restrict : ∀ logic condition, draft.store.Attaches
    (draft.apply (.restrict .joinOn logic condition)).store join logic [.literal condition.sql]
  within : ∀ logic nested program, Call.goOn program = true → draft.store.Attaches
    (Call.run draft (.within (.condition .joinOn logic nested) program)).store join logic
    (nested.lead?.toList ++
      .blank :: (Call.sayAll (.silent nested.kind) program).enclosed nested.kind)

/-- **Conditions on a join go nowhere**, and what would fill a scope in one is left out as well. -/
structure IgnoresOn (draft : Draft) : Prop where
  restrict : ∀ logic condition, draft.apply (.restrict .joinOn logic condition) = draft
  within : ∀ logic nested program,
    Call.run draft (.within (.condition .joinOn logic nested) program) = draft

end Draft

namespace Chronicle

/-- **Conditions go to the join that was added last.** After any moves, in a scope that is no group, a
condition on a join goes to the join that is current by what happened in this scope: it is added to the
conditions of that join, and nothing else changes. Where no join is current nothing changes at all. So
every join consists of a target, at most one name and at most one `ON`, in this order, and a cross join
has none. -/
theorem conditions_go_to_the_latest_join (settings : Settings) (moves : List Move) :
    ((after settings moves).draft.inGroup = false →
      (∀ join, Turn.Current (after settings moves).turns join →
        (after settings moves).draft.TakesOn join) ∧
      ((∀ join, ¬ Turn.Current (after settings moves).turns join) →
        (after settings moves).draft.IgnoresOn)) ∧
    ∀ kind slot, (after settings moves).draft.store.InUse slot →
      (after settings moves).draft.store.payload slot = .keyword kind.keyword →
        (after settings moves).draft.store.JoinedAs kind slot := by
  obtain ⟨drawing, recounted⟩ := recounted_after settings moves
  have remembers := recounted.join
  refine ⟨fun plain => ⟨fun join current => ?_, fun missing => ?_⟩, fun kind slot inUse heads => ?_⟩
  · rw [Turn.join?_eq_some_iff.mpr current] at remembers
    rw [← recounted.draft] at plain remembers ⊢
    refine ⟨drawing.endsJoins plain remembers, fun logic condition => ?_,
      fun logic nested program on => drawing.attaches_run plain remembers logic nested on⟩
    exact Draft.attaches_restrict drawing.forest drawing.sound plain remembers logic condition
  · rw [Turn.join?_eq_none_iff.mpr missing] at remembers
    exact ⟨Draft.restrict_of_no_join plain remembers, Draft.run_of_no_join plain remembers⟩
  · rw [draft_after] at inUse heads ⊢
    exact Story.joinedAs settings moves inUse heads

/-- A table with two joins. The first one is named after it got its condition, and a group of conditions
on the second one has closed. -/
def twoJoins : List Move :=
  [.edit (.table "a"), .edit (.join .inner "b"), .edit (.restrict .joinOn .and (.verbatim "b.x = a.x")),
    .edit (.giveName "first"), .edit (.join .left "c"),
    .enter (.condition .joinOn .and .group),
    .edit (.restrict .joinOn .or (.verbatim "c.x = a.x")), .close]

/-- The second of the two joins is current, and no join is once a condition of the statement has
closed. -/
theorem conditions_go_to_the_second_join :
    (after .standard twoJoins).draft.inGroup = false ∧
    Turn.Current (after .standard twoJoins).turns 10 ∧ (after .standard twoJoins).draft.TakesOn 10 ∧
    (after .standard
      (twoJoins ++ [.enter (.condition .whereClause .and .group), .close])).draft.IgnoresOn ∧
    (after .standard twoJoins).draft.store.JoinedAs .inner 3 := by
  have current : Turn.Current (after .standard twoJoins).turns 10 :=
    Turn.join?_eq_some_iff.mp (by decide)
  obtain ⟨goes, shaped⟩ := conditions_go_to_the_latest_join .standard twoJoins
  obtain ⟨-, missing⟩ := (conditions_go_to_the_latest_join .standard
    (twoJoins ++ [.enter (.condition .whereClause .and .group), .close])).1 (by decide)
  have none := Turn.join?_eq_none_iff.mp (show Turn.join? (after .standard
    (twoJoins ++ [.enter (.condition .whereClause .and .group), .close])).turns = none by decide)
  exact ⟨by decide, current, (goes (by decide)).1 10 current, missing none,
    shaped .inner 3 (by decide) (by decide)⟩

end Chronicle

end SqlDraft
