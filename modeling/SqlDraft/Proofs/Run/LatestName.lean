/-
**A name goes to what came last.**

What a name goes to is told by the calls in its scope: the last of the columns that were selected, the
table, or what was joined, each with all that is below it. The name is written behind it and nothing
else changes:

* `Line.ofPayloads_append`: what further parts add to a text.
* `Draft.Offers`: the node that a target is, and where it stands.
* `Draft.Rewords`: two texts differ in the name of one node alone.
* `Drawing.exists_offered`: the target of a scope is such a node.
* **`Chronicle.names_go_to_the_latest_target`**: what a name does after any moves.
-/

import SqlDraft.Proofs.Run.LastEdit
import SqlDraft.Proofs.Run.Lists
import SqlDraft.Proofs.Run.Naming
import SqlDraft.Proofs.Run.Recounting
import SqlDraft.Proofs.Run.Tokens

namespace SqlDraft

/-! ### Texts with a name in them -/

/-- The text of a name, with the blanks before it. -/
def nameText : Option String → String
  | none => ""
  | some name => if name = "" then " AS" else " AS " ++ name

namespace Line

variable {dialect : Dialect}

/-- What parts add to a text that is not empty. -/
def further (dialect : Dialect) (payloads : List Payload) : String :=
  String.join ((tokens dialect payloads).map fun payload => gap payload ++ payload.text dialect)

theorem further_append (dialect : Dialect) (front back : List Payload) :
    further dialect (front ++ back) = further dialect front ++ further dialect back := by
  unfold further
  rw [tokens_append, List.map_append, String.join_append]

/-- **Further parts add to a text**, and do not change it. -/
theorem ofPayloads_append {front : List Payload} (visible : tokens dialect front ≠ [])
    (back : List Payload) :
    ofPayloads dialect (front ++ back) = ofPayloads dialect front ++ further dialect back := by
  rw [ofPayloads_eq_joined, ofPayloads_eq_joined, tokens_append]
  cases said : tokens dialect front with
  | nil => exact absurd said visible
  | cons first rest =>
    rw [List.cons_append, joined, joined, List.map_append, String.join_append, further,
      String.append_assoc]

/-- The text of the last parts ends the text. -/
theorem exists_ofPayloads_append (dialect : Dialect) (front back : List Payload) :
    ∃ lead, ofPayloads dialect (front ++ back) = lead ++ ofPayloads dialect back := by
  by_cases visible : tokens dialect front = []
  · refine ⟨"", ?_⟩
    rw [ofPayloads_eq_joined, ofPayloads_eq_joined, tokens_append, visible, List.nil_append,
      String.empty_append]
  · rw [ofPayloads_append visible, ofPayloads_eq_joined dialect back, further]
    cases tokens dialect back with
    | nil => exact ⟨_, rfl⟩
    | cons first rest =>
      refine ⟨ofPayloads dialect front ++ gap first, ?_⟩
      rw [List.map_cons, joined]
      simp [String.append_assoc]

theorem further_spellName (dialect : Dialect) (name : Option String) :
    further dialect (spellName name) = nameText name := by
  cases name with
  | none => rfl
  | some text =>
    by_cases empty : text = ""
    · subst empty
      cases dialect <;> rfl
    · have visible : (Payload.literal text).text dialect ≠ "" := empty
      have mark : tokens dialect [.keyword .asName] = [.keyword .asName] :=
        tokens_singleton (by cases dialect <;> decide)
      show further dialect ([.keyword .asName] ++ [.literal text]) = _
      rw [further_append, further, further, mark, tokens_singleton visible, nameText, if_neg empty]
      cases dialect <;> simp [gap] <;> rfl

end Line

/-! ### What a name goes to -/

deriving instance DecidableEq for Target

namespace Draft

/-- **The node that a target is**: the last column of the projection, what the table clause has first,
or what the join that was added last in this scope has first. -/
inductive Offers (draft : Draft) (events : List Event) (perch : Perch) : Target → Prop
  | column {text : String} (command : draft.scope.command = some perch.clause)
      (literal : draft.store.payload perch.slot = .literal text) (last : perch.back = []) :
      Offers draft events perch .column
  | table (table : draft.scope.table = some perch.clause) (first : perch.front = []) :
      Offers draft events perch .table
  | join {kind : JoinKind}
      (latest : (Event.joins events draft.scope.root).getLast? = some (perch.clause, kind))
      (first : perch.front = []) : Offers draft events perch .join

/-- **Two drafts differ in the name of one node alone.** It is read behind all that is read at the node,
and what is read before and behind is the same in both. So is their text in every dialect: the text of
the name stands directly behind the text of the node. -/
def Rewords (draft after : Draft) (slot : Slot) (former latter : Option String) : Prop :=
  ∃ before behind,
    draft.payloads = before ++ (draft.store.reading slot ++ (spellName former ++ behind)) ∧
    after.payloads = before ++ (draft.store.reading slot ++ (spellName latter ++ behind)) ∧
    ∀ dialect, ∃ lead rest,
      lead ++ draft.textAt dialect slot =
        Line.ofPayloads dialect (before ++ draft.store.reading slot) ∧
      draft.textIn dialect = lead ++ draft.textAt dialect slot ++ nameText former ++ rest ∧
      after.textIn dialect = lead ++ draft.textAt dialect slot ++ nameText latter ++ rest

/-- **A name goes to this node.** The node stands in a clause of the innermost scope and has one name at
most. Naming it changes nothing but this name, in the tree and in the text. -/
structure TakesName (draft : Draft) (perch : Perch) (name : String) : Prop where
  placed : perch.clause ∈ draft.store.children draft.scope.root
  bears : draft.store.Bears perch
  renames : ∃ mark other, draft.apply (.giveName name) = draft.alter (fun _ => other) ∧
    draft.store.Renames other perch mark name
  rewords : draft.Rewords (draft.apply (.giveName name)) perch.slot perch.name (some name)

end Draft

namespace Store

variable {store : Store} {scopes row : List Slot}

theorem Shows.label {name : Option String} (shows : store.Shows scopes row (nameTrees name)) :
    store.Label row name := by
  cases name with
  | none =>
    obtain rfl := Shows.children_eq_nil shows
    exact .missing
  | some text =>
    obtain ⟨mark, behind, rfl, word, -, -, below, rest⟩ := Shows.uncons shows
    obtain rfl := rest.children_eq_nil
    obtain ⟨leaf, alone, children, literal, bare, rest⟩ := below.leaf
    obtain rfl := rest.children_eq_nil
    exact .given word children literal bare

/-- **A row in which a node has its name behind it.** -/
theorem Framed.exists_bears {root clause slot : Slot} {payload : Payload} {lead tail : List Tree}
    {source : Tree} {name : Option String} {context : Payload → List Tree → List Tree}
    (framed : store.Framed scopes root clause payload (lead ++ source :: (nameTrees name ++ tail))
      context) (blank : ∀ root ∈ scopes, store.payload root = .blank) (known : source.slot? = some slot)
    (conditions : ∀ tree ∈ tail, ∃ below slot, tree = .node (some slot) (.keyword .joinOn) below) :
    ∃ perch, perch.clause = clause ∧ perch.slot = slot ∧ store.Bears perch ∧
      perch.front.length = lead.length ∧ perch.back.length = tail.length ∧
      store.payload slot = source.head := by
  obtain ⟨front, rest, split, length, behind⟩ := framed.inside.around known
  obtain ⟨marks, back, rfl, label, further⟩ := behind.split
  have heads := framed.inside.map_payload blank
  rw [split, List.map_append, List.map_append, List.map_cons, List.map_cons] at heads
  obtain ⟨-, heads⟩ := List.append_inj heads (by rw [List.length_map, List.length_map, length])
  refine ⟨⟨clause, front, slot, marks, name, back⟩, rfl, rfl, ⟨split, label.label, ?_⟩, length,
    further.length_eq, (List.cons.inj heads).1⟩
  intro other member named
  have shown := List.mem_map_of_mem (f := store.payload) member
  rw [further.map_payload blank] at shown
  obtain ⟨tree, inTail, head⟩ := List.mem_map.mp shown
  obtain ⟨below, slot, rfl⟩ := conditions tree inTail
  rw [named] at head
  cases head

end Store

namespace Drawing

variable (drawing : Drawing)

/-- The last join of an outline is the one that was added last. -/
theorem exists_latest (plain : drawing.draft.inGroup = false) {events : List Event} {slot : Slot}
    (joins : drawing.draft.store.ofRank (drawing.draft.store.children drawing.root) 2 =
      (Event.joins events drawing.root).map fun join => (join.1, .keyword join.2.keyword))
    (last : drawing.outline.holder? .join = some slot) :
    ∃ kind, (Event.joins events drawing.root).getLast? = some (slot, kind) := by
  have shows := drawing.sketched.drawn.shows _ drawing.sketched.isScope
  rw [drawing.sketched.rows_eq plain] at shows
  have stamps : (drawing.outline.row 2).filterMap Tree.stamp? = drawing.outline.joins.map
      fun clause => (clause.slot, .keyword clause.part.kind.keyword) := Outline.stamps_map _ _ _
  have stamped := stamps.symm.trans ((shows.ofRank_eq (show 2 < 9 by decide)).symm.trans joins)
  have latest := congrArg List.getLast? stamped
  obtain ⟨clause, said, same⟩ := Option.map_eq_some_iff.mp last
  rw [List.getLast?_map, List.getLast?_map, said, Option.map_some, eq_comm,
    Option.map_eq_some_iff] at latest
  obtain ⟨⟨found, kind⟩, joined, stamp⟩ := latest
  obtain rfl : found = slot := (congrArg Prod.fst stamp).trans same
  exact ⟨kind, joined⟩

/-- **The target of a scope is a node with its name behind it**, in a clause of the scope. -/
theorem exists_offered {events : List Event} {target : Target}
    (aims : drawing.outline.target = some target)
    (joins : drawing.draft.inGroup = false →
      drawing.draft.store.ofRank (drawing.draft.store.children drawing.root) 2 =
        (Event.joins events drawing.root).map fun join => (join.1, .keyword join.2.keyword)) :
    ∃ perch, drawing.draft.Offers events perch target ∧ drawing.draft.store.Bears perch ∧
      perch.clause ∈ drawing.draft.store.children drawing.root ∧
      (drawing.draft.store.payload perch.clause).rank? = some target.rank ∧
      drawing.draft.scope.target = some perch.slot := by
  have sketched := drawing.sketched
  have held : drawing.draft.scope.Held drawing.outline := sketched.heldScope
  obtain ⟨slot, place⟩ := Option.isSome_iff_exists.mp (held.placed target aims)
  have plain := sketched.plain_of_place place
  have goes := held.target
  rw [aims, Option.bind_some, place] at goes
  obtain ⟨front, clause, word, lead, source, name, tail, back, holder, row, known, fits, conditions,
    -⟩ := Outline.place?_eq_some place
  have inside : target.rank < 9 := by cases target <;> decide
  obtain ⟨member, -, framed⟩ := sketched.framedAt plain inside row
  obtain ⟨perch, rfl, rfl, bears, first, last, head⟩ :=
    framed.exists_bears sketched.drawn.blank known conditions
  have inRow : .node (some perch.clause) (.keyword word) (lead ++ source :: (nameTrees name ++ tail)) ∈
      drawing.outline.row target.rank := by
    rw [row]
    exact List.mem_append_right _ List.mem_cons_self
  obtain ⟨at_, tag, below, same, ranked⟩ := Outline.rank?_of_mem_row inRow
  obtain ⟨-, sameTag, -⟩ := Tree.node.inj same
  refine ⟨perch, ?_, bears, member, ?_, goes⟩
  · cases target with
    | column =>
      obtain ⟨⟨at_, text, rfl⟩, rfl⟩ := fits
      exact .column (held.command.trans holder) head (List.length_eq_zero_iff.mp last)
    | table =>
      obtain rfl : lead = [] := fits
      exact .table (held.table.trans holder) (List.length_eq_zero_iff.mp first)
    | join =>
      obtain rfl : lead = [] := fits
      obtain ⟨kind, joined⟩ := drawing.exists_latest plain (joins plain) holder
      exact .join joined (List.length_eq_zero_iff.mp first)
  · rw [framed.payload_eq, sameTag]
    exact ranked

end Drawing

namespace Draft

/-- **Naming a node is read as the name behind it.** -/
theorem rewords_alter {draft : Draft} (forest : draft.store.Forest) {other : Store} {perch : Perch}
    {mark : Slot} {name : String} (bears : draft.store.Bears perch)
    (renames : draft.store.Renames other perch mark name)
    (within : draft.store.Within other perch.clause)
    (hangs : draft.store.Below draft.root perch.clause)
    (visible : ∀ dialect, (draft.store.payload perch.clause).text dialect ≠ "") :
    draft.Rewords (draft.alter fun _ => other) perch.slot perch.name (some name) := by
  obtain ⟨before, behind, headed, reads, readsToo⟩ :=
    renames.exists_reading bears forest within hangs
  let implied : List Payload :=
    if draft.base.lacksProjection then [.keyword .select, .keyword .star] else []
  have payloads : draft.payloads = implied ++ draft.store.payloadsBelow draft.root := rfl
  have payloadsToo : (draft.alter fun _ => other).payloads =
      implied ++ other.payloadsBelow draft.root := rfl
  rw [reads, ← List.append_assoc] at payloads
  rw [readsToo, ← List.append_assoc] at payloadsToo
  refine ⟨implied ++ before, behind, payloads, payloadsToo, fun dialect => ?_⟩
  -- The word of the clause is written before the node, so what follows is added behind it.
  have seen : Line.tokens dialect (implied ++ before ++ draft.store.reading perch.slot) ≠ [] :=
    List.ne_nil_of_mem (List.mem_filter.mpr
      ⟨List.mem_append_left _ (List.mem_append_right _ headed), decide_eq_true (visible dialect)⟩)
  obtain ⟨lead, text⟩ := Line.exists_ofPayloads_append dialect (implied ++ before)
    (draft.store.reading perch.slot)
  have adds (given : Option String) : Line.ofPayloads dialect (implied ++ before ++
      (draft.store.reading perch.slot ++ (spellName given ++ behind))) =
        lead ++ draft.textAt dialect perch.slot ++ nameText given ++ Line.further dialect behind := by
    rw [← List.append_assoc _ (draft.store.reading perch.slot), Line.ofPayloads_append seen, text,
      Line.further_append, Line.further_spellName]
    exact String.append_assoc.symm
  refine ⟨lead, Line.further dialect behind, text.symm, ?_, ?_⟩
  · rw [textIn, payloads, adds]
  · rw [textIn, payloadsToo, adds]

end Draft

/-- The clause that a target stands in has a word in every dialect. -/
theorem Target.text_ne {payload : Payload} {target : Target}
    (ranked : payload.rank? = some target.rank) (dialect : Dialect) : payload.text dialect ≠ "" := by
  cases payload with
  | literal text => cases ranked
  | keyword word =>
    cases target <;> cases word <;> first
      | exact absurd ranked (by decide)
      | (cases dialect <;> decide)

/-- The joins of a scope stand in it in the order of the calls. -/
theorem Story.Kept.joins_shown {story : Story} {scopes : List Slot} {outlines : Slot → Outline}
    (kept : story.Kept scopes outlines) (plain : story.draft.inGroup = false) :
    story.draft.store.ofRank (story.draft.store.children story.draft.scope.root) 2 =
      (Event.joins story.events story.draft.scope.root).map fun join =>
        (join.1, .keyword join.2.keyword) := by
  have isScope := kept.sketched.isScope
  have shows := kept.sketched.drawn.shows _ isScope
  rw [kept.sketched.rows_eq plain] at shows
  exact (shows.clausesOf kept.sketched.drawn.blank (kept.recorded.report _ isScope)).joins

/-- **A name goes to the target of a scope.** -/
theorem Drawing.takesName (drawing : Drawing) {events : List Event} {target : Target}
    (aims : drawing.outline.target = some target)
    (joins : drawing.draft.inGroup = false →
      drawing.draft.store.ofRank (drawing.draft.store.children drawing.root) 2 =
        (Event.joins events drawing.root).map fun join => (join.1, .keyword join.2.keyword))
    (name : String) :
    ∃ perch, drawing.draft.Offers events perch target ∧ drawing.draft.TakesName perch name := by
  obtain ⟨perch, offers, bears, member, ranked, goes⟩ := drawing.exists_offered aims joins
  obtain ⟨mark, renames, within⟩ := bears.setName drawing.forest name
  have named : drawing.draft.apply (.giveName name) =
      drawing.draft.alter fun _ => drawing.draft.store.setName perch.slot name :=
    Draft.giveName_of_found goes name
  have hangs : drawing.draft.store.Below drawing.draft.root perch.clause :=
    .tail' ((drawing.sketched.drawn.inUse_iff_reaches _).mp drawing.sound.root) member
  refine ⟨perch, offers, member, bears, ⟨mark, _, named, renames⟩, ?_⟩
  rw [named]
  exact Draft.rewords_alter drawing.forest bears renames within hangs fun dialect =>
    Target.text_ne ranked dialect

namespace Chronicle

/-- **A name goes to what came last.** After any moves, what came last in the innermost scope tells what
a name goes to. Where nothing is left to name, nothing changes. Otherwise it is the last column, the
table or what was joined last, with at most one name: this is replaced by the new name, or the new name
is put directly behind all that was said of the target, in the tree and in the text of every dialect,
and nothing else changes. -/
theorem names_go_to_the_latest_target (settings : Settings) (moves : List Move) (name : String) :
    (Turn.target? (after settings moves).turns = none →
      (after settings moves).draft.apply (.giveName name) = (after settings moves).draft) ∧
    ∀ target, Turn.target? (after settings moves).turns = some target →
      ∃ perch, (after settings moves).draft.Offers (Story.after settings moves).events perch target ∧
        (after settings moves).draft.TakesName perch name := by
  obtain ⟨drawing, recounted⟩ := recounted_after settings moves
  obtain ⟨scopes, outlines, kept⟩ := Story.kept_after settings moves
  have joins := kept.joins_shown
  rw [← draft_after, ← recounted.draft] at joins
  rw [← recounted.target, ← recounted.draft]
  refine ⟨fun nothing => ?_, fun target aims => drawing.takesName aims joins name⟩
  have held : drawing.draft.scope.Held drawing.outline := drawing.sketched.heldScope
  have goes := held.target
  rw [nothing, Option.bind_none] at goes
  show drawing.draft.giveName name = drawing.draft
  rw [Draft.giveName, goes]

/-- A joined table with a name and a condition. -/
def namedJoin : List Move :=
  [.edit (.table "users"), .edit (.join .left "orders"), .edit (.giveName "o"),
    .edit (.restrict .joinOn .and (.verbatim "o.owner = users.id"))]

/-- The joined table is named again. A column that was selected then is dropped by a removal, and
nothing is left to name. -/
theorem names_go_to_the_joined_table :
    Turn.target? (after .standard namedJoin).turns = some .join ∧
    (∃ perch, (after .standard namedJoin).draft.Offers (Story.after .standard namedJoin).events perch
        .join ∧ (after .standard namedJoin).draft.TakesName perch "p") ∧
    (after .standard (namedJoin ++ [.edit (.select ["id"]), .edit (.remove .delete)])).draft.apply
        (.giveName "p") =
      (after .standard (namedJoin ++ [.edit (.select ["id"]), .edit (.remove .delete)])).draft := by
  have aims : Turn.target? (after .standard namedJoin).turns = some .join := by decide
  have dropped : Turn.target? (after .standard
      (namedJoin ++ [.edit (.select ["id"]), .edit (.remove .delete)])).turns = none := by decide
  have named := (names_go_to_the_latest_target .standard namedJoin "p").2 .join aims
  exact ⟨aims, named, (names_go_to_the_latest_target .standard _ "p").1 dropped⟩

end Chronicle

end SqlDraft
