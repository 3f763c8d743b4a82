/-
**Where the dialects agree.**

A statement is written in every dialect from the same tree, and a few of its words differ. Where a word
differs, the texts of two dialects share what stands before it and go on with another letter, whatever
stands behind it. So the texts are the same just where no such word was said:

* `Line.ofPayloads_ne`: parts that go on with another letter are written as another text.
* `Draft.Sketched.textIn_eq_iff`: two texts are the same where no node is written in two ways.
* `Diary.SkipsOnly`, `Diary.Empties`: what is written in two ways, by the edits in a scope.
* **`Diary.dialects_agree`**: where the texts are the same, and that no text depends on one written
  before.
-/

import SqlDraft.Proofs.Run.Commands
import SqlDraft.Proofs.Run.Rendering

namespace SqlDraft

/-! ### Texts in two dialects -/

namespace Payload

variable {payload : Payload}

/-- An offset without a limit is the one part that MySQL writes in its own way. -/
theorem text_mysql_eq_iff :
    payload.text .postgres = payload.text .mysql ↔ payload ≠ .keyword .noLimit := by
  cases payload with
  | literal sql => simp [text]
  | keyword word => cases word <;> decide

/-- SQLite has its own way for a table that is emptied as well. -/
theorem text_sqlite_eq_iff : payload.text .postgres = payload.text .sqlite ↔
    payload ≠ .keyword .noLimit ∧ payload ≠ .keyword .truncate ∧
      payload ≠ .keyword .emptiedTable := by
  cases payload with
  | literal sql => simp [text]
  | keyword word => cases word <;> decide

/-- No other part is written in two ways. -/
theorem varies_cases {other : Dialect} (varies : payload.text .postgres ≠ payload.text other) :
    payload = .keyword .noLimit ∨
      payload = .keyword .truncate ∨ payload = .keyword .emptiedTable := by
  cases other with
  | postgres => exact absurd rfl varies
  | mysql => exact .inl (not_not.mp (mt text_mysql_eq_iff.mpr varies))
  | sqlite =>
    by_contra none
    rw [not_or, not_or] at none
    exact varies (text_sqlite_eq_iff.mpr none)

end Payload

namespace Line

variable {dialect other : Dialect} {front back rest more : List Payload} {first second : Payload}

/-- Parts with the same texts are written as the same text. -/
theorem ofPayloads_congr {payloads : List Payload}
    (same : ∀ payload ∈ payloads, payload.text dialect = payload.text other) :
    ofPayloads dialect payloads = ofPayloads other payloads := by
  have step : ∀ (line : Line), ∀ payload ∈ payloads,
      write dialect line payload = write other line payload := by
    intro line payload member
    unfold write
    rw [same payload member]
  unfold ofPayloads
  rw [List.foldl_ext _ _ _ step]

/-- What is written before a token, and the token. -/
theorem joined_append_cons (dialect : Dialect) (plain : first.isKeyword .comma = false)
    (front rest : List Payload) :
    ∃ tail, joined dialect (front ++ first :: rest) =
      joined dialect front ++ ((if front = [] then "" else " ") ++ (first.text dialect ++ tail)) := by
  have blank : gap first = " " := if_neg (by simp [plain])
  refine ⟨String.join (rest.map fun payload => gap payload ++ payload.text dialect), ?_⟩
  cases front with
  | nil => simp [joined]
  | cons token front => simp [joined, blank, String.append_assoc]

/-- **Parts that go on with another letter are written as another text**, whatever stands behind. -/
theorem ofPayloads_ne (same : ∀ payload ∈ front, payload.text dialect = payload.text other)
    (here : tokens dialect back = first :: rest) (there : tokens other back = second :: more)
    (plain : first.isKeyword .comma = false) (plainToo : second.isKeyword .comma = false)
    (apart : (first.text dialect).toList.head? ≠ (second.text other).toList.head?) :
    ofPayloads dialect (front ++ back) ≠ ofPayloads other (front ++ back) := by
  intro equal
  have shared : tokens dialect front = tokens other front :=
    List.filter_congr fun payload member => by rw [same payload member]
  have before : joined dialect (tokens dialect front) = joined other (tokens other front) := by
    rw [← ofPayloads_eq_joined, ← ofPayloads_eq_joined, ofPayloads_congr same]
  have seen : (first.text dialect).toList ≠ [] :=
    mt String.toList_eq_nil_iff.mp (text_ne_of_mem_tokens (here ▸ List.mem_cons_self))
  have seenToo : (second.text other).toList ≠ [] :=
    mt String.toList_eq_nil_iff.mp (text_ne_of_mem_tokens (there ▸ List.mem_cons_self))
  obtain ⟨tail, text⟩ := joined_append_cons dialect plain (tokens dialect front) rest
  obtain ⟨end_, textToo⟩ := joined_append_cons other plainToo (tokens other front) more
  rw [ofPayloads_eq_joined, ofPayloads_eq_joined, tokens_append, tokens_append, here, there, text,
    textToo, before, shared] at equal
  have behind := congrArg String.toList equal
  simp only [String.toList_append, List.append_cancel_left_eq] at behind
  refine apart ?_
  rw [← List.head?_append_of_ne_nil _ seen, behind, List.head?_append_of_ne_nil _ seenToo]

/-- The first part that is written in two ways tells the texts apart. -/
theorem ofPayloads_ne_of_varies
    (same : ∀ payload ∈ front, payload.text .postgres = payload.text other)
    (varies : first.text .postgres ≠ first.text other)
    (paged : first = .keyword .noLimit → ∃ rest, back = .keyword .offset :: rest) :
    ofPayloads .postgres (front ++ first :: back) ≠ ofPayloads other (front ++ first :: back) := by
  rcases Payload.varies_cases varies with rfl | rfl | rfl
  · -- Postgres goes on with the offset, the others have an unbounded limit before it.
    obtain ⟨rest, rfl⟩ := paged rfl
    have visible : (Payload.keyword .offset).text .postgres ≠ "" := by decide
    have here : tokens .postgres (.keyword .noLimit :: .keyword .offset :: rest) =
        .keyword .offset :: tokens .postgres rest := tokens_cons visible rest
    refine ofPayloads_ne same here (tokens_cons (Ne.symm varies) _) rfl rfl ?_
    cases other <;> first | exact absurd rfl varies | decide
  · refine ofPayloads_ne same (tokens_cons (by decide) _) (tokens_cons ?_ _) rfl rfl ?_
    · cases other <;> decide
    · cases other <;> first | exact absurd rfl varies | decide
  · refine ofPayloads_ne same (tokens_cons (by decide) _) (tokens_cons ?_ _) rfl rfl ?_
    · cases other <;> decide
    · cases other <;> first | exact absurd rfl varies | decide

end Line

/-! ### Nodes that are written in two ways -/

namespace Store

variable {store : Store}

/-- A part of a walk is held by a node in it, and is followed by what stands below that node. -/
theorem Forest.exists_of_payloadsBelow (forest : store.Forest) {root : Slot} {first : Payload}
    {front back : List Payload} (split : store.payloadsBelow root = front ++ first :: back) :
    ∃ slot ∈ store.below root, store.payload slot = first ∧
      ∃ behind, back = store.payloadsBelow slot ++ behind := by
  obtain ⟨before, rest, walk, -, rest_eq⟩ := List.map_eq_append_iff.mp
    (show (store.below root).map store.payload = _ from split)
  obtain ⟨slot, behind, rfl, held, rfl⟩ := List.map_eq_cons_iff.mp rest_eq
  obtain ⟨more, rfl⟩ := forest.below_prefix (forest.visits_below root) walk
  refine ⟨slot, walk ▸ List.mem_append_right _ List.mem_cons_self, held, more.map store.payload, ?_⟩
  rw [List.map_append]
  rfl

end Store

namespace Drawing

variable (drawing : Drawing)

/-- What is implied in a statement is written in one way. -/
theorem implied_same (other : Dialect) : ∀ payload ∈ (if drawing.draft.base.lacksProjection then
    [.keyword .select, .keyword .star] else [] : List Payload),
      payload.text .postgres = payload.text other := by
  split
  · cases other <;> decide
  · exact nofun

/-- **Two texts are the same where no node is written in two ways**, if an offset stands below every
limit clause without a limit. -/
theorem textIn_eq_iff (other : Dialect)
    (paged : ∀ slot, drawing.draft.store.InUse slot →
      drawing.draft.store.payload slot = .keyword .noLimit →
        ∃ rest, drawing.draft.store.payloadsBelow slot = .keyword .offset :: rest) :
    drawing.draft.textIn .postgres = drawing.draft.textIn other ↔
      ∀ slot, drawing.draft.store.InUse slot →
        (drawing.draft.store.payload slot).text .postgres =
          (drawing.draft.store.payload slot).text other := by
  have walk := drawing.sketched.drawn.mem_walk
  have implied := drawing.implied_same other
  constructor
  · intro equal slot inUse
    by_contra varies
    have stands : drawing.draft.store.payload slot ∈ drawing.draft.payloads := by
      refine List.mem_append_right _ (List.mem_map_of_mem ?_)
      rcases List.mem_cons.mp ((walk slot).mpr inUse) with rfl | below
      · rw [drawing.sketched.drawn.blank _ drawing.sketched.root_mem] at varies
        exact absurd (by cases other <;> rfl) varies
      · exact below
    -- The first part that is written in two ways is held by a node of the tree.
    obtain ⟨first, found⟩ : ∃ first, drawing.draft.payloads.find?
        (fun payload => payload.text .postgres ≠ payload.text other) = some first :=
      Option.isSome_iff_exists.mp (List.find?_isSome.mpr ⟨_, stands, by simpa using varies⟩)
    obtain ⟨differs, front, back, split, earlier⟩ := List.find?_eq_some_iff_append.mp found
    have differs : first.text .postgres ≠ first.text other := by simpa using differs
    have same : ∀ payload ∈ front, payload.text .postgres = payload.text other :=
      fun payload member => by simpa using earlier payload member
    rw [Draft.textIn, Draft.textIn, split] at equal
    refine Line.ofPayloads_ne_of_varies same differs (fun unlimited => ?_) equal
    have inside : ∃ front, drawing.draft.store.payloadsBelow drawing.draft.root =
        front ++ first :: back := by
      rcases List.append_eq_append_iff.mp split with ⟨more, -, rest⟩ | ⟨more, whole, rest⟩
      · exact ⟨more, rest⟩
      · cases more with
        | nil => exact ⟨[], rest.symm⟩
        | cons next more =>
          obtain ⟨rfl, -⟩ := List.cons.inj rest
          exact absurd (implied first (whole ▸ List.mem_append_right _ List.mem_cons_self)) differs
    obtain ⟨front, whole⟩ := inside
    obtain ⟨slot, inWalk, rfl, behind, rfl⟩ :=
      drawing.sketched.drawn.forest.exists_of_payloadsBelow whole
    obtain ⟨rest, offset⟩ :=
      paged slot ((walk slot).mp (List.mem_cons_of_mem _ inWalk)) unlimited
    exact ⟨rest ++ behind, by rw [offset]; rfl⟩
  · intro same
    refine Line.ofPayloads_congr fun payload member => ?_
    rcases List.mem_append.mp member with hidden | below
    · exact implied payload hidden
    · obtain ⟨slot, inWalk, rfl⟩ := List.mem_map.mp below
      exact same slot ((walk slot).mp (List.mem_cons_of_mem _ inWalk))

end Drawing

namespace Diary

/-! ### What the edits say -/

/-- A scope has an offset and no limit. -/
def SkipsOnly (diary : Diary) (root : Slot) : Prop :=
  Edit.last? Edit.limit? (diary.editsIn root) = none ∧
    (Edit.last? Edit.offset? (diary.editsIn root)).isSome

/-- A scope empties its table. -/
def Empties (diary : Diary) (root : Slot) : Prop :=
  Command.ofEdits (diary.editsIn root) = .truncate

/-- Some scope that was opened and has clauses is of this sort. -/
def SomeScope (diary : Diary) (sort : Slot → Prop) : Prop :=
  ∃ root kind, (root, kind) ∈ Event.openings diary.story.events ∧ kind ≠ .group ∧ sort root

/-- A node that heads a clause is drawn in a scope that was opened. -/
theorem exists_told_clause {settings : Settings} {moves : List Move} {drawing : Drawing}
    (told : Told (after settings moves) drawing) {slot : Slot} {word : Keyword} {rank : Nat}
    (inUse : drawing.draft.store.InUse slot)
    (heads : drawing.draft.store.payload slot = .keyword word) (ranked : word.rank? = some rank) :
    ∃ root kind, (root, kind) ∈ Event.openings (after settings moves).story.events ∧
      kind ≠ .group ∧ (drawing.outlines root).Tells ((after settings moves).editsIn root) ∧
      ∃ mark below, .node mark (.keyword word) below ∈ (drawing.outlines root).row rank ∧
        drawing.draft.store.Shows drawing.scopes (drawing.draft.store.children slot) below := by
  have draft := told.draft
  have known := told.opened
  rw [story_after] at draft known
  obtain ⟨root, kind, opened, plain, drawn⟩ := Story.exists_clause draft known inUse heads ranked
  rw [← story_after] at opened
  exact ⟨root, kind, opened, plain, told.told root kind opened plain, drawn⟩

variable {settings : Settings} {moves : List Move} {drawing : Drawing}

/-- Below a limit clause without a limit there is an offset. -/
theorem offset_below (told : Told (after settings moves) drawing) {slot : Slot}
    (inUse : drawing.draft.store.InUse slot)
    (heads : drawing.draft.store.payload slot = .keyword .noLimit) :
    (∃ rest, drawing.draft.store.payloadsBelow slot = .keyword .offset :: rest) ∧
      (after settings moves).SomeScope (after settings moves).SkipsOnly := by
  obtain ⟨root, kind, opened, plain, tells, mark, below, inRow, shown⟩ :=
    exists_told_clause told inUse heads rfl
  obtain ⟨⟨found, page⟩, said, same⟩ := List.mem_map.mp inRow
  obtain ⟨-, word, rfl⟩ := Tree.node.inj same
  have unlimited : page.limit = none := by
    unfold Page.keyword at word
    split at word
    · exact nomatch word
    · next absent => exact Option.not_isSome_iff_eq_none.mp absent
  have sheet : ((drawing.outlines root).sheet fun _ => []).page = some page := by
    rw [Outline.sheet, Option.mem_toList.mp said]
    rfl
  have told := Sheet.Tells.toTellsLists tells
  have skips : page.offset.isSome :=
    (told.paged page sheet).resolve_left (by rw [unlimited]; exact Bool.false_ne_true)
  have limit := told.limit
  have offset := told.offset
  rw [sheet, Option.bind_some] at limit offset
  rw [unlimited] at limit
  refine ⟨?_, root, kind, opened, plain, limit.symm, ?_⟩
  · obtain ⟨count, skipped⟩ := Option.isSome_iff_exists.mp skips
    refine ⟨[Store.countPayload count], ?_⟩
    rw [drawing.sketched.drawn.payloadsBelow_eq shown, Page.payloads_trees, Page.payloads, unlimited,
      skipped]
    rfl
  · rw [← offset, Option.isSome_map]
    exact skips

/-- **An offset is written without a limit just where a scope has it.** -/
theorem exists_unlimited_iff (told : Told (after settings moves) drawing) :
    (∃ slot, drawing.draft.store.InUse slot ∧
      drawing.draft.store.payload slot = .keyword .noLimit) ↔
        (after settings moves).SomeScope (after settings moves).SkipsOnly := by
  constructor
  · rintro ⟨slot, inUse, heads⟩
    exact (offset_below told inUse heads).2
  · rintro ⟨root, kind, opened, plain, unlimited, skips⟩
    have tells := Sheet.Tells.toTellsLists (told.told root kind opened plain)
    obtain ⟨isScope, rfl⟩ := told.opened root kind opened
    rw [← tells.offset, Option.isSome_map] at skips
    rw [← tells.limit, Option.map_eq_none_iff] at unlimited
    cases said : (drawing.outlines root).page with
    | none =>
      rw [Outline.sheet, said] at skips
      exact absurd skips Bool.false_ne_true
    | some clause =>
      rw [Outline.sheet, said] at unlimited
      obtain ⟨-, inUse, payload, -⟩ := drawing.sketched.clause_shown isScope plain
        (show 8 < 9 by decide) (List.mem_map_of_mem (Option.mem_toList.mpr said))
      have word : clause.part.keyword = .noLimit := if_neg (by simpa using unlimited)
      exact ⟨clause.slot, inUse, payload.trans (congrArg Payload.keyword word)⟩

/-- **The words of a table that is emptied are written just where a scope empties one.** -/
theorem exists_emptied_iff (told : Told (after settings moves) drawing) :
    (∃ slot, drawing.draft.store.InUse slot ∧
      (drawing.draft.store.payload slot = .keyword .truncate ∨
        drawing.draft.store.payload slot = .keyword .emptiedTable)) ↔
          (after settings moves).SomeScope (after settings moves).Empties := by
  have acts (root : Slot) : ((drawing.outlines root).sheet fun _ => []).acts = .truncate ↔
      ∃ clause ∈ (drawing.outlines root).command, clause.part.keyword = .truncate := by
    rw [Sheet.acts, Outline.sheet, Option.map_map]
    cases (drawing.outlines root).command with
    | none => simp [Command.ofKeyword]
    | some clause =>
      obtain ⟨slot, action⟩ := clause
      cases action with
      | columns distinct _ | all distinct =>
        cases distinct <;> simp [Command.ofKeyword, Action.deed, Deed.keyword, Action.keyword]
      | removal which =>
        cases which <;>
          simp [Command.ofKeyword, Action.deed, Deed.keyword, Action.keyword, Removal.keyword]
  constructor
  · rintro ⟨slot, inUse, heads⟩
    have command : ∃ root kind, (root, kind) ∈ Event.openings (after settings moves).story.events ∧
        kind ≠ .group ∧ (drawing.outlines root).Tells ((after settings moves).editsIn root) ∧
        ∃ clause ∈ (drawing.outlines root).command, clause.part.keyword = .truncate := by
      rcases heads with heads | heads
      · obtain ⟨root, kind, opened, plain, tells, mark, below, inRow, -⟩ :=
          exists_told_clause told inUse heads rfl
        obtain ⟨clause, said, same⟩ := List.mem_map.mp inRow
        obtain ⟨-, word, -⟩ := Tree.node.inj same
        exact ⟨root, kind, opened, plain, tells, clause, Option.mem_toList.mp said,
          Payload.keyword.inj word⟩
      · obtain ⟨root, kind, opened, plain, tells, mark, below, inRow, -⟩ :=
          exists_told_clause told inUse heads rfl
        obtain ⟨clause, said, same⟩ := List.mem_map.mp inRow
        obtain ⟨-, word, -⟩ := Tree.node.inj same
        exact ⟨root, kind, opened, plain, tells,
          (Outline.tableKeyword_eq_iff _).mp (Payload.keyword.inj word)⟩
    obtain ⟨root, kind, opened, plain, tells, acting⟩ := command
    exact ⟨root, kind, opened, plain, (Sheet.Tells.truncates tells).mp ((acts root).mpr acting)⟩
  · rintro ⟨root, kind, opened, plain, empties⟩
    have tells := told.told root kind opened plain
    obtain ⟨isScope, rfl⟩ := told.opened root kind opened
    obtain ⟨clause, said, word⟩ := (acts root).mp ((Sheet.Tells.truncates tells).mpr empties)
    obtain ⟨-, inUse, payload, -⟩ := drawing.sketched.clause_shown isScope plain
      (show 0 < 9 by decide) (List.mem_map_of_mem (Option.mem_toList.mpr said))
    exact ⟨clause.slot, inUse, .inl (payload.trans (congrArg Payload.keyword word))⟩

/-- **Where the dialects agree.** After any moves the texts for Postgres and for MySQL are the same just
where no scope has an offset and no limit. The text for SQLite is the one for Postgres just where in
addition no scope empties a table. Whatever the draft was written as before, at any time, its text in
a dialect is the same. -/
theorem dialects_agree (settings : Settings) (moves : List Move) :
    ((after settings moves).story.draft.textIn .postgres =
        (after settings moves).story.draft.textIn .mysql ↔
      ¬ (after settings moves).SomeScope (after settings moves).SkipsOnly) ∧
    ((after settings moves).story.draft.textIn .sqlite =
        (after settings moves).story.draft.textIn .postgres ↔
      ¬ (after settings moves).SomeScope (after settings moves).SkipsOnly ∧
        ¬ (after settings moves).SomeScope (after settings moves).Empties) ∧
    ∀ (question : Question) (more : List Move) (dialect : Dialect),
      (after settings (moves ++ .ask question :: more)).story.draft.textIn dialect =
        (after settings (moves ++ more)).story.draft.textIn dialect := by
  obtain ⟨drawing, told⟩ := told_after settings moves
  have paged : ∀ slot, drawing.draft.store.InUse slot →
      drawing.draft.store.payload slot = .keyword .noLimit →
        ∃ rest, drawing.draft.store.payloadsBelow slot = .keyword .offset :: rest :=
    fun slot inUse heads => (offset_below told inUse heads).1
  refine ⟨?_, ?_, fun question more dialect => ?_⟩
  · rw [← exists_unlimited_iff told, ← told.draft, drawing.textIn_eq_iff .mysql paged]
    simp only [Payload.text_mysql_eq_iff, not_exists, not_and]
  · rw [← exists_unlimited_iff told, ← exists_emptied_iff told, ← told.draft, eq_comm,
      drawing.textIn_eq_iff .sqlite paged]
    simp only [Payload.text_sqlite_eq_iff]
    constructor
    · intro same
      exact ⟨fun ⟨slot, inUse, heads⟩ => (same slot inUse).1 heads,
        fun ⟨slot, inUse, heads⟩ => heads.elim (same slot inUse).2.1 (same slot inUse).2.2⟩
    · rintro ⟨limited, kept⟩ slot inUse
      exact ⟨fun heads => limited ⟨slot, inUse, heads⟩,
        fun heads => kept ⟨slot, inUse, .inl heads⟩, fun heads => kept ⟨slot, inUse, .inr heads⟩⟩
  · have draft (moves : List Move) : (after settings moves).story.draft =
        moves.foldl Draft.move (Draft.start settings) := by
      rw [story_after]
      exact Story.draft_foldl _ _
    rw [draft, draft, List.foldl_append, List.foldl_append, List.foldl_cons]
    show Draft.textIn (more.foldl Draft.move (Draft.asked _ question)) dialect = _
    rw [Draft.asked_eq_writtenAs]
    obtain ⟨later, same⟩ := Draft.exists_moves_writtenAs _ _ more
    rw [same]
    rfl

/-- A branch of a union that skips rows and empties nothing. -/
example : ((after .standard [.edit (.table "t"), .enter (.union true), .edit (.table "u"),
    .edit (.offset 2), .close]).story.draft.textIn .sqlite) =
      "SELECT * FROM t UNION ALL SELECT * FROM u LIMIT -1 OFFSET 2" := by decide +kernel

end Diary

end SqlDraft
