/-
**The limit clause of a scope.**

Limit and offset share one clause, and its tag, its first child and its second child change with the
calls. Whatever else was called, it holds the numbers that were set last:

* `Page.textOf`: the text of a limit clause with these numbers.
* `Page.text_payloads`: a limit clause is written as that text.
* **`Diary.limit_clause_written`**: so it is in every scope, after any moves.
-/

import SqlDraft.Proofs.Run.Diary
import SqlDraft.Proofs.Run.Tokens
import SqlDraft.Proofs.Sheet.Text

namespace SqlDraft

/-! ### The text of a limit clause -/

namespace Page

/-- The text of a limit clause with these numbers. An offset without a limit is behind an unbounded
limit where the dialect asks for one. -/
def textOf (dialect : Dialect) : (limit offset : Option Nat) → Option String
  | none, none => none
  | some limit, none => some ("LIMIT " ++ toString limit)
  | some limit, some offset => some ("LIMIT " ++ toString limit ++ " OFFSET " ++ toString offset)
  | none, some offset =>
    match dialect with
    | .postgres => some ("OFFSET " ++ toString offset)
    | .mysql => some ("LIMIT 18446744073709551615 OFFSET " ++ toString offset)
    | .sqlite => some ("LIMIT -1 OFFSET " ++ toString offset)

/-- The texts of the parts of a limit clause. -/
theorem texts_payloads (dialect : Dialect) (page : Page) :
    (Payload.keyword page.keyword :: page.payloads).map (Payload.text dialect) =
      page.keyword.text dialect :: (page.limit.toList.map (toString ∘ UInt64.toNat) ++
        page.offset.toList.flatMap fun count => ["OFFSET", toString count.toNat]) := by
  obtain ⟨limit, offset⟩ := page
  cases limit <;> cases offset <;> cases dialect <;> rfl

theorem plain_payloads (page : Page) :
    ∀ payload ∈ Payload.keyword page.keyword :: page.payloads,
      payload.isKeyword .comma = false := by
  obtain ⟨limit, offset⟩ := page
  cases limit <;> cases offset <;> simp [payloads, keyword, Payload.isKeyword, Store.countPayload]

/-- **A limit clause is written as its numbers say.** -/
theorem text_payloads (dialect : Dialect) (page : Page)
    (said : page.limit.isSome ∨ page.offset.isSome) :
    textOf dialect (page.limit.map UInt64.toNat) (page.offset.map UInt64.toNat) =
      some (Line.ofPayloads dialect (.keyword page.keyword :: page.payloads)) := by
  rw [Line.ofPayloads_of_plain page.plain_payloads, texts_payloads]
  have seen (count : Nat) : count.repr ≠ "" := Nat.repr_ne_empty
  have joined (first second text : String) : first ++ (second ++ text) = first ++ second ++ text :=
    String.append_assoc.symm
  have behind (text : String) : " " ++ ("OFFSET " ++ text) = " OFFSET " ++ text :=
    joined " " "OFFSET " text
  obtain ⟨limit, offset⟩ := page
  cases limit with
  | none =>
    cases offset with
    | none => simp at said
    | some skip =>
      cases dialect <;> simp [textOf, keyword, Keyword.text, Condition.spaced, seen, joined]
  | some count =>
    cases offset with
    | none =>
      simp [textOf, keyword, Keyword.text, Keyword.commonText, Condition.spaced, seen]
    | some skip =>
      simp [textOf, keyword, Keyword.text, Keyword.commonText, Condition.spaced, seen, behind,
        String.append_assoc]

end Page

/-! ### The limit clause of a scope -/

namespace Draft.Sketched

variable {draft : Draft} {scopes : List Slot} {outlines : Slot → Outline}

/-- What a limit clause of a scope is written as. -/
theorem payloads_page (sketched : draft.Sketched scopes outlines) {root : Slot}
    (isScope : root ∈ scopes) (plain : (outlines root).kind ≠ .group) {clause : Clause Page}
    (said : (outlines root).page = some clause) :
    clause.slot ∉ scopes ∧ draft.store.InUse clause.slot ∧
      draft.store.payload clause.slot :: draft.store.payloadsBelow clause.slot =
        .keyword clause.part.keyword :: clause.part.payloads := by
  have member : clause.tree clause.part.keyword clause.part.trees ∈ (outlines root).row 8 := by
    rw [Outline.row, said]
    exact List.mem_singleton_self _
  obtain ⟨away, inUse, payload, shows⟩ :=
    sketched.clause_shown isScope plain (show 8 < 9 by decide) member
  refine ⟨away, inUse, ?_⟩
  rw [payload, sketched.drawn.payloadsBelow_eq shows, Page.payloads_trees]

end Draft.Sketched

namespace Diary

/-- **A limit clause is written as the last numbers say.** After any moves, in every scope that was
opened since the draft was last started over and that has clauses, there is one limit clause at most.
It is written as the limit and the offset that were set last in the scope, and its text stands in that
of the draft; without any there is no such clause. -/
theorem limit_clause_written (settings : Settings) (moves : List Move) {root : Slot}
    {kind : ScopeKind}
    (opened : (root, kind) ∈ Event.openings (after settings moves).story.events)
    (plain : kind ≠ .group) (dialect : Dialect) :
    ∃ row, (after settings moves).story.draft.Encloses root kind row ∧
      ((after settings moves).story.draft.store.ofRank row 8).length ≤ 1 ∧
      ((after settings moves).story.draft.store.ofRank row 8).map
          (fun clause => (after settings moves).story.draft.textAt dialect clause.1) =
        (Page.textOf dialect
          (Edit.last? Edit.limit? ((after settings moves).editsIn root))
          (Edit.last? Edit.offset? ((after settings moves).editsIn root))).toList ∧
      ∀ clause ∈ (after settings moves).story.draft.store.ofRank row 8,
        ((after settings moves).story.draft.textAt dialect clause.1).toList <:+:
          ((after settings moves).story.draft.textIn dialect).toList := by
  obtain ⟨drawing, told⟩ := told_after settings moves
  have tells := told.told root kind opened plain
  obtain ⟨isScope, rfl⟩ := told.opened root kind opened
  rw [← told.draft]
  obtain ⟨row, encloses, shows⟩ := drawing.sketched.exists_row isScope plain
  have clauses : drawing.draft.store.ofRank row 8 =
      (drawing.outlines root).page.toList.map fun clause =>
        (clause.slot, .keyword clause.part.keyword) := by
    rw [shows.ofRank_eq (by decide)]
    exact Outline.stamps_map _ _ _
  refine ⟨row, encloses, ?_, ?_⟩
  · rw [clauses, List.length_map]
    exact Option.length_toList_le
  rw [clauses, ← tells.limit, ← tells.offset]
  cases said : (drawing.outlines root).page with
  | none =>
    have sheet : (Outline.sheet (fun _ => []) (drawing.outlines root)).page = none := by
      rw [Outline.sheet, said]
      rfl
    rw [sheet]
    exact ⟨rfl, fun _ member => absurd member List.not_mem_nil⟩
  | some clause =>
    have sheet : (Outline.sheet (fun _ => []) (drawing.outlines root)).page = some clause.part := by
      rw [Outline.sheet, said]
      rfl
    obtain ⟨away, inUse, payloads⟩ := drawing.sketched.payloads_page isScope plain said
    have text : drawing.draft.textAt dialect clause.slot =
        Line.ofPayloads dialect (.keyword clause.part.keyword :: clause.part.payloads) :=
      congrArg (Line.ofPayloads dialect) payloads
    rw [sheet, Option.bind_some, Option.bind_some,
      clause.part.text_payloads dialect (tells.paged _ sheet)]
    refine ⟨congrArg (fun text => [text]) text, fun stamp member => ?_⟩
    rw [List.mem_singleton.mp member]
    have different : clause.slot ≠ drawing.draft.root := fun same =>
      away (same ▸ drawing.sketched.root_mem)
    refine drawing.sketched.text_infix inUse different ?_
    rw [payloads]
    exact Sheet.alone_page clause.part

/-- A page of a statement that is a table. Its offset is too great to be written, and its limit is set
once more. -/
def pagedTable : List Move :=
  [.enter .table, .edit (.offset 5), .edit (.table "rows"),
    .edit (.showPage 9223372036854775808 3), .edit (.limit 7), .close]

theorem limit_clause_written_table :
    (2, .subquery) ∈ Event.openings (after .standard pagedTable).story.events ∧
    ScopeKind.subquery ≠ .group ∧
    ∃ row, (after .standard pagedTable).story.draft.Encloses 2 .subquery row ∧
      ((after .standard pagedTable).story.draft.store.ofRank row 8).map
          (fun clause => (after .standard pagedTable).story.draft.textAt .mysql clause.1) =
        ["LIMIT 7 OFFSET 18446744073709551615"] := by
  have opened : (2, .subquery) ∈ Event.openings (after .standard pagedTable).story.events := by
    decide
  obtain ⟨row, encloses, -, texts, -⟩ := limit_clause_written _ _ opened (by decide) .mysql
  refine ⟨opened, by decide, row, encloses, texts.trans ?_⟩
  decide +kernel

end Diary

end SqlDraft
