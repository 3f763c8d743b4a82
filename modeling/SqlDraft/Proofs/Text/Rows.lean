/-
**Texts of conditions in a row.**

Conditions in a row are drawn with marks, and a negation stands in the mark of the first condition
and below the mark of every other one. Their text is the same as if every condition had its own word
`AND` or `OR`, but the first, and its own `NOT`:

* `Landing.row`: the words of conditions in the order they landed.
* `Item.rowPieces`: the payloads of the trees that show them, in pieces.
* `Item.wordsOf_rowPieces`: the pieces are written as the words.
* `Item.text_piecesAround`: so are the pieces between some tags.
-/

import SqlDraft.Proofs.Run.Reports
import SqlDraft.Proofs.Text.Words

namespace SqlDraft

/-! ### Words -/

/-- The word between a condition and those before it. -/
def Connective.word : Connective → String
  | and | andNot => "AND"
  | or | orNot => "OR"

/-- The words of what a condition says: its text as it stands, or what stands before a scope and
the text of the scope. -/
def Content.words (dialect : Dialect) (inside : Slot → String) : Content → List String
  | leaf sql => [sql]
  | scope nested root => nested.lead?.toList.map (Payload.text dialect) ++ [inside root]

namespace Landing

variable (dialect : Dialect) (inside : Slot → String)

/-- The words of a condition. Only a condition behind others has a word before it, and only a
negated one has a `NOT`. -/
def words (first : Bool) (landing : Landing) : List String :=
  (if first then [] else [landing.logic.word]) ++
    ((if landing.logic.negates then ["NOT"] else []) ++ landing.content.words dialect inside)

/-- The words of conditions in a row. -/
def row : List Landing → List String
  | [] => []
  | first :: rest => first.words dialect inside true ++ rest.flatMap (words dialect inside false)

end Landing

/-! ### Pieces -/

/-- The tags before a condition, which have a blank one where the first condition is not negated. -/
def Connective.marks (logic : Connective) : (first : Bool) → List Keyword
  | true => [if logic.negates then .not else .blank]
  | false => logic.keyword :: if logic.negates then [.not] else []

/-- The payloads of what a condition says. -/
def Content.pieces (inside : Slot → List Payload) : Content → List (List Payload)
  | leaf sql => [[.literal sql]]
  | scope nested root => nested.lead?.toList.map (fun lead => [lead]) ++ [.blank :: inside root]

namespace Item

variable (inside : Slot → List Payload)

/-- The payloads of a condition. -/
def pieces (first : Bool) (item : Item) : List (List Payload) :=
  (item.logic.marks first).map (fun word => [.keyword word]) ++ item.content.pieces inside

/-- The payloads of conditions in a row. -/
def rowPieces : List Item → List (List Payload)
  | [] => []
  | first :: rest => first.pieces inside true ++ rest.flatMap (pieces inside false)

variable {inside}

theorem flatten_contentPieces (content : Content) :
    (content.pieces inside).flatten = Tree.payloads inside content.trees := by
  cases content with
  | leaf sql => simp [Content.pieces, Content.trees, Tree.payloads, Tree.leaf]
  | scope nested root =>
    cases lead : nested.lead? with
    | none => simp [Content.pieces, Content.trees, lead, Tree.payloads]
    | some payload => simp [Content.pieces, Content.trees, lead, Tree.payloads, Tree.leaf]

theorem flatten_pieces (first : Bool) (item : Item) :
    (item.pieces inside first).flatten = Tree.payloads inside [item.tree first] := by
  unfold pieces tree shell
  rw [List.flatten_append, flatten_contentPieces]
  cases first <;> cases negates : item.logic.negates <;>
    simp [Connective.marks, negates, Tree.payloads]

/-- **The pieces of conditions are the payloads of their trees.** -/
theorem flatten_rowPieces (items : List Item) :
    (rowPieces inside items).flatten = Tree.payloads inside (trees items) := by
  have others : ∀ items : List Item, (items.flatMap (pieces inside false)).flatten =
      Tree.payloads inside (items.map (tree false)) := by
    intro items
    induction items with
    | nil =>
      rw [List.map_nil, Tree.payloads]
      rfl
    | cons item rest step =>
      rw [List.flatMap_cons, List.flatten_append, flatten_pieces, step, List.map_cons,
        ← Tree.payloads_append]
      rfl
  cases items with
  | nil =>
    rw [trees, Tree.payloads]
    rfl
  | cons first rest =>
    rw [rowPieces, trees, List.flatten_append, flatten_pieces, others, ← Tree.payloads_append]
    rfl

/-! ### Pieces and words -/

variable {dialect : Dialect}

/-- Every scope in a row of conditions is in parentheses. -/
def Enclosed (inside : Slot → List Payload) (items : List Item) : Prop :=
  ∀ item ∈ items, ∀ nested root, item.content = .scope nested root →
    ∃ more, inside root = .keyword .leftParen :: more

theorem alone_leftParen (dialect : Dialect) (more : List Payload) :
    Line.Alone dialect (.keyword .leftParen :: more) :=
  Line.alone_cons (by cases dialect <;> decide) rfl more

theorem alone_lead {nested : NestedCondition} {lead : Payload} (leads : lead ∈ nested.lead?) :
    Line.Alone dialect [lead] := by
  refine Line.alone_singleton ?_
  cases nested with
  | operand column operator => exact Option.some.inj leads ▸ rfl
  | existence => exact Option.some.inj leads ▸ rfl
  | group => exact nomatch leads

theorem alone_rowPieces {items : List Item} (enclosed : Enclosed inside items) :
    ∀ piece ∈ rowPieces inside items, Line.Alone dialect piece := by
  have content : ∀ item ∈ items, ∀ piece ∈ item.content.pieces inside,
      Line.Alone dialect piece := by
    intro item member piece inPieces
    cases said : item.content with
    | leaf sql =>
      rw [said, Content.pieces, List.mem_singleton] at inPieces
      rw [inPieces]
      exact Line.alone_singleton rfl
    | scope nested root =>
      rw [said, Content.pieces] at inPieces
      rcases List.mem_append.mp inPieces with leads | last
      · obtain ⟨lead, isLead, rfl⟩ := List.mem_map.mp leads
        exact alone_lead (Option.mem_toList.mp isLead)
      · obtain ⟨more, opens⟩ := enclosed item member nested root said
        rw [List.mem_singleton.mp last, opens]
        exact (Line.alone_singleton rfl).append (alone_leftParen dialect more)
  have each : ∀ first, ∀ item ∈ items, ∀ piece ∈ item.pieces inside first,
      Line.Alone dialect piece := by
    intro first item member piece inPieces
    rcases List.mem_append.mp inPieces with mark | further
    · obtain ⟨word, isMark, rfl⟩ := List.mem_map.mp mark
      refine Line.alone_singleton (decide_eq_false fun comma => ?_)
      rw [Payload.keyword.inj comma] at isMark
      revert isMark
      cases first <;> cases item.logic <;> decide
    · exact content item member piece further
  cases items with
  | nil => exact fun piece member => absurd member List.not_mem_nil
  | cons first rest =>
    intro piece member
    rcases List.mem_append.mp member with here | behind
    · exact each true first List.mem_cons_self piece here
    · obtain ⟨item, inRest, inPieces⟩ := List.mem_flatMap.mp behind
      exact each false item (List.mem_cons_of_mem first inRest) piece inPieces

/-- The words that some pieces are written as. -/
def wordsOf (dialect : Dialect) (pieces : List (List Payload)) : List String :=
  (pieces.map (Line.ofPayloads dialect)).filter (· ≠ "")

theorem wordsOf_append (front back : List (List Payload)) :
    wordsOf dialect (front ++ back) = wordsOf dialect front ++ wordsOf dialect back := by
  unfold wordsOf
  rw [List.map_append, List.filter_append]

theorem wordsOf_singles (payloads : List Payload) :
    wordsOf dialect (payloads.map fun payload => [payload]) =
      (payloads.map (Payload.text dialect)).filter (· ≠ "") := by
  unfold wordsOf
  rw [List.map_map]
  refine congrArg _ (List.map_congr_left fun payload _ => ?_)
  exact Line.ofPayloads_singleton dialect payload

theorem wordsOf_content (content : Content) :
    wordsOf dialect (content.pieces inside) = (content.words dialect fun root =>
      Line.ofPayloads dialect (inside root)).filter (· ≠ "") := by
  cases content with
  | leaf sql => exact wordsOf_singles [.literal sql]
  | scope nested root =>
    have last : wordsOf dialect [.blank :: inside root] =
        [Line.ofPayloads dialect (inside root)].filter (· ≠ "") := by
      unfold wordsOf
      rw [List.map_singleton, Line.ofPayloads_blank_cons]
    unfold Content.pieces Content.words
    rw [wordsOf_append, wordsOf_singles, last, List.filter_append]

/-- The tags before a condition are its `AND` or `OR`, unless it comes first, and its `NOT`. -/
theorem wordsOf_marks (logic : Connective) (first : Bool) :
    wordsOf dialect ((logic.marks first).map fun word => [.keyword word]) =
      (if first then [] else [logic.word]) ++ if logic.negates then ["NOT"] else [] := by
  have texts := @wordsOf_singles dialect ((logic.marks first).map Payload.keyword)
  rw [List.map_map, List.map_map] at texts
  refine texts.trans ?_
  cases first <;> cases logic <;> rfl

theorem wordsOf_pieces (first : Bool) (item : Item) :
    wordsOf dialect (item.pieces inside first) = (item.landing.words dialect
      (fun root => Line.ofPayloads dialect (inside root)) first).filter (· ≠ "") := by
  have marks : ((if first then [] else [item.logic.word]) ++
      if item.logic.negates then ["NOT"] else []).filter (· ≠ "") =
        (if first then [] else [item.logic.word]) ++ if item.logic.negates then ["NOT"] else [] := by
    cases first <;> cases item.logic <;> rfl
  unfold pieces Landing.words
  rw [wordsOf_append, wordsOf_marks, wordsOf_content, ← List.append_assoc, List.filter_append]
  exact congrArg (· ++ _) marks.symm

/-- **The pieces of conditions are written as their words.** -/
theorem wordsOf_rowPieces (items : List Item) :
    wordsOf dialect (rowPieces inside items) = (Landing.row dialect (fun root =>
      Line.ofPayloads dialect (inside root)) (items.map landing)).filter (· ≠ "") := by
  have others : ∀ items : List Item, wordsOf dialect (items.flatMap (pieces inside false)) =
      ((items.map landing).flatMap (Landing.words dialect (fun root =>
        Line.ofPayloads dialect (inside root)) false)).filter (· ≠ "") := by
    intro items
    induction items with
    | nil => rfl
    | cons item rest step =>
      rw [List.flatMap_cons, wordsOf_append, wordsOf_pieces, step, List.map_cons, List.flatMap_cons,
        List.filter_append]
  cases items with
  | nil => rfl
  | cons first rest =>
    rw [rowPieces, wordsOf_append, wordsOf_pieces, others, List.map_cons, Landing.row,
      List.filter_append]

/-- The pieces of conditions in a row between some tags. -/
def piecesAround (inside : Slot → List Payload) (before behind : List Keyword) (items : List Item) :
    List (List Payload) :=
  before.map (fun word => [.keyword word]) ++
    (rowPieces inside items ++ behind.map fun word => [.keyword word])

theorem flatten_piecesAround (before behind : List Keyword) (items : List Item) :
    (piecesAround inside before behind items).flatten = before.map .keyword ++
      (Tree.payloads inside (trees items) ++ behind.map .keyword) := by
  have flat : ∀ words : List Keyword,
      (words.map fun word => [Payload.keyword word]).flatten = words.map .keyword := by
    intro words
    induction words with
    | nil => rfl
    | cons word rest step =>
      rw [List.map_cons, List.flatten_cons, step]
      rfl
  unfold piecesAround
  rw [List.flatten_append, List.flatten_append, flat, flat, flatten_rowPieces]

theorem alone_piecesAround {items : List Item} (enclosed : Enclosed inside items)
    {before behind : List Keyword} (plain : .comma ∉ before ++ behind) :
    ∀ piece ∈ piecesAround inside before behind items, Line.Alone dialect piece := by
  have alone : ∀ words : List Keyword, .comma ∉ words →
      ∀ piece ∈ words.map fun word => [Payload.keyword word], Line.Alone dialect piece := by
    intro words plain piece member
    obtain ⟨word, isWord, rfl⟩ := List.mem_map.mp member
    exact Line.alone_singleton (decide_eq_false fun comma =>
      plain (Payload.keyword.inj comma ▸ isWord))
  rw [List.mem_append, not_or] at plain
  intro piece member
  rcases List.mem_append.mp member with first | further
  · exact alone before plain.1 piece first
  · rcases List.mem_append.mp further with inRow | last
    · exact alone_rowPieces enclosed piece inRow
    · exact alone behind plain.2 piece last

/-- **The text of conditions in a row is their words, with those before and behind them.** -/
theorem text_piecesAround {items : List Item} (enclosed : Enclosed inside items)
    {before behind : List Keyword} (plain : .comma ∉ before ++ behind) :
    Line.ofPayloads dialect (piecesAround inside before behind items).flatten =
      Condition.spaced ((before.map (Keyword.text dialect) ++ (Landing.row dialect
        (fun root => Line.ofPayloads dialect (inside root)) (items.map landing) ++
          behind.map (Keyword.text dialect))).filter (· ≠ "")) := by
  have texts : ∀ words : List Keyword,
      wordsOf dialect (words.map fun word => [.keyword word]) =
        (words.map (Keyword.text dialect)).filter (· ≠ "") := by
    intro words
    have singles := @wordsOf_singles dialect (words.map Payload.keyword)
    rw [List.map_map, List.map_map] at singles
    exact singles
  rw [Line.ofPayloads_flatten (alone_piecesAround enclosed plain), List.filter_append,
    List.filter_append, ← texts, ← texts, ← wordsOf_rowPieces, ← wordsOf_append, ← wordsOf_append]
  rfl

end Item

end SqlDraft
