/-
**Clauses in a drawing.**

The root of a scope shows its clauses rank by rank, so the search for a clause finds the one of its
rank, and a new clause is put behind those of its rank:

* `Outline.ranked_of_shows`: the ranks in the row of a scope never fall.
* `Outline.clause?_of_row`: the search for a clause looks at one rank only.
* `Store.Drawn.addClause`: a new clause in a drawing.
-/

import SqlDraft.Proofs.Sketch.Outline
import SqlDraft.Proofs.Store.Ranks

namespace SqlDraft

variable {store other : Store} {scopes : List Slot} {rows : Slot → List Tree} {base root : Slot}

/-! ### Ranks of the rows -/

/-- What holds of the payloads of some trees holds of the nodes that show them. -/
theorem Store.Shows.forall_payload {row : List Slot} {trees : List Tree}
    (shows : store.Shows scopes row trees) (holds : Payload → Prop)
    (each : ∀ tree ∈ trees, ∃ mark payload below, tree = .node mark payload below ∧ holds payload) :
    ∀ slot ∈ row, holds (store.payload slot) := by
  induction shows with
  | nil => exact fun slot member => absurd member List.not_mem_nil
  | scope _ _ _ =>
    obtain ⟨_, _, _, same, _⟩ := each _ List.mem_cons_self
    exact absurd same (by simp)
  | node _ _ _ _ _ step =>
    intro slot member
    rcases List.mem_cons.mp member with rfl | behind
    · obtain ⟨_, _, _, same, holdsHere⟩ := each _ List.mem_cons_self
      obtain ⟨-, rfl, -⟩ := Tree.node.inj same
      exact holdsHere
    · exact step (fun tree inRest => each tree (List.mem_cons_of_mem _ inRest)) slot behind

namespace Outline

variable {outline : Outline}

theorem rank?_of_shows_row {row : List Slot} {rank : Nat}
    (shows : store.Shows scopes row (outline.row rank)) :
    ∀ slot ∈ row, (store.payload slot).rank? = some rank := by
  refine shows.forall_payload (·.rank? = some rank) fun tree member => ?_
  obtain ⟨slot, word, below, same, ranked⟩ := rank?_of_mem_row member
  exact ⟨some slot, .keyword word, below, same, ranked⟩

theorem rank?_of_shows_rows {row : List Slot} {ranks : List Nat}
    (shows : store.Shows scopes row (ranks.flatMap outline.row)) :
    ∀ slot ∈ row, ∃ rank ∈ ranks, (store.payload slot).rank? = some rank := by
  refine shows.forall_payload (fun payload => ∃ rank ∈ ranks, payload.rank? = some rank)
    fun tree member => ?_
  obtain ⟨rank, inRanks, inRow⟩ := List.mem_flatMap.mp member
  obtain ⟨slot, word, below, same, ranked⟩ := rank?_of_mem_row inRow
  exact ⟨some slot, .keyword word, below, same, rank, inRanks, ranked⟩

theorem ranked_of_shows_rows {row : List Slot} {ranks : List Nat} (rising : ranks.Pairwise (· < ·))
    (shows : store.Shows scopes row (ranks.flatMap outline.row)) : store.Ranked row := by
  induction ranks generalizing row with
  | nil =>
    cases shows
    exact List.Pairwise.nil
  | cons rank rest step =>
    obtain ⟨less, risingRest⟩ := List.pairwise_cons.mp rising
    rw [List.flatMap_cons] at shows
    obtain ⟨front, back, rfl, showsFront, showsBack⟩ := shows.split
    have here := rank?_of_shows_row showsFront
    refine List.pairwise_append.mpr ⟨?_, step risingRest showsBack, ?_⟩
    · refine List.Pairwise.imp_of_mem (R := fun _ _ => True) ?_ (List.pairwise_of_forall fun _ _ =>
        trivial)
      intro first second inFront inFrontToo _ low isLow high isHigh
      rw [here first inFront] at isLow
      rw [here second inFrontToo] at isHigh
      cases isLow
      cases isHigh
      exact Nat.le_refl rank
    · intro first inFront second inBack low isLow high isHigh
      obtain ⟨later, inRest, ranked⟩ := rank?_of_shows_rows showsBack second inBack
      rw [here first inFront] at isLow
      rw [ranked] at isHigh
      cases isLow
      cases isHigh
      exact Nat.le_of_lt (less _ inRest)

/-- **The ranks in the row of a scope never fall.** -/
theorem ranked_of_shows {row : List Slot} (shows : store.Shows scopes row outline.clauses) :
    store.Ranked row :=
  ranked_of_shows_rows (by decide) shows

/-- The row of a scope has one part for the clauses before a rank, of this rank and behind it. -/
theorem split_at_rank {row : List Slot} {rank : Nat} (inside : rank < 9)
    (shows : store.Shows scopes row outline.clauses) :
    ∃ front middle back, row = front ++ (middle ++ back) ∧
      store.Shows scopes front (outline.before rank) ∧
      store.Shows scopes middle (outline.row rank) ∧
      store.Shows scopes back (outline.behind rank) ∧
      (∀ slot ∈ front, ∃ low < rank, (store.payload slot).rank? = some low) ∧
      (∀ slot ∈ middle, (store.payload slot).rank? = some rank) ∧
      ∀ slot ∈ back, ∃ high, rank < high ∧ (store.payload slot).rank? = some high := by
  rw [outline.clauses_eq_append inside] at shows
  obtain ⟨front, rest, rfl, showsFront, showsRest⟩ := shows.split
  obtain ⟨middle, back, rfl, showsMiddle, showsBack⟩ := showsRest.split
  refine ⟨front, middle, back, rfl, showsFront, showsMiddle, showsBack, ?_,
    rank?_of_shows_row showsMiddle, ?_⟩
  · intro slot inFront
    obtain ⟨low, inRanks, ranked⟩ := rank?_of_shows_rows showsFront slot inFront
    exact ⟨low, List.mem_range.mp inRanks, ranked⟩
  · intro slot inBack
    obtain ⟨high, inRanks, ranked⟩ := rank?_of_shows_rows showsBack slot inBack
    have bounds := List.mem_range'_1.mp inRanks
    exact ⟨high, by omega, ranked⟩

theorem isKeyword_of_rank {slot : Slot} {word : Keyword} {rank found : Nat}
    (known : word.rank? = some rank) (ranked : (store.payload slot).rank? = some found)
    (different : found ≠ rank) : (store.payload slot).isKeyword word = false := by
  by_contra isWord
  rw [Bool.not_eq_false] at isWord
  rw [Payload.rank?_of_isKeyword isWord, known] at ranked
  exact different (Option.some.inj ranked).symm

/-- **The search for a clause looks at one rank only.** -/
theorem clause?_eq_find? {row : List Slot} {word : Keyword} {rank : Nat}
    (known : word.rank? = some rank) (inside : rank < 9) (children : store.children root = row)
    (shows : store.Shows scopes row outline.clauses) :
    ∃ middle, store.Shows scopes middle (outline.row rank) ∧
      store.clause? root word = middle.find? fun slot => (store.payload slot).isKeyword word := by
  obtain ⟨front, middle, back, split, _, showsMiddle, _, low, here, high⟩ :=
    split_at_rank inside shows
  refine ⟨middle, showsMiddle, ?_⟩
  have frontNone : front.find? (fun slot => (store.payload slot).isKeyword word) = none := by
    refine List.find?_eq_none.mpr fun slot inFront => ?_
    obtain ⟨found, less, ranked⟩ := low slot inFront
    rw [isKeyword_of_rank known ranked (Nat.ne_of_lt less)]
    exact Bool.false_ne_true
  have backNone : back.find? (fun slot => (store.payload slot).isKeyword word) = none := by
    refine List.find?_eq_none.mpr fun slot inBack => ?_
    obtain ⟨found, greater, ranked⟩ := high slot inBack
    rw [isKeyword_of_rank known ranked (Nat.ne_of_gt greater)]
    exact Bool.false_ne_true
  unfold Store.clause?
  rw [known, Option.bind_some, children, (ranked_of_shows shows).scanClause?_eq_find? known, split,
    List.find?_append, List.find?_append, frontNone, backNone, Option.none_or, Option.or_none]

/-- There is no clause of a rank that is not drawn. -/
theorem clause?_of_row_nil {word : Keyword} {rank : Nat} (known : word.rank? = some rank)
    (inside : rank < 9) (shows : store.Shows scopes (store.children root) outline.clauses)
    (row : outline.row rank = []) : store.clause? root word = none := by
  obtain ⟨middle, showsMiddle, found⟩ := clause?_eq_find? known inside rfl shows
  rw [row] at showsMiddle
  cases showsMiddle
  exact found

/-- The clause of a rank is found by its tag. -/
theorem clause?_of_row {word drawn : Keyword} {rank : Nat} {slot : Slot} {below : List Tree}
    (known : word.rank? = some rank) (inside : rank < 9)
    (shows : store.Shows scopes (store.children root) outline.clauses)
    (row : outline.row rank = [.node (some slot) (.keyword drawn) below]) :
    store.clause? root word = if drawn = word then some slot else none := by
  obtain ⟨middle, showsMiddle, found⟩ := clause?_eq_find? known inside rfl shows
  rw [row] at showsMiddle
  generalize shown : Tree.node (some slot) (.keyword drawn) below = tree at showsMiddle
  cases showsMiddle with
  | scope _ _ => exact absurd shown (by simp)
  | node _ marked _ behind =>
    cases behind
    obtain ⟨rfl, payload, -⟩ := Tree.node.inj shown
    obtain rfl := marked slot rfl
    rw [found, List.find?_cons, List.find?_nil, ← payload]
    by_cases same : drawn = word
    · subst same
      simp [Payload.isKeyword]
    · simp [Payload.isKeyword, same]

/-- An outline that differs from another one in one row of clauses only. -/
theorem clauses_of_row_eq {changed : Outline} {rank : Nat} (inside : rank < 9)
    (same : ∀ found, found ≠ rank → changed.row found = outline.row found) {front back : List Tree}
    {tree : Tree} (row : changed.row rank = front ++ tree :: back) :
    changed.clauses = (outline.before rank ++ front) ++ tree :: (back ++ outline.behind rank) := by
  have low : changed.before rank = outline.before rank := by
    refine List.flatMap_congr fun found member => ?_
    exact same found (Nat.ne_of_lt (List.mem_range.mp member))
  have high : changed.behind rank = outline.behind rank := by
    refine List.flatMap_congr fun found member => ?_
    have bounds := List.mem_range'_1.mp member
    exact same found (by omega)
  rw [changed.clauses_eq_append inside, low, high, row]
  simp only [List.append_assoc, List.cons_append]

end Outline

/-! ### A new clause -/

namespace Store

theorem passRank_eq {slot : Slot} {rank : Nat} (ranked : (store.payload slot).rank? = some rank) :
    store.passRank slot = rank := by
  show (store.payload slot).rank?.getD 0 = rank
  rw [ranked]
  rfl

/-- A new clause in a drawing stands behind those of its rank. -/
theorem Drawn.addClause {outline : Outline} {word : Keyword} {rank : Nat}
    (drawn : store.Drawn base scopes rows) (isScope : root ∈ scopes)
    (known : word.rank? = some rank) (inside : rank < 9) (row : rows root = outline.clauses) :
    (store.addClause root word).Drawn base scopes (Function.update rows root
      ((outline.before rank ++ outline.row rank) ++
        .node (some store.fresh) (.keyword word) [] :: outline.behind rank)) := by
  have framed := drawn.framed isScope
  have shows := framed.inside
  rw [row] at shows
  obtain ⟨front, middle, back, split, showsFront, showsMiddle, showsBack, low, here, high⟩ :=
    Outline.split_at_rank inside shows
  rw [← List.append_assoc] at split
  have placed : placeRank word = rank := by
    unfold placeRank
    rw [known]
    rfl
  have lowPass : ∀ child ∈ front ++ middle, store.passRank child ≤ placeRank word := by
    intro child member
    rw [placed]
    rcases List.mem_append.mp member with inFront | inMiddle
    · obtain ⟨found, less, ranked⟩ := low child inFront
      rw [passRank_eq ranked]
      exact Nat.le_of_lt less
    · rw [passRank_eq (here child inMiddle)]
  have highPass : ∀ child ∈ back, placeRank word < store.passRank child := by
    intro child member
    obtain ⟨found, greater, ranked⟩ := high child member
    rw [placed, passRank_eq ranked]
    exact greater
  have grown := grown_addClause drawn.forest framed.inUse word
  rw [clauseFront_eq split lowPass highPass, clauseBack_eq split lowPass highPass] at grown
  rw [row, outline.clauses_eq_append inside, ← List.append_assoc] at framed
  have length : (front ++ middle).length = (outline.before rank ++ outline.row rank).length :=
    (showsFront.append showsMiddle).length_eq
  exact drawn.grow isScope framed grown length (some store.fresh) fun known same =>
    Option.some.inj same

end Store

end SqlDraft
