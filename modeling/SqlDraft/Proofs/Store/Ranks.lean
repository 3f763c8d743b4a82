/-
**Clauses found by their ranks.**

A search for a clause stops at the first child of a higher rank, and a new clause is put before it.
Where the ranks of the children never fall, nothing is missed that way:

* `Store.Ranked`: the ranks in a row of children never fall.
* `Store.Ranked.scanClause?_eq_find?`: the search that stops early finds what a full one finds.
* `Store.clauseFront_eq`, `Store.clauseBack_eq`: the place of a new clause.
-/

import SqlDraft.Proofs.Store.Growing

namespace SqlDraft

/-- A payload that is some tag carries the rank of this tag. -/
theorem Payload.rank?_of_isKeyword {payload : Payload} {word : Keyword}
    (found : payload.isKeyword word = true) : payload.rank? = word.rank? := by
  have same : payload = .keyword word := of_decide_eq_true found
  rw [same]
  rfl

namespace Store

variable {store : Store}

/-- The ranks in a row of children never fall; children without a rank may stand between them. -/
def Ranked (store : Store) (row : List Slot) : Prop :=
  row.Pairwise fun first second => ∀ low ∈ (store.payload first).rank?,
    ∀ high ∈ (store.payload second).rank?, low ≤ high

theorem standsAfter_eq_true {rank : Nat} {child : Slot}
    (after : store.standsAfter rank child = true) :
    ∃ high, (store.payload child).rank? = some high ∧ rank < high := by
  unfold standsAfter at after
  cases known : (store.node child).payload.rank? with
  | none =>
    rw [known] at after
    exact absurd after Bool.false_ne_true
  | some high =>
    rw [known] at after
    exact ⟨high, known, of_decide_eq_true after⟩

/-- **The search that stops early finds what a full search finds.** -/
theorem Ranked.scanClause?_eq_find? {row : List Slot} (ranked : store.Ranked row) {word : Keyword}
    {rank : Nat} (known : word.rank? = some rank) :
    store.scanClause? word rank row =
      row.find? fun child => (store.payload child).isKeyword word := by
  induction row with
  | nil => rfl
  | cons child rest step =>
    obtain ⟨early, rankedRest⟩ := List.pairwise_cons.mp ranked
    rw [List.find?_cons]
    unfold scanClause?
    by_cases here : (store.payload child).isKeyword word = true
    · rw [here]
      exact if_pos here
    · rw [Bool.not_eq_true] at here
      rw [here]
      refine (if_neg (by rw [← payload, here]; simp)).trans ?_
      split
      · next after =>
        -- All that follows has at least the rank that stopped the search.
        obtain ⟨high, stopped, greater⟩ := standsAfter_eq_true after
        refine (List.find?_eq_none.mpr fun later inRest found => ?_).symm
        have same := Payload.rank?_of_isKeyword found
        have least := early later inRest high stopped rank (same.trans known)
        omega
      · exact step rankedRest

/-- The children that a new clause goes behind. -/
theorem clauseFront_eq {parent : Slot} {word : Keyword} {front back : List Slot}
    (split : store.children parent = front ++ back)
    (low : ∀ child ∈ front, store.passRank child ≤ placeRank word)
    (high : ∀ child ∈ back, placeRank word < store.passRank child) :
    store.clauseFront parent word = front := by
  unfold clauseFront
  rw [split, List.takeWhile_append_of_pos fun child inFront => decide_eq_true (low child inFront)]
  have stop : back.takeWhile (fun child => decide (store.passRank child ≤ placeRank word)) = [] := by
    cases back with
    | nil => rfl
    | cons child rest =>
      have greater := high child List.mem_cons_self
      exact List.takeWhile_cons_of_neg (by rw [decide_eq_true_eq]; omega)
  rw [stop, List.append_nil]

/-- The children that a new clause goes before. -/
theorem clauseBack_eq {parent : Slot} {word : Keyword} {front back : List Slot}
    (split : store.children parent = front ++ back)
    (low : ∀ child ∈ front, store.passRank child ≤ placeRank word)
    (high : ∀ child ∈ back, placeRank word < store.passRank child) :
    store.clauseBack parent word = back := by
  have whole := store.clauseFront_append_clauseBack parent word
  rw [clauseFront_eq split low high, split] at whole
  exact List.append_cancel_left whole

end Store

end SqlDraft
