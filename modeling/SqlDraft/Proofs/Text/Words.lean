/-
**Texts that are made of words.**

Parts are written one behind the other with a blank behind each, and a comma takes back the blank
before it. Where no comma comes first the text of some parts is the same wherever they stand, and
such texts are put together with one blank between them:

* `Line.Alone`: what is written for some parts does not depend on what was written before.
* `Line.ofPayloads_flatten`: the text of pieces that stand alone is their texts with blanks between.
* `Line.ofPayloads_infix`: the text of such a piece stands in every text it is a part of.
-/

import SqlDraft.Draft.Text

namespace SqlDraft.Line

variable {dialect : Dialect} {line : Line} {payload : Payload} {payloads : List Payload}

/-- The line that some parts are written as, with the blank behind them. -/
def written (dialect : Dialect) (payloads : List Payload) : Line := payloads.foldl (write dialect) []

/-- What was written before some parts is not changed by them, and does not change them. -/
def Alone (dialect : Dialect) (payloads : List Payload) : Prop :=
  ∀ line : Line, payloads.foldl (write dialect) line = written dialect payloads ++ line

/-- A word with the blank behind it. A word without letters has none. -/
def trail (word : String) : List Char := if word = "" then [] else word.toList ++ [' ']

/-! ### Writing behind a line -/

theorem retract_append (filled : line ≠ []) (more : Line) :
    (line ++ more).retract = line.retract ++ more := by
  cases line with
  | nil => exact absurd rfl filled
  | cons letter rest =>
    by_cases blank : letter = ' '
    · subst blank
      rfl
    · simp [retract, blank]

/-- A part that is written behind a line leaves what stands further before as it is. -/
theorem write_append (filled : line ≠ []) (payload : Payload) (more : Line) :
    write dialect (line ++ more) payload = write dialect line payload ++ more := by
  unfold write
  split
  · rfl
  · split
    · rw [retract_append filled, List.cons_append, List.append_assoc]
    · rw [List.cons_append, List.append_assoc]

theorem write_ne_nil (filled : line ≠ []) (payload : Payload) : write dialect line payload ≠ [] := by
  unfold write
  split
  · exact filled
  · exact List.cons_ne_nil _ _

theorem foldl_write_ne_nil (payloads : List Payload) (filled : line ≠ []) :
    payloads.foldl (write dialect) line ≠ [] := by
  induction payloads generalizing line with
  | nil => exact filled
  | cons payload rest step => exact step (write_ne_nil filled payload)

theorem foldl_write_append (payloads : List Payload) (filled : line ≠ []) (more : Line) :
    payloads.foldl (write dialect) (line ++ more) = payloads.foldl (write dialect) line ++ more := by
  induction payloads generalizing line with
  | nil => rfl
  | cons payload rest step =>
    rw [List.foldl_cons, List.foldl_cons, write_append filled]
    exact step (write_ne_nil filled payload)

/-! ### Pieces that stand alone -/

theorem alone_nil : Alone dialect [] := fun _ => rfl

theorem alone_singleton (plain : payload.isKeyword .comma = false) : Alone dialect [payload] := by
  intro line
  show write dialect line payload = write dialect [] payload ++ line
  unfold write
  split
  · rfl
  · rw [plain, if_neg (by simp), if_neg (by simp)]
    show _ = ' ' :: (_ ++ [] ++ line)
    rw [List.append_nil]

/-- Whatever comes behind a part that is seen and no comma stands alone with it. -/
theorem alone_cons (visible : (payload.text dialect).toList ≠ [])
    (plain : payload.isKeyword .comma = false) (payloads : List Payload) :
    Alone dialect (payload :: payloads) := by
  intro line
  have first : write dialect line payload = write dialect [] payload ++ line :=
    alone_singleton plain line
  have filled : write dialect [] payload ≠ [] := by
    unfold write
    split
    · next hidden => exact absurd hidden visible
    · exact List.cons_ne_nil _ _
  rw [List.foldl_cons, first, foldl_write_append payloads filled]
  rfl

theorem written_append (first : List Payload) {second : List Payload}
    (alone : Alone dialect second) :
    written dialect (first ++ second) = written dialect second ++ written dialect first := by
  unfold written
  rw [List.foldl_append]
  exact alone _

theorem Alone.append {first second : List Payload} (alone : Alone dialect first)
    (aloneToo : Alone dialect second) : Alone dialect (first ++ second) := by
  intro line
  rw [List.foldl_append, alone, aloneToo, written_append first aloneToo, List.append_assoc]

theorem alone_flatten {pieces : List (List Payload)}
    (alone : ∀ piece ∈ pieces, Alone dialect piece) : Alone dialect pieces.flatten := by
  induction pieces with
  | nil => exact alone_nil
  | cons piece rest step =>
    have first := alone piece List.mem_cons_self
    exact first.append (step fun other member => alone other (List.mem_cons_of_mem piece member))

/-! ### Words -/

/-- A line is empty, or ends with the blank behind its last word. -/
theorem written_eq (dialect : Dialect) (payloads : List Payload) :
    written dialect payloads = [] ∨
      ∃ text, text ≠ [] ∧ written dialect payloads = ' ' :: text := by
  have step : ∀ {line : Line}, (line = [] ∨ ∃ text, text ≠ [] ∧ line = ' ' :: text) →
      payloads.foldl (write dialect) line = [] ∨
        ∃ text, text ≠ [] ∧ payloads.foldl (write dialect) line = ' ' :: text := by
    induction payloads with
    | nil => exact fun ended => ended
    | cons payload rest step =>
      intro line ended
      refine step ?_
      unfold write
      split
      · exact ended
      · next text seen =>
        refine Or.inr ⟨_, ?_, rfl⟩
        rw [ne_eq, List.append_eq_nil_iff, List.reverse_eq_nil_iff, not_and]
        exact fun none => absurd none seen
  exact step (Or.inl rfl)

theorem toList_ofPayloads (dialect : Dialect) (payloads : List Payload) :
    (ofPayloads dialect payloads).toList = (written dialect payloads).retract.reverse :=
  String.toList_ofList

theorem reverse_written (dialect : Dialect) (payloads : List Payload) :
    (written dialect payloads).reverse = trail (ofPayloads dialect payloads) := by
  have text := toList_ofPayloads dialect payloads
  unfold trail
  rcases written_eq dialect payloads with empty | ⟨line, filled, ended⟩
  · rw [empty] at text ⊢
    have none : ofPayloads dialect payloads = "" := String.toList_eq_nil_iff.mp text
    rw [if_pos none]
    rfl
  · rw [ended] at text ⊢
    have some_ : ofPayloads dialect payloads ≠ "" := by
      intro none
      rw [none] at text
      exact filled (List.reverse_eq_nil_iff.mp text.symm)
    rw [if_neg some_, text, List.reverse_cons]
    rfl

theorem trail_injective : Function.Injective trail := by
  intro first second same
  unfold trail at same
  split at same <;> split at same
  · next none noneToo => rw [none, noneToo]
  · exact absurd same.symm (by simp)
  · exact absurd same (by simp)
  · exact String.toList_injective (List.append_cancel_right same)

/-- Words in a row, with a blank behind the last one, are the words with the blanks behind them. -/
theorem trail_spaced {words : List String} (filled : ∀ word ∈ words, word ≠ "") :
    trail (Condition.spaced words) = words.flatMap trail := by
  induction words with
  | nil => rfl
  | cons word rest step =>
    have seen := filled word List.mem_cons_self
    have further := step fun other member => filled other (List.mem_cons_of_mem word member)
    cases rest with
    | nil =>
      rw [List.flatMap_cons, List.flatMap_nil, List.append_nil]
      exact congrArg trail String.intercalate_singleton
    | cons next more =>
      have row : Condition.spaced (word :: next :: more) =
          word ++ " " ++ Condition.spaced (next :: more) := String.intercalate_cons_cons
      have nextSeen := filled next (List.mem_cons_of_mem word List.mem_cons_self)
      have behind : Condition.spaced (next :: more) ≠ "" := by
        intro none
        rw [none, show trail "" = [] from rfl, List.flatMap_cons] at further
        have hidden := (List.append_eq_nil_iff.mp further.symm).1
        exact nextSeen (trail_injective hidden)
      have whole : word ++ " " ++ Condition.spaced (next :: more) ≠ "" := by
        simp [seen]
      rw [List.flatMap_cons, ← further, row]
      unfold trail
      rw [if_neg whole, if_neg seen, if_neg behind, String.toList_append, String.toList_append,
        List.append_assoc]
      rfl

theorem ofPayloads_singleton (dialect : Dialect) (payload : Payload) :
    ofPayloads dialect [payload] = payload.text dialect := by
  refine String.toList_injective ?_
  rw [toList_ofPayloads]
  show (write dialect [] payload).retract.reverse = _
  unfold write
  split
  · next hidden => exact hidden.symm
  · show (_ ++ if payload.isKeyword .comma then [] else []).reverse = _
    rw [ite_self, List.append_nil, List.reverse_reverse]

/-- A part without text leaves no trace. -/
theorem ofPayloads_blank_cons (dialect : Dialect) (payloads : List Payload) :
    ofPayloads dialect (.blank :: payloads) = ofPayloads dialect payloads := by
  have hidden : write dialect [] .blank = [] := by
    unfold write
    split
    · rfl
    · next seen => exact absurd rfl seen
  unfold ofPayloads
  rw [List.foldl_cons, hidden]

/-- **The text of pieces that stand alone is their texts with one blank between them.** -/
theorem ofPayloads_flatten {pieces : List (List Payload)}
    (alone : ∀ piece ∈ pieces, Alone dialect piece) :
    ofPayloads dialect pieces.flatten =
      Condition.spaced ((pieces.map (ofPayloads dialect)).filter (· ≠ "")) := by
  have trails : trail (ofPayloads dialect pieces.flatten) =
      (pieces.map (ofPayloads dialect)).flatMap trail := by
    induction pieces with
    | nil => rfl
    | cons piece rest step =>
      have others : ∀ other ∈ rest, Alone dialect other := fun other member =>
        alone other (List.mem_cons_of_mem piece member)
      rw [List.flatten_cons, ← reverse_written, written_append piece (alone_flatten others),
        List.reverse_append, reverse_written, reverse_written, step others, List.map_cons,
        List.flatMap_cons]
  have seen : ∀ words : List String, words.flatMap trail = (words.filter (· ≠ "")).flatMap trail := by
    intro words
    induction words with
    | nil => rfl
    | cons word rest step =>
      by_cases none : word = ""
      · subst none
        exact step
      · have kept : (word :: rest).filter (· ≠ "") = word :: rest.filter (· ≠ "") :=
          List.filter_cons_of_pos (decide_eq_true none)
        rw [kept, List.flatMap_cons, List.flatMap_cons, step]
  refine trail_injective ?_
  rw [trails, seen, trail_spaced]
  exact fun word member => of_decide_eq_true (List.mem_filter.mp member).2

/-- **The text of a piece that stands alone stands in every text it is a part of.** -/
theorem ofPayloads_infix {middle : List Payload} (alone : Alone dialect middle)
    (front back : List Payload) : (ofPayloads dialect middle).toList <:+:
      (ofPayloads dialect (front ++ (middle ++ back))).toList := by
  have line : written dialect (front ++ (middle ++ back)) =
      back.foldl (write dialect) (written dialect middle ++ written dialect front) := by
    rw [← written_append front alone]
    unfold written
    rw [List.foldl_append, List.foldl_append, List.foldl_append]
  rw [toList_ofPayloads, toList_ofPayloads, line]
  rcases written_eq dialect middle with empty | ⟨text, -, ended⟩
  · rw [empty]
    exact List.nil_infix
  · -- The blank behind the piece may be taken back by a comma, and nothing else of it.
    rw [ended]
    show text.reverse <:+: _
    have filled : ([' '] : Line) ≠ [] := List.cons_ne_nil _ _
    have rest := @foldl_write_append dialect [' '] back filled (text ++ written dialect front)
    rw [show ' ' :: text ++ written dialect front = [' '] ++ (text ++ written dialect front) from rfl,
      rest, retract_append (foldl_write_ne_nil back filled), List.reverse_append, List.reverse_append]
    exact ⟨_, _, rfl⟩

end SqlDraft.Line
