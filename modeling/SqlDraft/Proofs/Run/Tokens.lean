/-
**The text of a draft is its tokens.**

The text grows at its end: a blank is written behind every part, a comma takes back the blank before
it, and the blank at the end is taken back in the end. Only such blanks are ever taken back, and what
remains is the texts of the parts with what belongs between them:

* `Line.tokens`: the parts that have a text.
* `Line.joined`: their texts, with one blank before all of them but the first and the commas.
* `Line.reverse_written_eq`: what was written so far is always such a text and one blank.
* `Line.ofPayloads_eq_joined`: the text of parts in a row.
* `Story.text_joins_tokens`: the text of a draft after any moves.
-/

import SqlDraft.Proofs.Run.OneTree
import SqlDraft.Proofs.Text.Words

namespace SqlDraft

namespace Line

variable {dialect : Dialect} {payload : Payload}

/-- The parts that have a text. -/
def tokens (dialect : Dialect) (payloads : List Payload) : List Payload :=
  payloads.filter fun payload => payload.text dialect ≠ ""

/-- What stands between a token and the one before it. -/
def gap (payload : Payload) : String := if payload.isKeyword .comma then "" else " "

/-- The texts of tokens with what stands between them. -/
def joined (dialect : Dialect) : List Payload → String
  | [] => ""
  | first :: rest =>
    first.text dialect ++ String.join (rest.map fun payload => gap payload ++ payload.text dialect)

/-! ### Tokens in a row -/

theorem tokens_append (dialect : Dialect) (front back : List Payload) :
    tokens dialect (front ++ back) = tokens dialect front ++ tokens dialect back :=
  List.filter_append _ _

theorem tokens_singleton (visible : payload.text dialect ≠ "") :
    tokens dialect [payload] = [payload] :=
  List.filter_cons_of_pos (decide_eq_true visible)

theorem tokens_singleton_hidden (hidden : payload.text dialect = "") :
    tokens dialect [payload] = [] :=
  List.filter_cons_of_neg (by simp [hidden])

theorem text_ne_of_mem_tokens {payloads : List Payload}
    (member : payload ∈ tokens dialect payloads) : payload.text dialect ≠ "" :=
  of_decide_eq_true (List.mem_filter.mp member).2

theorem joined_concat {front : List Payload} (filled : front ≠ []) (payload : Payload) :
    joined dialect (front ++ [payload]) =
      joined dialect front ++ (gap payload ++ payload.text dialect) := by
  cases front with
  | nil => exact absurd rfl filled
  | cons first rest =>
    unfold joined
    rw [List.cons_append]
    simp [String.append_assoc]

theorem joined_tokens_eq_empty_iff (payloads : List Payload) :
    joined dialect (tokens dialect payloads) = "" ↔ tokens dialect payloads = [] := by
  refine ⟨fun none => ?_, fun none => by rw [none]; rfl⟩
  cases said : tokens dialect payloads with
  | nil => rfl
  | cons first rest =>
    have seen : first.text dialect ≠ "" := text_ne_of_mem_tokens (said ▸ List.mem_cons_self)
    rw [said, joined, String.append_eq_empty_iff] at none
    exact absurd none.1 seen

/-! ### What was written so far -/

theorem trail_of_ne {text : String} (filled : text ≠ "") : trail text = text.toList ++ [' '] :=
  if_neg filled

theorem retract_reverse_trail (text : String) :
    (retract (trail text).reverse).reverse = text.toList := by
  unfold trail
  split
  · next none => rw [none]; rfl
  · rw [List.reverse_append]
    exact List.reverse_reverse _

/-- One more token is written behind what was written, in the place of the blank if it is a comma. -/
theorem reverse_write (visible : payload.text dialect ≠ "") (line : Line) :
    (write dialect line payload).reverse =
      (if payload.isKeyword .comma then line.retract else line).reverse ++
        ((payload.text dialect).toList ++ [' ']) := by
  unfold write
  split
  · next hidden => exact absurd (String.toList_eq_nil_iff.mp hidden) visible
  · simp

/-- **What was written is the texts of the tokens and one blank**, so a blank is all that a comma or
the end of the text takes back. -/
theorem reverse_written_eq (dialect : Dialect) (payloads : List Payload) :
    (written dialect payloads).reverse = trail (joined dialect (tokens dialect payloads)) := by
  induction payloads using List.reverseRecOn with
  | nil => rfl
  | append_singleton front payload step =>
    have last : written dialect (front ++ [payload]) =
        write dialect (written dialect front) payload := List.foldl_concat _ _ _ _
    rw [last, tokens_append]
    by_cases hidden : payload.text dialect = ""
    · have same : write dialect (written dialect front) payload = written dialect front := by
        simp [write, hidden]
      rw [same, step, tokens_singleton_hidden hidden, List.append_nil]
    · have line : written dialect front =
          (trail (joined dialect (tokens dialect front))).reverse := by
        rw [← step, List.reverse_reverse]
      rw [reverse_write hidden, tokens_singleton hidden, line]
      by_cases first : tokens dialect front = []
      · -- Nothing stands before the first token, and so a comma takes nothing back.
        rw [first, joined, trail, if_pos rfl]
        simp [retract, joined, trail, hidden]
      · have filled := mt (joined_tokens_eq_empty_iff front).mp first
        have text : joined dialect (tokens dialect front) ++ (gap payload ++ payload.text dialect) ≠
            "" := by
          simp [filled]
        rw [joined_concat first, trail_of_ne text]
        by_cases comma : payload.isKeyword .comma = true
        · rw [if_pos comma, retract_reverse_trail, gap, if_pos comma]
          simp
        · rw [if_neg comma, List.reverse_reverse, trail_of_ne filled, gap, if_neg comma]
          simp

/-- **The text of parts in a row is the texts of the tokens with what stands between them.** -/
theorem ofPayloads_eq_joined (dialect : Dialect) (payloads : List Payload) :
    ofPayloads dialect payloads = joined dialect (tokens dialect payloads) := by
  refine trail_injective ?_
  rw [← reverse_written, reverse_written_eq]

/-- What is left of a text when the blank at its end is taken back. -/
theorem reverse_retract_written (dialect : Dialect) (payloads : List Payload) :
    (written dialect payloads).retract.reverse =
      (joined dialect (tokens dialect payloads)).toList := by
  rw [← toList_ofPayloads, ofPayloads_eq_joined]

/-- Parts without a comma are written with one blank between them. -/
theorem ofPayloads_of_plain {payloads : List Payload}
    (plain : ∀ payload ∈ payloads, payload.isKeyword .comma = false) :
    ofPayloads dialect payloads =
      Condition.spaced ((payloads.map (Payload.text dialect)).filter (· ≠ "")) := by
  have alone : ∀ piece ∈ payloads.map fun payload => [payload], Alone dialect piece := by
    intro piece member
    obtain ⟨payload, isPart, rfl⟩ := List.mem_map.mp member
    exact alone_singleton (plain payload isPart)
  have pieces : (payloads.map fun payload => [payload]).flatten = payloads := by
    rw [← List.flatMap_def, List.flatMap_singleton']
  have text := ofPayloads_flatten alone
  rw [pieces, List.map_map] at text
  rw [text]
  have words : payloads.map (ofPayloads dialect ∘ fun payload => [payload]) =
      payloads.map (Payload.text dialect) :=
    List.map_congr_left fun payload _ => ofPayloads_singleton dialect payload
  rw [words]

end Line

namespace Story

/-- **The text of a draft joins its tokens.** After any moves and in any dialect, the text is that of
the parts that have one, in the order of a walk down the tree and from left to right, with one blank
before each of them but the first one and the commas. A statement that has a table and no command
begins with the tokens of all columns. At every point of the walk what was written is such a text with
one blank behind it, so that nothing but this blank is taken back by a comma, or at the end. -/
theorem text_joins_tokens (settings : Settings) (moves : List Move) (dialect : Dialect) :
    ∃ walk parts, (after settings moves).draft.store.Visits
        ((after settings moves).draft.store.node (after settings moves).draft.root).child walk ∧
      parts = (if (after settings moves).draft.base.table.isSome ∧
          (after settings moves).draft.base.command.isNone
        then [.keyword .select, .keyword .star] else []) ++
          walk.map (after settings moves).draft.store.payload ∧
      (after settings moves).draft.textIn dialect =
        Line.joined dialect (Line.tokens dialect parts) ∧
      ∀ front back, parts = front ++ back →
        (Line.written dialect front).reverse =
            Line.trail (Line.joined dialect (Line.tokens dialect front)) ∧
          (Line.written dialect front).retract.reverse =
            (Line.joined dialect (Line.tokens dialect front)).toList := by
  obtain ⟨scopes, outlines, kept⟩ := kept_after settings moves
  have sketched := kept.sketched
  refine ⟨_, _, sketched.drawn.forest.visits_below _, rfl, ?_, fun front back _ =>
    ⟨Line.reverse_written_eq dialect front, Line.reverse_retract_written dialect front⟩⟩
  rw [← Line.ofPayloads_eq_joined]
  have implied : (after settings moves).draft.base.lacksProjection = true ↔
      (after settings moves).draft.base.table.isSome ∧
        (after settings moves).draft.base.command.isNone := by
    unfold Scope.lacksProjection
    rw [sketched.statement]
    simp [and_comm]
  refine congrArg (Line.ofPayloads dialect) ?_
  exact congrArg (· ++ _) (if_congr implied rfl rfl)

end Story

end SqlDraft
