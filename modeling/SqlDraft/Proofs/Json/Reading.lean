/-
**Every text of a document is read as that document.**

The reader takes each part of a document from the front of a longer text, whatever stands behind the
part. It needs no more steps for a part than the part has characters, so the bound that it is given
for a whole text is never met.

* `Json.Taken`: what it means that a part is taken from the front of a text.
* **`Json.taken_of_spells`**: each part is, in each of its texts.
* **`Json.document?_of_spells`**: the document of each of its texts.
-/

import SqlDraft.Proofs.Json.Scanning

namespace SqlDraft.Json

/-! ### Blanks -/

theorem Blanks.skip {blanks : List Char} (blank : Blanks blanks) (rest : List Char) :
    skipBlanks (blanks ++ rest) = skipBlanks rest :=
  List.dropWhile_append_of_pos fun char member => decide_eq_true (blank char member)

theorem skipBlanks_cons {first : Char} (other : isBlank first = Bool.false) (rest : List Char) :
    skipBlanks (first :: rest) = first :: rest :=
  List.dropWhile_cons_of_neg (Bool.eq_false_iff.mp other)

/-- Blanks in front make no difference to a value. -/
theorem value?_skip {text other : List Char} (same : skipBlanks text = skipBlanks other)
    (fuel : Nat) : value? fuel text = value? fuel other := by
  cases fuel with
  | zero => rfl
  | succ fuel => rw [value?, value?, same]

/-- Blanks in front make no difference to a member. -/
theorem member?_skip {text other : List Char} (same : skipBlanks text = skipBlanks other)
    (fuel : Nat) : member? fuel text = member? fuel other := by
  cases fuel with
  | zero => rfl
  | succ fuel => rw [member?, member?, same]

/-! ### Where parts start -/

/-- A value starts with a character that is neither a blank nor the end of an array. -/
theorem Spells.value_start {document : Json} {text : List Char}
    (spelled : Spells (.value document) text) :
    ∃ first rest, text = first :: rest ∧ isBlank first = Bool.false ∧ first ≠ ']' := by
  cases spelled with
  | number spelled =>
    obtain ⟨first, rest, same, start⟩ := spelled.exists_start
    refine ⟨first, rest, same, ?_, ?_⟩
    · rcases start with digit | rfl
      · refine decide_eq_false fun member => ?_
        have known : ∀ char ∈ [' ', '\t', '\n', '\r'], char.isDigit = Bool.false :=
          List.forall_iff_forall_mem.mp (by decide)
        exact absurd digit (Bool.eq_false_iff.mp (known first member))
      · decide
    · rintro rfl
      exact absurd start (by decide)
  | string spelled =>
    obtain ⟨_⟩ := spelled
    exact ⟨_, _, rfl, by decide, by decide⟩
  | _ => exact ⟨_, _, rfl, by decide, by decide⟩

theorem Spells.element_start {document : Json} {text : List Char}
    (spelled : Spells (.element document) text) (rest : List Char) :
    ∃ first tail, skipBlanks (text ++ rest) = first :: tail ∧ first ≠ ']' := by
  cases spelled with
  | element blankBefore spelled blankAfter =>
    obtain ⟨first, tail, rfl, noBlank, other⟩ := spelled.value_start
    rw [List.append_assoc, blankBefore.skip, List.append_assoc, List.cons_append,
      skipBlanks_cons noBlank]
    exact ⟨first, _, rfl, other⟩

/-- The items of an array do not start with its end. -/
theorem Spells.elements_start {items : List Json} {text : List Char}
    (spelled : Spells (.elements items) text) (rest after : List Char) :
    skipBlanks (text ++ rest) ≠ ']' :: after := by
  have start : ∃ first tail, skipBlanks (text ++ rest) = first :: tail ∧ first ≠ ']' := by
    cases spelled with
    | lastElement spelled => exact spelled.element_start rest
    | nextElement spelled =>
      rw [List.append_assoc]
      exact spelled.element_start _
  obtain ⟨first, tail, same, other⟩ := start
  rw [same]
  exact fun closes => other (List.cons.inj closes).1

theorem Spells.member_start {key : List JsonUnit} {document : Json} {text : List Char}
    (spelled : Spells (.member key document) text) (rest : List Char) :
    ∃ tail, skipBlanks (text ++ rest) = '"' :: tail := by
  cases spelled with
  | member blankBefore isKey =>
    obtain ⟨_⟩ := isKey
    rw [List.append_assoc, blankBefore.skip]
    exact ⟨_, skipBlanks_cons (by decide) _⟩

/-- The members of an object do not start with its end. -/
theorem Spells.members_start {members : List (List JsonUnit × Json)} {text : List Char}
    (spelled : Spells (.members members) text) (rest after : List Char) :
    skipBlanks (text ++ rest) ≠ '\x7d' :: after := by
  have start : ∃ tail, skipBlanks (text ++ rest) = '"' :: tail := by
    cases spelled with
    | lastMember spelled => exact spelled.member_start rest
    | nextMember spelled =>
      rw [List.append_assoc]
      exact spelled.member_start _
  obtain ⟨tail, same⟩ := start
  rw [same]
  exact fun closes => absurd (List.cons.inj closes).1 (by decide)

/-! ### One step of the reader -/

/-- The text of a value is not empty, so there is a step to read it. -/
theorem Spells.exists_step {document : Json} {text : List Char}
    (spelled : Spells (.value document) text) {fuel : Nat} (enough : text.length ≤ fuel) :
    ∃ further, fuel = further + 1 := by
  obtain ⟨first, rest, rfl, -⟩ := spelled.value_start
  exact Nat.exists_eq_add_of_le' (Nat.le_trans (Nat.succ_pos _) enough)

/-- A number is not taken for anything else. -/
theorem value?_number {token rest : List Char} (spelled : SpellsNumber token)
    (follows : Follows rest) (fuel : Nat) :
    value? (fuel + 1) (token ++ rest) = some (number token, rest) := by
  have read := number?_append spelled follows
  obtain ⟨first, tail, rfl, start⟩ := spelled.exists_start
  have other : isBlank first = Bool.false ∧ first ∉ ['"', '[', '\x7b', 'n', 't', 'f'] := by
    refine ⟨decide_eq_false ?_, ?_⟩ <;> intro member
    · simp only [List.mem_cons, List.not_mem_nil, or_false] at member
      rcases member with rfl | rfl | rfl | rfl <;> exact absurd start (by decide)
    · simp only [List.mem_cons, List.not_mem_nil, or_false] at member
      rcases member with rfl | rfl | rfl | rfl | rfl | rfl <;> exact absurd start (by decide)
  obtain ⟨noBlank, other⟩ := other
  rw [List.cons_append] at read ⊢
  simp only [List.mem_cons, List.not_mem_nil, or_false, not_or] at other
  obtain ⟨noString, noArray, noObject, noNull, noTrue, noFalse⟩ := other
  rw [value?, skipBlanks_cons noBlank]
  split
  · next same => exact absurd (List.cons.inj same).1 noString
  · next same => exact absurd (List.cons.inj same).1 noArray
  · next same => exact absurd (List.cons.inj same).1 noObject
  · rw [scalar?, read, Option.map_some]
    · exact fun _ same => noNull (List.cons.inj same).1
    · exact fun _ same => noTrue (List.cons.inj same).1
    · exact fun _ same => noFalse (List.cons.inj same).1

theorem value?_string {units : List JsonUnit} {text : List Char}
    (spelled : SpellsString units text) (fuel : Nat) (rest : List Char) :
    value? (fuel + 1) (text ++ rest) = some (string units, rest) := by
  cases spelled with
  | marked spelled =>
    rw [List.cons_append, List.append_assoc, List.singleton_append, value?,
      skipBlanks_cons (by decide)]
    simp only [stringBody?_append spelled, Option.map_some]

theorem value?_emptyArray {blanks : List Char} (blank : Blanks blanks) (fuel : Nat)
    (rest : List Char) :
    value? (fuel + 1) ('[' :: (blanks ++ [']']) ++ rest) = some (array [], rest) := by
  rw [List.cons_append, List.append_assoc, List.singleton_append, value?,
    skipBlanks_cons (by decide)]
  simp only [blank.skip, skipBlanks_cons (show isBlank ']' = Bool.false by decide)]

theorem value?_array {text rest : List Char} {items : List Json} {fuel : Nat}
    (noEnd : ∀ after, skipBlanks text ≠ ']' :: after)
    (read : items? fuel text = some (items, rest)) :
    value? (fuel + 1) ('[' :: text) = some (array items, rest) := by
  rw [value?, skipBlanks_cons (by decide)]
  simp only [read, Option.map_some]

theorem value?_emptyObject {blanks : List Char} (blank : Blanks blanks) (fuel : Nat)
    (rest : List Char) :
    value? (fuel + 1) ('\x7b' :: (blanks ++ ['\x7d']) ++ rest) = some (object [], rest) := by
  rw [List.cons_append, List.append_assoc, List.singleton_append, value?,
    skipBlanks_cons (by decide)]
  simp only [blank.skip, skipBlanks_cons (show isBlank '\x7d' = Bool.false by decide)]

theorem value?_object {text rest : List Char} {members : List (List JsonUnit × Json)} {fuel : Nat}
    (noEnd : ∀ after, skipBlanks text ≠ '\x7d' :: after)
    (read : members? fuel text = some (members, rest)) :
    value? (fuel + 1) ('\x7b' :: text) = some (object members, rest) := by
  rw [value?, skipBlanks_cons (by decide)]
  simp only [read, Option.map_some]

/-- A member is a key, a colon and a value, with blanks around the key. -/
theorem member?_append {key : List JsonUnit} {document : Json}
    {before name after text left : List Char} {fuel : Nat} (blankBefore : Blanks before)
    (isKey : SpellsString key name) (blankAfter : Blanks after) (read : value? fuel text = some (document, left)) :
    member? (fuel + 1) (before ++ (name ++ (after ++ ':' :: text))) =
      some ((key, document), left) := by
  cases isKey with
  | marked spelled =>
    rw [member?_skip (blankBefore.skip _), List.cons_append, List.append_assoc,
      List.singleton_append, member?, skipBlanks_cons (by decide)]
    simp only [stringBody?_append spelled, blankAfter.skip,
      skipBlanks_cons (show isBlank ':' = Bool.false by decide), read, Option.map_some]

/-! ### Whole parts -/

/-- What a reader has to do with a part: to take it from the front of a text and leave the rest. A
reader of values leaves the blanks that follow. -/
def Taken : Part → List Char → Prop
  | .value document, text => ∀ rest, Follows rest → ∀ fuel, text.length ≤ fuel →
    value? fuel (text ++ rest) = some (document, rest)
  | .element document, text => ∀ rest, Follows rest → ∀ fuel, text.length ≤ fuel →
    ∃ left, value? fuel (text ++ rest) = some (document, left) ∧ skipBlanks left = skipBlanks rest
  | .elements items, text => ∀ rest fuel, text.length < fuel →
    items? fuel (text ++ ']' :: rest) = some (items, rest)
  | .member key document, text => ∀ rest, Follows rest → ∀ fuel, text.length ≤ fuel →
    ∃ left, member? fuel (text ++ rest) = some ((key, document), left) ∧
      skipBlanks left = skipBlanks rest
  | .members members, text => ∀ rest fuel, text.length < fuel →
    members? fuel (text ++ '\x7d' :: rest) = some (members, rest)

/-- **Each part is taken** from the front of a text that starts with it. -/
theorem taken_of_spells {part : Part} {text : List Char} (spelled : Spells part text) :
    Taken part text := by
  -- The induction is on the grammar. A part that has others in it gives them one step less than it
  -- has itself, and its own marks pay for that; items and members have one step more to begin with.
  induction spelled with
  | null =>
    intro rest _ fuel enough
    obtain ⟨fuel, rfl⟩ := Spells.null.exists_step enough
    rfl
  | true =>
    intro rest _ fuel enough
    obtain ⟨fuel, rfl⟩ := Spells.true.exists_step enough
    rfl
  | false =>
    intro rest _ fuel enough
    obtain ⟨fuel, rfl⟩ := Spells.false.exists_step enough
    rfl
  | number spelled =>
    intro rest follows fuel enough
    obtain ⟨fuel, rfl⟩ := (Spells.number spelled).exists_step enough
    exact value?_number spelled follows fuel
  | string spelled =>
    intro rest _ fuel enough
    obtain ⟨fuel, rfl⟩ := (Spells.string spelled).exists_step enough
    exact value?_string spelled fuel rest
  | emptyArray blank =>
    intro rest _ fuel enough
    obtain ⟨fuel, rfl⟩ := (Spells.emptyArray blank).exists_step enough
    exact value?_emptyArray blank fuel rest
  | array spelled step =>
    intro rest _ fuel enough
    obtain ⟨fuel, rfl⟩ := (Spells.array spelled).exists_step enough
    rw [List.length_cons, List.length_append, List.length_singleton] at enough
    rw [List.cons_append, List.append_assoc, List.singleton_append]
    exact value?_array (spelled.elements_start _) (step rest fuel (by omega))
  | emptyObject blank =>
    intro rest _ fuel enough
    obtain ⟨fuel, rfl⟩ := (Spells.emptyObject blank).exists_step enough
    exact value?_emptyObject blank fuel rest
  | object spelled step =>
    intro rest _ fuel enough
    obtain ⟨fuel, rfl⟩ := (Spells.object spelled).exists_step enough
    rw [List.length_cons, List.length_append, List.length_singleton] at enough
    rw [List.cons_append, List.append_assoc, List.singleton_append]
    exact value?_object (spelled.members_start _) (step rest fuel (by omega))
  | @element document before text after blankBefore spelled blankAfter step =>
    intro rest follows fuel enough
    rw [List.length_append, List.length_append] at enough
    have read := step (after ++ rest) (blankAfter.follows follows) fuel (by omega)
    refine ⟨after ++ rest, ?_, blankAfter.skip rest⟩
    rw [List.append_assoc, List.append_assoc, value?_skip (blankBefore.skip _), read]
  | lastElement spelled step =>
    intro rest fuel enough
    obtain ⟨fuel, rfl⟩ := Nat.exists_eq_add_one_of_ne_zero (Nat.ne_zero_of_lt enough)
    obtain ⟨left, read, skipped⟩ :=
      step (']' :: rest) (follows_cons ']' (by decide) _) fuel (Nat.le_of_lt_succ enough)
    rw [items?, read]
    simp only [skipped, skipBlanks_cons (show isBlank ']' = Bool.false by decide)]
  | nextElement spelled others step steps =>
    intro rest fuel enough
    obtain ⟨fuel, rfl⟩ := Nat.exists_eq_add_one_of_ne_zero (Nat.ne_zero_of_lt enough)
    rw [List.length_append, List.length_cons] at enough
    rw [List.append_assoc, List.cons_append]
    obtain ⟨left, read, skipped⟩ := step _ (follows_cons ',' (by decide) _) fuel (by omega)
    rw [items?, read]
    simp only [skipped, skipBlanks_cons (show isBlank ',' = Bool.false by decide),
      steps rest fuel (by omega), Option.map_some]
  | @member key document before name after text blankBefore isKey blankAfter spelled step =>
    intro rest follows fuel enough
    rw [List.length_append, List.length_append, List.length_append, List.length_cons] at enough
    obtain ⟨fuel, rfl⟩ : ∃ further, fuel = further + 1 := Nat.exists_eq_add_of_le' (by omega)
    obtain ⟨left, read, skipped⟩ := step rest follows fuel (by omega)
    refine ⟨left, ?_, skipped⟩
    simp only [List.append_assoc, List.cons_append]
    exact member?_append blankBefore isKey blankAfter read
  | lastMember spelled step =>
    intro rest fuel enough
    obtain ⟨fuel, rfl⟩ := Nat.exists_eq_add_one_of_ne_zero (Nat.ne_zero_of_lt enough)
    obtain ⟨left, read, skipped⟩ :=
      step ('\x7d' :: rest) (follows_cons '\x7d' (by decide) _) fuel (Nat.le_of_lt_succ enough)
    rw [members?, read]
    simp only [skipped, skipBlanks_cons (show isBlank '\x7d' = Bool.false by decide)]
  | nextMember spelled others step steps =>
    intro rest fuel enough
    obtain ⟨fuel, rfl⟩ := Nat.exists_eq_add_one_of_ne_zero (Nat.ne_zero_of_lt enough)
    rw [List.length_append, List.length_cons] at enough
    rw [List.append_assoc, List.cons_append]
    obtain ⟨left, read, skipped⟩ := step _ (follows_cons ',' (by decide) _) fuel (by omega)
    rw [members?, read]
    simp only [skipped, skipBlanks_cons (show isBlank ',' = Bool.false by decide),
      steps rest fuel (by omega), Option.map_some]

/-- **A text is read as the document that it is a text of.** -/
theorem document?_of_spells {document : Json} {text : List Char}
    (spelled : Spells (.element document) text) : document? text = some document := by
  obtain ⟨left, read, skipped⟩ :=
    taken_of_spells spelled [] follows_nil (3 * text.length + 3) (by omega)
  rw [List.append_nil] at read
  rw [document?, read]
  exact if_pos skipped

end SqlDraft.Json
