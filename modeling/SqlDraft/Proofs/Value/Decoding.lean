/-
**Values that are told from their text.**

A null, a truth value and an integer each have their own text, and a list has parentheses around the
texts of its items. So values made of these, nested to any depth, are read back from their text:

* `Value.IsTold`: a null, a truth value, an integer or a list of such values.
* `Value.read?`: reads a value that a text starts with. `Value.ofSql?`: reads a whole text.
* **`Value.read?_chars`**, **`Value.chars_of_read?`**: what is written is read, and what is read was
  written.
* **`Value.sql_unambiguous`**: two such values, or two lists in a condition, have different texts.
-/

import Mathlib.Data.Set.Function
import SqlDraft.Condition
import SqlDraft.Proofs.Json.Scanning

namespace SqlDraft.Value

open Json (Ends ends_cons)

/-- A value without doubles, strings and objects. Integers may have any size, and lists any depth.
-/
inductive IsTold : Value → Prop
  | null : IsTold null
  | bool (value : Bool) : IsTold (bool value)
  | int (value : Int) : IsTold (int value)
  | list {items : List Value} (all : ∀ item ∈ items, IsTold item) : IsTold (list items)

/-! ### Reading -/

/-- The number that a text starts with, and what follows it. Its digits are those that are written
for it, so there is no zero at the front of others. -/
def natural? (text : List Char) : Option (Nat × List Char) :=
  let digits := text.takeWhile Char.isDigit
  let value := Nat.ofDigitChars 10 digits 0
  if Nat.toDigits 10 value = digits then some (value, text.dropWhile Char.isDigit) else none

/-- The integer that a text starts with, and what follows it. There is no negative zero. -/
def integer? : List Char → Option (Int × List Char)
  | '-' :: text =>
    match natural? text with
    | some (value + 1, rest) => some (.negSucc value, rest)
    | _ => none
  | text => (natural? text).map fun found => (.ofNat found.1, found.2)

mutual

/-- The value that a text starts with, and what follows it. The nesting is bounded. -/
def read? : (bound : Nat) → List Char → Option (Value × List Char)
  | 0, _ => none
  | _ + 1, 'N' :: 'U' :: 'L' :: 'L' :: rest => some (null, rest)
  | _ + 1, 'T' :: 'R' :: 'U' :: 'E' :: rest => some (bool true, rest)
  | _ + 1, 'F' :: 'A' :: 'L' :: 'S' :: 'E' :: rest => some (bool false, rest)
  | _ + 1, '(' :: ')' :: rest => some (list [], rest)
  | bound + 1, '(' :: rest => (readItems? bound rest).map fun found => (list found.1, found.2)
  | _ + 1, text => (integer? text).map fun found => (int found.1, found.2)

/-- The items of a list up to its end, and what follows it. There is one at least. -/
def readItems? : (bound : Nat) → List Char → Option (List Value × List Char)
  | 0, _ => none
  | bound + 1, text =>
    match read? bound text with
    | some (item, ',' :: ' ' :: rest) =>
      (readItems? bound rest).map fun found => (item :: found.1, found.2)
    | some (item, ')' :: rest) => some ([item], rest)
    | _ => none

end

/-- The value of a text. Each level of nesting takes two characters, so there are fewer levels than
characters. -/
def ofSql? (text : String) : Option Value :=
  match read? text.length text.toList with
  | some (value, []) => some value
  | _ => none

/-! ### Integers -/

theorem natural?_append (value : Nat) {rest : List Char} (ends : Ends rest) :
    natural? (Nat.toDigits 10 value ++ rest) = some (value, rest) := by
  have digits : ∀ char ∈ Nat.toDigits 10 value, char.isDigit := fun char member =>
    Nat.isDigit_of_mem_toDigits (by decide) (by decide) member
  obtain ⟨taken, left⟩ := Template.takeWhile_part digits ends
  simp only [natural?, taken, left, Nat.ofDigitChars_ten_toDigits, if_true]

theorem append_of_natural? {text rest : List Char} {value : Nat}
    (found : natural? text = some (value, rest)) : Nat.toDigits 10 value ++ rest = text := by
  simp only [natural?] at found
  split at found
  · next written =>
    obtain ⟨rfl, rfl⟩ := Prod.mk.inj (Option.some.inj found)
    rw [written, List.takeWhile_append_dropWhile]
  · cases found

theorem exists_toDigits (value : Nat) :
    ∃ first digits, Nat.toDigits 10 value = first :: digits ∧ first.isDigit := by
  obtain ⟨first, digits, written⟩ := List.exists_cons_of_ne_nil (Nat.toDigits_ne_nil (b := 10)
    (n := value))
  exact ⟨first, digits, written,
    Nat.isDigit_of_mem_toDigits (by decide) (by decide) (written ▸ List.mem_cons_self)⟩

/-- An integer starts with a digit or with a sign. -/
theorem exists_intText (value : Int) :
    ∃ first rest, intText value = first :: rest ∧ (first.isDigit ∨ first = '-') := by
  cases value with
  | ofNat value =>
    obtain ⟨first, digits, written, digit⟩ := exists_toDigits value
    exact ⟨first, digits, written, .inl digit⟩
  | negSucc value => exact ⟨'-', _, rfl, .inr rfl⟩

theorem integer?_of_isDigit {first : Char} (digit : first.isDigit) (rest : List Char) :
    integer? (first :: rest) =
      (natural? (first :: rest)).map fun found => (.ofNat found.1, found.2) := by
  rw [integer?]
  intro tail same
  obtain ⟨rfl, -⟩ := List.cons.inj same
  exact absurd digit (by decide)

/-- **An integer is read from its text.** -/
theorem integer?_append (value : Int) {rest : List Char} (ends : Ends rest) :
    integer? (intText value ++ rest) = some (value, rest) := by
  cases value with
  | negSucc value => rw [intText, List.cons_append, integer?, natural?_append _ ends]
  | ofNat value =>
    have read := natural?_append value ends
    obtain ⟨first, digits, written, digit⟩ := exists_toDigits value
    rw [written] at read
    rw [intText, written, List.cons_append, integer?_of_isDigit digit, ← List.cons_append, read]
    rfl

/-- An integer that is read was written. -/
theorem append_of_integer? {text rest : List Char} {value : Int}
    (found : integer? text = some (value, rest)) : intText value ++ rest = text := by
  unfold integer? at found
  split at found
  · next tail =>
    split at found
    · next number after read =>
      obtain ⟨rfl, rfl⟩ := Prod.mk.inj (Option.some.inj found)
      rw [intText, List.cons_append, append_of_natural? read]
    · cases found
  · obtain ⟨⟨number, after⟩, read, same⟩ := Option.map_eq_some_iff.mp found
    obtain ⟨rfl, rfl⟩ := Prod.mk.inj same
    exact append_of_natural? read

/-! ### First characters -/

/-- A text that starts like an integer is read as one. -/
theorem read?_of_starts {first : Char} (starts : first.isDigit ∨ first = '-') (bound : Nat)
    (rest : List Char) : read? (bound + 1) (first :: rest) =
      (integer? (first :: rest)).map fun found => (int found.1, found.2) := by
  have others : first ≠ 'N' ∧ first ≠ 'T' ∧ first ≠ 'F' ∧ first ≠ '(' := by
    rcases starts with digit | rfl
    · refine ⟨?_, ?_, ?_, ?_⟩ <;> rintro rfl <;> exact absurd digit (by decide)
    · decide
  obtain ⟨noNull, noTrue, noFalse, noList⟩ := others
  rw [read?]
  · exact fun _ same => noNull (List.cons.inj same).1
  · exact fun _ same => noTrue (List.cons.inj same).1
  · exact fun _ same => noFalse (List.cons.inj same).1
  · exact fun _ same => noList (List.cons.inj same).1
  · exact fun _ same => noList (List.cons.inj same).1

/-- A value starts with something else than the end of a list. -/
theorem IsTold.chars_eq_cons {value : Value} (told : value.IsTold) :
    ∃ first rest, value.chars = first :: rest ∧ first ≠ ')' := by
  cases told with
  | null => exact ⟨'N', _, rfl, by decide⟩
  | bool value => cases value <;> exact ⟨_, _, rfl, by decide⟩
  | list => exact ⟨'(', _, rfl, by decide⟩
  | int value =>
    obtain ⟨first, rest, written, starts⟩ := exists_intText value
    refine ⟨first, rest, written, ?_⟩
    rintro rfl
    exact absurd starts (by decide)

/-! ### What is written is read -/

theorem separated_items (item second : Value) (items : List Value) :
    separated [',', ' '] (itemChars (item :: second :: items)) =
      item.chars ++ ',' :: ' ' :: separated [',', ' '] (itemChars (second :: items)) := by
  rw [itemChars, itemChars, separated, separated, List.intercalate_cons_cons, List.append_assoc]
  rfl

/-- **The items of a list are read**, given that each of them is. -/
theorem readItems?_append {items : List Value} (filled : items ≠ [])
    (each : ∀ item ∈ items, ∀ rest, Ends rest → ∀ bound, item.chars.length ≤ bound →
      read? bound (item.chars ++ rest) = some (item, rest))
    (rest : List Char) {bound : Nat}
    (enough : (separated [',', ' '] (itemChars items)).length < bound) :
    readItems? bound (separated [',', ' '] (itemChars items) ++ ')' :: rest) =
      some (items, rest) := by
  induction items generalizing bound with
  | nil => exact absurd rfl filled
  | cons item items step =>
    obtain ⟨bound, rfl⟩ := Nat.exists_eq_succ_of_ne_zero (Nat.ne_of_gt (Nat.zero_lt_of_lt enough))
    have first := each item List.mem_cons_self
    cases items with
    | nil =>
      rw [itemChars, itemChars, separated, List.intercalate_singleton] at enough ⊢
      rw [readItems?, first _ (ends_cons (by decide) rest) bound (Nat.le_of_lt_succ enough)]
      rfl
    | cons second items =>
      rw [separated_items, List.length_append, List.length_cons, List.length_cons] at enough
      rw [separated_items, List.append_assoc, List.cons_append, List.cons_append, readItems?,
        first _ (ends_cons (by decide) _) bound (by omega)]
      have length : (separated [',', ' '] (itemChars (second :: items))).length < bound := by omega
      have others := step (List.cons_ne_nil _ _)
        (fun other member => each other (List.mem_cons_of_mem _ member)) length
      simp only [others, Option.map_some]

/-- The items of a list start with something else than its end. -/
theorem exists_separated {items : List Value} (filled : items ≠ [])
    (told : ∀ item ∈ items, item.IsTold) :
    ∃ first rest, separated [',', ' '] (itemChars items) = first :: rest ∧ first ≠ ')' := by
  obtain ⟨item, items, rfl⟩ := List.exists_cons_of_ne_nil filled
  obtain ⟨first, rest, written, other⟩ := (told item List.mem_cons_self).chars_eq_cons
  cases items with
  | nil =>
    refine ⟨first, rest, ?_, other⟩
    rw [itemChars, itemChars, separated, List.intercalate_singleton, written]
  | cons second items =>
    refine ⟨first, rest ++ ',' :: ' ' :: separated [',', ' '] (itemChars (second :: items)), ?_,
      other⟩
    rw [separated_items, written, List.cons_append]

theorem read?_list {first : Char} (other : first ≠ ')') (bound : Nat) (rest : List Char) :
    read? (bound + 1) ('(' :: first :: rest) =
      (readItems? bound (first :: rest)).map fun found => (list found.1, found.2) := by
  rw [read?]
  exact fun _ same => other (List.cons.inj same).1

/-- The text of a value is not empty, so there is a step to read it. -/
theorem IsTold.exists_step {value : Value} (told : value.IsTold) {bound : Nat}
    (enough : value.chars.length ≤ bound) : ∃ further, bound = further + 1 := by
  obtain ⟨first, rest, written, -⟩ := told.chars_eq_cons
  rw [written] at enough
  exact Nat.exists_eq_add_of_le' (Nat.le_trans (Nat.succ_pos _) enough)

/-- **What is written is read**, whatever follows it but a digit. -/
theorem read?_chars {value : Value} (told : value.IsTold) : ∀ rest, Ends rest → ∀ bound,
    value.chars.length ≤ bound → read? bound (value.chars ++ rest) = some (value, rest) := by
  induction told with
  | null =>
    intro rest _ bound enough
    obtain ⟨bound, rfl⟩ := IsTold.null.exists_step enough
    rfl
  | bool value =>
    intro rest _ bound enough
    obtain ⟨bound, rfl⟩ := (IsTold.bool value).exists_step enough
    cases value <;> rfl
  | int value =>
    intro rest ends bound enough
    obtain ⟨bound, rfl⟩ := (IsTold.int value).exists_step enough
    obtain ⟨first, tail, written, starts⟩ := exists_intText value
    have read := integer?_append value ends
    rw [written] at read
    rw [chars, written, List.cons_append, read?_of_starts starts, ← List.cons_append, read]
    rfl
  | @list items all step =>
    intro rest _ bound enough
    obtain ⟨bound, rfl⟩ := (IsTold.list all).exists_step enough
    by_cases none : items = []
    · subst none
      rfl
    · have length : (separated [',', ' '] (itemChars items)).length < bound := by
        rw [chars, List.length_append, List.length_cons, List.length_singleton] at enough
        omega
      have read := readItems?_append none step rest length
      obtain ⟨first, tail, written, other⟩ := exists_separated none all
      rw [written, List.cons_append] at read
      rw [chars, written, List.append_assoc, List.cons_append, List.cons_append,
        List.singleton_append, read?_list other, read]
      rfl

/-! ### What is read was written -/

/-- **What is read was written**, and so were the items of a list. -/
theorem chars_of_read? (bound : Nat) :
    (∀ text value rest, read? bound text = some (value, rest) →
      value.IsTold ∧ value.chars ++ rest = text) ∧
    ∀ text items rest, readItems? bound text = some (items, rest) →
      (items ≠ [] ∧ ∀ item ∈ items, item.IsTold) ∧
        separated [',', ' '] (itemChars items) ++ ')' :: rest = text := by
  -- On the bound, for values and items together, since each of them reads the other with less.
  induction bound with
  | zero => exact ⟨nofun, nofun⟩
  | succ bound step =>
    obtain ⟨stepRead, stepItems⟩ := step
    constructor
    · intro text value rest found
      unfold read? at found
      split at found
      · cases found
      · obtain ⟨rfl, rfl⟩ := Prod.mk.inj (Option.some.inj found)
        exact ⟨.null, rfl⟩
      · obtain ⟨rfl, rfl⟩ := Prod.mk.inj (Option.some.inj found)
        exact ⟨.bool true, rfl⟩
      · obtain ⟨rfl, rfl⟩ := Prod.mk.inj (Option.some.inj found)
        exact ⟨.bool false, rfl⟩
      · obtain ⟨rfl, rfl⟩ := Prod.mk.inj (Option.some.inj found)
        exact ⟨.list nofun, rfl⟩
      · next _ _ _ _ _ further =>
        obtain rfl := Nat.succ.inj further
        obtain ⟨⟨items, after⟩, read, same⟩ := Option.map_eq_some_iff.mp found
        obtain ⟨rfl, rfl⟩ := Prod.mk.inj same
        obtain ⟨⟨-, told⟩, written⟩ := stepItems _ _ _ read
        refine ⟨.list told, ?_⟩
        rw [chars, List.append_assoc, List.cons_append, List.singleton_append, written]
      · obtain ⟨⟨number, after⟩, read, same⟩ := Option.map_eq_some_iff.mp found
        obtain ⟨rfl, rfl⟩ := Prod.mk.inj same
        exact ⟨.int number, append_of_integer? read⟩
    · intro text items rest found
      rw [readItems?] at found
      split at found
      · next item after read =>
        obtain ⟨⟨others, after⟩, readOthers, same⟩ := Option.map_eq_some_iff.mp found
        obtain ⟨rfl, rfl⟩ := Prod.mk.inj same
        obtain ⟨told, written⟩ := stepRead _ _ _ read
        obtain ⟨⟨filled, allTold⟩, writtenOthers⟩ := stepItems _ _ _ readOthers
        obtain ⟨second, others, rfl⟩ := List.exists_cons_of_ne_nil filled
        refine ⟨⟨List.cons_ne_nil _ _, List.forall_mem_cons.mpr ⟨told, allTold⟩⟩, ?_⟩
        rw [separated_items, List.append_assoc, List.cons_append, List.cons_append, writtenOthers,
          written]
      · next item after read =>
        obtain ⟨rfl, rfl⟩ := Prod.mk.inj (Option.some.inj found)
        obtain ⟨told, written⟩ := stepRead _ _ _ read
        refine ⟨⟨List.cons_ne_nil _ _, List.forall_mem_singleton.mpr told⟩, ?_⟩
        rw [itemChars, itemChars, separated, List.intercalate_singleton, written]
      · cases found

/-! ### Whole texts -/

theorem length_sql (value : Value) : value.sql.length = value.chars.length := by
  rw [sql, String.length_ofList]

/-- **A text is read as a value** exactly when it is the text of that value. -/
theorem ofSql?_eq_some_iff {text : String} {value : Value} :
    ofSql? text = some value ↔ value.IsTold ∧ value.sql = text := by
  constructor
  · intro found
    unfold ofSql? at found
    split at found
    · next read =>
      obtain rfl := Option.some.inj found
      obtain ⟨told, written⟩ := (chars_of_read? _).1 _ _ _ read
      rw [List.append_nil] at written
      exact ⟨told, by rw [sql, written, String.ofList_toList]⟩
    · cases found
  · rintro ⟨told, rfl⟩
    have read := read?_chars told [] rfl value.sql.length (length_sql value).ge
    rw [List.append_nil] at read
    rw [ofSql?, sql, String.toList_ofList, ← sql, read]

/-- Two values with one text are the same. -/
theorem sql_injOn : {value | IsTold value}.InjOn sql := by
  intro value told other otherTold same
  have read := ofSql?_eq_some_iff.mpr ⟨told, rfl⟩
  rw [same, ofSql?_eq_some_iff.mpr ⟨otherTold, rfl⟩] at read
  exact (Option.some.inj read).symm

/-- The text of a lookup ends with the text of its list. -/
theorem sql_among (column : String) (values : List Value) (negated : Bool) :
    (Condition.among column values negated).sql =
      column ++ " " ++ ((if negated then "NOT IN" else "IN") ++ " " ++ (list values).sql) := by
  rw [Condition.among, Condition.sql, Condition.spaced, String.intercalate_cons_cons,
    String.intercalate_cons_cons, String.intercalate_singleton]

/-- **The text of a value tells which value it is**, for values made of null, truth values and
integers of any size in lists nested to any depth: `ofSql?` recovers exactly these values from
exactly their texts. So two of them with one text are the same, and so are two lists of them that a
column is looked up in with one text. -/
theorem sql_unambiguous :
    (∀ text value, ofSql? text = some value ↔ value.IsTold ∧ value.sql = text) ∧
    {value | IsTold value}.InjOn sql ∧
    ∀ column negated, {values | ∀ value ∈ values, IsTold value}.InjOn
      fun values => (Condition.among column values negated).sql := by
  refine ⟨fun text value => ofSql?_eq_some_iff, sql_injOn, ?_⟩
  intro column negated values told others othersTold same
  simp only [sql_among] at same
  have lists : (list values).sql = (list others).sql :=
    String.append_right_inj _ |>.mp (String.append_right_inj _ |>.mp same)
  exact Value.list.inj (sql_injOn (.list told) (.list othersTold) lists)

end SqlDraft.Value
