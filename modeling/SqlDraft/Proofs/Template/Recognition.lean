/-
**Conversions by their bytes.**

The bytes of a conversion are a `%`, flags, width and precision, length letters and a kind, all of
them characters of one byte. So a text starts with the bytes of a conversion just where it starts
with the conversion, and the number of bytes that the search finds is the only one:

* `Template.SpellsConversion`: the bytes of a conversion, with its `%`.
* `Template.isPrefix_of_bytes`: narrow characters are found by their bytes.
* **`Template.spellsConversion_take_iff`**: the first bytes of a text are a conversion where its
  first characters are.
* **`Template.conversion_recognized_exactly`**: the search finds a conversion exactly where there is
  one.
-/

import SqlDraft.Proofs.Template.Offsets

namespace SqlDraft.Template

/-- The bytes of a conversion, with its `%`. -/
def SpellsConversion (row : List UInt8) : Prop :=
  ∃ flags measures lengths kind,
    row = bytes ['%'] ++ (flags ++ (measures ++ (lengths ++ [kind]))) ∧
      flags ⊆ bytes "-+ #0".toList ∧ measures ⊆ bytes "0123456789.*".toList ∧
      lengths ⊆ bytes "hlLqjzt".toList ∧ kind ∈ bytes "sdiuoxXfFeEgGc".toList

/-- A conversion has a `%` and a kind at least. -/
theorem SpellsConversion.two_le_length {row : List UInt8} (spells : SpellsConversion row) :
    2 ≤ row.length := by
  obtain ⟨flags, measures, lengths, kind, rfl, -⟩ := spells
  have percent : (bytes ['%']).length = 1 := by decide
  simp only [List.length_append, List.length_singleton, percent]
  omega

/-! ### Characters by their bytes -/

/-- A byte of narrow letters is one of them. -/
theorem exists_of_mem_bytes {letters : List Char} (narrow : ∀ char ∈ letters, char.toNat < 128)
    {byte : UInt8} (member : byte ∈ bytes letters) : ∃ char ∈ letters, bytes [char] = [byte] := by
  obtain ⟨char, inLetters, encodes⟩ := List.mem_flatMap.mp member
  have encoded := utf8EncodeChar_of_narrow (narrow char inLetters)
  rw [encoded, List.mem_singleton] at encodes
  exact ⟨char, inLetters, by rw [bytes_cons, encoded, encodes]; rfl⟩

/-- Bytes of narrow letters are some of these letters in a row. -/
theorem exists_of_subset_bytes {letters : List Char} (narrow : ∀ char ∈ letters, char.toNat < 128)
    {row : List UInt8} (inside : row ⊆ bytes letters) :
    ∃ text, text ⊆ letters ∧ bytes text = row := by
  induction row with
  | nil => exact ⟨[], List.nil_subset letters, rfl⟩
  | cons byte rest step =>
    obtain ⟨char, inLetters, single⟩ := exists_of_mem_bytes narrow (inside List.mem_cons_self)
    obtain ⟨text, inLettersToo, encoded⟩ :=
      step fun other member => inside (List.mem_cons_of_mem byte member)
    refine ⟨char :: text, List.cons_subset.mpr ⟨inLetters, inLettersToo⟩, ?_⟩
    rw [← List.singleton_append, bytes_append, single, encoded, List.singleton_append]

theorem bytes_subset {text letters : List Char} (inside : text ⊆ letters) :
    bytes text ⊆ bytes letters := by
  intro byte member
  obtain ⟨char, inText, encodes⟩ := List.mem_flatMap.mp member
  exact List.mem_flatMap.mpr ⟨char, inside inText, encodes⟩

/-- **Narrow characters are found by their bytes**: the first byte of a character tells whether it
is one of them. -/
theorem isPrefix_of_bytes {front text : List Char} (narrow : ∀ char ∈ front, char.toNat < 128)
    (starts : bytes front <+: bytes text) : front <+: text := by
  induction front generalizing text with
  | nil => exact List.nil_prefix
  | cons char front step =>
    have small := narrow char List.mem_cons_self
    rw [bytes_cons, utf8EncodeChar_of_narrow small, List.singleton_append] at starts
    cases text with
    | nil => exact absurd (List.prefix_nil.mp starts) (List.cons_ne_nil _ _)
    | cons other rest =>
      have isNarrow : Narrow (· = char) := fun found same => of_decide_eq_true same ▸ small
      obtain ⟨byte, more, encoded, same, single, -⟩ := exists_utf8EncodeChar isNarrow other
      rw [bytes_cons, encoded, List.cons_append] at starts
      obtain ⟨first, further⟩ := List.cons_prefix_cons.mp starts
      have found : isByte (· = char) byte = true := by
        rw [← first, isByte_ofNat _ small, decide_eq_true rfl]
      have known := same.symm.trans found
      rw [single known, List.nil_append] at further
      rw [of_decide_eq_true known]
      exact List.cons_prefix_cons.mpr
        ⟨rfl, step (fun found member => narrow found (List.mem_cons_of_mem char member)) further⟩

/-! ### Conversions by their bytes -/

theorem IsConversion.narrow {marker : List Char} (conversion : IsConversion marker) :
    ∀ char ∈ marker, char.toNat < 128 := by
  obtain ⟨flags, measures, lengths, kind, rfl, flagged, measured, short, known⟩ := conversion
  have small : ∀ char ∈ "-+ #00123456789.*hlLqjztsdiuoxXfFeEgGc".toList, char.toNat < 128 :=
    List.forall_iff_forall_mem.mp (by decide)
  have letters : "-+ #00123456789.*hlLqjztsdiuoxXfFeEgGc".toList =
      "-+ #0".toList ++ ("0123456789.*".toList ++ ("hlLqjzt".toList ++ "sdiuoxXfFeEgGc".toList)) :=
    rfl
  rw [letters] at small
  simp only [List.mem_append] at small ⊢
  intro char member
  refine small char ?_
  rcases member with isFlag | isMeasure | isLength | isKind
  · exact .inl (flagged isFlag)
  · exact .inr (.inl (measured isMeasure))
  · exact .inr (.inr (.inl (short isLength)))
  · exact .inr (.inr (.inr (List.mem_singleton.mp isKind ▸ known)))

/-- **The bytes of a conversion are those of its characters.** -/
theorem spellsConversion_iff {row : List UInt8} :
    SpellsConversion row ↔ ∃ marker, IsConversion marker ∧ row = bytes ('%' :: marker) := by
  constructor
  · rintro ⟨flags, measures, lengths, kind, rfl, flagged, measured, short, known⟩
    obtain ⟨flags, areFlags, rfl⟩ :=
      exists_of_subset_bytes (List.forall_iff_forall_mem.mp (by decide)) flagged
    obtain ⟨measures, areMeasures, rfl⟩ :=
      exists_of_subset_bytes (List.forall_iff_forall_mem.mp (by decide)) measured
    obtain ⟨lengths, areLengths, rfl⟩ :=
      exists_of_subset_bytes (List.forall_iff_forall_mem.mp (by decide)) short
    obtain ⟨kind, isKind, single⟩ :=
      exists_of_mem_bytes (List.forall_iff_forall_mem.mp (by decide)) known
    refine ⟨_, ⟨flags, measures, lengths, kind, rfl, areFlags, areMeasures, areLengths, isKind⟩, ?_⟩
    rw [← single, ← bytes_append, ← bytes_append, ← bytes_append, ← bytes_append]
    rfl
  · rintro ⟨marker, ⟨flags, measures, lengths, kind, rfl, flagged, measured, short, known⟩, rfl⟩
    obtain ⟨byte, single⟩ : ∃ byte, bytes [kind] = [byte] := by
      have small : ∀ char ∈ "sdiuoxXfFeEgGc".toList, char.toNat < 128 :=
        List.forall_iff_forall_mem.mp (by decide)
      exact ⟨_, by rw [bytes_cons, utf8EncodeChar_of_narrow (small kind known)]; rfl⟩
    refine ⟨bytes flags, bytes measures, bytes lengths, byte, ?_, bytes_subset flagged,
      bytes_subset measured, bytes_subset short, ?_⟩
    · rw [← single, ← bytes_append, ← bytes_append, ← bytes_append, ← bytes_append]
      rfl
    · refine bytes_subset (List.cons_subset.mpr ⟨known, List.nil_subset _⟩) ?_
      rw [single]
      exact List.mem_cons_self

/-- **The first bytes of a text are a conversion just where its first characters are one.** -/
theorem spellsConversion_take_iff (text : List Char) (length : Nat) :
    length ≤ (bytes ('%' :: text)).length ∧ SpellsConversion ((bytes ('%' :: text)).take length) ↔
      ∃ marker rest, IsConversion marker ∧ marker ++ rest = text ∧
        (bytes ('%' :: marker)).length = length := by
  constructor
  · rintro ⟨inside, spells⟩
    obtain ⟨marker, conversion, same⟩ := spellsConversion_iff.mp spells
    have narrow : ∀ char ∈ '%' :: marker, char.toNat < 128 :=
      List.forall_mem_cons.mpr ⟨by decide, conversion.narrow⟩
    obtain ⟨rest, whole⟩ := (List.cons_prefix_cons.mp
      (isPrefix_of_bytes narrow (same ▸ List.take_prefix length _))).2
    exact ⟨marker, rest, conversion, whole, by rw [← same, List.length_take_of_le inside]⟩
  · rintro ⟨marker, rest, conversion, rfl, rfl⟩
    rw [← List.cons_append, bytes_append, List.take_left, List.length_append]
    exact ⟨Nat.le_add_right _ _, spellsConversion_iff.mpr ⟨marker, conversion, rfl⟩⟩

/-- The number of bytes of a conversion is found by taking as much as possible for each of its
parts. -/
theorem conversionLength?_eq_some_iff (text : List Char) (length : Nat) :
    conversionLength? (bytes ('%' :: text)) = some length ↔
      length ≤ (bytes ('%' :: text)).length ∧
        SpellsConversion ((bytes ('%' :: text)).take length) := by
  rw [spellsConversion_take_iff, conversionLength?_eq, Option.map_eq_some_iff]
  constructor
  · rintro ⟨⟨marker, rest⟩, found, counted⟩
    obtain ⟨conversion, whole⟩ := conversion?_eq_some_iff.mp found
    exact ⟨marker, rest, conversion, whole, counted⟩
  · rintro ⟨marker, rest, conversion, whole, counted⟩
    exact ⟨(marker, rest), conversion?_eq_some_iff.mpr ⟨conversion, whole⟩, counted⟩

/-- **A conversion is recognized exactly.** The search by bytes finds what is found by characters.
It finds a number of bytes just where so many first bytes are a conversion, and none where no number
of them is. There is one such number at most; it is two or more and not behind the end, and the text
can be cut there, right behind the conversion. -/
theorem conversion_recognized_exactly (text : List Char) :
    conversionLength? (bytes ('%' :: text)) =
        (conversion? text).map (fun parts => (bytes ('%' :: parts.1)).length) ∧
      (∀ length, conversionLength? (bytes ('%' :: text)) = some length ↔
        length ≤ (bytes ('%' :: text)).length ∧
          SpellsConversion ((bytes ('%' :: text)).take length)) ∧
      (conversionLength? (bytes ('%' :: text)) = none ↔
        ∀ row, row <+: bytes ('%' :: text) → ¬ SpellsConversion row) ∧
      (∀ row other, row <+: bytes ('%' :: text) → other <+: bytes ('%' :: text) →
        SpellsConversion row → SpellsConversion other → row = other) ∧
      ∀ length, conversionLength? (bytes ('%' :: text)) = some length →
        2 ≤ length ∧ length ≤ (bytes ('%' :: text)).length ∧
          ∃ marker rest, conversion? text = some (marker, rest) ∧
            cut? ('%' :: text) length = some ('%' :: marker, rest) := by
  have found_of_spells (row : List UInt8) (starts : row <+: bytes ('%' :: text))
      (spells : SpellsConversion row) :
      conversionLength? (bytes ('%' :: text)) = some row.length := by
    rw [conversionLength?_eq_some_iff, ← List.prefix_iff_eq_take.mp starts]
    exact ⟨starts.length_le, spells⟩
  refine ⟨conversionLength?_eq text, conversionLength?_eq_some_iff text, ⟨?_, ?_⟩, ?_, ?_⟩
  · intro none row starts spells
    exact Option.some_ne_none _ ((found_of_spells row starts spells).symm.trans none)
  · intro none
    cases found : conversionLength? (bytes ('%' :: text)) with
    | none => rfl
    | some length =>
      exact absurd ((conversionLength?_eq_some_iff text length).mp found).2
        (none _ (List.take_prefix length _))
  · intro row other starts startsToo spells spellsToo
    have same : row.length = other.length := Option.some.inj
      ((found_of_spells row starts spells).symm.trans (found_of_spells other startsToo spellsToo))
    exact (List.prefix_of_prefix_length_le starts startsToo same.le).eq_of_length same
  · intro length found
    obtain ⟨inside, spells⟩ := (conversionLength?_eq_some_iff text length).mp found
    have least := spells.two_le_length
    rw [List.length_take_of_le inside] at least
    obtain ⟨marker, rest, conversion, rfl, rfl⟩ :=
      (spellsConversion_take_iff text length).mp ⟨inside, spells⟩
    exact ⟨least, inside, marker, rest, conversion?_append conversion rest,
      cut?_append ('%' :: marker) rest⟩

end SqlDraft.Template
