/-
**The grammar of templates.**

A template is read from left to right as pairs `%%`, conversions, a `%` that starts neither of them,
and other characters. A conversion is found by taking as much as possible for each of its parts, and
although `0` is a flag and a digit, nothing is missed that way:

* `Template.IsConversion`: what follows the `%` of a conversion.
* **`Template.conversion?_eq_some_iff`**: the parts taken greedily are the conversion, if there is
  one.
* `Template.Reads`: a template is read as some segments.
* **`Template.reads_iff`**: there is one way to read a template.
* `Template.written`: segments with arguments, each conversion with the argument of its number.
* `Template.fill_eq_written`, `Template.fill_append`: what a filled template is made of.
-/

import Mathlib.Data.List.Basic
import Mathlib.Tactic.IntervalCases
import SqlDraft.Template

namespace SqlDraft.Template

/-! ### Conversions -/

/-- What follows the `%` of a conversion: flags, then width and precision, then length letters, then
the letter of its kind. -/
def IsConversion (marker : List Char) : Prop :=
  ∃ flags measures lengths kind, marker = flags ++ (measures ++ (lengths ++ [kind])) ∧
    flags ⊆ "-+ #0".toList ∧ measures ⊆ "0123456789.*".toList ∧ lengths ⊆ "hlLqjzt".toList ∧
    kind ∈ "sdiuoxXfFeEgGc".toList

theorem isFlag_iff (char : Char) : isFlag char ↔ char ∈ "-+ #0".toList := decide_eq_true_iff

theorem isLength_iff (char : Char) : isLength char ↔ char ∈ "hlLqjzt".toList := decide_eq_true_iff

theorem isKind_iff (char : Char) : isKind char ↔ char ∈ "sdiuoxXfFeEgGc".toList :=
  decide_eq_true_iff

theorem isMeasure_iff (char : Char) : isMeasure char ↔ char ∈ "0123456789.*".toList := by
  constructor
  · intro measure
    simp only [isMeasure, Char.isDigit, Bool.or_eq_true, Bool.and_eq_true, decide_eq_true_eq,
      UInt32.le_iff_toNat_le] at measure
    rcases measure with (digit | rfl) | rfl
    · obtain ⟨least, most⟩ : 48 ≤ char.toNat ∧ char.toNat ≤ 57 := digit
      rw [← Char.ofNat_toNat char]
      interval_cases char.toNat <;> decide
    · decide
    · decide
  · have all : "0123456789.*".toList.all isMeasure = true := by decide
    exact List.all_eq_true.mp all char

/-- What is taken for a part ends where the first character behind the part is not one of it. -/
theorem takeWhile_append_of_stops {isPart : Char → Bool} (front : List Char) {tail : List Char}
    (stops : tail.takeWhile isPart = []) :
    (front ++ tail).takeWhile isPart = front.takeWhile isPart := by
  rw [List.takeWhile_append, stops, List.append_nil]
  split
  · next whole => exact ((List.takeWhile_prefix isPart).eq_of_length whole).symm
  · rfl

/-- A part is taken whole, and what is behind it is left. -/
theorem takeWhile_part {isPart : Char → Bool} {part tail : List Char}
    (inside : ∀ char ∈ part, isPart char) (stops : tail.takeWhile isPart = []) :
    (part ++ tail).takeWhile isPart = part ∧ (part ++ tail).dropWhile isPart = tail := by
  have left := List.takeWhile_append_dropWhile (p := isPart) (l := tail)
  rw [stops, List.nil_append] at left
  rw [List.takeWhile_append_of_pos inside, List.dropWhile_append_of_pos inside, stops, left]
  exact ⟨List.append_nil part, rfl⟩

theorem takeWhile_dropWhile (isPart : Char → Bool) (text : List Char) :
    (text.dropWhile isPart).takeWhile isPart = [] := by
  induction text with
  | nil => rfl
  | cons char rest step =>
    by_cases inside : isPart char
    · rw [List.dropWhile_cons_of_pos inside, step]
    · rw [List.dropWhile_cons_of_neg inside, List.takeWhile_cons_of_neg inside]

theorem takeWhile_subset {isPart : Char → Bool} {letters : List Char}
    (known : ∀ char, isPart char ↔ char ∈ letters) (text : List Char) :
    text.takeWhile isPart ⊆ letters := fun char member =>
  (known char).mp (List.all_eq_true.mp List.all_takeWhile char member)

/-- The letters behind flags and measures are neither. -/
theorem takeWhile_letters {isPart : Char → Bool}
    (apart : "hlLqjztsdiuoxXfFeEgGc".toList.any isPart = false) {lengths : List Char}
    (short : lengths ⊆ "hlLqjzt".toList) {kind : Char} (known : kind ∈ "sdiuoxXfFeEgGc".toList)
    (rest : List Char) : (lengths ++ kind :: rest).takeWhile isPart = [] := by
  have letters : "hlLqjztsdiuoxXfFeEgGc".toList = "hlLqjzt".toList ++ "sdiuoxXfFeEgGc".toList := rfl
  rw [letters, List.any_eq_false] at apart
  cases lengths with
  | nil => exact List.takeWhile_cons_of_neg (apart kind (List.mem_append_right _ known))
  | cons letter more =>
    exact List.takeWhile_cons_of_neg
      (apart letter (List.mem_append_left _ (short List.mem_cons_self)))

/-- The zeros at the front of the measures may as well be flags. -/
theorem IsConversion.exists_greedy {marker : List Char} (conversion : IsConversion marker) :
    ∃ flags measures lengths kind, marker = flags ++ (measures ++ (lengths ++ [kind])) ∧
      (∀ char ∈ flags, isFlag char) ∧ (∀ char ∈ measures, isMeasure char) ∧
      measures.takeWhile isFlag = [] ∧ lengths ⊆ "hlLqjzt".toList ∧
      kind ∈ "sdiuoxXfFeEgGc".toList := by
  obtain ⟨flags, measures, lengths, kind, rfl, flagged, measured, short, known⟩ := conversion
  refine ⟨flags ++ measures.takeWhile isFlag, measures.dropWhile isFlag, lengths, kind, ?_, ?_, ?_,
    takeWhile_dropWhile isFlag measures, short, known⟩
  · rw [List.append_assoc flags, ← List.append_assoc (measures.takeWhile isFlag),
      List.takeWhile_append_dropWhile]
  · intro char member
    rcases List.mem_append.mp member with inFlags | inMeasures
    · exact (isFlag_iff char).mpr (flagged inFlags)
    · exact List.all_eq_true.mp List.all_takeWhile char inMeasures
  · intro char member
    exact (isMeasure_iff char).mpr (measured ((List.dropWhile_suffix isFlag).subset member))

/-- **A conversion is found where there is one.** -/
theorem conversion?_append {marker : List Char} (conversion : IsConversion marker)
    (rest : List Char) : conversion? (marker ++ rest) = some (marker, rest) := by
  obtain ⟨flags, measures, lengths, kind, rfl, isFlags, isMeasures, apart, short, known⟩ :=
    conversion.exists_greedy
  have isLengths : ∀ char ∈ lengths, isLength char := fun char member =>
    (isLength_iff char).mpr (short member)
  have lengthsStop : (kind :: rest).takeWhile isLength = [] := by
    have none : "sdiuoxXfFeEgGc".toList.any isLength = false := by decide
    exact List.takeWhile_cons_of_neg (List.any_eq_false.mp none kind known)
  have flagsStop : (measures ++ (lengths ++ kind :: rest)).takeWhile isFlag = [] := by
    rw [takeWhile_append_of_stops measures (takeWhile_letters (by decide) short known rest), apart]
  obtain ⟨flagsTaken, afterFlags⟩ := takeWhile_part isFlags flagsStop
  obtain ⟨measuresTaken, afterMeasures⟩ :=
    takeWhile_part isMeasures (takeWhile_letters (by decide) short known rest)
  obtain ⟨lengthsTaken, afterLengths⟩ := takeWhile_part isLengths lengthsStop
  have text : flags ++ (measures ++ (lengths ++ [kind])) ++ rest =
      flags ++ (measures ++ (lengths ++ kind :: rest)) := by simp
  rw [text]
  simp only [conversion?, flagsTaken, afterFlags, measuresTaken, afterMeasures, lengthsTaken,
    afterLengths, (isKind_iff kind).mpr known, if_true, List.append_assoc]

theorem isConversion_of_conversion? {text marker rest : List Char}
    (found : conversion? text = some (marker, rest)) : IsConversion marker := by
  unfold conversion? at found
  simp only at found
  split at found
  · next kind after ends =>
    split at found
    · next known =>
      obtain ⟨rfl, -⟩ := Prod.mk.inj (Option.some.inj found)
      exact ⟨text.takeWhile isFlag, (text.dropWhile isFlag).takeWhile isMeasure, _, kind,
        (List.append_assoc _ _ _).trans (List.append_assoc _ _ _), takeWhile_subset isFlag_iff _,
        takeWhile_subset isMeasure_iff _, takeWhile_subset isLength_iff _,
        (isKind_iff kind).mp known⟩
    · cases found
  · cases found

/-- **The parts that are taken greedily are the conversion**, if the text starts with one. -/
theorem conversion?_eq_some_iff {text marker rest : List Char} :
    conversion? text = some (marker, rest) ↔ IsConversion marker ∧ marker ++ rest = text := by
  constructor
  · exact fun found => ⟨isConversion_of_conversion? found, append_of_conversion? found⟩
  · rintro ⟨conversion, rfl⟩
    exact conversion?_append conversion rest

/-- No conversion is found just where the text starts with none. -/
theorem conversion?_eq_none_iff {text : List Char} :
    conversion? text = none ↔ ∀ marker, IsConversion marker → ¬ marker <+: text := by
  constructor
  · rintro none marker conversion ⟨rest, rfl⟩
    rw [conversion?_append conversion] at none
    cases none
  · intro none
    cases found : conversion? text with
    | none => rfl
    | some parts =>
      obtain ⟨conversion, whole⟩ := conversion?_eq_some_iff.mp found
      exact absurd ⟨parts.2, whole⟩ (none parts.1 conversion)

/-! ### Reading a template -/

/-- **A template is read as some segments**, from left to right. -/
inductive Reads : List Char → List Segment → Prop
  | done : Reads [] []
  | percent {rest : List Char} {pieces : List Segment} (further : Reads rest pieces) :
      Reads ('%' :: '%' :: rest) (.percent :: pieces)
  | conversion {marker rest : List Char} {pieces : List Segment} (matched : IsConversion marker)
      (further : Reads rest pieces) : Reads ('%' :: (marker ++ rest)) (.conversion marker :: pieces)
  /-- A `%` that starts neither a pair nor a conversion. -/
  | lone {rest : List Char} {pieces : List Segment} (unpaired : ¬ ['%'] <+: rest)
      (unmatched : ∀ marker, IsConversion marker → ¬ marker <+: rest)
      (further : Reads rest pieces) : Reads ('%' :: rest) (.plain '%' :: pieces)
  | plain {char : Char} {rest : List Char} {pieces : List Segment} (other : char ≠ '%')
      (further : Reads rest pieces) : Reads (char :: rest) (.plain char :: pieces)

theorem segments_percent (rest : List Char) :
    segments ('%' :: '%' :: rest) = .percent :: segments rest := by
  rw [segments]

/-- A second `%` starts no conversion. -/
theorem conversion?_percent (rest : List Char) : conversion? ('%' :: rest) = none := rfl

theorem segments_of_conversion {rest marker after : List Char}
    (found : conversion? rest = some (marker, after)) :
    segments ('%' :: rest) = .conversion marker :: segments after := by
  rw [segments]
  · split
    · next other behind same =>
      obtain ⟨rfl, rfl⟩ := Prod.mk.inj (Option.some.inj (same.symm.trans found))
      rfl
    · next none => exact absurd (found.symm.trans none) (Option.some_ne_none _)
  · rintro behind rfl
    exact absurd (found.symm.trans (conversion?_percent behind)) (Option.some_ne_none _)

theorem segments_of_lone {rest : List Char} (unpaired : ¬ ['%'] <+: rest)
    (none : conversion? rest = none) : segments ('%' :: rest) = .plain '%' :: segments rest := by
  rw [segments]
  · split
    · next other behind same => exact absurd (same.symm.trans none) (Option.some_ne_none _)
    · rfl
  · rintro behind rfl
    exact unpaired ⟨behind, rfl⟩

/-- A template is read as the segments that it is cut into. -/
theorem reads_segments (text : List Char) : Reads text (segments text) := by
  induction text using segments.induct with
  | case1 =>
    rw [segments]
    exact .done
  | case2 rest step =>
    rw [segments_percent]
    exact .percent step
  | case3 rest unpaired marker after found step =>
    rw [segments_of_conversion found]
    obtain ⟨conversion, rfl⟩ := conversion?_eq_some_iff.mp found
    exact .conversion conversion step
  | case4 rest unpaired none step =>
    have alone : ¬ ['%'] <+: rest := by
      rintro ⟨behind, rfl⟩
      exact unpaired behind rfl
    rw [segments_of_lone alone none]
    exact .lone alone (conversion?_eq_none_iff.mp none) step
  | case5 char rest unpaired other step =>
    rw [segments_plain_cons char rest other]
    exact .plain other step

/-- **There is one way to read a template**, and the template is cut that way. -/
theorem reads_iff {text : List Char} {pieces : List Segment} :
    Reads text pieces ↔ pieces = segments text := by
  constructor
  · intro reads
    induction reads with
    | done => rw [segments]
    | percent _ step => rw [segments_percent, step]
    | conversion matched _ step =>
      rw [segments_of_conversion (conversion?_append matched _), step]
    | lone unpaired unmatched _ step =>
      rw [segments_of_lone unpaired (conversion?_eq_none_iff.mpr unmatched), step]
    | plain other _ step => rw [segments_plain_cons _ _ other, step]
  · rintro rfl
    exact reads_segments text

/-! ### Filling in arguments -/

def Segment.isConversion : Segment → Bool
  | conversion _ => true
  | plain _ | percent => false

/-- The text of a segment, given the argument for it. -/
def Segment.text (argument : Option Value) : Segment → List Char
  | plain char => [char]
  | percent => ['%']
  | conversion marker => argument.elim ('%' :: marker) Value.chars

/-- The number of conversions among some segments. -/
def conversions (pieces : List Segment) : Nat := pieces.countP Segment.isConversion

/-- The text of segments with arguments. The argument for a segment is the one whose number is that
of the conversions before it. -/
def written (pieces : List Segment) (values : List Value) : List Char :=
  (pieces.mapIdx fun place segment => segment.text values[conversions (pieces.take place)]?).flatten

theorem written_cons (segment : Segment) (pieces : List Segment) (values : List Value) :
    written (segment :: pieces) values = segment.text values.head? ++
      written pieces (if segment.isConversion then values.tail else values) := by
  unfold written
  rw [List.mapIdx_cons, List.flatten_cons, List.take_zero, List.head?_eq_getElem?]
  refine congrArg (segment.text values[0]? ++ List.flatten ·) (congrArg (List.mapIdx · pieces) ?_)
  funext place next
  rw [List.take_succ_cons, conversions, conversions, List.countP_cons]
  split
  · rw [List.getElem?_tail]
  · rw [Nat.add_zero]

theorem fill_eq_written (pieces : List Segment) (values : List Value) :
    fill pieces values = written pieces values := by
  induction pieces generalizing values with
  | nil => rw [fill]; rfl
  | cons segment pieces step =>
    rw [written_cons]
    cases segment with
    | plain char => rw [fill, step]; rfl
    | percent => rw [fill, step]; rfl
    | conversion marker =>
      cases values with
      | nil => rw [fill, step]; rfl
      | cons value values => rw [fill, step]; rfl

/-- **Arguments that are left over are not looked at.** -/
theorem fill_append (pieces : List Segment) {values : List Value}
    (enough : conversions pieces ≤ values.length) (more : List Value) :
    fill pieces (values ++ more) = fill pieces values := by
  induction pieces generalizing values with
  | nil => rw [fill, fill]
  | cons segment pieces step =>
    rw [conversions, List.countP_cons] at enough
    cases segment with
    | plain char => rw [fill, fill, step enough]
    | percent => rw [fill, fill, step enough]
    | conversion marker =>
      cases values with
      | nil => exact absurd enough (Nat.not_succ_le_zero _)
      | cons value values =>
        rw [List.cons_append, fill, fill, step (Nat.le_of_succ_le_succ enough)]

/-! ### Expanding a template from the front -/

theorem expand_percent (rest : List Char) (values : List Value) :
    expand ('%' :: '%' :: rest) values = '%' :: expand rest values := by
  rw [expand, segments_percent, fill, expand]

/-- Text without `%` at the front of a template is copied. -/
theorem expand_append_of_plain {front : List Char} (plain : '%' ∉ front) (back : List Char)
    (values : List Value) : expand (front ++ back) values = front ++ expand back values := by
  induction front with
  | nil => rfl
  | cons char front step =>
    simp only [List.mem_cons, not_or] at plain
    rw [List.cons_append, expand, segments_plain_cons char _ (Ne.symm plain.1), fill,
      List.cons_append]
    exact congrArg (char :: ·) (step plain.2)

end SqlDraft.Template
