/-
**Templates with conversions.**

A template is text in which `%` starts a conversion: flags, then width and precision, then length
letters, then one letter for the kind. Only the place of a conversion matters. The arguments fill
the conversions in order, `%%` stands for `%`, and whatever is not a conversion stands for itself,
also a conversion that has no argument left.

* `Template.conversion?`: splits the text behind a `%` at the end of the conversion.
* `Template.segments`: a template cut into what stands for itself, `%%` and conversions.
* `Template.fill`: segments filled with arguments, whose texts are not read again.
* `Template.expand_plain`: text without `%` stands for itself.
-/

import SqlDraft.Value

namespace SqlDraft.Template

/-! ### Conversions -/

/-- The flags of a conversion. -/
def isFlag (char : Char) : Bool := char ∈ ['-', '+', ' ', '#', '0']

/-- The characters of a width and a precision. -/
def isMeasure (char : Char) : Bool := char.isDigit || char = '.' || char = '*'

/-- The length letters of a conversion. -/
def isLength (char : Char) : Bool := char ∈ ['h', 'l', 'L', 'q', 'j', 'z', 't']

/-- The letters that say what is converted and end the conversion. -/
def isKind (char : Char) : Bool :=
  char ∈ ['s', 'd', 'i', 'u', 'o', 'x', 'X', 'f', 'F', 'e', 'E', 'g', 'G', 'c']

/-- Splits the text behind a `%` into the rest of the conversion and what follows it, if there is a
conversion. Each part takes all the characters it can. -/
def conversion? (text : List Char) : Option (List Char × List Char) :=
  let flags := text.takeWhile isFlag
  let afterFlags := text.dropWhile isFlag
  let measures := afterFlags.takeWhile isMeasure
  let afterMeasures := afterFlags.dropWhile isMeasure
  let lengths := afterMeasures.takeWhile isLength
  match afterMeasures.dropWhile isLength with
  | kind :: rest =>
    if isKind kind then some (flags ++ measures ++ lengths ++ [kind], rest) else none
  | [] => none

theorem append_of_conversion? {text conversion rest : List Char}
    (found : conversion? text = some (conversion, rest)) : conversion ++ rest = text := by
  unfold conversion? at found
  simp only at found
  split at found
  · next kind after ends =>
    split at found
    · obtain ⟨rfl, rfl⟩ := Prod.mk.injEq .. ▸ Option.some.injEq .. ▸ found
      rw [List.append_assoc, List.singleton_append, ← ends, List.append_assoc,
        List.takeWhile_append_dropWhile, List.append_assoc, List.takeWhile_append_dropWhile,
        List.takeWhile_append_dropWhile]
    · cases found
  · cases found

theorem length_lt_of_conversion? {text conversion rest : List Char}
    (found : conversion? text = some (conversion, rest)) : rest.length < text.length := by
  have whole := append_of_conversion? found
  have nonempty : conversion ≠ [] := by
    unfold conversion? at found
    simp only at found
    split at found
    · split at found
      · obtain ⟨rfl, rfl⟩ := Prod.mk.injEq .. ▸ Option.some.injEq .. ▸ found
        simp
      · cases found
    · cases found
  have positive := List.length_pos_iff.mpr nonempty
  rw [← whole, List.length_append]
  omega

/-! ### Segments -/

/-- A piece of a template. -/
inductive Segment
  /-- A character that stands for itself. -/
  | plain (char : Char)
  /-- The pair `%%`. -/
  | percent
  /-- A `%` and the rest of its conversion. -/
  | conversion (rest : List Char)
deriving DecidableEq

/-- The pieces of a template from left to right. A `%` that starts neither a pair nor a conversion
stands for itself. -/
def segments : List Char → List Segment
  | [] => []
  | '%' :: '%' :: rest => .percent :: segments rest
  | '%' :: rest =>
    match _found : conversion? rest with
    | some (conversion, after) => .conversion conversion :: segments after
    | none => .plain '%' :: segments rest
  | char :: rest => .plain char :: segments rest
termination_by text => text.length
decreasing_by
  · simp only [List.length_cons]
    omega
  · have shorter := length_lt_of_conversion? _found
    simp only [List.length_cons]
    omega
  · simp only [List.length_cons]
    omega
  · simp only [List.length_cons]
    omega

/-- The text of segments filled with arguments in order. A conversion without an argument stands
for itself. -/
def fill : List Segment → List Value → List Char
  | [], _ => []
  | .plain char :: rest, values => char :: fill rest values
  | .percent :: rest, values => '%' :: fill rest values
  | .conversion _ :: rest, value :: values => value.chars ++ fill rest values
  | .conversion marker :: rest, [] => '%' :: marker ++ fill rest []

/-- The text of a template filled with arguments. -/
def expand (template : List Char) (values : List Value) : List Char :=
  fill (segments template) values

/-- Whether a text has a place that could be a conversion. -/
def hasMarker (text : String) : Bool := text.toList.contains '%'

/-- A template filled with arguments. -/
def expanded (template : String) (values : List Value) : String :=
  String.ofList (expand template.toList values)

theorem segments_plain_cons (char : Char) (rest : List Char) (plain : char ≠ '%') :
    segments (char :: rest) = .plain char :: segments rest := by
  rw [segments]
  · intro after same
    exact absurd same plain
  · intro same
    exact absurd same plain

theorem expand_plain (text : List Char) (values : List Value) (plain : '%' ∉ text) :
    expand text values = text := by
  unfold expand
  induction text with
  | nil => rw [segments, fill]
  | cons char rest step =>
    simp only [List.mem_cons, not_or] at plain
    rw [segments_plain_cons char rest (Ne.symm plain.1), fill, step plain.2]

end SqlDraft.Template
