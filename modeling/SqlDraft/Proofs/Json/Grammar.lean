/-
**How JSON text is spelled.**

A document has many texts: blanks may stand around each of its values, keys and marks, and a
character of a string may be written as itself, as a short escape or by its code. The grammar here
says what the texts of a document are, without a reader.

* `Json.SpellsNumber`: the tokens of numbers.
* `Json.SpellsString`: the texts of a string. `Json.Decodes`: the characters that it stands for.
* `Json.Spells`: the texts of a document, of its items and of its members.
* **`Json.decode?_of_decodes`**: a string is decoded to the characters that it stands for.
-/

import SqlDraft.Json.Document

namespace SqlDraft.Json

/-- What may stand between the parts of a text. -/
def Blanks (text : List Char) : Prop := ∀ char ∈ text, char ∈ [' ', '\t', '\n', '\r']

/-! ### Numbers -/

/-- Digits, one at least. -/
def Digits (text : List Char) : Prop := text ≠ [] ∧ ∀ char ∈ text, char.isDigit

/-- The whole part of a number has no zero in front of other digits. -/
inductive SpellsWhole : List Char → Prop
  | zero : SpellsWhole ['0']
  | digits {first : Char} {rest : List Char} (digits : Digits (first :: rest))
      (other : first ≠ '0') : SpellsWhole (first :: rest)

/-- The fraction of a number, which may be missing. -/
inductive SpellsFraction : List Char → Prop
  | none : SpellsFraction []
  | point {digits : List Char} (all : Digits digits) : SpellsFraction ('.' :: digits)

/-- The exponent of a number, which may be missing. -/
inductive SpellsExponent : List Char → Prop
  | none : SpellsExponent []
  | power {letter : Char} {sign digits : List Char} (isLetter : letter = 'e' ∨ letter = 'E')
      (isSign : sign ∈ [[], ['+'], ['-']]) (all : Digits digits) :
      SpellsExponent (letter :: (sign ++ digits))

/-- A number without a sign. -/
inductive SpellsUnsigned : List Char → Prop
  | parts {whole fraction exponent : List Char} (isWhole : SpellsWhole whole)
      (isFraction : SpellsFraction fraction) (isExponent : SpellsExponent exponent) :
      SpellsUnsigned (whole ++ (fraction ++ exponent))

/-- A number, which may have a minus in front of it. -/
inductive SpellsNumber : List Char → Prop
  | positive {token : List Char} (isUnsigned : SpellsUnsigned token) : SpellsNumber token
  | negative {token : List Char} (isUnsigned : SpellsUnsigned token) : SpellsNumber ('-' :: token)

/-! ### Strings -/

/-- The short escapes, each a letter and the character that it stands for. -/
def shortEscapes : List (Char × Char) :=
  [('"', '"'), ('\\', '\\'), ('/', '/'), ('b', '\x08'), ('f', '\x0c'), ('n', '\n'), ('r', '\r'),
    ('t', '\t')]

/-- A hexadecimal digit of a value, in either case. -/
def IsHex (digit : Char) (value : Nat) : Prop :=
  value < 16 ∧ (digit = Nat.digitChar value ∨ digit = (Nat.digitChar value).toUpper)

/-- The texts of the units of a string. -/
inductive SpellsUnits : List JsonUnit → List Char → Prop
  | nil : SpellsUnits [] []
  | plain {char : Char} {units : List JsonUnit} {text : List Char} (visible : 32 ≤ char.toNat)
      (noMark : char ≠ '"') (noEscape : char ≠ '\\') (rest : SpellsUnits units text) :
      SpellsUnits (.char char :: units) (char :: text)
  | short {letter char : Char} {units : List JsonUnit} {text : List Char}
      (listed : (letter, char) ∈ shortEscapes) (rest : SpellsUnits units text) :
      SpellsUnits (.char char :: units) ('\\' :: letter :: text)
  | code {first second third fourth : Char} {a b c d : Nat} {units : List JsonUnit}
      {text : List Char} (isFirst : IsHex first a) (isSecond : IsHex second b)
      (isThird : IsHex third c) (isFourth : IsHex fourth d) (rest : SpellsUnits units text) :
      SpellsUnits (.code (((a * 16 + b) * 16 + c) * 16 + d) :: units)
        ('\\' :: 'u' :: first :: second :: third :: fourth :: text)

/-- The texts of a string. -/
inductive SpellsString : List JsonUnit → List Char → Prop
  | marked {units : List JsonUnit} {text : List Char} (spelled : SpellsUnits units text) :
      SpellsString units ('"' :: (text ++ ['"']))

/-- The characters that the units of a string stand for. A code is the character it numbers, and a
character beyond sixteen bits has the codes of a surrogate pair. -/
inductive Decodes : List JsonUnit → List Char → Prop
  | nil : Decodes [] []
  | char (char : Char) {units : List JsonUnit} {chars : List Char} (rest : Decodes units chars) :
      Decodes (.char char :: units) (char :: chars)
  | code (char : Char) {units : List JsonUnit} {chars : List Char} (rest : Decodes units chars) :
      Decodes (.code char.toNat :: units) (char :: chars)
  | pair {char : Char} {high low : Nat} {units : List JsonUnit} {chars : List Char}
      (isHigh : high < 0x400) (isLow : low < 0x400)
      (same : char.toNat = 0x10000 + high * 0x400 + low) (rest : Decodes units chars) :
      Decodes (.code (0xD800 + high) :: .code (0xDC00 + low) :: units) (char :: chars)

/-- Characters that need no escape are a text of themselves. -/
theorem spellsUnits_chars {text : List Char}
    (plain : ∀ char ∈ text, 32 ≤ char.toNat ∧ char ≠ '"' ∧ char ≠ '\\') :
    SpellsUnits (text.map .char) text := by
  induction text with
  | nil => exact .nil
  | cons char text step =>
    obtain ⟨⟨visible, noMark, noEscape⟩, others⟩ := List.forall_mem_cons.mp plain
    exact .plain visible noMark noEscape (step others)

/-! ### Documents -/

/-- The parts of a document's text: a value, a value with blanks around it, the items of an array,
a member of an object, and its members. -/
inductive Part
  | value (document : Json)
  | element (document : Json)
  | elements (items : List Json)
  | member (key : List JsonUnit) (document : Json)
  | members (members : List (List JsonUnit × Json))

/-- The texts of a part. -/
inductive Spells : Part → List Char → Prop
  | null : Spells (.value .null) ['n', 'u', 'l', 'l']
  | true : Spells (.value (.bool true)) ['t', 'r', 'u', 'e']
  | false : Spells (.value (.bool false)) ['f', 'a', 'l', 's', 'e']
  | number {token : List Char} (spelled : SpellsNumber token) :
      Spells (.value (.number token)) token
  | string {units : List JsonUnit} {text : List Char} (spelled : SpellsString units text) :
      Spells (.value (.string units)) text
  | emptyArray {blanks : List Char} (blank : Blanks blanks) :
      Spells (.value (.array [])) ('[' :: (blanks ++ [']']))
  | array {items : List Json} {text : List Char} (spelled : Spells (.elements items) text) :
      Spells (.value (.array items)) ('[' :: (text ++ [']']))
  | emptyObject {blanks : List Char} (blank : Blanks blanks) :
      Spells (.value (.object [])) ('\x7b' :: (blanks ++ ['\x7d']))
  | object {members : List (List JsonUnit × Json)} {text : List Char}
      (spelled : Spells (.members members) text) :
      Spells (.value (.object members)) ('\x7b' :: (text ++ ['\x7d']))
  | element {document : Json} {before text after : List Char} (blankBefore : Blanks before)
      (spelled : Spells (.value document) text) (blankAfter : Blanks after) :
      Spells (.element document) (before ++ (text ++ after))
  | lastElement {item : Json} {text : List Char} (spelled : Spells (.element item) text) :
      Spells (.elements [item]) text
  | nextElement {item : Json} {items : List Json} {text others : List Char}
      (spelled : Spells (.element item) text) (rest : Spells (.elements items) others) :
      Spells (.elements (item :: items)) (text ++ ',' :: others)
  | member {key : List JsonUnit} {document : Json} {before name after text : List Char}
      (blankBefore : Blanks before) (isKey : SpellsString key name) (blankAfter : Blanks after)
      (spelled : Spells (.element document) text) :
      Spells (.member key document) (before ++ (name ++ (after ++ ':' :: text)))
  | lastMember {key : List JsonUnit} {document : Json} {text : List Char}
      (spelled : Spells (.member key document) text) : Spells (.members [(key, document)]) text
  | nextMember {key : List JsonUnit} {document : Json} {members : List (List JsonUnit × Json)}
      {text others : List Char} (spelled : Spells (.member key document) text)
      (rest : Spells (.members members) others) :
      Spells (.members ((key, document) :: members)) (text ++ ',' :: others)

theorem blanks_nil : Blanks [] := nofun

/-- A value without blanks around it. -/
theorem spells_element {document : Json} {text : List Char}
    (spelled : Spells (.value document) text) : Spells (.element document) text := by
  have element := Spells.element blanks_nil spelled blanks_nil
  rwa [List.nil_append, List.append_nil] at element

/-! ### Decoding -/

/-- The number of a character is no surrogate. -/
theorem not_surrogate (char : Char) :
    isHighSurrogate char.toNat = Bool.false ∧ isLowSurrogate char.toNat = Bool.false := by
  have valid : char.toNat < 0xD800 ∨ 0xDFFF < char.toNat ∧ char.toNat < 0x110000 := char.valid
  simp only [isHighSurrogate, isLowSurrogate, Bool.and_eq_false_iff, decide_eq_false_iff_not]
  omega

theorem decode?_code (char : Char) (units : List JsonUnit) :
    decode? (.code char.toNat :: units) = (decode? units).map (char :: ·) := by
  obtain ⟨noHigh, noLow⟩ := not_surrogate char
  match units with
  | [] | .char _ :: _ | .code _ :: _ =>
    simp only [decode?, noHigh, noLow, Bool.or_self, Bool.false_eq_true, if_false,
      Char.ofNat_toNat]

/-- **A string is decoded** to the characters that it stands for. -/
theorem decode?_of_decodes {units : List JsonUnit} {chars : List Char}
    (decodes : Decodes units chars) : decode? units = some chars := by
  induction decodes with
  | nil => rfl
  | char char rest step => rw [decode?, step, Option.map_some]
  | code char rest step => rw [decode?_code, step, Option.map_some]
  | @pair char high low units chars isHigh isLow same rest step =>
    have first : isHighSurrogate (0xD800 + high) := by
      simp only [isHighSurrogate, Bool.and_eq_true, decide_eq_true_eq]
      omega
    have second : isLowSurrogate (0xDC00 + low) := by
      simp only [isLowSurrogate, Bool.and_eq_true, decide_eq_true_eq]
      omega
    rw [decode?, if_pos first, if_pos second, step, Option.map_some, Nat.add_sub_cancel_left,
      Nat.add_sub_cancel_left, ← same, Char.ofNat_toNat]

/-- Characters that are written as themselves stand for themselves. -/
theorem decodes_chars (chars : List Char) : Decodes (chars.map .char) chars := by
  induction chars with
  | nil => exact .nil
  | cons char chars step => exact .char char step

end SqlDraft.Json
