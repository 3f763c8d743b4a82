/-
**Reading JSON text.**

A text is read into a document that keeps what a reader may still ask for: numbers as they are
written, the members of an object in their order with all repetitions, and strings as code units,
since an escape may name half of a surrogate pair.

* `Json.document?`: the document of a whole text, with blanks around it and nothing after it.
* `Json.decode?`: the characters of a string, if its surrogates are paired.
* `Json.decode?_chars`: characters that are written as themselves are read as themselves.
-/

namespace SqlDraft

/-- A unit of a string: a character, or a code of sixteen bits from an escape. -/
inductive JsonUnit
  | char (char : Char)
  | code (value : Nat)
deriving DecidableEq

/-- A document. -/
inductive Json
  | null
  | bool (value : Bool)
  | number (token : List Char)
  | string (units : List JsonUnit)
  | array (items : List Json)
  | object (members : List (List JsonUnit × Json))

namespace Json

/-- What may stand between the parts of a text. -/
def isBlank (char : Char) : Bool := char ∈ [' ', '\t', '\n', '\r']

/-- A text from its first character on that is not blank. -/
def skipBlanks (text : List Char) : List Char := text.dropWhile isBlank

/-! ### Strings -/

/-- Whether a code is the first half of a surrogate pair. -/
def isHighSurrogate (code : Nat) : Bool := 0xD800 ≤ code && code < 0xDC00

/-- Whether a code is the second half of a surrogate pair. -/
def isLowSurrogate (code : Nat) : Bool := 0xDC00 ≤ code && code < 0xE000

/-- The characters of a string. Codes of surrogates have to come in pairs. -/
def decode? : List JsonUnit → Option (List Char)
  | [] => some []
  | .char char :: rest => (decode? rest).map (char :: ·)
  | .code high :: .code low :: rest =>
    if isHighSurrogate high then
      if isLowSurrogate low then
        let char := Char.ofNat (0x10000 + (high - 0xD800) * 0x400 + (low - 0xDC00))
        (decode? rest).map (char :: ·)
      else none
    else if isLowSurrogate high then none
    else (decode? (.code low :: rest)).map (Char.ofNat high :: ·)
  | .code code :: rest =>
    if isHighSurrogate code || isLowSurrogate code then none
    else (decode? rest).map (Char.ofNat code :: ·)

/-- The value of a hexadecimal digit in either case. -/
def hexValue? (char : Char) : Option Nat :=
  if char.isDigit then some (char.toNat - '0'.toNat)
  else if 'a' ≤ char ∧ char ≤ 'f' then some (char.toNat - 'a'.toNat + 10)
  else if 'A' ≤ char ∧ char ≤ 'F' then some (char.toNat - 'A'.toNat + 10)
  else none

/-- The value of four hexadecimal digits. -/
def hexCode? (first second third fourth : Char) : Option Nat := do
  let first ← hexValue? first
  let second ← hexValue? second
  let third ← hexValue? third
  let fourth ← hexValue? fourth
  return ((first * 16 + second) * 16 + third) * 16 + fourth

/-- The character of an escape of one letter. -/
def unescape? (char : Char) : Option Char :=
  if char = '"' ∨ char = '\\' ∨ char = '/' then some char
  else if char = 'b' then some '\x08'
  else if char = 'f' then some '\x0c'
  else if char = 'n' then some '\n'
  else if char = 'r' then some '\r'
  else if char = 't' then some '\t'
  else none

/-- The units up to the closing quotation mark, and what follows it. -/
def stringBody? : List Char → Option (List JsonUnit × List Char)
  | [] => none
  | '"' :: rest => some ([], rest)
  | '\\' :: 'u' :: first :: second :: third :: fourth :: rest =>
    match hexCode? first second third fourth, stringBody? rest with
    | some code, some (units, after) => some (.code code :: units, after)
    | _, _ => none
  | '\\' :: letter :: rest =>
    match unescape? letter, stringBody? rest with
    | some char, some (units, after) => some (.char char :: units, after)
    | _, _ => none
  | char :: rest =>
    if char.toNat < 32 ∨ char = '\\' then none
    else (stringBody? rest).map fun body => (.char char :: body.1, body.2)

/-! ### Numbers and constants -/

/-- The digits that a text starts with, if there are any, and what follows them. -/
def digits? (text : List Char) : Option (List Char × List Char) :=
  match text.takeWhile Char.isDigit with
  | [] => none
  | digits => some (digits, text.dropWhile Char.isDigit)

/-- The whole part of a number: a zero, or digits that start with another one. -/
def whole? : List Char → Option (List Char × List Char)
  | '0' :: rest => some (['0'], rest)
  | text => digits? text

/-- The fraction of a number, which may be missing. -/
def fraction? : List Char → Option (List Char × List Char)
  | '.' :: rest => (digits? rest).map fun found => ('.' :: found.1, found.2)
  | text => some ([], text)

/-- The sign of an exponent, which may be missing. -/
def exponentSign : List Char → List Char × List Char
  | '+' :: rest => (['+'], rest)
  | '-' :: rest => (['-'], rest)
  | text => ([], text)

/-- The exponent of a number, which may be missing. -/
def exponent? : List Char → Option (List Char × List Char)
  | [] => some ([], [])
  | letter :: rest =>
    if letter = 'e' ∨ letter = 'E' then
      let signed := exponentSign rest
      (digits? signed.2).map fun found => (letter :: signed.1 ++ found.1, found.2)
    else some ([], letter :: rest)

/-- The token of a number without a sign, and what follows it. -/
def unsigned? (text : List Char) : Option (List Char × List Char) := do
  let (whole, text) ← whole? text
  let (fraction, text) ← fraction? text
  let (exponent, text) ← exponent? text
  return (whole ++ fraction ++ exponent, text)

/-- The token of a number, and what follows it. -/
def number? : List Char → Option (List Char × List Char)
  | '-' :: rest => (unsigned? rest).map fun found => ('-' :: found.1, found.2)
  | text => unsigned? text

/-- What is neither a string, an array nor an object. -/
def scalar? : List Char → Option (Json × List Char)
  | 'n' :: 'u' :: 'l' :: 'l' :: rest => some (null, rest)
  | 't' :: 'r' :: 'u' :: 'e' :: rest => some (bool true, rest)
  | 'f' :: 'a' :: 'l' :: 's' :: 'e' :: rest => some (bool false, rest)
  | text => (number? text).map fun found => (number found.1, found.2)

/-! ### Documents -/

mutual

/-- The document that a text starts with, and what follows it. The nesting that is left is bounded
by `fuel`. -/
def value? : (fuel : Nat) → List Char → Option (Json × List Char)
  | 0, _ => none
  | fuel + 1, text =>
    match skipBlanks text with
    | '"' :: rest => (stringBody? rest).map fun body => (string body.1, body.2)
    | '[' :: rest =>
      match skipBlanks rest with
      | ']' :: after => some (array [], after)
      | _ => (items? fuel rest).map fun read => (array read.1, read.2)
    | '\x7b' :: rest =>
      match skipBlanks rest with
      | '\x7d' :: after => some (object [], after)
      | _ => (members? fuel rest).map fun read => (object read.1, read.2)
    | other => scalar? other

/-- The items of an array up to its end, and what follows it. -/
def items? : (fuel : Nat) → List Char → Option (List Json × List Char)
  | 0, _ => none
  | fuel + 1, text =>
    match value? fuel text with
    | none => none
    | some (item, rest) =>
      match skipBlanks rest with
      | ',' :: after => (items? fuel after).map fun read => (item :: read.1, read.2)
      | ']' :: after => some ([item], after)
      | _ => none

/-- The members of an object up to its end, and what follows it. -/
def members? : (fuel : Nat) → List Char → Option (List (List JsonUnit × Json) × List Char)
  | 0, _ => none
  | fuel + 1, text =>
    match member? fuel text with
    | none => none
    | some (member, rest) =>
      match skipBlanks rest with
      | ',' :: after => (members? fuel after).map fun read => (member :: read.1, read.2)
      | '\x7d' :: after => some ([member], after)
      | _ => none

/-- A member of an object, and what follows it. -/
def member? : (fuel : Nat) → List Char → Option ((List JsonUnit × Json) × List Char)
  | 0, _ => none
  | fuel + 1, text =>
    match skipBlanks text with
    | '"' :: rest =>
      match stringBody? rest with
      | none => none
      | some (key, rest) =>
        match skipBlanks rest with
        | ':' :: after => (value? fuel after).map fun read => ((key, read.1), read.2)
        | _ => none
    | _ => none

end

/-- The document of a whole text. Fewer than three steps of reading go by without taking a
character, so three for each character and three more are enough. -/
def document? (text : List Char) : Option Json :=
  match value? (3 * text.length + 3) text with
  | some (document, rest) => if skipBlanks rest = [] then some document else none
  | none => none

theorem decode?_chars (text : List Char) : decode? (text.map .char) = some text := by
  induction text with
  | nil => rfl
  | cons char rest step => simp [decode?, step]

end Json

end SqlDraft
