/-
**Strings in JSON text.**

A string is written between quotation marks. The quotation mark, the backslash and the control
characters below the space are escaped, with the short escapes where there are some; everything
else stands for itself.

* `Json.quoted`: the written form of a string.
-/

namespace SqlDraft.Json

/-- A hexadecimal digit in lower case. -/
def hexDigit (value : Nat) : Char := Nat.digitChar value

/-- The character that follows the backslash in a short escape. -/
def shortEscape? (char : Char) : Option Char :=
  if char = '"' then some '"'
  else if char = '\\' then some '\\'
  else if char = '\x08' then some 'b'
  else if char = '\t' then some 't'
  else if char = '\n' then some 'n'
  else if char = '\x0c' then some 'f'
  else if char = '\r' then some 'r'
  else none

/-- The written form of one character. -/
def escaped (char : Char) : List Char :=
  match shortEscape? char with
  | some short => ['\\', short]
  | none =>
    if char.toNat < 32 then
      ['\\', 'u', '0', '0', hexDigit (char.toNat / 16), hexDigit (char.toNat % 16)]
    else [char]

/-- The written form of a string. -/
def quoted (text : List Char) : List Char := '"' :: text.flatMap escaped ++ ['"']

end SqlDraft.Json
