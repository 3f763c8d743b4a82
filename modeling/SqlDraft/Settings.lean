/-
**Settings of a draft.**

The settings are the dialect that a draft is written in and the room that is set aside for it. They
are read from JSON text, where each of them may be missing, and written to it in full.

* `Settings.read?`: the settings of a text, as an object or as an array in the order of the fields.
* `Settings.text`: the text of settings.

Other members of the object are passed over, but the keys of the object have to be strings that
decode, and no setting is given twice.
-/

import SqlDraft.Dialect
import SqlDraft.Json.Document
import SqlDraft.Json.Quoted

namespace SqlDraft

/-- The settings of a draft. -/
structure Settings where
  /-- The dialect a draft is written in. -/
  dialect : Dialect
  /-- How many slots are reserved at a time. -/
  chunkSize : UInt64
  /-- The room set aside for the text. -/
  textRoom : UInt64
deriving DecidableEq

namespace Settings

/-- The settings of a draft that was given none. -/
def standard : Settings := ⟨.postgres, 64, 256⟩

instance : Inhabited Settings := ⟨standard⟩

/-- The same settings for another dialect. -/
def inDialect (settings : Settings) (dialect : Dialect) : Settings := { settings with dialect }

/-! ### Fields -/

/-- The fields of settings. -/
inductive Field
  | dialect
  | chunkSize
  | textRoom
deriving DecidableEq

/-- The key of a field. -/
def Field.key : Field → String
  | dialect => "dialect"
  | chunkSize => "node_chunk_size"
  | textRoom => "buffer_capacity"

/-- All fields in their order. -/
def Field.all : List Field := [.dialect, .chunkSize, .textRoom]

/-- The field of a key. -/
def Field.ofKey? (key : List Char) : Option Field := all.find? fun field => field.key.toList = key

/-! ### Reading -/

/-- A dialect, by its name alone or as an object with the name as the key of null. -/
def dialect? : Json → Option Dialect
  | .string units => (Json.decode? units).bind fun name => Dialect.ofName? (String.ofList name)
  | .object [(units, .null)] =>
    (Json.decode? units).bind fun name => Dialect.ofName? (String.ofList name)
  | _ => none

/-- The value of decimal digits. -/
def digitsValue (digits : List Char) : Nat :=
  digits.foldl (fun value digit => 10 * value + (digit.toNat - '0'.toNat)) 0

/-- A size, which is a number without sign, fraction and exponent that fits into 64 bits. -/
def size? : Json → Option UInt64
  | .number token =>
    if token.all Char.isDigit ∧ digitsValue token < UInt64.size then
      some (UInt64.ofNat (digitsValue token))
    else none
  | _ => none

/-- The settings that were given so far. -/
structure Given where
  dialect : Option Dialect := none
  chunkSize : Option UInt64 := none
  textRoom : Option UInt64 := none
deriving DecidableEq

namespace Given

/-- Adds the value of a field. It must be a value of the field, and the first one. -/
def add? (given : Given) (field : Field) (value : Json) : Option Given :=
  match field with
  | .dialect =>
    if given.dialect.isSome then none
    else (dialect? value).map fun dialect => { given with dialect }
  | .chunkSize =>
    if given.chunkSize.isSome then none
    else (size? value).map fun chunkSize => { given with chunkSize }
  | .textRoom =>
    if given.textRoom.isSome then none
    else (size? value).map fun textRoom => { given with textRoom }

/-- Adds the members of an object. Members of other keys are passed over. -/
def addMembers? (given : Given) : List (List JsonUnit × Json) → Option Given
  | [] => some given
  | (units, value) :: rest =>
    match Json.decode? units with
    | none => none
    | some key =>
      match Field.ofKey? key with
      | none => given.addMembers? rest
      | some field => (given.add? field value).bind fun given => given.addMembers? rest

/-- Adds values in the order of the fields. There are no more values than fields. -/
def addItems? (given : Given) : List Field → List Json → Option Given
  | _, [] => some given
  | [], _ :: _ => none
  | field :: fields, value :: values =>
    (given.add? field value).bind fun given => given.addItems? fields values

/-- The settings, with the standard ones where none were given. -/
def settings (given : Given) : Settings where
  dialect := given.dialect.getD standard.dialect
  chunkSize := given.chunkSize.getD standard.chunkSize
  textRoom := given.textRoom.getD standard.textRoom

end Given

/-- The settings of a document. -/
def ofJson? : Json → Option Settings
  | .object members => (Given.addMembers? {} members).map Given.settings
  | .array items => (Given.addItems? {} Field.all items).map Given.settings
  | _ => none

/-- The settings of a text. -/
def read? (text : String) : Option Settings := (Json.document? text.toList).bind ofJson?

/-! ### Writing -/

/-- A member of an object with a written value. -/
def memberText (key : String) (value : List Char) : List Char :=
  Json.quoted key.toList ++ ':' :: value

/-- The characters of settings text. -/
def chars (settings : Settings) : List Char :=
  let members :=
    [ memberText Field.dialect.key (Json.quoted settings.dialect.name.toList),
      memberText Field.chunkSize.key (Nat.toDigits 10 settings.chunkSize.toNat),
      memberText Field.textRoom.key (Nat.toDigits 10 settings.textRoom.toNat) ]
  '\x7b' :: [','].intercalate members ++ ['\x7d']

/-- The text of settings. -/
def text (settings : Settings) : String := String.ofList settings.chars

end Settings

end SqlDraft
