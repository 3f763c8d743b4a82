/-
**Values and their text in a statement.**

A value is written as it is meant in a statement: a string stands for itself, the constants are in
capitals, and a list is put in parentheses. Only an object is written as JSON, with all that it
holds.

* `Value.sql`: the text of a value in a statement.
* `Value.json`: the text of a value inside an object.
* `Value.ofEntries`: an object keeps its keys sorted, and of equal keys the last one wins.
-/

import SqlDraft.Decimal.Style
import SqlDraft.Json.Quoted

namespace SqlDraft

/-- The values that conditions compare with. -/
inductive Value
  | null
  | bool (value : Bool)
  | int (value : Int)
  | float (value : Binary64)
  | string (text : String)
  | list (items : List Value)
  | object (entries : List (String × Value))

namespace Value

/-- The value of a double; what is not finite is no value. -/
def ofFloat (value : Float) : Value :=
  match Binary64.ofFloat? value with
  | some number => float number
  | none => null

/-- Puts an entry into sorted entries and drops the one that had its key. -/
def insertEntry (key : String) (value : Value) : List (String × Value) → List (String × Value)
  | [] => [(key, value)]
  | entry :: rest =>
    if key < entry.1 then (key, value) :: entry :: rest
    else if key = entry.1 then (key, value) :: rest
    else entry :: insertEntry key value rest

/-- The object of these entries. -/
def ofEntries (entries : List (String × Value)) : Value :=
  object (entries.foldl (fun sorted entry => insertEntry entry.1 entry.2 sorted) [])

/-- The decimal text of an integer. -/
def intText : Int → List Char
  | .ofNat value => Nat.toDigits 10 value
  | .negSucc value => '-' :: Nat.toDigits 10 (value + 1)

/-- Texts in a row with a separator between them. -/
def separated (separator : List Char) (texts : List (List Char)) : List Char :=
  separator.intercalate texts

mutual

/-- The JSON text of a value, without blanks. -/
def json : Value → List Char
  | null => "null".toList
  | bool value => (if value then "true" else "false").toList
  | int value => intText value
  | float value => value.text
  | string text => Json.quoted text.toList
  | list items => '[' :: separated [','] (jsonItems items) ++ [']']
  | object entries => '\x7b' :: separated [','] (jsonMembers entries) ++ ['\x7d']

/-- The JSON texts of the items of a list. -/
def jsonItems : List Value → List (List Char)
  | [] => []
  | item :: rest => item.json :: jsonItems rest

/-- The JSON texts of the entries of an object. -/
def jsonMembers : List (String × Value) → List (List Char)
  | [] => []
  | (key, value) :: rest => (Json.quoted key.toList ++ ':' :: value.json) :: jsonMembers rest

end

mutual

/-- The text of a value in a statement. -/
def chars : Value → List Char
  | null => "NULL".toList
  | bool value => (if value then "TRUE" else "FALSE").toList
  | int value => intText value
  | float value => value.text
  | string text => text.toList
  | list items => '(' :: separated [',', ' '] (itemChars items) ++ [')']
  | object entries => (object entries).json

/-- The texts of the items of a list. -/
def itemChars : List Value → List (List Char)
  | [] => []
  | item :: rest => item.chars :: itemChars rest

end

/-- The text of a value in a statement. -/
def sql (value : Value) : String := String.ofList value.chars

end Value

end SqlDraft
