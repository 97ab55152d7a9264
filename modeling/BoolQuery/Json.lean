/-!
# JSON documents

The documents the library writes, and their text. A document is a value without a
layout; `text` writes it on one line without blanks, `prettyText` with one element
or field on a line and two blanks for each level.

Texts keep every character but the ones JSON does not allow between quotes: the
quote and the backslash get a backslash, the control characters with a letter of
their own get that, and the others their code in hexadecimal.

Fields are written in the order they are given. The documents of this library give
them in alphabetical order.
-/

namespace BoolQuery

/-- A JSON document. Numbers are positions and counts. -/
inductive Json where
  | null
  | num (n : Nat)
  | str (text : String)
  | arr (items : List Json)
  | obj (fields : List (String × Json))

namespace Json

def hexDigit (n : Nat) : Char :=
  if n < 10 then Char.ofNat ('0'.toNat + n) else Char.ofNat ('a'.toNat + (n - 10))

/-- A character as it stands between quotes. -/
def escapeChar (c : Char) : List Char :=
  if c = '"' then ['\\', '"']
  else if c = '\\' then ['\\', '\\']
  else if c = '\x08' then ['\\', 'b']
  else if c = '\x0c' then ['\\', 'f']
  else if c = '\n' then ['\\', 'n']
  else if c = '\r' then ['\\', 'r']
  else if c = '\t' then ['\\', 't']
  else if c.toNat < 0x20 then
    ['\\', 'u', '0', '0', hexDigit (c.toNat / 16), hexDigit (c.toNat % 16)]
  else [c]

def quote (text : String) : String :=
  String.ofList ('"' :: text.toList.flatMap escapeChar ++ ['"'])

/-- How the parts of a document are set apart. -/
inductive Layout where
  | compact
  | pretty
deriving DecidableEq, Repr

namespace Layout

/-- What stands before an item of a list, or the end of one, at some level. -/
def lineStart : Layout → Nat → String
  | compact, _ => ""
  | pretty, level => String.ofList ('\n' :: List.replicate (2 * level) ' ')

/-- What stands between the name of a field and its value. -/
def colon : Layout → String
  | compact => ":"
  | pretty => ": "

end Layout

mutual

/-- Writes a document that starts at some level behind what is already written. -/
def writeOnto (layout : Layout) (level : Nat) (out : String) (doc : Json) : String :=
  match doc with
  | null => out ++ "null"
  | num n => out ++ toString n
  | str text => out ++ quote text
  | arr [] => out ++ "[]"
  | arr (item :: items) =>
      let opened := out ++ "[" ++ layout.lineStart (level + 1)
      let written := writeItems layout (level + 1)
        (item.writeOnto layout (level + 1) opened) items
      written ++ layout.lineStart level ++ "]"
  | obj [] => out ++ "\x7b\x7d"
  | obj ((name, value) :: fields) =>
      let opened := out ++ "\x7b" ++ layout.lineStart (level + 1) ++ quote name ++
        layout.colon
      let written := writeFields layout (level + 1)
        (value.writeOnto layout (level + 1) opened) fields
      written ++ layout.lineStart level ++ "\x7d"
termination_by structural doc

/-- Writes the further items of a list. -/
def writeItems (layout : Layout) (level : Nat) (out : String) (items : List Json) : String :=
  match items with
  | [] => out
  | item :: items =>
      writeItems layout level
        (item.writeOnto layout level (out ++ "," ++ layout.lineStart level)) items
termination_by structural items

def writeFields (layout : Layout) (level : Nat) (out : String)
    (fields : List (String × Json)) : String :=
  match fields with
  | [] => out
  | (name, value) :: fields =>
      let opened := out ++ "," ++ layout.lineStart level ++ quote name ++ layout.colon
      writeFields layout level (value.writeOnto layout level opened) fields
termination_by structural fields

end

def textIn (layout : Layout) (doc : Json) : String := doc.writeOnto layout 0 ""

def text (doc : Json) : String := doc.textIn .compact

def prettyText (doc : Json) : String := doc.textIn .pretty

end Json

end BoolQuery
