/-!
# Block types

The terms of a query are written in one of two ways: bare, as a word or a quoted
phrase, or as a key with a quoted value. A query keeps to one of them
throughout.
-/

namespace BoolQuery

/-- The way in which a term is written. -/
inductive BlockType where
  /-- A word or a quoted phrase. -/
  | bare
  /-- A key and its quoted value. -/
  | keyValue
deriving DecidableEq, Repr

namespace BlockType

def name : BlockType → String
  | bare => "bare"
  | keyValue => "key_value"

def description : BlockType → String
  | bare => "bare terms"
  | keyValue => "key=value pairs"

end BlockType

end BoolQuery
