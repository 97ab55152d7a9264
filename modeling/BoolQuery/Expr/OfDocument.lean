import BoolQuery.Expr.Document

/-!
# Expressions from JSON

The way back from a document to its expression. A document is read from its inside: what
an object is read as depends only on what its fields were read as, and fields are found by
their names, in whatever order they stand. The object of a chain has to hold one operand
more than connectives, and they are joined from the left. The block type that an object
names has to be the one of the expression it is read as.

The program writes documents and never reads one. `ofJson?` is here to say that nothing is
lost in them.
-/

namespace BoolQuery

namespace BlockType

def ofName? (name : String) : Option BlockType := [bare, keyValue].find? (·.name = name)

theorem ofName?_name (blockType : BlockType) : ofName? blockType.name = some blockType := by
  cases blockType <;> rfl

end BlockType

namespace Connective

def ofText? (text : String) : Option Connective := [and, or].find? (·.text = text)

theorem ofText?_text (op : Connective) : ofText? op.text = some op := by
  cases op <;> rfl

end Connective

namespace Expr

/-- What a document is read as: an expression, or something that stands in the document
of one. -/
inductive Reading where
  | text (text : String)
  | items (items : List Reading)
  | expr (e : Expr)
  | other

namespace Reading

def text? : Reading → Option String
  | text read => some read
  | _ => none

def items? : Reading → Option (List Reading)
  | items read => some read
  | _ => none

def expr? : Reading → Option Expr
  | expr read => some read
  | _ => none

def connective? (reading : Reading) : Option Connective :=
  reading.text?.bind Connective.ofText?

end Reading

/-- Joins the operands of a chain with its connectives. -/
def ofChain? (operands operators : List Reading) : Option Expr := do
  match ← operands.mapM Reading.expr? with
  | [] => none
  | first :: others =>
      let ops ← operators.mapM Reading.connective?
      if ops.length = others.length then some (joinAll first (ops.zip others)) else none

/-- The expression of an object of some type, from what its fields were read as. -/
def ofFieldsOf? (type : String) (blockType : BlockType) (fields : List (String × Reading)) :
    Option Expr :=
  match type with
  | "leaf" => do
      let text ← (← fields.lookup "text").text?
      some (leaf text blockType)
  | "prefix" => do
      let op ← (← fields.lookup "op").text?
      let child ← (← fields.lookup "child").expr?
      if op = "NOT" then some (not child) else none
  | "group" => do
      let child ← (← fields.lookup "child").expr?
      some (group child)
  | "binary" => do
      let operands ← (← fields.lookup "operands").items?
      let operators ← (← fields.lookup "operators").items?
      ofChain? operands operators
  | _ => none

/-- The expression of an object, from what its fields were read as. -/
def ofFields? (fields : List (String × Reading)) : Option Expr := do
  let type ← (← fields.lookup "type").text?
  let name ← (← fields.lookup "block_type").text?
  let blockType ← BlockType.ofName? name
  let e ← ofFieldsOf? type blockType fields
  if e.blockType = blockType then some e else none

mutual

def readDoc : Json → Reading
  | .null => .other
  | .num _ => .other
  | .str text => .text text
  | .arr items => .items (readItems items)
  | .obj fields => (ofFields? (readFields fields)).elim .other .expr

def readItems : List Json → List Reading
  | [] => []
  | item :: items => readDoc item :: readItems items

def readFields : List (String × Json) → List (String × Reading)
  | [] => []
  | (name, value) :: fields => (name, readDoc value) :: readFields fields

end

/-- The expression that a document is about. -/
def ofJson? (doc : Json) : Option Expr := (readDoc doc).expr?

end Expr

end BoolQuery
