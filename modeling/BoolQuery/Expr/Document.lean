import BoolQuery.Expr
import BoolQuery.Json

/-!
# Expressions as JSON

Each expression is an object with a `type` and a `block_type`. A chain of
connectives is one object, with its operands in one list and the connectives
between them in another, so a document gets deeper only where a NOT or a group
does. `operandDocsOnto` walks down the chain; `operandDocsOnto_eq` says that it
lists the documents of the chain's operands.
-/

namespace BoolQuery.Expr

def leafDoc (text : String) (blockType : BlockType) : Json :=
  .obj [("block_type", .str blockType.name), ("text", .str text), ("type", .str "leaf")]

/-- The document of a negation, from that of what it negates. -/
def notDoc (blockType : BlockType) (child : Json) : Json :=
  .obj [("block_type", .str blockType.name), ("child", child), ("op", .str "NOT"),
    ("type", .str "prefix")]

/-- The document of a group, from that of its inside. -/
def groupDoc (blockType : BlockType) (child : Json) : Json :=
  .obj [("block_type", .str blockType.name), ("child", child), ("type", .str "group")]

/-- The document of a chain, from those of its operands. -/
def chainDoc (blockType : BlockType) (operands operators : List Json) : Json :=
  .obj [("block_type", .str blockType.name), ("operands", .arr operands),
    ("operators", .arr operators), ("type", .str "binary")]

/-- The connectives of a chain, before the given ones. -/
def operatorsOnto (after : List Json) : Expr → List Json
  | binary op left _ => operatorsOnto (.str op.text :: after) left
  | _ => after

mutual

def toJson : Expr → Json
  | leaf text blockType => leafDoc text blockType
  | not child => notDoc child.blockType child.toJson
  | group child => groupDoc child.blockType child.toJson
  | binary op left right =>
      chainDoc left.blockType (left.operandDocsOnto [right.toJson])
        (operatorsOnto [.str op.text] left)

/-- The documents of a chain's operands, before the given ones. -/
def operandDocsOnto (after : List Json) : Expr → List Json
  | leaf text blockType => leafDoc text blockType :: after
  | not child => notDoc child.blockType child.toJson :: after
  | group child => groupDoc child.blockType child.toJson :: after
  | binary _ left right => left.operandDocsOnto (right.toJson :: after)

end

theorem operandDocsOnto_eq (e : Expr) (above : List (Connective × Expr)) :
    e.operandDocsOnto (above.map fun other => other.2.toJson) =
      (e.chainOnto above).1.toJson :: (e.chainOnto above).2.map fun other =>
        other.2.toJson := by
  induction e generalizing above with
  | leaf text blockType => simp [operandDocsOnto, chainOnto, toJson]
  | not child => simp [operandDocsOnto, chainOnto, toJson]
  | group child => simp [operandDocsOnto, chainOnto, toJson]
  | binary op left right ihl _ =>
      rw [operandDocsOnto, chainOnto, ← ihl]
      rfl

theorem operatorsOnto_eq (e : Expr) (above : List (Connective × Expr)) :
    e.operatorsOnto (above.map fun other => .str other.1.text) =
      (e.chainOnto above).2.map fun other => .str other.1.text := by
  induction e generalizing above with
  | leaf text blockType => rfl
  | not child => rfl
  | group child => rfl
  | binary op left right ihl _ =>
      rw [operatorsOnto, chainOnto, ← ihl]
      rfl

/-- The document of a chain lists the documents of its operands and the words of
its connectives. -/
theorem toJson_binary (op : Connective) (left right : Expr) :
    (binary op left right).toJson =
      chainDoc left.blockType
        ((binary op left right).chain.1.toJson ::
          (binary op left right).chain.2.map fun other => other.2.toJson)
        ((binary op left right).chain.2.map fun other => .str other.1.text) := by
  have hdocs := operandDocsOnto_eq left [(op, right)]
  have hops := operatorsOnto_eq left [(op, right)]
  simp only [List.map_cons, List.map_nil] at hdocs hops
  rw [toJson, hdocs, hops]
  rfl

end BoolQuery.Expr
