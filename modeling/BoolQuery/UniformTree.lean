import BoolQuery.Tree

/-!
# Trees of one block type

A query either searches for bare terms or asserts keys and values, never both.
`UniformTree` is a tree that has been checked for it, and says which of the two it
is. The check compares every block with the first one and blames the first that
differs.
-/

namespace BoolQuery

/-- A query that mixes the block types: the type of its first block, and the type
and place of the first block that differs. -/
structure MixedBlockTypes where
  first : BlockType
  conflicting : BlockType
  span : Span
deriving DecidableEq, Repr

def MixedBlockTypes.message (e : MixedBlockTypes) : String :=
  let first := e.first.description
  let conflicting := e.conflicting.description
  let position := e.span.start
  s!"Cannot mix {first} and {conflicting} in one query (first conflict at position {position})"

/-- A tree whose blocks are all of one type. -/
structure UniformTree where
  tree : Tree
  blockType : BlockType
  uniform : ∀ b ∈ tree.blocks, b.blockType = blockType

/-- Checks that all blocks of a tree are of the type of its first. -/
def Tree.checkUniform (tree : Tree) : Except MixedBlockTypes UniformTree :=
  let first := tree.firstBlock.blockType
  match h : tree.blocks.find? (fun b => b.blockType != first) with
  | some b => .error ⟨first, b.blockType, b.span⟩
  | none => .ok ⟨tree, first, by simpa using h⟩

end BoolQuery
