import BoolQuery.BlockType
import BoolQuery.Connective

/-!
# Trees of the grammar

    tree    := operand ((AND | OR) operand)*
    operand := NOT operand | '(' tree ')' | block
    block   := quoted | word | key quoted

A tree keeps every token it was read from, so the place of each of its parts is
known. Connectives group from the left, and so does the type: a chain of operands
is its first operand with the others joined on one after the other. A chain can be
ten thousand operands long while the nesting of NOTs and groups is bounded, so
functions over trees walk down the left side without piling up work.

The functions with a name in `Onto` put what they find before a list; `blocks_join`
and its like say what that comes to.
-/

namespace BoolQuery

/-- A term with the tokens it is written in. -/
inductive Block where
  | quoted (token : Token)
  | word (token : Token)
  | keyValue (key value : Token)
deriving DecidableEq, Repr

namespace Block

def blockType : Block → BlockType
  | quoted _ | word _ => .bare
  | keyValue _ _ => .keyValue

def span : Block → Span
  | quoted token | word token => token.span
  | keyValue key value => key.span.join value.span

end Block

mutual

/-- What a connective joins and a NOT negates. -/
inductive Operand where
  | block (block : Block)
  | negated (not : Token) (operand : Operand)
  | group (lparen : Token) (tree : Tree) (rparen : Token)

/-- Operands joined by connectives. -/
inductive Tree where
  | single (operand : Operand)
  | join (left : Tree) (op : Connective) (token : Token) (right : Operand)

end

deriving instance DecidableEq, Repr for Operand, Tree

/-- The range of an operand, from its own tokens alone: what stands inside a group
does not matter. -/
def Operand.span : Operand → Span
  | .block b => b.span
  | .negated not operand => not.span.join operand.span
  | .group lparen _ rparen => lparen.span.join rparen.span

namespace Tree

def first : Tree → Operand
  | single operand => operand
  | join left _ _ _ => left.first

/-- The range of a tree, from its first operand to its last. -/
def span : Tree → Span
  | single operand => operand.span
  | join left _ _ right => left.first.span.join right.span

/-- Walks down a chain with the joined operands above in hand. -/
def chainOnto (above : List (Connective × Token × Operand)) :
    Tree → Operand × List (Connective × Token × Operand)
  | single operand => (operand, above)
  | join left op token right => chainOnto ((op, token, right) :: above) left

/-- The first operand of a chain, and each further operand with its connective. -/
def chain (tree : Tree) : Operand × List (Connective × Token × Operand) :=
  chainOnto [] tree

end Tree

mutual

/-- The blocks of an operand, before the given ones. -/
def Operand.blocksOnto (after : List Block) : Operand → List Block
  | .block b => b :: after
  | .negated _ operand => operand.blocksOnto after
  | .group _ tree _ => tree.blocksOnto after

def Tree.blocksOnto (after : List Block) : Tree → List Block
  | .single operand => operand.blocksOnto after
  | .join left _ _ right => left.blocksOnto (right.blocksOnto after)

end

def Operand.blocks (operand : Operand) : List Block := operand.blocksOnto []

/-- The blocks of a tree in the order of the query. -/
def Tree.blocks (tree : Tree) : List Block := tree.blocksOnto []

mutual

/-- The block that an operand starts with, its NOTs and parentheses apart. -/
def Operand.firstBlock : Operand → Block
  | .block b => b
  | .negated _ operand => operand.firstBlock
  | .group _ tree _ => tree.firstBlock

def Tree.firstBlock : Tree → Block
  | .single operand => operand.firstBlock
  | .join left _ _ _ => left.firstBlock

end

mutual

theorem Operand.blocksOnto_eq (operand : Operand) (after : List Block) :
    operand.blocksOnto after = operand.blocks ++ after := by
  cases operand with
  | block b => rfl
  | negated not operand =>
      simp only [Operand.blocks, Operand.blocksOnto]
      exact operand.blocksOnto_eq after
  | group lparen tree rparen =>
      simp only [Operand.blocks, Operand.blocksOnto]
      exact tree.blocksOnto_eq after

theorem Tree.blocksOnto_eq (tree : Tree) (after : List Block) :
    tree.blocksOnto after = tree.blocks ++ after := by
  cases tree with
  | single operand =>
      simp only [Tree.blocks, Tree.blocksOnto]
      exact operand.blocksOnto_eq after
  | join left op token right =>
      simp only [Tree.blocks, Tree.blocksOnto]
      rw [right.blocksOnto_eq after, left.blocksOnto_eq,
        left.blocksOnto_eq (right.blocksOnto []), List.append_assoc]
      rfl

end

@[simp] theorem Operand.blocks_block (b : Block) : (Operand.block b).blocks = [b] := rfl

@[simp] theorem Operand.blocks_negated (not : Token) (operand : Operand) :
    (Operand.negated not operand).blocks = operand.blocks := rfl

@[simp] theorem Operand.blocks_group (lparen : Token) (tree : Tree) (rparen : Token) :
    (Operand.group lparen tree rparen).blocks = tree.blocks := rfl

@[simp] theorem Tree.blocks_single (operand : Operand) :
    (Tree.single operand).blocks = operand.blocks := rfl

/-- The blocks of a chain are those of its operands, from left to right. -/
@[simp] theorem Tree.blocks_join (left : Tree) (op : Connective) (token : Token)
    (right : Operand) :
    (Tree.join left op token right).blocks = left.blocks ++ right.blocks :=
  left.blocksOnto_eq _

mutual

theorem Operand.head?_blocks (operand : Operand) :
    operand.blocks.head? = some operand.firstBlock := by
  cases operand with
  | block b => rfl
  | negated not operand => exact operand.head?_blocks
  | group lparen tree rparen => exact tree.head?_blocks

/-- Every tree has a block, and the first one is the first block. -/
theorem Tree.head?_blocks (tree : Tree) : tree.blocks.head? = some tree.firstBlock := by
  cases tree with
  | single operand => exact operand.head?_blocks
  | join left op token right =>
      simp only [Tree.blocks_join, List.head?_append, left.head?_blocks]
      rfl

end

end BoolQuery
