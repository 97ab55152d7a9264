import BoolQuery.Tree

/-!
# What the grammar says of a tree

Three things about a tree that its type leaves open. Its `tokens` are what it was
read from, in order. It is `WellKinded` if every token has the kind that its place
calls for; the type would also hold a tree whose connective is written `(`. And
its `nesting` is the largest number of NOTs and groups around any point of it,
which the reader of trees bounds.

Nothing here is run to read a query. These are the terms in which reading is
judged.
-/

namespace BoolQuery

/-- The tokens a block is written in. -/
def Block.tokens : Block → List Token
  | .quoted token | .word token => [token]
  | .keyValue key value => [key, value]

/-- Whether the tokens of a block have the kinds of their places. -/
def Block.WellKinded : Block → Prop
  | .quoted token => token.kind = .quoted
  | .word token => token.kind = .word
  | .keyValue key value => key.kind = .key ∧ value.kind = .quoted

mutual

def Operand.tokens : Operand → List Token
  | .block b => b.tokens
  | .negated not operand => not :: operand.tokens
  | .group lparen tree rparen => lparen :: (tree.tokens ++ [rparen])

def Tree.tokens : Tree → List Token
  | .single operand => operand.tokens
  | .join left _ token right => left.tokens ++ token :: right.tokens

end

mutual

/-- The largest number of NOTs and groups around a point of an operand. -/
def Operand.nesting : Operand → Nat
  | .block _ => 0
  | .negated _ operand => operand.nesting + 1
  | .group _ tree _ => tree.nesting + 1

def Tree.nesting : Tree → Nat
  | .single operand => operand.nesting
  | .join left _ _ right => max left.nesting right.nesting

end

mutual

/-- Whether every token of an operand has the kind of its place. -/
def Operand.WellKinded : Operand → Prop
  | .block b => b.WellKinded
  | .negated not operand => not.kind = .not ∧ operand.WellKinded
  | .group lparen tree rparen => lparen.kind = .lparen ∧ tree.WellKinded ∧
    rparen.kind = .rparen

def Tree.WellKinded : Tree → Prop
  | .single operand => operand.WellKinded
  | .join left op token right => left.WellKinded ∧ token.kind = op.kind ∧ right.WellKinded

end

end BoolQuery
