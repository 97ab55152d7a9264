import BoolQuery.Expr

/-!
# The shape of an expression

Three things about an expression that say how it could have been written. `terms` are
its terms from left to right. `nesting` is the largest number of NOTs and groups
around any of them. And it `HangsLeft` if whatever is joined stands in a group before
it is negated or joined on the right, which is how text reads without precedence.

As with trees of the grammar, nothing here is run to read a query.
-/

namespace BoolQuery.Expr

/-- The terms of an expression in their order, each with its block type. -/
def terms : Expr → List (String × BlockType)
  | leaf text blockType => [(text, blockType)]
  | not child => child.terms
  | group child => child.terms
  | binary _ left right => left.terms ++ right.terms

/-- The largest number of NOTs and groups on a way from the top to a term. -/
def nesting : Expr → Nat
  | leaf _ _ => 0
  | not child => child.nesting + 1
  | group child => child.nesting + 1
  | binary _ left right => max left.nesting right.nesting

def isBinary : Expr → Bool
  | binary _ _ _ => true
  | _ => false

theorem chain_of_not_binary {e : Expr} (h : e.isBinary = false) : e.chain = (e, []) := by
  cases e with
  | leaf text blockType => rfl
  | not child => rfl
  | group child => rfl
  | binary op left right => cases h

/-- Whether nothing is negated, or joined to what stands left of it, that is itself
joined and has no group around it. -/
def HangsLeft : Expr → Prop
  | leaf _ _ => True
  | not child => child.isBinary = false ∧ child.HangsLeft
  | group child => child.HangsLeft
  | binary _ left right => left.HangsLeft ∧ right.isBinary = false ∧ right.HangsLeft

end BoolQuery.Expr
