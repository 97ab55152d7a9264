import BoolQuery.Expr
import BoolQuery.Tree

/-!
# From trees to expressions

An expression keeps of a tree what does not depend on places. A key and its value
become one text, whatever blanks stood between them.
-/

namespace BoolQuery

def Block.toExpr : Block → Expr
  | .quoted token | .word token => .leaf token.text .bare
  | .keyValue key value => .leaf (key.text ++ value.text) .keyValue

mutual

def Operand.toExpr : Operand → Expr
  | .block b => b.toExpr
  | .negated _ operand => .not operand.toExpr
  | .group _ tree _ => .group tree.toExpr

/-- A tree without its places. -/
def Tree.toExpr : Tree → Expr
  | .single operand => operand.toExpr
  | .join left op _ right => .binary op left.toExpr right.toExpr

end

end BoolQuery
