import BoolQuery.Expr

/-!
# Canonical text

An expression is written with one blank around each connective and after each NOT,
no blanks inside parentheses, and its terms as they are. `text` collects the pieces
from the right, so that the length of a chain costs nothing but its length;
`rendering` is the same text by plain recursion.
-/

namespace BoolQuery.Expr

/-- The pieces of the canonical text, before the given ones. -/
def piecesOnto (after : List String) : Expr → List String
  | leaf text _ => text :: after
  | not child => "NOT " :: child.piecesOnto after
  | group child => "(" :: child.piecesOnto (")" :: after)
  | binary op left right =>
      left.piecesOnto (" " :: op.text :: " " :: right.piecesOnto after)

def text (e : Expr) : String := String.join (e.piecesOnto [])

/-- The canonical text of an expression, by recursion. -/
def rendering : Expr → String
  | leaf text _ => text
  | not child => "NOT " ++ child.rendering
  | group child => "(" ++ child.rendering ++ ")"
  | binary op left right => left.rendering ++ " " ++ op.text ++ " " ++ right.rendering

end BoolQuery.Expr
