import BoolQuery.Token

/-!
# Connectives

`AND` and `OR` join two operands. They bind equally strongly, and a chain of
them groups from the left, so a connective carries no strength of its own.
-/

namespace BoolQuery

/-- A word that joins two operands. -/
inductive Connective where
  | and
  | or
deriving DecidableEq, Repr

namespace Connective

def text : Connective → String
  | and => "AND"
  | or => "OR"

/-- The connective that tokens of a kind stand for. -/
def ofKind? : Kind → Option Connective
  | .and => some and
  | .or => some or
  | _ => none

/-- The kind of the tokens that stand for a connective. -/
def kind : Connective → Kind
  | and => .and
  | or => .or

theorem ofKind?_eq_some_iff {kind : Kind} {op : Connective} :
    ofKind? kind = some op ↔ kind = op.kind := by
  cases kind <;> cases op <;> decide

end Connective

end BoolQuery
