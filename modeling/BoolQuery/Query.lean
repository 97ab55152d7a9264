import BoolQuery.Expr.OfTree
import BoolQuery.Tree.Read
import BoolQuery.UniformTree

/-!
# Reading queries

A query is cut into tokens, read as a tree, checked for a single block type, and
stripped of its places. The first of these stages that fails decides the error.
-/

namespace BoolQuery

/-- A stage of reading at which a query can fail. -/
inductive Stage where
  | lexical
  | syntactic
  | validation
deriving DecidableEq, Repr

namespace Stage

def name : Stage → String
  | lexical => "lexical"
  | syntactic => "syntax"
  | validation => "validation"

/-- The name of a stage at the start of a message. -/
def title : Stage → String
  | lexical => "Lexical"
  | syntactic => "Syntax"
  | validation => "Validation"

end Stage

/-- Why a query cannot be read. -/
inductive QueryError where
  | lexical (error : LexError)
  | syntactic (error : SyntaxError)
  | mixed (error : MixedBlockTypes)
deriving DecidableEq, Repr

namespace QueryError

def stage : QueryError → Stage
  | lexical _ => .lexical
  | syntactic _ => .syntactic
  | mixed _ => .validation

def span : QueryError → Span
  | lexical e => e.span
  | syntactic e => e.span
  | mixed e => e.span

def message : QueryError → String
  | lexical e => e.message
  | syntactic e => e.message
  | mixed e => e.message

end QueryError

/-- The expression of a tree, if its blocks are all of one type. -/
def UniformTree.toExpr (u : UniformTree) : Expr := u.tree.toExpr

/-- The expression of a query that is already cut into tokens. -/
def compile (stream : TokenStream) : Except QueryError Expr := do
  let tree ← (Tree.ofStream stream).mapError .syntactic
  let uniform ← tree.checkUniform.mapError .mixed
  return uniform.toExpr

/-- The expression of a query. -/
def parse (query : String) : Except QueryError Expr := do
  let stream ← (TokenStream.ofQuery query).mapError .lexical
  compile stream

end BoolQuery
