import BoolQuery.Token

/-!
# Syntax errors

A syntax error names the first token that breaks the grammar, or the end of the
query, together with the rule of the grammar that was under way and what it was
waiting for.
-/

namespace BoolQuery

/-- The largest number of NOTs and groups around any point of a query. -/
def maxNesting : Nat := 128

inductive GrammarRule where
  | expression
  | binary
  | primary
  | negation
  | group
  | block
deriving DecidableEq, Repr

def GrammarRule.name : GrammarRule → String
  | expression => "expression"
  | binary => "binary"
  | primary => "primary"
  | negation => "prefix"
  | group => "group"
  | block => "block"

/-- What a rule was waiting for. -/
inductive Expectation where
  | operand
  | closingParen
  | quotedValue
  | operatorOrEnd
  | shallowerNesting
deriving DecidableEq, Repr

def Expectation.description : Expectation → String
  | operand => "a term, quoted phrase, KEY=, NOT or '('"
  | closingParen => "')'"
  | quotedValue => "a quoted value"
  | operatorOrEnd => "AND, OR or end of input"
  | shallowerNesting => s!"at most {maxNesting} nested NOTs and groups"

/-- Where the grammar was broken, and how. -/
structure SyntaxError where
  rule : GrammarRule
  expected : Expectation
  /-- The offending token; there is none at the end of the query. -/
  found : Option Token
  span : Span
deriving DecidableEq, Repr

namespace SyntaxError

/-- Whether the query ended too early. -/
def isAtEnd (e : SyntaxError) : Bool := e.found.isNone

def message (e : SyntaxError) : String :=
  let wanted := e.expected.description
  let rule := e.rule.name
  match e.found with
  | some token =>
      let found := token.description
      let position := token.span.start
      s!"Expected {wanted} in {rule}, got {found} at position {position}"
  | none => s!"Expected {wanted} in {rule}, got end of input"

end SyntaxError

end BoolQuery
