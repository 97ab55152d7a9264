import BoolQuery.SyntaxError
import BoolQuery.TokenStream
import BoolQuery.Tree

/-!
# Reading trees

A tree is read from the significant tokens of a query, one token at a time and
with no second look. `Progress` says where a reading stands between two tokens:
it waits for an operand, for the value of a key, or for whatever may follow an
operand that is complete. What surrounds that point is kept beside it: the chain
the operand will be joined to, the NOTs in front of it, and, for each group still
open, the same two things outside.

`take` says what one token does. Either the reading goes on, or it stops before
the token, with a tree or with a complaint. `halt` says what a reading comes to
when it stops, at the end of the tokens as well. The one complaint that `halt`
does not know of is a NOT or a group beyond the nesting limit; that token would
otherwise have been welcome.

The depth of a reading is the number of NOTs and groups it is inside of. It is
not counted up and down but read off: a complete operand has lost its NOTs, and a
closed group is no longer among the open ones, so the depth goes back by itself.

A `Cursor` is a reader over the tokens of one query that may be asked for several
trees in turn. A failed reading does not go back. The cursor stays before the
token that was refused, and the NOTs and groups that were open there count
towards the nesting of every later reading.
-/

namespace BoolQuery

/-- What breaks the grammar, without the place. -/
structure Complaint where
  rule : GrammarRule
  expected : Expectation
deriving DecidableEq, Repr

namespace Tree

/-- The place that an operand will take: the chain and the connective it is joined
with, if it is not the first, and the NOTs before it, the nearest first. -/
structure Slot where
  joined : Option (Tree × Connective × Token)
  nots : List Token
deriving DecidableEq, Repr

namespace Slot

def first : Slot := ⟨none, []⟩

/-- The chain that an operand completes in its place. -/
def fill (slot : Slot) (operand : Operand) : Tree :=
  let negated := slot.nots.foldl (fun inner not => .negated not inner) operand
  match slot.joined with
  | none => .single negated
  | some (left, op, token) => .join left op token negated

end Slot

/-- A group that is open: the place it will take, and its parenthesis. -/
structure OpenGroup where
  slot : Slot
  lparen : Token
deriving DecidableEq, Repr

/-- Where a reading stands, with the open groups around, the innermost first. -/
inductive Progress where
  | operandDue (slot : Slot) (groups : List OpenGroup)
  | valueDue (key : Token) (slot : Slot) (groups : List OpenGroup)
  | operandDone (tree : Tree) (groups : List OpenGroup)
deriving DecidableEq, Repr

/-- What a token does to a reading. -/
inductive Move where
  | onward (next : Progress)
  /-- The reading ends before the token. -/
  | stop (result : Except Complaint Tree)

namespace Progress

def start : Progress := operandDue .first []

/-- The number of NOTs and groups open around open groups. -/
def depthOfGroups (groups : List OpenGroup) : Nat :=
  groups.foldl (fun n g => n + g.slot.nots.length + 1) 0

/-- The number of NOTs and groups that a reading is inside of. -/
def depth : Progress → Nat
  | operandDue slot groups => slot.nots.length + depthOfGroups groups
  | valueDue _ slot groups => slot.nots.length + depthOfGroups groups
  | operandDone _ groups => depthOfGroups groups

/-- What a reading comes to if it takes no further token. -/
def halt : Progress → Except Complaint Tree
  | operandDue _ _ => .error ⟨.primary, .operand⟩
  | valueDue _ _ _ => .error ⟨.block, .quotedValue⟩
  | operandDone _ (_ :: _) => .error ⟨.group, .closingParen⟩
  | operandDone tree [] => .ok tree

/-- What a token does to a reading that starts inside of `outside` NOTs and groups. -/
def take (outside : Nat) (p : Progress) (t : Token) : Move :=
  match p with
  | operandDue slot groups =>
      match t.kind with
      | .not =>
          if maxNesting ≤ outside + p.depth then
            .stop (.error ⟨.negation, .shallowerNesting⟩)
          else
            .onward (operandDue ⟨slot.joined, t :: slot.nots⟩ groups)
      | .lparen =>
          if maxNesting ≤ outside + p.depth then
            .stop (.error ⟨.group, .shallowerNesting⟩)
          else
            .onward (operandDue .first (⟨slot, t⟩ :: groups))
      | .quoted => .onward (operandDone (slot.fill (.block (.quoted t))) groups)
      | .word => .onward (operandDone (slot.fill (.block (.word t))) groups)
      | .key => .onward (valueDue t slot groups)
      | _ => .stop p.halt
  | valueDue key slot groups =>
      match t.kind with
      | .quoted => .onward (operandDone (slot.fill (.block (.keyValue key t))) groups)
      | _ => .stop p.halt
  | operandDone tree groups =>
      match Connective.ofKind? t.kind, groups with
      | some op, _ => .onward (operandDue ⟨some (tree, op, t), []⟩ groups)
      | none, group :: groups =>
          if t.kind = .rparen then
            .onward (operandDone (group.slot.fill (.group group.lparen tree t)) groups)
          else
            .stop p.halt
      | none, [] => .stop p.halt

end Progress

/-- How a reading ended: with what, at which depth, and before which tokens. -/
structure Ending where
  result : Except Complaint Tree
  depth : Nat
  rest : List Token

/-- Takes tokens for as long as the grammar allows. -/
def Progress.run (outside : Nat) : Progress → List Token → Ending
  | p, [] => ⟨p.halt, p.depth, []⟩
  | p, t :: ts =>
      match p.take outside t with
      | .onward next => next.run outside ts
      | .stop result => ⟨result, p.depth, t :: ts⟩

end Tree

/-- A reader of trees: the tokens still to come, the NOTs and groups left open by
earlier readings, and where the query ends. -/
structure Cursor where
  rest : List Token
  depth : Nat
  sourceLength : Nat
deriving DecidableEq, Repr

namespace Cursor

def ofStream (s : TokenStream) : Cursor := ⟨s.tokens, 0, s.sourceLength⟩

/-- A complaint about the token that is next. -/
def refuse (c : Cursor) (complaint : Complaint) : SyntaxError :=
  let found := c.rest.head?
  let span := match found with
    | some token => token.span
    | none => Span.point c.sourceLength
  ⟨complaint.rule, complaint.expected, found, span⟩

/-- Reads one tree, up to the first token that cannot belong to it. -/
def readTree (c : Cursor) : Except SyntaxError Tree × Cursor :=
  let ending := Tree.Progress.start.run c.depth c.rest
  let after : Cursor := ⟨ending.rest, c.depth + ending.depth, c.sourceLength⟩
  (ending.result.mapError after.refuse, after)

/-- Reads one tree that must go up to the end of the query. -/
def readAll (c : Cursor) : Except SyntaxError Tree × Cursor :=
  match c.readTree with
  | (.ok tree, after) =>
      match after.rest with
      | [] => (.ok tree, after)
      | _ :: _ => (.error (after.refuse ⟨.expression, .operatorOrEnd⟩), after)
  | (.error e, after) => (.error e, after)

end Cursor

/-- The tree of a whole query. -/
def Tree.ofStream (s : TokenStream) : Except SyntaxError Tree :=
  (Cursor.ofStream s).readAll.1

end BoolQuery
