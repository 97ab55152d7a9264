import BoolQuery.BlockType
import BoolQuery.Connective

/-!
# Expressions

What a query means, without the places of its parts: terms, their negations and
groups, and the joining of two expressions. A term is the text it was written as,
and has a block type; any larger expression has the block type of its leftmost
term. Nothing forces the terms of an expression to agree, nor the text of a term
to be one that a query could hold: an expression can be built freely, and it is
only reading that gives uniform ones.

A chain of connectives hangs to the left and can be very long. `chain` is the view
of an expression as its operands in a row, and the walks below go down the left
side step by step, or keep a list of what is left to visit. Beside each stands the
plain recursion that says what it computes.
-/

namespace BoolQuery

/-- A query without places. -/
inductive Expr where
  | leaf (text : String) (blockType : BlockType)
  | not (child : Expr)
  | group (child : Expr)
  | binary (op : Connective) (left right : Expr)
deriving DecidableEq, Repr

namespace Expr

/-- The block type of an expression is that of its leftmost term. -/
def blockType : Expr → BlockType
  | leaf _ blockType => blockType
  | not child => child.blockType
  | group child => child.blockType
  | binary _ left _ => left.blockType

/-- Walks down a chain with the joined operands above in hand. -/
def chainOnto (above : List (Connective × Expr)) : Expr → Expr × List (Connective × Expr)
  | binary op left right => chainOnto ((op, right) :: above) left
  | operand => (operand, above)

/-- The first operand of a chain, and each further operand with its connective.
An expression that joins nothing is a chain of itself. -/
def chain (e : Expr) : Expr × List (Connective × Expr) := chainOnto [] e

/-- Joins operands to an expression one after the other. -/
def joinAll (first : Expr) (others : List (Connective × Expr)) : Expr :=
  others.foldl (fun left other => binary other.1 left other.2) first

theorem joinAll_chainOnto (e : Expr) (above : List (Connective × Expr)) :
    joinAll (e.chainOnto above).1 (e.chainOnto above).2 = joinAll e above := by
  induction e generalizing above with
  | leaf text blockType => rfl
  | not child => rfl
  | group child => rfl
  | binary op left right ihl _ =>
      rw [chainOnto, ihl]
      rfl

theorem chainOnto_eq (e : Expr) (above : List (Connective × Expr)) :
    e.chainOnto above = (e.chain.1, e.chain.2 ++ above) := by
  induction e generalizing above with
  | leaf text blockType => rfl
  | not child => rfl
  | group child => rfl
  | binary op left right ihl _ =>
      show left.chainOnto ((op, right) :: above) =
        ((left.chainOnto [(op, right)]).1, (left.chainOnto [(op, right)]).2 ++ above)
      rw [ihl, ihl [(op, right)], List.append_assoc, List.singleton_append]

/-- The chain of a joining is that of its left side and one operand more. -/
theorem chain_binary (op : Connective) (left right : Expr) :
    (binary op left right).chain = (left.chain.1, left.chain.2 ++ [(op, right)]) :=
  left.chainOnto_eq [(op, right)]

def size : Expr → Nat
  | leaf _ _ => 1
  | not child => child.size + 1
  | group child => child.size + 1
  | binary _ left right => left.size + right.size + 1

def sizeOfAll : List Expr → Nat
  | [] => 0
  | e :: rest => e.size + sizeOfAll rest

/-- Adds the terms of the expressions still to visit to those counted. -/
def countLeaves (counted : Nat) (pending : List Expr) : Nat :=
  match pending with
  | [] => counted
  | leaf _ _ :: rest => countLeaves (counted + 1) rest
  | not child :: rest => countLeaves counted (child :: rest)
  | group child :: rest => countLeaves counted (child :: rest)
  | binary _ left right :: rest => countLeaves counted (right :: left :: rest)
termination_by sizeOfAll pending
decreasing_by all_goals simp only [sizeOfAll, size]; omega

def leafCount (e : Expr) : Nat := countLeaves 0 [e]

/-- The number of terms of an expression, by recursion. -/
def leaves : Expr → Nat
  | leaf _ _ => 1
  | not child => child.leaves
  | group child => child.leaves
  | binary _ left right => left.leaves + right.leaves

end Expr

end BoolQuery
