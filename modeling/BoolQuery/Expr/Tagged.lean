import BoolQuery.Expr

/-!
# Expressions with a type at each node

The block type of an expression is that of its leftmost term. A node can as well hold a
type of its own, as a cell that is written when the node is made: whoever makes it with
`negate`, `enclose` or `combine` writes what the part on its left holds, but whoever
writes the cell by hand can write anything. `TaggedExpr` are the expressions with such a
cell, or tag, and `Built` picks those that were made without writing it by hand.

`untagged` drops the cells. Built expressions lose nothing by that (`built_iff`), so an
expression without tags stands for exactly one that was built. The text of an expression
and the number of its terms are read off without a look at a tag; its chain has tagged
operands, and joining them writes tags again.
-/

namespace BoolQuery

/-- An expression whose nodes hold a block type each, be it the right one or not. -/
inductive TaggedExpr where
  | leaf (text : String) (tag : BlockType)
  | not (child : TaggedExpr) (tag : BlockType)
  | group (child : TaggedExpr) (tag : BlockType)
  | binary (op : Connective) (left right : TaggedExpr) (tag : BlockType)
deriving DecidableEq, Repr

namespace TaggedExpr

/-- What the topmost node holds. -/
def tag : TaggedExpr → BlockType
  | leaf _ tag => tag
  | not _ tag => tag
  | group _ tag => tag
  | binary _ _ _ tag => tag

def negate (child : TaggedExpr) : TaggedExpr := not child child.tag

def enclose (child : TaggedExpr) : TaggedExpr := group child child.tag

def combine (op : Connective) (left right : TaggedExpr) : TaggedExpr :=
  binary op left right left.tag

/-- Whether no tag but that of a term was chosen by hand. -/
inductive Built : TaggedExpr → Prop
  | leaf (text : String) (tag : BlockType) : Built (leaf text tag)
  | negate {child : TaggedExpr} : Built child → Built child.negate
  | enclose {child : TaggedExpr} : Built child → Built child.enclose
  | combine (op : Connective) {left right : TaggedExpr} :
      Built left → Built right → Built (combine op left right)

/-- The expression without the types of its inner nodes. -/
def untagged : TaggedExpr → Expr
  | leaf text tag => .leaf text tag
  | not child _ => .not child.untagged
  | group child _ => .group child.untagged
  | binary op left right _ => .binary op left.untagged right.untagged

/-- Walks down a chain with the joined operands above in hand. -/
def chainOnto (above : List (Connective × TaggedExpr)) :
    TaggedExpr → TaggedExpr × List (Connective × TaggedExpr)
  | binary op left right _ => chainOnto ((op, right) :: above) left
  | operand => (operand, above)

/-- The first operand of a chain, and each further operand with its connective. -/
def chain (t : TaggedExpr) : TaggedExpr × List (Connective × TaggedExpr) := chainOnto [] t

/-- Combines an expression with operands one after the other. -/
def combineAll (first : TaggedExpr) (others : List (Connective × TaggedExpr)) : TaggedExpr :=
  others.foldl (fun left other => combine other.1 left other.2) first

end TaggedExpr

/-- The expression with the tags that its nodes hold when they are built. -/
def Expr.tagged : Expr → TaggedExpr
  | leaf text blockType => .leaf text blockType
  | not child => child.tagged.negate
  | group child => child.tagged.enclose
  | binary op left right => .combine op left.tagged right.tagged

/-- The tags of built nodes are the types of the expressions below them. -/
theorem Expr.tag_tagged (e : Expr) : e.tagged.tag = e.blockType := by
  induction e with
  | leaf text blockType => rfl
  | not child ih => exact ih
  | group child ih => exact ih
  | binary op left right ihl _ => exact ihl

theorem Expr.built_tagged (e : Expr) : e.tagged.Built := by
  induction e with
  | leaf text blockType => exact .leaf text blockType
  | not child ih => exact .negate ih
  | group child ih => exact .enclose ih
  | binary op left right ihl ihr => exact .combine op ihl ihr

@[simp] theorem Expr.untagged_tagged (e : Expr) : e.tagged.untagged = e := by
  induction e with
  | leaf text blockType => rfl
  | not child ih => exact congrArg not ih
  | group child ih => exact congrArg group ih
  | binary op left right ihl ihr =>
      show binary op left.tagged.untagged right.tagged.untagged = _
      rw [ihl, ihr]

namespace TaggedExpr

theorem Built.tagged_untagged {t : TaggedExpr} (h : t.Built) : t.untagged.tagged = t := by
  induction h with
  | leaf text tag => rfl
  | negate _ ih => exact congrArg TaggedExpr.negate ih
  | enclose _ ih => exact congrArg TaggedExpr.enclose ih
  | @combine op left right _ _ ihl ihr =>
      show TaggedExpr.combine op left.untagged.tagged right.untagged.tagged = _
      rw [ihl, ihr]

/-- What was built can be built again from the expression without tags. -/
theorem built_iff (t : TaggedExpr) : t.Built ↔ t.untagged.tagged = t :=
  ⟨Built.tagged_untagged, fun h => h ▸ t.untagged.built_tagged⟩

instance : DecidablePred Built := fun t => decidable_of_iff _ t.built_iff.symm

/-- The walk down a chain does not look at tags. -/
theorem untagged_chainOnto (t : TaggedExpr) (above : List (Connective × TaggedExpr)) :
    t.untagged.chainOnto (above.map fun other => (other.1, other.2.untagged)) =
      ((t.chainOnto above).1.untagged,
        (t.chainOnto above).2.map fun other => (other.1, other.2.untagged)) := by
  induction t generalizing above with
  | leaf text tag => rfl
  | not child tag => rfl
  | group child tag => rfl
  | binary op left right tag ihl _ => exact ihl ((op, right) :: above)

theorem chain_untagged (t : TaggedExpr) :
    t.untagged.chain =
      (t.chain.1.untagged, t.chain.2.map fun other => (other.1, other.2.untagged)) :=
  t.untagged_chainOnto []

/-- The joinings of a chain, done again, write the tags that building wrote. -/
theorem Built.combineAll_chainOnto {t : TaggedExpr} (h : t.Built)
    (above : List (Connective × TaggedExpr)) :
    combineAll (t.chainOnto above).1 (t.chainOnto above).2 = combineAll t above := by
  induction h generalizing above with
  | leaf text tag => rfl
  | negate _ _ => rfl
  | enclose _ _ => rfl
  | combine op _ _ ihl _ => exact ihl ((op, _) :: above)

theorem Built.combineAll_chain {t : TaggedExpr} (h : t.Built) :
    combineAll t.chain.1 t.chain.2 = t :=
  h.combineAll_chainOnto []

end TaggedExpr

end BoolQuery
