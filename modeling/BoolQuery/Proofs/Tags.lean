import BoolQuery.Expr.Tagged
import BoolQuery.Proofs.Documents
import BoolQuery.Proofs.Nodes

/-!
# The types that nodes hold

A node that is made holds the type of its leftmost part. This says what comes of it: in the
expression of a query every node holds the one type of the query's blocks, and a document
may as well be written from what the nodes hold, and still has all of the expression in it,
with the types.
-/

namespace BoolQuery

/-! ## Nodes of queries -/

def Block.toTagged : Block → TaggedExpr
  | .quoted token | .word token => .leaf token.text .bare
  | .keyValue key value => .leaf (key.text ++ value.text) .keyValue

mutual

def Operand.toTagged : Operand → TaggedExpr
  | .block b => b.toTagged
  | .negated _ operand => operand.toTagged.negate
  | .group _ tree _ => tree.toTagged.enclose

/-- The expression of a tree with the types that its nodes get when they are made. -/
def Tree.toTagged : Tree → TaggedExpr
  | .single operand => operand.toTagged
  | .join left op _ right => .combine op left.toTagged right.toTagged

end

theorem Block.toTagged_eq (b : Block) : b.toTagged = b.toExpr.tagged := by
  cases b <;> rfl

mutual

theorem Operand.toTagged_eq (operand : Operand) :
    operand.toTagged = operand.toExpr.tagged := by
  cases operand with
  | block b => exact b.toTagged_eq
  | negated not operand => exact congrArg TaggedExpr.negate operand.toTagged_eq
  | group lparen tree rparen => exact congrArg TaggedExpr.enclose tree.toTagged_eq

theorem Tree.toTagged_eq (tree : Tree) : tree.toTagged = tree.toExpr.tagged := by
  cases tree with
  | single operand => exact operand.toTagged_eq
  | join left op token right =>
      rw [Tree.toTagged, left.toTagged_eq, right.toTagged_eq]
      rfl

end

/-- An expression and all that it is made of, in the order of `Expr.nodes`. -/
def TaggedExpr.nodes : TaggedExpr → List TaggedExpr
  | leaf text tag => [leaf text tag]
  | not child tag => not child tag :: child.nodes
  | group child tag => group child tag :: child.nodes
  | binary op left right tag => left.nodes ++ binary op left right tag :: right.nodes

theorem Expr.nodes_tagged (e : Expr) : e.tagged.nodes = e.nodes.map Expr.tagged := by
  induction e with
  | leaf text blockType => rfl
  | not child ih => exact congrArg _ ih
  | group child ih => exact congrArg _ ih
  | binary op left right ihl ihr =>
      rw [nodes, List.map_append, List.map_cons, ← ihl, ← ihr]
      rfl

/-- In the expression of a query every node holds the type of the query's blocks. -/
theorem tag_of_compile {s : TokenStream} {e : Expr} (h : compile s = .ok e) :
    ∃ u : UniformTree, Tree.ofStream s = .ok u.tree ∧ u.tree.toTagged = e.tagged ∧
      ∀ n ∈ u.tree.toTagged.nodes, n.tag = u.blockType := by
  obtain ⟨u, htree, -, rfl, hkind, htokens⟩ := exists_uniform_of_compile h
  refine ⟨u, htree, u.tree.toTagged_eq, fun n hn => ?_⟩
  rw [u.tree.toTagged_eq, Expr.nodes_tagged] at hn
  obtain ⟨node, hnode, rfl⟩ := List.mem_map.1 hn
  rw [node.tag_tagged]
  exact (Tree.mirrors_toExpr hkind htokens).blockType node hnode

/-! ## Documents -/

namespace TaggedExpr

def operatorsOnto (after : List Json) : TaggedExpr → List Json
  | binary op left _ _ => operatorsOnto (.str op.text :: after) left
  | _ => after

mutual

/-- The document of an expression, with the types that its nodes hold. -/
def toJson : TaggedExpr → Json
  | leaf text tag => Expr.leafDoc text tag
  | not child tag => Expr.notDoc tag child.toJson
  | group child tag => Expr.groupDoc tag child.toJson
  | binary op left right tag =>
      Expr.chainDoc tag (left.operandDocsOnto [right.toJson])
        (operatorsOnto [.str op.text] left)

def operandDocsOnto (after : List Json) : TaggedExpr → List Json
  | leaf text tag => Expr.leafDoc text tag :: after
  | not child tag => Expr.notDoc tag child.toJson :: after
  | group child tag => Expr.groupDoc tag child.toJson :: after
  | binary _ left right _ => left.operandDocsOnto (right.toJson :: after)

end

end TaggedExpr

namespace Expr

theorem operatorsOnto_tagged (e : Expr) (after : List Json) :
    e.tagged.operatorsOnto after = e.operatorsOnto after := by
  induction e generalizing after with
  | leaf text blockType => rfl
  | not child ih => rfl
  | group child ih => rfl
  | binary op left right ihl _ => exact ihl (.str op.text :: after)

mutual

/-- What the nodes hold is what is read off the terms below them. -/
theorem toJson_tagged (e : Expr) : e.tagged.toJson = e.toJson := by
  cases e with
  | leaf text blockType => rfl
  | not child =>
      show notDoc child.tagged.tag child.tagged.toJson = _
      rw [child.tag_tagged, child.toJson_tagged, toJson]
  | group child =>
      show groupDoc child.tagged.tag child.tagged.toJson = _
      rw [child.tag_tagged, child.toJson_tagged, toJson]
  | binary op left right =>
      show chainDoc left.tagged.tag (left.tagged.operandDocsOnto [right.tagged.toJson])
        (left.tagged.operatorsOnto [.str op.text]) = _
      rw [left.tag_tagged, left.operandDocsOnto_tagged, right.toJson_tagged,
        left.operatorsOnto_tagged, toJson]

theorem operandDocsOnto_tagged (e : Expr) (after : List Json) :
    e.tagged.operandDocsOnto after = e.operandDocsOnto after := by
  cases e with
  | leaf text blockType => rfl
  | not child =>
      show notDoc child.tagged.tag child.tagged.toJson :: after = _
      rw [child.tag_tagged, child.toJson_tagged, operandDocsOnto]
  | group child =>
      show groupDoc child.tagged.tag child.tagged.toJson :: after = _
      rw [child.tag_tagged, child.toJson_tagged, operandDocsOnto]
  | binary op left right =>
      show left.tagged.operandDocsOnto (right.tagged.toJson :: after) = _
      rw [left.operandDocsOnto_tagged, right.toJson_tagged, operandDocsOnto]

end

end Expr

/-- The document of an expression that was built holds all of it, with the types. -/
theorem TaggedExpr.Built.ofJson?_toJson {t : TaggedExpr} (h : t.Built) :
    (Expr.ofJson? t.toJson).map Expr.tagged = some t := by
  have hdoc : t.toJson = t.untagged.toJson := by
    rw [← t.untagged.toJson_tagged, h.tagged_untagged]
  rw [hdoc, Expr.ofJson?, Expr.readDoc_toJson]
  exact congrArg some h.tagged_untagged

end BoolQuery
