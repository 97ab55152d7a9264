import BoolQuery.Expr.Tagged
import BoolQuery.Expr.Text
import BoolQuery.Proofs.Chains
import BoolQuery.Proofs.Nodes

/-!
# What the walks come to

A chain can be ten thousand operands long, so nothing that is run goes down its left side
by recursion: a chain is taken apart with the operands above in hand, its text is collected
from the right, and its terms are counted with a list of what is left to visit. Each walk
comes to what recursion over the expression says, for expressions of any shape: a right
side can be a chain itself, and so can what is negated.

A walk with something in hand is compared with recursion for anything it could have in
hand (`join_piecesOnto`, `Tree.chainOnto_foldl`); the walk as it is run starts with nothing.
-/

namespace BoolQuery

namespace Expr

/-! ## Text -/

theorem join_piecesOnto (e : Expr) (after : List String) :
    String.join (e.piecesOnto after) = e.rendering ++ String.join after := by
  induction e generalizing after with
  | leaf text blockType => rw [piecesOnto, rendering, String.join_cons]
  | not child ih => rw [piecesOnto, rendering, String.join_cons, ih, String.append_assoc]
  | group child ih =>
      rw [piecesOnto, rendering, String.join_cons, ih, String.join_cons]
      simp only [String.append_assoc]
  | binary op left right ihl ihr =>
      rw [piecesOnto, rendering, ihl]
      simp only [String.join_cons, ihr, String.append_assoc]

theorem text_eq_rendering (e : Expr) : e.text = e.rendering := by
  rw [text, join_piecesOnto, String.join_nil, String.append_empty]

/-- A chain is written as its first operand, and each further operand behind its
connective. -/
theorem rendering_joinAll (first : Expr) (others : List (Connective × Expr)) :
    (joinAll first others).rendering = first.rendering ++
      String.join (others.map fun other => " " ++ other.1.text ++ " " ++
        other.2.rendering) := by
  induction others using List.reverseRecOn with
  | nil => simp
  | append_singleton others other ih =>
      rw [joinAll_concat, rendering, ih, List.map_append, String.join_append]
      simp [String.append_assoc]

theorem text_eq_chain (e : Expr) :
    e.text = e.chain.1.text ++
      String.join (e.chain.2.map fun other => " " ++ other.1.text ++ " " ++
        other.2.text) := by
  simp only [text_eq_rendering]
  rw [← rendering_joinAll, joinAll_chain]

end Expr

/-! ## Trees as chains -/

namespace Tree

/-- Joins operands to a first one, one after the other. -/
def joinAll (first : Operand) (others : List (Connective × Token × Operand)) : Tree :=
  others.foldl (fun left other => join left other.1 other.2.1 other.2.2) (single first)

/-- Operands that are joined to a tree come before those in hand. -/
theorem chainOnto_foldl (tree : Tree) (others above : List (Connective × Token × Operand)) :
    (others.foldl (fun left other => join left other.1 other.2.1 other.2.2)
        tree).chainOnto above =
      tree.chainOnto (others ++ above) := by
  induction others generalizing tree with
  | nil => rfl
  | cons other others ih => exact ih (join tree other.1 other.2.1 other.2.2)

theorem chain_joinAll (first : Operand) (others : List (Connective × Token × Operand)) :
    (joinAll first others).chain = (first, others) := by
  rw [chain, joinAll, chainOnto_foldl, List.append_nil, chainOnto]

theorem joinAll_chainOnto (tree : Tree) (above : List (Connective × Token × Operand)) :
    joinAll (tree.chainOnto above).1 (tree.chainOnto above).2 =
      above.foldl (fun left other => join left other.1 other.2.1 other.2.2) tree := by
  cases tree with
  | single operand => rfl
  | join left op token right => exact left.joinAll_chainOnto ((op, token, right) :: above)

theorem joinAll_chain (tree : Tree) : joinAll tree.chain.1 tree.chain.2 = tree :=
  tree.joinAll_chainOnto []

theorem toExpr_joinAll (first : Operand) (others : List (Connective × Token × Operand)) :
    (joinAll first others).toExpr =
      Expr.joinAll first.toExpr (others.map fun other => (other.1, other.2.2.toExpr)) := by
  induction others using List.reverseRecOn with
  | nil => rfl
  | append_singleton others other ih =>
      rw [List.map_append, List.map_singleton, Expr.joinAll_concat, ← ih, joinAll,
        List.foldl_append]
      rfl

/-- The operands of a tree make those of its expression, each on its own. -/
theorem chain_toExpr (tree : Tree) :
    tree.toExpr.chain =
      (tree.chain.1.toExpr, tree.chain.2.map fun other => (other.1, other.2.2.toExpr)) := by
  have htree := toExpr_joinAll tree.chain.1 tree.chain.2
  rw [joinAll_chain] at htree
  rw [htree, Expr.chain_joinAll tree.chain.1.isBinary_toExpr]

end Tree

/-! ## All walks -/

theorem TaggedExpr.isBinary_chain_fst (t : TaggedExpr) :
    t.chain.1.untagged.isBinary = false := by
  have hfirst := t.untagged.isBinary_chain_fst
  rwa [t.chain_untagged] at hfirst

/-- The walks come to what recursion says. A chain, whatever the tags in it, begins with an
operand that joins nothing, and combining its operands gives it back if it was built; the
text is the one recursion writes, operand by operand of the chain, and the terms are as many
as recursion counts. Trees are the same as a first operand with others joined to it, and
these make the chain of the tree's expression. -/
theorem walks_eq_recursion :
    (∀ t : TaggedExpr,
      t.chain.1.untagged.isBinary = false ∧
      (t.Built → TaggedExpr.combineAll t.chain.1 t.chain.2 = t) ∧
      t.untagged.chain =
        (t.chain.1.untagged, t.chain.2.map fun other => (other.1, other.2.untagged))) ∧
    (∀ e : Expr,
      e.chain.1.isBinary = false ∧
      Expr.joinAll e.chain.1 e.chain.2 = e ∧
      e.text = e.rendering ∧
      e.text = e.chain.1.text ++
        String.join (e.chain.2.map fun other => " " ++ other.1.text ++ " " ++ other.2.text) ∧
      e.leafCount = e.leaves) ∧
    (∀ tree : Tree,
      Tree.joinAll tree.chain.1 tree.chain.2 = tree ∧
      tree.toExpr.chain =
        (tree.chain.1.toExpr, tree.chain.2.map fun other => (other.1, other.2.2.toExpr))) ∧
    ∀ (first : Operand) (others : List (Connective × Token × Operand)),
      (Tree.joinAll first others).chain = (first, others) ∧
      (Tree.joinAll first others).toExpr.chain =
        (first.toExpr, others.map fun other => (other.1, other.2.2.toExpr)) := by
  refine ⟨fun t => ⟨t.isBinary_chain_fst, fun h => h.combineAll_chain, t.chain_untagged⟩,
    fun e => ⟨e.isBinary_chain_fst, e.joinAll_chain, e.text_eq_rendering, e.text_eq_chain,
      e.leafCount_eq⟩,
    fun tree => ⟨tree.joinAll_chain, tree.chain_toExpr⟩,
    fun first others => ⟨Tree.chain_joinAll first others, ?_⟩⟩
  rw [Tree.chain_toExpr, Tree.chain_joinAll]

/-- A right side that is a chain itself, and begins with a chain that is negated, is one
operand. -/
theorem walks_eq_recursion_nested :
    TaggedExpr.Built (.binary .or (.leaf "a" .keyValue)
      (.binary .and (.not (.binary .or (.leaf "b" .bare) (.leaf "c" .keyValue) .bare) .bare)
        (.leaf "d" .bare) .bare) .keyValue) ∧
    TaggedExpr.combineAll (.leaf "a" .keyValue)
        [(.or, .binary .and
          (.not (.binary .or (.leaf "b" .bare) (.leaf "c" .keyValue) .bare) .bare)
          (.leaf "d" .bare) .bare)] =
      .binary .or (.leaf "a" .keyValue)
        (.binary .and (.not (.binary .or (.leaf "b" .bare) (.leaf "c" .keyValue) .bare)
          .bare) (.leaf "d" .bare) .bare) .keyValue :=
  have hbuilt : TaggedExpr.Built (.binary .or (.leaf "a" .keyValue)
      (.binary .and (.not (.binary .or (.leaf "b" .bare) (.leaf "c" .keyValue) .bare) .bare)
        (.leaf "d" .bare) .bare) .keyValue) := by decide
  ⟨hbuilt, (walks_eq_recursion.1 _).2.1 hbuilt⟩

/-- A type that building would not have written is not given back. -/
example : TaggedExpr.combineAll (.leaf "a" .bare) [(.or, .leaf "b" .bare)] ≠
    .binary .or (.leaf "a" .bare) (.leaf "b" .bare) .keyValue := by decide

end BoolQuery
