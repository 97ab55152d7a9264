import BoolQuery.Expr.Document
import BoolQuery.Expr.Shape
import Mathlib.Data.List.Basic
import Mathlib.Data.List.Induction

/-!
# Expressions as chains

An expression that joins something is a chain: a first operand, which joins nothing, and
one operand or more that are joined to it one after the other. The type of expressions
shows a chain from its end, one joining at a time, but what is written for an expression
has all operands of a chain side by side. `chainInduction` is the induction that goes with
that: from all operands of a chain at once to the chain.
-/

namespace BoolQuery.Expr

@[simp] theorem joinAll_nil (first : Expr) : joinAll first [] = first := rfl

@[simp] theorem joinAll_concat (first : Expr) (others : List (Connective × Expr))
    (op : Connective) (right : Expr) :
    joinAll first (others ++ [(op, right)]) = binary op (joinAll first others) right := by
  rw [joinAll, List.foldl_append]
  rfl

theorem joinAll_chain (e : Expr) : joinAll e.chain.1 e.chain.2 = e :=
  joinAll_chainOnto e []

/-- Operands joined to one that joins nothing are the chain of what they are joined to. -/
theorem chain_joinAll {first : Expr} (hfirst : first.isBinary = false)
    (others : List (Connective × Expr)) :
    (joinAll first others).chain = (first, others) := by
  induction others using List.reverseRecOn with
  | nil => exact chain_of_not_binary hfirst
  | append_singleton others other ih => rw [joinAll_concat, chain_binary, ih]

theorem isBinary_joinAll (first : Expr) {others : List (Connective × Expr)}
    (hothers : others ≠ []) : (joinAll first others).isBinary = true := by
  obtain ⟨before, ⟨op, right⟩, rfl⟩ := others.eq_nil_or_concat'.resolve_left hothers
  rw [joinAll_concat, isBinary]

theorem blockType_joinAll (first : Expr) (others : List (Connective × Expr)) :
    (joinAll first others).blockType = first.blockType := by
  induction others using List.reverseRecOn with
  | nil => rfl
  | append_singleton others other ih => rw [joinAll_concat, blockType, ih]

theorem isBinary_chain_fst (e : Expr) : e.chain.1.isBinary = false := by
  induction e with
  | leaf text blockType => rfl
  | not child => rfl
  | group child => rfl
  | binary op left right ihl _ =>
      rw [chain_binary]
      exact ihl

theorem nesting_joinAll_le_iff {first : Expr} {others : List (Connective × Expr)}
    {bound : Nat} :
    (joinAll first others).nesting ≤ bound ↔
      first.nesting ≤ bound ∧ ∀ other ∈ others, other.2.nesting ≤ bound := by
  induction others using List.reverseRecOn with
  | nil => simp
  | append_singleton others other ih =>
      rw [joinAll_concat, nesting, Nat.max_le, ih, List.forall_mem_append,
        List.forall_mem_singleton, and_assoc]

theorem hangsLeft_joinAll_iff {first : Expr} {others : List (Connective × Expr)} :
    (joinAll first others).HangsLeft ↔
      first.HangsLeft ∧ ∀ other ∈ others, other.2.isBinary = false ∧ other.2.HangsLeft := by
  induction others using List.reverseRecOn with
  | nil => simp
  | append_singleton others other ih =>
      rw [joinAll_concat, HangsLeft, ih, List.forall_mem_append, List.forall_mem_singleton,
        and_assoc]

/-- What holds of terms, is kept by negations and groups, and holds of a chain if it holds
of its operands, holds of every expression. -/
@[elab_as_elim]
theorem chainInduction {motive : Expr → Prop}
    (leaf : ∀ text blockType, motive (leaf text blockType))
    (not : ∀ child, motive child → motive (not child))
    (group : ∀ child, motive child → motive (group child))
    (chain : ∀ first others, first.isBinary = false → others ≠ [] → motive first →
      (∀ other ∈ others, motive other.2) → motive (joinAll first others))
    (e : Expr) : motive e := by
  -- Taken apart one joining at a time, an expression brings its operands along.
  suffices hall : motive e ∧ motive e.chain.1 ∧
      ∀ other ∈ e.chain.2, motive other.2 from hall.1
  induction e with
  | leaf text blockType =>
      exact ⟨leaf text blockType, leaf text blockType, List.forall_mem_nil _⟩
  | not child ih => exact ⟨not child ih.1, not child ih.1, List.forall_mem_nil _⟩
  | group child ih => exact ⟨group child ih.1, group child ih.1, List.forall_mem_nil _⟩
  | binary op left right ihl ihr =>
      obtain ⟨-, hfirst, hothers⟩ := ihl
      have hmore : ∀ other ∈ left.chain.2 ++ [(op, right)], motive other.2 :=
        List.forall_mem_append.2 ⟨hothers, List.forall_mem_singleton.2 ihr.1⟩
      have hjoined := chain _ _ left.isBinary_chain_fst (by simp) hfirst hmore
      rw [joinAll_concat, joinAll_chain] at hjoined
      rw [chain_binary]
      exact ⟨hjoined, hfirst, hmore⟩

/-- The document of operands that are joined lists their documents side by side. -/
theorem toJson_joinAll {first : Expr} (hfirst : first.isBinary = false)
    {others : List (Connective × Expr)} (hothers : others ≠ []) :
    (joinAll first others).toJson =
      chainDoc first.blockType (first.toJson :: others.map fun other => other.2.toJson)
        ((others.map fun other => other.1.text).map .str) := by
  obtain ⟨before, ⟨op, right⟩, rfl⟩ := others.eq_nil_or_concat'.resolve_left hothers
  have hchain := chain_joinAll hfirst (before ++ [(op, right)])
  rw [joinAll_concat] at hchain ⊢
  rw [toJson_binary, hchain, blockType_joinAll, List.map_map]
  rfl

end BoolQuery.Expr
