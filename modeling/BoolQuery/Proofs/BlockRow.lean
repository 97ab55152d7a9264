import BoolQuery.Tree.Grammar

/-!
# The blocks of a row of tokens

The blocks of a tree can be told from its tokens alone, from left to right and without
regard to what is nested in what: a phrase makes one block with the key directly before it
or, if there is none, a block of its own, and a word always does.

So trees that start with the same tokens start with the same blocks.
-/

namespace BoolQuery

namespace Block

/-- The block that a token completes, if there is one, with the key directly before. -/
def endingIn? (key? : Option Token) (t : Token) : Option Block :=
  match t.kind, key? with
  | .quoted, some key => some (keyValue key t)
  | .quoted, none => some (quoted t)
  | .word, _ => some (word t)
  | _, _ => none

/-- The blocks of tokens in a row that have a key, or none, directly before them. -/
def rowFrom (key? : Option Token) : List Token → List Block
  | [] => []
  | t :: ts =>
      (endingIn? key? t).toList ++ rowFrom (if t.kind = .key then some t else none) ts

/-- The blocks of tokens in a row. -/
def row (ts : List Token) : List Block := rowFrom none ts

theorem rowFrom_prefix (key? : Option Token) (ts us : List Token) :
    rowFrom key? ts <+: rowFrom key? (ts ++ us) := by
  induction ts generalizing key? with
  | nil => exact List.nil_prefix
  | cons t ts ih => exact (List.prefix_append_right_inj _).2 (ih _)

theorem row_prefix {ts us : List Token} (h : ts <+: us) : row ts <+: row us := by
  obtain ⟨more, rfl⟩ := h
  exact rowFrom_prefix none ts more

theorem rowFrom_separator {t : Token} (ts : List Token)
    (h : t.kind ≠ .key ∧ t.kind ≠ .quoted ∧ t.kind ≠ .word) :
    rowFrom none (t :: ts) = rowFrom none ts := by
  obtain ⟨hkey, hquoted, hword⟩ := h
  have hnone : endingIn? none t = none := by
    cases hkind : t.kind <;> simp_all [endingIn?]
  rw [rowFrom, hnone, if_neg hkey]
  rfl

theorem rowFrom_tokens {b : Block} (hkind : b.WellKinded) (ts : List Token) :
    rowFrom none (b.tokens ++ ts) = b :: rowFrom none ts := by
  cases b with
  | quoted t =>
      have ht : t.kind = .quoted := hkind
      simp [tokens, rowFrom, endingIn?, ht]
  | word t =>
      have ht : t.kind = .word := hkind
      simp [tokens, rowFrom, endingIn?, ht]
  | keyValue key value =>
      obtain ⟨hkey, hvalue⟩ := hkind
      simp [tokens, rowFrom, endingIn?, hkey, hvalue]

end Block

mutual

theorem Operand.rowFrom_tokens (operand : Operand) (hkind : operand.WellKinded)
    (ts : List Token) :
    Block.rowFrom none (operand.tokens ++ ts) = operand.blocks ++ Block.rowFrom none ts := by
  cases operand with
  | block b => exact Block.rowFrom_tokens hkind ts
  | negated not operand =>
      obtain ⟨hnot, hoperand⟩ := hkind
      rw [Operand.tokens, List.cons_append, Block.rowFrom_separator _ (by simp [hnot]),
        operand.rowFrom_tokens hoperand, Operand.blocks_negated]
  | group lparen tree rparen =>
      obtain ⟨hlparen, htree, hrparen⟩ := hkind
      rw [Operand.tokens, List.cons_append, Block.rowFrom_separator _ (by simp [hlparen]),
        List.append_assoc, tree.rowFrom_tokens htree, List.singleton_append,
        Block.rowFrom_separator _ (by simp [hrparen]), Operand.blocks_group]

theorem Tree.rowFrom_tokens (tree : Tree) (hkind : tree.WellKinded) (ts : List Token) :
    Block.rowFrom none (tree.tokens ++ ts) = tree.blocks ++ Block.rowFrom none ts := by
  cases tree with
  | single operand => exact operand.rowFrom_tokens hkind ts
  | join left op token right =>
      obtain ⟨hleft, hop, hright⟩ := hkind
      have hseparator : token.kind ≠ .key ∧ token.kind ≠ .quoted ∧ token.kind ≠ .word := by
        rw [hop]
        cases op <;> decide
      rw [Tree.tokens, List.append_assoc, left.rowFrom_tokens hleft, List.cons_append,
        Block.rowFrom_separator _ hseparator, right.rowFrom_tokens hright, Tree.blocks_join,
        List.append_assoc]

end

theorem Tree.row_tokens {tree : Tree} (hkind : tree.WellKinded) :
    Block.row tree.tokens = tree.blocks := by
  have hrow := tree.rowFrom_tokens hkind []
  rwa [List.append_nil, Block.rowFrom, List.append_nil] at hrow

/-- Trees that start with the same tokens start with the same blocks. -/
theorem Tree.blocks_prefix {tree other : Tree} (hkind : tree.WellKinded)
    (hother : other.WellKinded) (h : tree.tokens <+: other.tokens) :
    tree.blocks <+: other.blocks := by
  rw [← row_tokens hkind, ← row_tokens hother]
  exact Block.row_prefix h

end BoolQuery
