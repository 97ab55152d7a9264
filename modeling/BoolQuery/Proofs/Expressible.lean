import BoolQuery.Expr.Shape
import BoolQuery.Proofs.CanonicalText

/-!
# Which expressions can be written

Expressions can be built freely, but not every one of them is the expression of a
query. `Expressible` says which are: their terms are texts of one or two tokens, all
of one block type, connectives hang to the left, and nothing is nested too deeply.

That a query leads to nothing else is read off its tree: the terms of the expression
are those of the blocks of the tree, the nesting is the same, and a tree has no place
for a joined operand but inside of a group. In the other direction `exists_tree`
rebuilds a tree from an expression, with tokens that stand nowhere in particular. It
is then enough that this tree is one that can be written, and its canonical text is
what it is written as.
-/

namespace BoolQuery

/-- Whether a text, on its own and with no blanks, is a term of a block type. -/
def BlockType.Writes : BlockType → String → Prop
  | bare, text => Piece.Alone (.word, text) ∨ Piece.Alone (.quoted, text)
  | keyValue, text => ∃ s, TokenStream.ofQuery text = .ok s ∧
      s.merged.map (fun t => t.kind) = [.key, .quoted]

/-- Whether an expression is of the shape that reading gives. -/
structure Expr.Expressible (e : Expr) : Prop where
  writes : ∀ t ∈ e.terms, t.2.Writes t.1
  uniform : ∀ t ∈ e.terms, ∀ u ∈ e.terms, t.2 = u.2
  hangsLeft : e.HangsLeft
  nesting : e.nesting ≤ maxNesting

/-! ## Terms -/

/-- A key and its value are told apart wherever they stand. -/
theorem BlockType.writes_keyValue_iff {text : String} :
    keyValue.Writes text ↔ ∃ key value : String,
      text = key ++ value ∧ Kind.key.Spells key.toList ∧
        Kind.quoted.Spells value.toList := by
  constructor
  · intro h
    obtain ⟨ps, hkinds, hseparate, hchars⟩ := TokenStream.exists_kinds_iff.1 h
    obtain ⟨⟨_, key⟩, ps, rfl, rfl, hps⟩ := List.map_eq_cons_iff.1 hkinds
    obtain ⟨⟨_, value⟩, rfl, rfl⟩ := List.map_eq_singleton_iff.1 hps
    refine ⟨key, value, ?_, hseparate.1, hseparate.2.2.1⟩
    rw [← String.toList_inj, hchars]
    simp
  · rintro ⟨key, value, rfl, hkey, hvalue⟩
    refine TokenStream.exists_kinds_iff.2
      ⟨[(.key, key), (.quoted, value)], rfl, ⟨hkey, trivial, hvalue, trivial, trivial⟩, ?_⟩
    simp

theorem Block.writes_of_mem_terms {b : Block} (hkind : b.WellKinded)
    (hspelt : Spelt b.tokens) {t : String × BlockType} (ht : t ∈ b.toExpr.terms) :
    t.2 = b.blockType ∧ t.2.Writes t.1 := by
  cases b with
  | quoted token =>
      obtain rfl := List.mem_singleton.1 ht
      have hspells := Spelt.singleton.1 hspelt
      rw [show token.kind = .quoted from hkind] at hspells
      exact ⟨rfl, .inr (Piece.alone_iff.2 hspells)⟩
  | word token =>
      obtain rfl := List.mem_singleton.1 ht
      have hspells := Spelt.singleton.1 hspelt
      rw [show token.kind = .word from hkind] at hspells
      exact ⟨rfl, .inl (Piece.alone_iff.2 hspells)⟩
  | keyValue key value =>
      obtain rfl := List.mem_singleton.1 ht
      obtain ⟨hkey, hvalue⟩ := hkind
      have hspells := Spelt.cons.1 hspelt
      rw [Spelt.singleton, hkey, hvalue] at hspells
      exact ⟨rfl, BlockType.writes_keyValue_iff.2 ⟨_, _, rfl, hspells⟩⟩

theorem Block.exists_mem_terms (b : Block) : ∃ t ∈ b.toExpr.terms, t.2 = b.blockType := by
  cases b <;> exact ⟨_, List.mem_singleton_self _, rfl⟩

mutual

theorem Operand.spelt_blocks (operand : Operand) (hkind : operand.WellKinded)
    (hspelt : Spelt operand.tokens) :
    ∀ b ∈ operand.blocks, b.WellKinded ∧ Spelt b.tokens := by
  cases operand with
  | block b => simpa using ⟨hkind, hspelt⟩
  | negated not operand => exact operand.spelt_blocks hkind.2 (Spelt.cons.1 hspelt).2
  | group lparen tree rparen =>
      have hinside := Spelt.append.1 (Spelt.cons.1 hspelt).2
      exact tree.spelt_blocks hkind.2.1 hinside.1

theorem Tree.spelt_blocks (tree : Tree) (hkind : tree.WellKinded)
    (hspelt : Spelt tree.tokens) : ∀ b ∈ tree.blocks, b.WellKinded ∧ Spelt b.tokens := by
  cases tree with
  | single operand => exact operand.spelt_blocks hkind hspelt
  | join left op token right =>
      obtain ⟨hsleft, hsright⟩ := Spelt.append.1 hspelt
      have hleft := left.spelt_blocks hkind.1 hsleft
      have hright := right.spelt_blocks hkind.2.2 (Spelt.cons.1 hsright).2
      simp only [Tree.blocks_join, List.mem_append]
      rintro b (hb | hb)
      · exact hleft b hb
      · exact hright b hb

end

/-! ## The shape of what is read -/

mutual

/-- The terms of an expression are those of the blocks it was made from. -/
theorem Operand.terms_toExpr (operand : Operand) :
    operand.toExpr.terms = operand.blocks.flatMap fun b => b.toExpr.terms := by
  cases operand with
  | block b => simp [Operand.toExpr]
  | negated not operand => exact operand.terms_toExpr
  | group lparen tree rparen => exact tree.terms_toExpr

theorem Tree.terms_toExpr (tree : Tree) :
    tree.toExpr.terms = tree.blocks.flatMap fun b => b.toExpr.terms := by
  cases tree with
  | single operand => exact operand.terms_toExpr
  | join left op token right =>
      rw [Tree.toExpr, Expr.terms, left.terms_toExpr, right.terms_toExpr, Tree.blocks_join,
        List.flatMap_append]

end

theorem Block.nesting_toExpr (b : Block) : b.toExpr.nesting = 0 := by
  cases b <;> rfl

mutual

theorem Operand.nesting_toExpr (operand : Operand) :
    operand.toExpr.nesting = operand.nesting := by
  cases operand with
  | block b => exact b.nesting_toExpr
  | negated not operand =>
      rw [Operand.toExpr, Expr.nesting, operand.nesting_toExpr, Operand.nesting]
  | group lparen tree rparen =>
      rw [Operand.toExpr, Expr.nesting, tree.nesting_toExpr, Operand.nesting]

theorem Tree.nesting_toExpr (tree : Tree) : tree.toExpr.nesting = tree.nesting := by
  cases tree with
  | single operand => exact operand.nesting_toExpr
  | join left op token right =>
      rw [Tree.toExpr, Expr.nesting, left.nesting_toExpr, right.nesting_toExpr, Tree.nesting]

end

theorem Operand.isBinary_toExpr (operand : Operand) : operand.toExpr.isBinary = false := by
  cases operand with
  | block b => cases b <;> rfl
  | negated not operand => rfl
  | group lparen tree rparen => rfl

mutual

theorem Operand.hangsLeft_toExpr (operand : Operand) : operand.toExpr.HangsLeft := by
  cases operand with
  | block b => cases b <;> trivial
  | negated not operand => exact ⟨operand.isBinary_toExpr, operand.hangsLeft_toExpr⟩
  | group lparen tree rparen => exact tree.hangsLeft_toExpr

theorem Tree.hangsLeft_toExpr (tree : Tree) : tree.toExpr.HangsLeft := by
  cases tree with
  | single operand => exact operand.hangsLeft_toExpr
  | join left op token right =>
      exact ⟨left.hangsLeft_toExpr, right.isBinary_toExpr, right.hangsLeft_toExpr⟩

end

/-! ## A tree for an expression -/

theorem BlockType.Writes.exists_block {blockType : BlockType} {text : String}
    (h : blockType.Writes text) :
    ∃ b : Block, b.WellKinded ∧ Spelt b.tokens ∧ b.toExpr = .leaf text blockType := by
  cases blockType with
  | bare =>
      rcases h with hword | hquoted
      · exact ⟨.word ⟨.word, text, .point 0⟩, rfl,
          Spelt.singleton.2 (Piece.alone_iff.1 hword), rfl⟩
      · exact ⟨.quoted ⟨.quoted, text, .point 0⟩, rfl,
          Spelt.singleton.2 (Piece.alone_iff.1 hquoted), rfl⟩
  | keyValue =>
      obtain ⟨key, value, rfl, hkey, hvalue⟩ := BlockType.writes_keyValue_iff.1 h
      exact ⟨.keyValue ⟨.key, key, .point 0⟩ ⟨.quoted, value, .point 0⟩, ⟨rfl, rfl⟩,
        Spelt.cons.2 ⟨hkey, Spelt.singleton.2 hvalue⟩, rfl⟩

/-- Where connectives hang to the left and every term can be written, there is a tree,
and it is a single operand unless the expression joins something. -/
theorem Expr.exists_tree (e : Expr) (hleft : e.HangsLeft)
    (hwrites : ∀ t ∈ e.terms, t.2.Writes t.1) :
    ∃ tree : Tree, tree.WellKinded ∧ Spelt tree.tokens ∧ tree.toExpr = e ∧
      (e.isBinary = false → ∃ operand, tree = .single operand) := by
  induction e with
  | leaf text blockType =>
      obtain ⟨b, hkind, hspelt, hexpr⟩ :=
        (hwrites (text, blockType) (by simp [terms])).exists_block
      exact ⟨.single (.block b), hkind, hspelt, hexpr, fun _ => ⟨_, rfl⟩⟩
  | not child ih =>
      obtain ⟨tree, hkind, hspelt, rfl, hsingle⟩ := ih hleft.2 hwrites
      -- Only an operand can be negated, which a joined child would not have given.
      obtain ⟨operand, rfl⟩ := hsingle hleft.1
      exact ⟨.single (.negated ⟨.not, "NOT", .point 0⟩ operand), ⟨rfl, hkind⟩,
        Spelt.cons.2 ⟨rfl, hspelt⟩, rfl, fun _ => ⟨_, rfl⟩⟩
  | group child ih =>
      obtain ⟨tree, hkind, hspelt, rfl, -⟩ := ih hleft hwrites
      exact ⟨.single (.group ⟨.lparen, "(", .point 0⟩ tree ⟨.rparen, ")", .point 0⟩),
        ⟨rfl, hkind, rfl⟩,
        Spelt.cons.2 ⟨rfl, Spelt.append.2 ⟨hspelt, Spelt.singleton.2 rfl⟩⟩, rfl,
        fun _ => ⟨_, rfl⟩⟩
  | binary op left right ihl ihr =>
      simp only [terms, List.mem_append, or_imp, forall_and] at hwrites
      obtain ⟨tree, hkind, hspelt, rfl, -⟩ := ihl hleft.1 hwrites.1
      obtain ⟨other, hkind', hspelt', rfl, hsingle⟩ := ihr hleft.2.2 hwrites.2
      obtain ⟨operand, rfl⟩ := hsingle hleft.2.1
      refine ⟨.join tree op ⟨op.kind, op.text, .point 0⟩ operand, ⟨hkind, rfl, hkind'⟩,
        Spelt.append.2 ⟨hspelt, Spelt.cons.2 ⟨?_, hspelt'⟩⟩, rfl, fun h => ?_⟩
      · exact Connective.spells_iff.2 op.toList_text
      · exact absurd h (by simp [isBinary])

/-! ## Reading and writing -/

/-- A tree that can be written is read back from the text of its expression. -/
theorem Tree.parse_canonical {tree : Tree} (hfits : tree.Fits 0) (hspelt : Spelt tree.tokens)
    (huniform : tree.Uniform) : parse tree.toExpr.text = .ok tree.toExpr := by
  have htree : Tree.ofStream ⟨tree.tokens, [], 0⟩ = .ok tree :=
    Tree.ofStream_of_fits hfits rfl
  have hcompile := compile_eq_ok_iff.2 ⟨tree, htree, huniform, rfl⟩
  obtain ⟨c, hc, hpieces⟩ := tree.ofQuery_text hfits.1 hspelt
  exact parse_eq_ok_iff.2 ⟨c, hc, compile_congr hpieces hcompile⟩

theorem Tree.uniform_of_terms {tree : Tree}
    (h : ∀ t ∈ tree.toExpr.terms, ∀ u ∈ tree.toExpr.terms, t.2 = u.2) : tree.Uniform := by
  have hterm : ∀ b ∈ tree.blocks, ∃ t ∈ tree.toExpr.terms, t.2 = b.blockType := by
    intro b hb
    obtain ⟨t, ht, htype⟩ := b.exists_mem_terms
    exact ⟨t, tree.terms_toExpr ▸ List.mem_flatMap_of_mem hb ht, htype⟩
  intro b hb
  obtain ⟨t, ht, htype⟩ := hterm b hb
  obtain ⟨u, hu, hfirst⟩ := hterm tree.firstBlock (List.mem_of_mem_head? tree.head?_blocks)
  rw [← htype, ← hfirst]
  exact h t ht u hu

theorem Tree.expressible_toExpr {tree : Tree} (hfits : tree.Fits 0)
    (hspelt : Spelt tree.tokens) (huniform : tree.Uniform) : tree.toExpr.Expressible := by
  have hterm : ∀ t ∈ tree.toExpr.terms,
      t.2 = tree.firstBlock.blockType ∧ t.2.Writes t.1 := by
    intro t ht
    rw [tree.terms_toExpr] at ht
    obtain ⟨b, hb, ht⟩ := List.mem_flatMap.1 ht
    obtain ⟨hkind, hspelt⟩ := tree.spelt_blocks hfits.1 hspelt b hb
    obtain ⟨htype, hwrites⟩ := Block.writes_of_mem_terms hkind hspelt ht
    exact ⟨htype.trans (huniform b hb), hwrites⟩
  refine ⟨fun t ht => (hterm t ht).2, fun t ht u hu => ?_, tree.hangsLeft_toExpr, ?_⟩
  · rw [(hterm t ht).1, (hterm u hu).1]
  · rw [tree.nesting_toExpr]
    simpa using hfits.2

/-- The expressions of queries are those of the shape described. -/
theorem exists_parse_iff_expressible (e : Expr) :
    (∃ query, parse query = .ok e) ↔ e.Expressible := by
  constructor
  · rintro ⟨query, h⟩
    obtain ⟨s, tree, hs, hfits, htokens, huniform, rfl⟩ := parse_eq_ok_iff_tree.1 h
    exact tree.expressible_toExpr hfits (htokens ▸ TokenStream.spelt_of_ofQuery hs) huniform
  · rintro ⟨hwrites, huniform, hleft, hnest⟩
    obtain ⟨tree, hkind, hspelt, rfl, -⟩ := e.exists_tree hleft hwrites
    have hfits : tree.Fits 0 := ⟨hkind, by rwa [Nat.zero_add, ← tree.nesting_toExpr]⟩
    exact ⟨_, tree.parse_canonical hfits hspelt (Tree.uniform_of_terms huniform)⟩

/-- What is joined on the right has to stand in a group. -/
theorem exists_parse_iff_expressible_group :
    let right : Expr := .binary .and (.leaf "b" .bare) (.leaf "'c d'" .bare)
    let e (operand : Expr) : Expr := .binary .or (.not (.leaf "a" .bare)) operand
    (∃ query, parse query = .ok (e (.group right))) ∧
      ¬ ∃ query, parse query = .ok (e right) := by
  intro right e
  have hwrites : ∀ t ∈ (e (.group right)).terms, t.2.Writes t.1 :=
    List.forall_mem_cons.2 ⟨.inl (by decide +kernel),
      List.forall_mem_cons.2 ⟨.inl (by decide +kernel),
        List.forall_mem_singleton.2 (.inr (by decide +kernel))⟩⟩
  have hgroup : (e (.group right)).Expressible :=
    ⟨hwrites, by decide, by simp [e, right, Expr.HangsLeft, Expr.isBinary], by decide⟩
  refine ⟨(exists_parse_iff_expressible _).2 hgroup, fun h => ?_⟩
  have hright := ((exists_parse_iff_expressible _).1 h).hangsLeft
  cases hright.2.1

end BoolQuery
