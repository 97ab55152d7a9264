import BoolQuery.Proofs.DeepTrees
import BoolQuery.Proofs.Expressible
import BoolQuery.Proofs.Gluing
import BoolQuery.Proofs.Places

/-!
# Queries made of queries

Two queries with a connective between them are a query again, and so is one in parentheses
or behind a NOT. What such a query means is said by chains, not by trees: connectives bind
equally strongly and group from the left, so the operands of the second query follow those
of the first in one chain, and a NOT reaches no further than the first operand.

On trees this is `joinTree` and `negateFirst`, which walk down the chain to the place where
the new token goes. The text is glued from cut pieces, and the tokens of the second query,
moved to where they now stand, are those of the second tree. All that is left to ask is
whether the tree fits, which fails at the nesting limit only, and whether its blocks are of
one type; if they are not, the first block of the second query is the one to blame.
-/

namespace BoolQuery

open Text

/-! ## Trees made of trees -/

namespace Tree

/-- The operands of two trees in one chain. -/
def joinTree (left : Tree) (op : Connective) (token : Token) : Tree → Tree
  | single operand => join left op token operand
  | join tree op' token' right => join (left.joinTree op token tree) op' token' right

/-- A tree with its first operand negated. -/
def negateFirst (not : Token) : Tree → Tree
  | single operand => single (.negated not operand)
  | join left op token right => join (left.negateFirst not) op token right

variable {left : Tree} {op : Connective} {token not : Token}

theorem tokens_joinTree (tree : Tree) :
    (left.joinTree op token tree).tokens = left.tokens ++ token :: tree.tokens := by
  cases tree with
  | single operand => rfl
  | join tree op' token' right =>
      rw [joinTree, tokens, tree.tokens_joinTree, tokens, List.append_assoc,
        List.cons_append]

theorem fits_joinTree {around : Nat} (tree : Tree) (hleft : left.Fits around)
    (hop : token.kind = op.kind) (htree : tree.Fits around) :
    (left.joinTree op token tree).Fits around := by
  cases tree with
  | single operand =>
      refine ⟨⟨hleft.1, hop, htree.1⟩, ?_⟩
      have hl := hleft.2
      have hr := htree.2
      simp only [joinTree, nesting] at hr ⊢
      omega
  | join tree op' token' right =>
      obtain ⟨⟨hkind, hop', hright⟩, hnest⟩ := htree
      simp only [nesting] at hnest
      have hinner := tree.fits_joinTree hleft hop ⟨hkind, by omega⟩
      refine ⟨⟨hinner.1, hop', hright⟩, ?_⟩
      have := hinner.2
      simp only [joinTree, nesting]
      omega

theorem blocks_joinTree (tree : Tree) :
    (left.joinTree op token tree).blocks = left.blocks ++ tree.blocks := by
  cases tree with
  | single operand => rw [joinTree, blocks_join, blocks_single]
  | join tree op' token' right =>
      rw [joinTree, blocks_join, tree.blocks_joinTree, blocks_join, List.append_assoc]

theorem firstBlock_joinTree (tree : Tree) :
    (left.joinTree op token tree).firstBlock = left.firstBlock := by
  cases tree with
  | single operand => rfl
  | join tree op' token' right => exact tree.firstBlock_joinTree

theorem chain_joinTree (tree : Tree) :
    (left.joinTree op token tree).toExpr.chain =
      (left.toExpr.chain.1,
        left.toExpr.chain.2 ++ (op, tree.toExpr.chain.1) :: tree.toExpr.chain.2) := by
  cases tree with
  | single operand =>
      show (Expr.binary op left.toExpr operand.toExpr).chain = _
      rw [Expr.chain_binary, toExpr, Expr.chain_of_not_binary operand.isBinary_toExpr]
  | join tree op' token' right =>
      rw [joinTree, toExpr, Expr.chain_binary, tree.chain_joinTree, toExpr,
        Expr.chain_binary, List.append_assoc, List.cons_append]

theorem tokens_negateFirst (tree : Tree) :
    (tree.negateFirst not).tokens = not :: tree.tokens := by
  cases tree with
  | single operand => rfl
  | join left op token right => rw [negateFirst, tokens, left.tokens_negateFirst]; rfl

theorem wellKinded_negateFirst (tree : Tree) (hnot : not.kind = .not) (h : tree.WellKinded) :
    (tree.negateFirst not).WellKinded := by
  cases tree with
  | single operand => exact ⟨hnot, h⟩
  | join left op token right => exact ⟨left.wellKinded_negateFirst hnot h.1, h.2⟩

theorem nesting_negateFirst (tree : Tree) :
    (tree.negateFirst not).nesting = max tree.nesting (tree.first.nesting + 1) := by
  cases tree with
  | single operand =>
      simp only [negateFirst, nesting, Operand.nesting, first]
      omega
  | join left op token right =>
      rw [negateFirst, nesting, left.nesting_negateFirst, nesting, first]
      omega

theorem blocks_negateFirst (tree : Tree) : (tree.negateFirst not).blocks = tree.blocks := by
  cases tree with
  | single operand => rfl
  | join left op token right =>
      rw [negateFirst, blocks_join, left.blocks_negateFirst, blocks_join]

theorem firstBlock_negateFirst (tree : Tree) :
    (tree.negateFirst not).firstBlock = tree.firstBlock := by
  cases tree with
  | single operand => rfl
  | join left op token right => exact left.firstBlock_negateFirst

theorem chain_negateFirst (tree : Tree) :
    (tree.negateFirst not).toExpr.chain =
      (.not tree.toExpr.chain.1, tree.toExpr.chain.2) := by
  cases tree with
  | single operand =>
      rw [toExpr, Expr.chain_of_not_binary operand.isBinary_toExpr]
      rfl
  | join left op token right =>
      rw [negateFirst, toExpr, Expr.chain_binary, left.chain_negateFirst, toExpr,
        Expr.chain_binary]

theorem chain_toExpr_fst (tree : Tree) : tree.toExpr.chain.1 = tree.first.toExpr := by
  cases tree with
  | single operand => rw [toExpr, Expr.chain_of_not_binary operand.isBinary_toExpr, first]
  | join left op token right => rw [toExpr, Expr.chain_binary, left.chain_toExpr_fst, first]

/-- The tree of a query can stand further on in a text. -/
theorem exists_moved {tree : Tree} (hfits : tree.Fits 0) (huniform : tree.Uniform)
    (offset : Nat) :
    ∃ moved : Tree, moved.Fits 0 ∧ moved.tokens = tree.tokens.map (Token.moved offset) ∧
      moved.Uniform ∧ moved.toExpr = tree.toExpr ∧
      moved.firstBlock = tree.firstBlock.mapTokens (Token.moved offset) := by
  have hread : ofStream ⟨tree.tokens, [], 0⟩ = .ok tree := ofStream_of_fits hfits rfl
  have hkind : ∀ t, (Token.moved offset t).kind = t.kind := fun _ => rfl
  have htext : ∀ t, (Token.moved offset t).text = t.text := fun _ => rfl
  obtain ⟨hfits, htokens⟩ := fits_of_ofStream (ofStream_mapTokens hkind
    (c := ⟨tree.tokens.map (Token.moved offset), [], 0⟩) rfl hread)
  exact ⟨_, hfits, htokens, tree.uniform_mapTokens.2 huniform, tree.toExpr_mapTokens htext,
    tree.firstBlock_mapTokens⟩

end Tree

theorem Block.blockType_toExpr (b : Block) : b.toExpr.blockType = b.blockType := by
  cases b <;> rfl

mutual

theorem Operand.blockType_toExpr (operand : Operand) :
    operand.toExpr.blockType = operand.firstBlock.blockType := by
  cases operand with
  | block b => exact b.blockType_toExpr
  | negated not operand => exact operand.blockType_toExpr
  | group lparen tree rparen => exact tree.blockType_toExpr

theorem Tree.blockType_toExpr (tree : Tree) :
    tree.toExpr.blockType = tree.firstBlock.blockType := by
  cases tree with
  | single operand => exact operand.blockType_toExpr
  | join left op token right => exact left.blockType_toExpr

end

/-- A range moved on by a number of bytes. -/
def Span.moved (offset : Nat) (s : Span) : Span := ⟨s.start + offset, s.stop + offset⟩

theorem Block.span_moved (offset : Nat) (b : Block) :
    (b.mapTokens (Token.moved offset)).span = b.span.moved offset := by
  cases b with
  | quoted token | word token => rfl
  | keyValue key value =>
      simp only [mapTokens, span, Token.moved, Span.join, Span.moved, Span.mk.injEq]
      omega

/-! ## Texts made of texts -/

section Texts

variable {s₁ s₂ : String} {ts us : List Token}

/-- A text with a connective and another text behind it, all with blanks between. -/
theorem Cuts.joined (op : Connective) (h : Cuts 0 s₁.toList ts) (h' : Cuts 0 s₂.toList us) :
    ∃ token vs, token.kind = op.kind ∧ Cuts 0 (s₁ ++ " " ++ op.text ++ " " ++ s₂).toList vs ∧
      significantTokens vs = significantTokens ts ++ token ::
        (significantTokens us).map
          (Token.moved (s₁ ++ " " ++ op.text ++ " ").utf8ByteSize) := by
  have htext : (s₁ ++ " " ++ op.text ++ " " ++ s₂).toList =
      s₁.toList ++ ([' '] ++ (op.kind.reservedText ++ ([' '] ++ s₂.toList))) := by
    simp [op.toList_text]
  let start := byteLength s₁.toList + 1
  have hoffset : start + byteLength op.kind.reservedText + byteLength [' '] =
      0 + (s₁ ++ " " ++ op.text ++ " ").utf8ByteSize := by
    simp only [start, String.utf8ByteSize_append, ← op.toList_text, byteLength_toList,
      Nat.zero_add]
    rfl
  have hsecond := h'.moved (s₁ ++ " " ++ op.text ++ " ").utf8ByteSize
  rw [← hoffset] at hsecond
  -- From the back to the front, each piece is put before what is cut already.
  obtain ⟨vs, hvs, hsignificant⟩ := glue_blanks _ spells_blank hsecond
  have hends : op.kind.EndsBefore op.kind.reservedText ([' '] ++ s₂.toList).head? :=
    Kind.endsBefore_of_delimits op.kind_ne_whitespace (delimits_blank_append _)
  obtain ⟨vs, hvs, htoken⟩ := glue_cons [] (Connective.spells_iff.2 rfl) hends
    ⟨vs, hvs, hsignificant⟩
  obtain ⟨vs, hvs, hbehind⟩ := glue_blanks (0 + byteLength s₁.toList) spells_blank
    (by rwa [Nat.zero_add])
  obtain ⟨vs, hvs, hall⟩ := h.glue_of_delimits hvs (delimits_blank_append _)
  refine ⟨.placed op.kind op.kind.reservedText start, vs, rfl, htext ▸ hvs, ?_⟩
  rw [hall, hbehind, htoken, significantTokens_cons op.kind_ne_whitespace,
    significantTokens_map_moved]
  rfl

theorem Cuts.parenthesized (h : Cuts 0 s₁.toList ts) :
    ∃ lparen rparen vs, lparen.kind = .lparen ∧ rparen.kind = .rparen ∧
      Cuts 0 ("(" ++ s₁ ++ ")").toList vs ∧
      significantTokens vs =
        lparen :: ((significantTokens ts).map (Token.moved 1) ++ [rparen]) := by
  have htext : ("(" ++ s₁ ++ ")").toList = ['('] ++ (s₁.toList ++ [')']) := by simp
  have hlparen : Kind.lparen.Spells ['('] := rfl
  have hrparen : Kind.rparen.Spells [')'] := rfl
  let rparen : Token := .placed .rparen [')'] (0 + 1 + byteLength s₁.toList)
  obtain ⟨vs, hvs, hinside⟩ := (h.moved 1).glue_of_delimits (single hrparen _)
    (delimits_rparen_cons [])
  obtain ⟨vs, hvs, hall⟩ := glue_cons _ hlparen trivial ⟨vs, hvs, hinside⟩
  refine ⟨.placed .lparen ['('] 0, rparen, vs, rfl, rfl, htext ▸ hvs, ?_⟩
  rw [hall, significantTokens_cons (by decide), significantTokens_map_moved,
    significantTokens_cons (by simp [Token.placed])]
  rfl

theorem Cuts.negated (h : Cuts 0 s₁.toList ts) :
    ∃ not vs, not.kind = .not ∧ Cuts 0 ("NOT " ++ s₁).toList vs ∧
      significantTokens vs = not :: (significantTokens ts).map (Token.moved 4) := by
  have htext : ("NOT " ++ s₁).toList = ['N', 'O', 'T'] ++ ([' '] ++ s₁.toList) := by simp
  have hnot : Kind.not.Spells ['N', 'O', 'T'] := rfl
  obtain ⟨vs, hvs, hbehind⟩ := glue_blanks 3 spells_blank (h.moved 4)
  have hends : Kind.not.EndsBefore ['N', 'O', 'T'] ([' '] ++ s₁.toList).head? :=
    Kind.endsBefore_of_delimits (by decide) (delimits_blank_append _)
  obtain ⟨vs, hvs, hall⟩ := glue_cons [] hnot hends ⟨vs, hvs, hbehind⟩
  refine ⟨.placed .not ['N', 'O', 'T'] 0, vs, rfl, htext ▸ hvs, ?_⟩
  rw [hall, significantTokens_map_moved, significantTokens_cons (by decide)]
  rfl

end Texts

/-! ## Queries made of queries -/

/-- Whether a query is refused for its nesting. -/
def TooDeep (query : String) : Prop :=
  ∃ e, parse query = .error (.syntactic e) ∧ e.expected = .shallowerNesting

section Cuts

variable {query : String} {ts : List Token} {tree : Tree}

theorem Cuts.parse_of_mixed (h : Cuts 0 query.toList ts) (hfits : tree.Fits 0)
    (htokens : tree.tokens = significantTokens ts) {e : MixedBlockTypes}
    (hcheck : tree.checkUniform = .error e) : parse query = .error (.mixed e) := by
  rw [parse_of_ofQuery h.ofQuery_eq]
  exact compile_of_mixed (Tree.ofStream_of_fits hfits htokens) hcheck

theorem Cuts.parse_of_deep (h : Cuts 0 query.toList ts) (hkind : tree.WellKinded)
    (htokens : tree.tokens = significantTokens ts) (hdeep : maxNesting < tree.nesting) :
    TooDeep query := by
  obtain ⟨e, he, hexpected⟩ :=
    Tree.ofStream_of_deep (s := .ofTokens ts query.utf8ByteSize) hkind hdeep htokens
  refine ⟨e, ?_, hexpected⟩
  rw [parse_of_ofQuery h.ofQuery_eq, compile_of_error he]

end Cuts

theorem Tree.uniform_joinTree {left tree : Tree} (op : Connective) (token : Token)
    (hleft : left.Uniform) (htree : tree.Uniform)
    (htypes : left.firstBlock.blockType = tree.firstBlock.blockType) :
    (left.joinTree op token tree).Uniform := by
  intro b hb
  rw [firstBlock_joinTree]
  rw [blocks_joinTree] at hb
  rcases List.mem_append.1 hb with hb | hb
  · exact hleft b hb
  · exact (htree b hb).trans htypes.symm

/-- If the trees joined are of different types, the first block of the second is the first
that differs. -/
theorem Tree.checkUniform_joinTree {left tree : Tree} (op : Connective) (token : Token)
    (hleft : left.Uniform) (htypes : left.firstBlock.blockType ≠ tree.firstBlock.blockType) :
    (left.joinTree op token tree).checkUniform =
      .error ⟨left.firstBlock.blockType, tree.firstBlock.blockType,
        tree.firstBlock.span⟩ := by
  have hnone : left.blocks.find? (fun b => b.blockType != left.firstBlock.blockType) =
      none := by
    simpa [Uniform] using hleft
  obtain ⟨blocks, hblocks⟩ := List.head?_eq_some_iff.1 tree.head?_blocks
  have hfind : (left.joinTree op token tree).blocks.find?
      (fun b => b.blockType != (left.joinTree op token tree).firstBlock.blockType) =
      some tree.firstBlock := by
    rw [firstBlock_joinTree, blocks_joinTree, List.find?_append, hnone, Option.none_or,
      hblocks]
    exact List.find?_cons_of_pos (by simpa using htypes.symm)
  rw [checkUniform_of_find? hfind, firstBlock_joinTree]

variable {s₁ s₂ : String} {e₁ e₂ : Expr}

/-- Two queries with a connective between them have their operands in one chain, if they
are of one type. Otherwise the first block of the second query is to blame. -/
theorem parse_joined (op : Connective) (h₁ : parse s₁ = .ok e₁) (h₂ : parse s₂ = .ok e₂) :
    (e₁.blockType = e₂.blockType →
      ∃ e, parse (s₁ ++ " " ++ op.text ++ " " ++ s₂) = .ok e ∧
        e.chain = (e₁.chain.1, e₁.chain.2 ++ (op, e₂.chain.1) :: e₂.chain.2)) ∧
    (e₁.blockType ≠ e₂.blockType →
      ∃ s tree b, TokenStream.ofQuery s₂ = .ok s ∧ Tree.ofStream s = .ok tree ∧
        tree.blocks.head? = some b ∧
        parse (s₁ ++ " " ++ op.text ++ " " ++ s₂) =
          .error (.mixed ⟨e₁.blockType, e₂.blockType,
          b.span.moved (s₁ ++ " " ++ op.text ++ " ").utf8ByteSize⟩)) := by
  obtain ⟨ts, left, hcuts, hfits, htokens, huniform, rfl⟩ := exists_cuts_of_parse h₁
  obtain ⟨us, tree, hcuts', hfits', htokens', huniform', rfl⟩ := exists_cuts_of_parse h₂
  obtain ⟨token, vs, htoken, hvs, hsignificant⟩ := hcuts.joined op hcuts'
  -- The second tree with its tokens where they now stand.
  obtain ⟨moved, hfitsMoved, htokensMoved, huniformMoved, hexpr, hblock⟩ :=
    Tree.exists_moved hfits' huniform' (s₁ ++ " " ++ op.text ++ " ").utf8ByteSize
  have hfitsJoined := Tree.fits_joinTree moved hfits htoken hfitsMoved
  have htokensJoined : (left.joinTree op token moved).tokens = significantTokens vs := by
    rw [Tree.tokens_joinTree, htokensMoved, htokens, htokens', hsignificant]
  have htype : moved.firstBlock.blockType = tree.firstBlock.blockType := by
    rw [hblock, Block.blockType_mapTokens]
  rw [left.blockType_toExpr, tree.blockType_toExpr]
  constructor
  · intro htypes
    have huniformJoined := Tree.uniform_joinTree op token huniform huniformMoved
      (htypes.trans htype.symm)
    refine ⟨_, hvs.parse_eq hfitsJoined htokensJoined huniformJoined, ?_⟩
    rw [Tree.chain_joinTree, hexpr]
  · intro htypes
    have hcheck := Tree.checkUniform_joinTree op token huniform (htype.symm ▸ htypes)
    refine ⟨_, tree, tree.firstBlock, hcuts'.ofQuery_eq,
      Tree.ofStream_of_fits hfits' htokens', tree.head?_blocks, ?_⟩
    rw [hvs.parse_of_mixed hfitsJoined htokensJoined hcheck, htype, hblock, Block.span_moved]

/-- A query in parentheses is the group of the query, unless that is nested as deeply as
can be already. -/
theorem parse_parenthesized (h : parse s₁ = .ok e₁) :
    (e₁.nesting < maxNesting → parse ("(" ++ s₁ ++ ")") = .ok (.group e₁)) ∧
    (e₁.nesting = maxNesting → TooDeep ("(" ++ s₁ ++ ")")) := by
  obtain ⟨ts, tree, hcuts, hfits, htokens, huniform, rfl⟩ := exists_cuts_of_parse h
  obtain ⟨lparen, rparen, vs, hlparen, hrparen, hvs, hsignificant⟩ := hcuts.parenthesized
  obtain ⟨moved, hfitsMoved, htokensMoved, huniformMoved, hexpr, -⟩ :=
    Tree.exists_moved hfits huniform 1
  rw [← hexpr]
  let group : Tree := .single (.group lparen moved rparen)
  have hkind : group.WellKinded := ⟨hlparen, hfitsMoved.1, hrparen⟩
  have hnesting : group.nesting = moved.nesting + 1 := rfl
  have htokensGroup : group.tokens = significantTokens vs := by
    rw [hsignificant, ← htokens, ← htokensMoved]
    rfl
  rw [moved.nesting_toExpr]
  constructor
  · intro hlimit
    have hfitsGroup : group.Fits 0 := ⟨hkind, by omega⟩
    exact hvs.parse_eq hfitsGroup htokensGroup huniformMoved
  · intro hlimit
    exact hvs.parse_of_deep hkind htokensGroup (by omega)

/-- A NOT before a query negates the first operand, unless that is nested as deeply as can
be already. -/
theorem parse_negated (h : parse s₁ = .ok e₁) :
    (e₁.chain.1.nesting < maxNesting → ∃ e, parse ("NOT " ++ s₁) = .ok e ∧
      e.chain = (.not e₁.chain.1, e₁.chain.2)) ∧
    (e₁.chain.1.nesting = maxNesting → TooDeep ("NOT " ++ s₁)) := by
  obtain ⟨ts, tree, hcuts, hfits, htokens, huniform, rfl⟩ := exists_cuts_of_parse h
  obtain ⟨not, vs, hnot, hvs, hsignificant⟩ := hcuts.negated
  obtain ⟨moved, hfitsMoved, htokensMoved, huniformMoved, hexpr, -⟩ :=
    Tree.exists_moved hfits huniform 4
  rw [← hexpr]
  have hkind := moved.wellKinded_negateFirst hnot hfitsMoved.1
  have hnesting : (moved.negateFirst not).nesting =
      max moved.nesting (moved.first.nesting + 1) :=
    moved.nesting_negateFirst
  have htokensNegated : (moved.negateFirst not).tokens = significantTokens vs := by
    rw [moved.tokens_negateFirst, hsignificant, ← htokens, ← htokensMoved]
  have huniformNegated : (moved.negateFirst not).Uniform := by
    rw [Tree.Uniform, moved.blocks_negateFirst, moved.firstBlock_negateFirst]
    exact huniformMoved
  have hdepth := hfitsMoved.2
  rw [moved.chain_toExpr_fst, Operand.nesting_toExpr]
  constructor
  · intro hlimit
    refine ⟨_, hvs.parse_eq ⟨hkind, by omega⟩ htokensNegated huniformNegated, ?_⟩
    rw [moved.chain_negateFirst, moved.chain_toExpr_fst]
  · intro hlimit
    exact hvs.parse_of_deep hkind htokensNegated (by omega)

/-- What queries made of one or two queries come to. -/
theorem parse_composed (op : Connective) (h₁ : parse s₁ = .ok e₁) (h₂ : parse s₂ = .ok e₂) :
    ((e₁.blockType = e₂.blockType →
        ∃ e, parse (s₁ ++ " " ++ op.text ++ " " ++ s₂) = .ok e ∧
          e.chain = (e₁.chain.1, e₁.chain.2 ++ (op, e₂.chain.1) :: e₂.chain.2)) ∧
      (e₁.blockType ≠ e₂.blockType →
        ∃ s tree b, TokenStream.ofQuery s₂ = .ok s ∧ Tree.ofStream s = .ok tree ∧
          tree.blocks.head? = some b ∧
          parse (s₁ ++ " " ++ op.text ++ " " ++ s₂) = .error (.mixed ⟨e₁.blockType,
            e₂.blockType, b.span.moved (s₁ ++ " " ++ op.text ++ " ").utf8ByteSize⟩))) ∧
    ((e₁.nesting < maxNesting → parse ("(" ++ s₁ ++ ")") = .ok (.group e₁)) ∧
      (e₁.nesting = maxNesting → TooDeep ("(" ++ s₁ ++ ")"))) ∧
    ((e₁.chain.1.nesting < maxNesting → ∃ e, parse ("NOT " ++ s₁) = .ok e ∧
        e.chain = (.not e₁.chain.1, e₁.chain.2)) ∧
      (e₁.chain.1.nesting = maxNesting → TooDeep ("NOT " ++ s₁))) :=
  ⟨parse_joined op h₁ h₂, parse_parenthesized h₁, parse_negated h₁⟩

/-- A chain before another one, and the same chain before a key, whose place counts the two
bytes of the first word; and that NOT and parentheses reach differently far. -/
theorem parse_composed_of_chains :
    let s₁ := "é OR NOT b"
    let e₁ : Expr := .binary .or (.leaf "é" .bare) (.not (.leaf "b" .bare))
    let s₂ := " 'c' AND d"
    let e₂ : Expr := .binary .and (.leaf "'c'" .bare) (.leaf "d" .bare)
    let s₃ := "(K= 'v')"
    let e₃ : Expr := .group (.leaf "K='v'" .keyValue)
    (parse s₁ = .ok e₁ ∧ parse s₂ = .ok e₂ ∧ parse s₃ = .ok e₃) ∧
    (∃ e, parse (s₁ ++ " " ++ Connective.and.text ++ " " ++ s₂) = .ok e ∧
      e.chain = (e₁.chain.1, e₁.chain.2 ++ (.and, e₂.chain.1) :: e₂.chain.2)) ∧
    (∃ s tree b, TokenStream.ofQuery s₃ = .ok s ∧ Tree.ofStream s = .ok tree ∧
      tree.blocks.head? = some b ∧
      parse (s₁ ++ " " ++ Connective.or.text ++ " " ++ s₃) = .error (.mixed ⟨e₁.blockType,
        e₃.blockType, b.span.moved (s₁ ++ " " ++ Connective.or.text ++ " ").utf8ByteSize⟩)) ∧
    parse ("(" ++ s₁ ++ ")") = .ok (.group e₁) ∧
    ∃ e, parse ("NOT " ++ s₁) = .ok e ∧ e.chain = (.not e₁.chain.1, e₁.chain.2) := by
  intro s₁ e₁ s₂ e₂ s₃ e₃
  have h₁ : parse s₁ = .ok e₁ := eq_ok_of_toOption (by decide +kernel)
  have h₂ : parse s₂ = .ok e₂ := eq_ok_of_toOption (by decide +kernel)
  have h₃ : parse s₃ = .ok e₃ := eq_ok_of_toOption (by decide +kernel)
  obtain ⟨⟨hsame, -⟩, ⟨hgroup, -⟩, hnot, -⟩ := parse_composed .and h₁ h₂
  obtain ⟨⟨-, hmixed⟩, -⟩ := parse_composed .or h₁ h₃
  exact ⟨⟨h₁, h₂, h₃⟩, hsame rfl, hmixed (by decide), hgroup (by decide), hnot (by decide)⟩

end BoolQuery
