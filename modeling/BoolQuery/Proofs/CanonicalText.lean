import BoolQuery.Expr.Text
import BoolQuery.Proofs.Adjacency

/-!
# Canonical text is read back

The canonical text of an expression is made from texts of terms, but it was the
tokens of a tree that were read. `canonical` writes a tree as pieces, with one blank
where the canonical text has one, and lies between the two: its pieces make up the
text (`toList_text`), those of them that matter are the tokens of the tree
(`significant_canonical`), and they can be told apart again (`separate_canonical`).

The last of these is the point. Operands are followed by a blank, a closing
parenthesis or nothing at all, so no word runs on and none becomes a key; the
induction carries this for what comes behind, and for the front of each operand
that it starts with no blank, since a NOT writes one before it. A key and its value
are written without a gap, which is why a key must end by itself.

The tokens read back are then those of the tree up to their places, and that is all
that the later stages look at.
-/

namespace BoolQuery

open Text

mutual

/-- The pieces of the canonical text of an operand. -/
def Operand.canonical : Operand → List Piece
  | .block b => b.tokens.map Token.piece
  | .negated not operand => not.piece :: (.whitespace, " ") :: operand.canonical
  | .group lparen tree rparen => lparen.piece :: (tree.canonical ++ [rparen.piece])

def Tree.canonical : Tree → List Piece
  | .single operand => operand.canonical
  | .join left _ token right =>
      left.canonical ++ (.whitespace, " ") :: token.piece :: (.whitespace, " ") ::
        right.canonical

end

/-- Whether every token of a list has a text of its kind. -/
def Spelt (ts : List Token) : Prop := ∀ t ∈ ts, t.kind.Spells t.text.toList

theorem Spelt.append {ts us : List Token} : Spelt (ts ++ us) ↔ Spelt ts ∧ Spelt us := by
  simp only [Spelt, List.mem_append, or_imp, forall_and]

theorem Spelt.cons {t : Token} {ts : List Token} :
    Spelt (t :: ts) ↔ t.kind.Spells t.text.toList ∧ Spelt ts := by
  simp only [Spelt, List.mem_cons, or_imp, forall_and, forall_eq]

theorem Spelt.singleton {t : Token} : Spelt [t] ↔ t.kind.Spells t.text.toList := by
  simp only [Spelt, List.mem_singleton, forall_eq]

theorem Connective.toList_text (op : Connective) :
    op.text.toList = op.kind.reservedText := by
  cases op <;> rfl

theorem Connective.spells_iff {op : Connective} {text : List Char} :
    op.kind.Spells text ↔ text = op.kind.reservedText := by
  cases op <;> rfl

/-! ## The text of the pieces -/

mutual

theorem Operand.piecesOnto_toExpr (operand : Operand) (after : List String)
    (hkind : operand.WellKinded) (hspelt : Spelt operand.tokens) :
    (operand.toExpr.piecesOnto after).flatMap String.toList =
      Piece.chars operand.canonical ++ after.flatMap String.toList := by
  cases operand with
  | block b =>
      cases b with
      | quoted t | word t =>
          simp [Operand.toExpr, Block.toExpr, Expr.piecesOnto, Operand.canonical,
            Block.tokens, Token.piece]
      | keyValue key value =>
          simp [Operand.toExpr, Block.toExpr, Expr.piecesOnto, Operand.canonical,
            Block.tokens, Token.piece]
  | negated not operand =>
      rw [Operand.tokens, Spelt.cons, hkind.1] at hspelt
      have ih := operand.piecesOnto_toExpr after hkind.2 hspelt.2
      have hnot : not.text.toList = ['N', 'O', 'T'] := hspelt.1
      rw [Operand.toExpr, Expr.piecesOnto, List.flatMap_cons, ih]
      simp [Operand.canonical, Token.piece, hnot]
  | group lparen tree rparen =>
      obtain ⟨hl, htree, hr⟩ := hkind
      rw [Operand.tokens, Spelt.cons, Spelt.append, Spelt.singleton, hl, hr] at hspelt
      have ih := tree.piecesOnto_toExpr (")" :: after) htree hspelt.2.1
      have hopen : lparen.text.toList = ['('] := hspelt.1
      have hclose : rparen.text.toList = [')'] := hspelt.2.2
      rw [Operand.toExpr, Expr.piecesOnto, List.flatMap_cons, ih]
      simp [Operand.canonical, Token.piece, hopen, hclose]

theorem Tree.piecesOnto_toExpr (tree : Tree) (after : List String)
    (hkind : tree.WellKinded) (hspelt : Spelt tree.tokens) :
    (tree.toExpr.piecesOnto after).flatMap String.toList =
      Piece.chars tree.canonical ++ after.flatMap String.toList := by
  cases tree with
  | single operand => exact operand.piecesOnto_toExpr after hkind hspelt
  | join left op token right =>
      obtain ⟨hleft, hop, hright⟩ := hkind
      rw [Tree.tokens, Spelt.append, Spelt.cons, hop, Connective.spells_iff] at hspelt
      obtain ⟨hsleft, htext, hsright⟩ := hspelt
      rw [Tree.toExpr, Expr.piecesOnto, left.piecesOnto_toExpr _ hleft hsleft]
      simp only [List.flatMap_cons, right.piecesOnto_toExpr after hright hsright]
      simp [Tree.canonical, Token.piece, htext, Connective.toList_text]

end

theorem Tree.toList_text {tree : Tree} (hkind : tree.WellKinded)
    (hspelt : Spelt tree.tokens) :
    tree.toExpr.text.toList = Piece.chars tree.canonical := by
  rw [Expr.text, String.toList_join, tree.piecesOnto_toExpr [] hkind hspelt]
  simp

/-! ## The significant pieces -/

theorem Token.ne_whitespace {t : Token} {kind : Kind} (h : t.kind = kind)
    (hkind : kind ≠ .whitespace) : t.kind ≠ .whitespace := by
  rwa [h]

theorem Connective.kind_ne_whitespace (op : Connective) : op.kind ≠ .whitespace := by
  cases op <;> decide

theorem Block.significant_tokens {b : Block} (hkind : b.WellKinded) :
    Piece.significant (b.tokens.map Token.piece) = b.tokens.map Token.piece := by
  cases b with
  | quoted t | word t =>
      exact Piece.significant_token (Token.ne_whitespace hkind (by decide))
  | keyValue key value =>
      obtain ⟨hkey, hvalue⟩ := hkind
      rw [Block.tokens, List.map_cons,
        Piece.significant_token (Token.ne_whitespace hkey (by decide)), List.map_cons,
        Piece.significant_token (Token.ne_whitespace hvalue (by decide))]
      rfl

mutual

theorem Operand.significant_canonical (operand : Operand) (hkind : operand.WellKinded) :
    Piece.significant operand.canonical = operand.tokens.map Token.piece := by
  cases operand with
  | block b => exact b.significant_tokens hkind
  | negated not operand =>
      obtain ⟨hnot, hoperand⟩ := hkind
      rw [Operand.canonical, Piece.significant_token (Token.ne_whitespace hnot (by decide)),
        Piece.significant_blank, operand.significant_canonical hoperand]
      rfl
  | group lparen tree rparen =>
      obtain ⟨hl, htree, hr⟩ := hkind
      rw [Operand.canonical, Piece.significant_token (Token.ne_whitespace hl (by decide)),
        Piece.significant_append, tree.significant_canonical htree,
        Piece.significant_token (Token.ne_whitespace hr (by decide)), Operand.tokens,
        List.map_cons, List.map_append]
      rfl

theorem Tree.significant_canonical (tree : Tree) (hkind : tree.WellKinded) :
    Piece.significant tree.canonical = tree.tokens.map Token.piece := by
  cases tree with
  | single operand => exact operand.significant_canonical hkind
  | join left op token right =>
      obtain ⟨hleft, hop, hright⟩ := hkind
      rw [Tree.canonical, Piece.significant_append, left.significant_canonical hleft,
        Piece.significant_blank,
        Piece.significant_token (Token.ne_whitespace hop op.kind_ne_whitespace),
        Piece.significant_blank, right.significant_canonical hright, Tree.tokens,
        List.map_append, List.map_cons]

end

/-! ## The pieces can be told apart -/

theorem Kind.Spells.not_blank {kind : Kind} {text : List Char} (h : kind.Spells text)
    (hkind : kind ≠ .whitespace) : ∀ c ∈ text.head?, isBlank c = false := by
  intro c hc
  obtain ⟨cs, rfl⟩ := List.head?_eq_some_iff.1 hc
  rw [h.first.1]
  simpa [Kind.isWhitespace] using hkind

/-- Whether a text does not go on with a word or make one a key. -/
def Delimits (cs : List Char) : Prop := ∀ c ∈ cs.head?, isWord c = false ∧ c ≠ '='

theorem Kind.endsBefore_of_delimits {kind : Kind} {text cs : List Char}
    (hkind : kind ≠ .whitespace) (h : Delimits cs) : kind.EndsBefore text cs.head? := by
  cases kind with
  | whitespace => exact absurd rfl hkind
  | not | and | or => exact fun c hc => (h c hc).1
  | word => exact ⟨fun c hc => (h c hc).1, fun _ heq => (h '=' heq).2 rfl⟩
  | lparen | rparen | key | quoted => trivial

theorem spells_blank : Kind.whitespace.Spells [' '] := by
  refine ⟨by simp, fun c hc => ?_⟩
  obtain rfl : c = ' ' := by simpa using hc
  exact classes.breaks _ (by decide)

theorem delimits_blank_append (cs : List Char) : Delimits ([' '] ++ cs) := by
  intro c hc
  obtain rfl : ' ' = c := by simpa using hc
  exact ⟨isWord_of_isBlank (classes.breaks _ (by decide)), by decide⟩

theorem delimits_blank (ps : List Piece) :
    Delimits (Piece.chars ((.whitespace, " ") :: ps)) :=
  delimits_blank_append (Piece.chars ps)

theorem delimits_rparen_cons (cs : List Char) : Delimits (')' :: cs) := by
  intro c hc
  obtain rfl : ')' = c := by simpa using hc
  exact ⟨classes.word_marks _ (by decide), by decide⟩

theorem delimits_rparen {t : Token} (hkind : t.kind = .rparen)
    (hspells : t.kind.Spells t.text.toList) (ps : List Piece) :
    Delimits (Piece.chars (t.piece :: ps)) := by
  rw [hkind] at hspells
  have htext : t.text.toList = [')'] := hspells
  rw [Piece.chars_cons, Token.piece, htext]
  exact delimits_rparen_cons (Piece.chars ps)

namespace Piece

/-- Whether pieces can be told apart and a blank can stand before them. -/
structure Opening (ps : List Piece) : Prop where
  separate : Separate ps
  not_blank : ∀ c ∈ (chars ps).head?, isBlank c = false

/-- A blank can be put before what has none. -/
theorem Opening.blank {ps : List Piece} (h : Opening ps) :
    Separate ((.whitespace, " ") :: ps) :=
  ⟨spells_blank, h.not_blank, h.separate⟩

/-- A token can be put before what delimits it. -/
theorem Separate.opening {ps : List Piece} {t : Token} (h : Separate ps)
    (hkind : t.kind ≠ .whitespace) (hspells : t.kind.Spells t.text.toList)
    (hends : t.kind.EndsBefore t.text.toList (chars ps).head?) :
    Opening (t.piece :: ps) where
  separate := ⟨hspells, hends, h⟩
  not_blank := by
    have hfirst := hspells.not_blank hkind
    obtain ⟨c, cs, htext⟩ := List.exists_cons_of_ne_nil hspells.ne_nil
    rw [htext] at hfirst
    rw [chars_cons, Token.piece, htext]
    exact hfirst

end Piece

mutual

theorem Operand.opening_canonical (operand : Operand) (after : List Piece)
    (hkind : operand.WellKinded) (hspelt : Spelt operand.tokens)
    (hafter : Piece.Separate after) (hends : Delimits (Piece.chars after)) :
    Piece.Opening (operand.canonical ++ after) := by
  cases operand with
  | block b =>
      cases b with
      | quoted t | word t =>
          have hne := Token.ne_whitespace hkind (by decide)
          exact hafter.opening hne (hspelt t (by simp [Operand.tokens, Block.tokens]))
            (Kind.endsBefore_of_delimits hne hends)
      | keyValue key value =>
          obtain ⟨hkey, hvalue⟩ := hkind
          have hne := Token.ne_whitespace hvalue (by decide)
          have hopening := hafter.opening hne
            (hspelt value (by simp [Operand.tokens, Block.tokens]))
            (Kind.endsBefore_of_delimits hne hends)
          refine hopening.separate.opening (Token.ne_whitespace hkey (by decide))
            (hspelt key (by simp [Operand.tokens, Block.tokens])) ?_
          rw [hkey]
          trivial
  | negated not operand =>
      obtain ⟨hnot, hoperand⟩ := hkind
      obtain ⟨hsnot, hsoperand⟩ := Spelt.cons.1 hspelt
      have hne := Token.ne_whitespace hnot (by decide)
      have hopening := operand.opening_canonical after hoperand hsoperand hafter hends
      exact hopening.blank.opening hne hsnot
        (Kind.endsBefore_of_delimits hne (delimits_blank _))
  | group lparen tree rparen =>
      obtain ⟨hl, htree, hr⟩ := hkind
      rw [Operand.tokens, Spelt.cons, Spelt.append, Spelt.singleton] at hspelt
      obtain ⟨hsl, hstree, hsr⟩ := hspelt
      have hne := Token.ne_whitespace hr (by decide)
      have hclose := hafter.opening hne hsr (Kind.endsBefore_of_delimits hne hends)
      have hinside := tree.opening_canonical _ htree hstree hclose.separate
        (delimits_rparen hr hsr _)
      have hfree : lparen.kind.EndsBefore lparen.text.toList
          (Piece.chars (tree.canonical ++ rparen.piece :: after)).head? := by
        rw [hl]
        trivial
      have hopen := hinside.separate.opening (Token.ne_whitespace hl (by decide)) hsl hfree
      rwa [Operand.canonical, List.cons_append, List.append_assoc]

theorem Tree.opening_canonical (tree : Tree) (after : List Piece)
    (hkind : tree.WellKinded) (hspelt : Spelt tree.tokens)
    (hafter : Piece.Separate after) (hends : Delimits (Piece.chars after)) :
    Piece.Opening (tree.canonical ++ after) := by
  cases tree with
  | single operand => exact operand.opening_canonical after hkind hspelt hafter hends
  | join left op token right =>
      obtain ⟨hleft, hop, hright⟩ := hkind
      rw [Tree.tokens, Spelt.append, Spelt.cons] at hspelt
      obtain ⟨hsleft, hsop, hsright⟩ := hspelt
      have hne := Token.ne_whitespace hop op.kind_ne_whitespace
      have hbehind := right.opening_canonical after hright hsright hafter hends
      have htoken := hbehind.blank.opening hne hsop
        (Kind.endsBefore_of_delimits hne (delimits_blank _))
      have hall := left.opening_canonical _ hleft hsleft htoken.blank (delimits_blank _)
      rwa [Tree.canonical, List.append_assoc]

end

theorem Tree.separate_canonical {tree : Tree} (hkind : tree.WellKinded)
    (hspelt : Spelt tree.tokens) : Piece.Separate tree.canonical := by
  have hopening := tree.opening_canonical [] hkind hspelt trivial
    (fun c hc => by simp at hc)
  rw [List.append_nil] at hopening
  exact hopening.separate

/-! ## Reading canonical text -/

/-- The canonical text of a tree whose tokens are spelt right is cut into the tokens
of the tree, their places apart. -/
theorem Tree.ofQuery_text {tree : Tree} (hkind : tree.WellKinded)
    (hspelt : Spelt tree.tokens) :
    ∃ c, TokenStream.ofQuery tree.toExpr.text = .ok c ∧
      c.tokens.map Token.piece = tree.tokens.map Token.piece := by
  rw [← tree.significant_canonical hkind]
  exact TokenStream.ofQuery_of_separate (tree.separate_canonical hkind hspelt)
    (tree.toList_text hkind hspelt)

theorem TokenStream.spelt_of_ofQuery {query : String} {s : TokenStream}
    (h : ofQuery query = .ok s) : Spelt s.tokens := by
  obtain ⟨ts, hcuts, rfl⟩ := ofQuery_eq_ok_iff.1 h
  exact fun t ht => hcuts.spells t ((List.mem_filter.1 ht).1)

/-- The canonical text of a query has the expression of the query, and the same
significant tokens with the same texts. -/
theorem parse_text {query : String} {e : Expr} (h : parse query = .ok e) :
    parse e.text = .ok e ∧
      ∃ s c, TokenStream.ofQuery query = .ok s ∧ TokenStream.ofQuery e.text = .ok c ∧
        c.tokens.map Token.piece = s.tokens.map Token.piece := by
  obtain ⟨s, hs, hcompile⟩ := parse_eq_ok_iff.1 h
  obtain ⟨tree, htree, -, rfl⟩ := compile_eq_ok_iff.1 hcompile
  obtain ⟨⟨hkind, -⟩, htokens⟩ := Tree.fits_of_ofStream htree
  have hspelt := TokenStream.spelt_of_ofQuery hs
  rw [← htokens] at hspelt
  obtain ⟨c, hc, hpieces⟩ := tree.ofQuery_text hkind hspelt
  rw [htokens] at hpieces
  exact ⟨parse_eq_ok_iff.2 ⟨c, hc, compile_congr hpieces hcompile⟩, s, c, hs, hc, hpieces⟩

theorem parse_text_respaced :
    parse "NOT(KEY= 'b c'\tOR  NOT NOT A=\"\\\"\" )" =
        .ok (.not (.group (.binary .or (.leaf "KEY='b c'" .keyValue)
          (.not (.not (.leaf "A=\"\\\"\"" .keyValue)))))) ∧
      parse "NOT (KEY='b c' OR NOT NOT A=\"\\\"\")" =
        .ok (.not (.group (.binary .or (.leaf "KEY='b c'" .keyValue)
          (.not (.not (.leaf "A=\"\\\"\"" .keyValue)))))) := by
  have h : parse "NOT(KEY= 'b c'\tOR  NOT NOT A=\"\\\"\" )" =
      .ok (.not (.group (.binary .or (.leaf "KEY='b c'" .keyValue)
        (.not (.not (.leaf "A=\"\\\"\"" .keyValue)))))) :=
    eq_ok_of_toOption (by decide +kernel)
  exact ⟨h, (parse_text h).1⟩

end BoolQuery
