import BoolQuery.Proofs.CanonicalText
import BoolQuery.Proofs.Slices

/-!
# Texts put end to end

Two texts that are cut into tokens, one put behind the other, are cut into the same
significant tokens again, as long as no token at the joint runs on. Blanks may meet there:
they become one token, and as the grammar does not see blanks, that makes no difference
to it. So what is asked of the joint is asked of significant tokens only (`Cuts.glue`).

The tokens of the text behind stand further on than they did. `Cuts.moved` says by how
much, and it is what errors that name a place in the second text have to be moved by.
-/

namespace BoolQuery

open Text

/-- The tokens that matter to the grammar. -/
def significantTokens (ts : List Token) : List Token := ts.filter fun t => !t.isWhitespace

@[simp] theorem tokens_ofTokens (ts : List Token) (n : Nat) :
    (TokenStream.ofTokens ts n).tokens = significantTokens ts := rfl

theorem significantTokens_cons_of_blank {t : Token} {ts : List Token}
    (h : t.kind = .whitespace) :
    significantTokens (t :: ts) = significantTokens ts :=
  List.filter_cons_of_neg (by simp [Token.isWhitespace, Kind.isWhitespace, h])

theorem significantTokens_cons {t : Token} {ts : List Token} (h : t.kind ≠ .whitespace) :
    significantTokens (t :: ts) = t :: significantTokens ts :=
  List.filter_cons_of_pos (by simpa [Token.isWhitespace, Kind.isWhitespace] using h)

theorem significantTokens_map_moved (offset : Nat) (ts : List Token) :
    significantTokens (ts.map (Token.moved offset)) =
      (significantTokens ts).map (Token.moved offset) := by
  rw [significantTokens, List.filter_map]
  rfl

namespace Cuts

variable {position : Nat} {cs ds : List Char} {ts us : List Token}

/-- A text that stands further on is cut into the same tokens, moved. -/
theorem moved (h : Cuts position cs ts) (offset : Nat) :
    Cuts (position + offset) cs (ts.map (Token.moved offset)) := by
  induction h with
  | nil => exact .nil
  | @cons position kind text rest ts hspells hends _ ih =>
      rw [List.map_cons, Token.moved_placed]
      refine .cons hspells hends ?_
      rwa [Nat.add_right_comm]

/-- A token that ends before the rest of a text, with what is glued to it behind, is put
before the tokens of it all. -/
theorem glue_cons (ts : List Token) {kind : Kind} {text : List Char}
    (hspells : kind.Spells text) (hends : kind.EndsBefore text cs.head?)
    (h : ∃ vs, Cuts (position + byteLength text) cs vs ∧
      significantTokens vs = significantTokens ts ++ significantTokens us) :
    ∃ vs, Cuts position (text ++ cs) vs ∧ significantTokens vs =
      significantTokens (.placed kind text position :: ts) ++ significantTokens us := by
  obtain ⟨vs, hvs, hsignificant⟩ := h
  refine ⟨_, .cons hspells hends hvs, ?_⟩
  by_cases hkind : kind = .whitespace
  · rw [significantTokens_cons_of_blank hkind, significantTokens_cons_of_blank hkind,
      hsignificant]
  · rw [significantTokens_cons hkind, significantTokens_cons hkind, hsignificant,
      List.cons_append]

/-- Blanks in front of a text become one token with the blanks that it starts with. -/
theorem glue_blanks (position : Nat) {text : List Char}
    (hspells : Kind.whitespace.Spells text) (h : Cuts (position + byteLength text) ds us) :
    ∃ vs, Cuts position (text ++ ds) vs ∧ significantTokens vs = significantTokens us := by
  cases h with
  | nil =>
      refine ⟨_, .cons hspells (fun c hc => by simp at hc) .nil, ?_⟩
      exact significantTokens_cons_of_blank rfl
  | @cons _ kind' text' rest us hspells' hends' hrest =>
      by_cases hkind : kind' = .whitespace
      · subst hkind
        have hboth : Kind.whitespace.Spells (text ++ text') := by
          refine ⟨by simp [hspells.1], fun c hc => ?_⟩
          rcases List.mem_append.1 hc with hc | hc
          · exact hspells.2 c hc
          · exact hspells'.2 c hc
        rw [Nat.add_assoc, ← byteLength_append] at hrest
        rw [← List.append_assoc]
        refine ⟨_, .cons hboth hends' hrest, ?_⟩
        rw [significantTokens_cons_of_blank rfl, significantTokens_cons_of_blank rfl]
      · have hfirst := hspells'.not_blank hkind
        obtain ⟨c, text', rfl⟩ := List.exists_cons_of_ne_nil hspells'.ne_nil
        refine ⟨_, .cons hspells hfirst (.cons hspells' hends' hrest), ?_⟩
        exact significantTokens_cons_of_blank rfl

/-- Texts put end to end are cut into the significant tokens of both, if a significant
token at the end of the first ends before the second. -/
theorem glue (h : Cuts position cs ts) (h' : Cuts (position + byteLength cs) ds us)
    (hjoint : ∀ t ∈ ts.getLast?, t.kind ≠ .whitespace →
      t.kind.EndsBefore t.text.toList ds.head?) :
    ∃ vs, Cuts position (cs ++ ds) vs ∧
      significantTokens vs = significantTokens ts ++ significantTokens us := by
  induction h with
  | nil => exact ⟨us, by simpa using h', rfl⟩
  | @cons position kind text rest ts hspells hends hrest ih =>
      rw [byteLength_append, ← Nat.add_assoc] at h'
      rw [List.append_assoc]
      cases hrest with
      | nil =>
          by_cases hkind : kind = .whitespace
          · subst hkind
            obtain ⟨vs, hvs, hsignificant⟩ := glue_blanks position hspells h'
            exact ⟨vs, hvs, hsignificant⟩
          · have hends : kind.EndsBefore text ds.head? := by
              simpa [Token.placed] using hjoint (.placed kind text position) rfl hkind
            exact glue_cons [] hspells hends ⟨us, h', rfl⟩
      | @cons _ kind' text' rest' ts hspells' hends' hrest' =>
          have hends : kind.EndsBefore text (text' ++ rest' ++ ds).head? := by
            obtain ⟨c, text', rfl⟩ := List.exists_cons_of_ne_nil hspells'.ne_nil
            exact hends
          refine glue_cons _ hspells hends (ih h' fun t ht => hjoint t ?_)
          rwa [List.getLast?_cons_cons]

theorem glue_of_delimits (h : Cuts position cs ts)
    (h' : Cuts (position + byteLength cs) ds us) (hdelimits : Delimits ds) :
    ∃ vs, Cuts position (cs ++ ds) vs ∧
      significantTokens vs = significantTokens ts ++ significantTokens us :=
  h.glue h' fun _ _ hkind => Kind.endsBefore_of_delimits hkind hdelimits

end Cuts

/-! ## Queries by their cuttings -/

theorem exists_cuts_of_parse {query : String} {e : Expr} (h : parse query = .ok e) :
    ∃ (ts : List Token) (tree : Tree), Cuts 0 query.toList ts ∧ tree.Fits 0 ∧
      tree.tokens = significantTokens ts ∧ tree.Uniform ∧ tree.toExpr = e := by
  obtain ⟨s, tree, hs, hfits, htokens, huniform, hexpr⟩ := parse_eq_ok_iff_tree.1 h
  obtain ⟨ts, hcuts, rfl⟩ := TokenStream.ofQuery_eq_ok_iff.1 hs
  exact ⟨ts, tree, hcuts, hfits, htokens, huniform, hexpr⟩

theorem Cuts.parse_eq {query : String} {ts : List Token} {tree : Tree}
    (h : Cuts 0 query.toList ts) (hfits : tree.Fits 0)
    (htokens : tree.tokens = significantTokens ts) (huniform : tree.Uniform) :
    parse query = .ok tree.toExpr :=
  parse_eq_ok_iff_tree.2 ⟨_, tree, h.ofQuery_eq, hfits, htokens,
    huniform, rfl⟩

end BoolQuery
