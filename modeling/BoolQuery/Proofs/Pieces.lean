import BoolQuery.Proofs.Retoken
import BoolQuery.Proofs.ScanCover

/-!
# Texts put one behind the other

Writing is the other direction of cutting: pieces of known kinds are put one behind
the other, and the question is whether they come apart again. They do if each is
spelt like its kind and ends before the character that comes next, which is what
`Separate` says of a list of pieces. `ofQuery_of_separate` is all that a printer of
queries has to know about the cutting of tokens.
-/

namespace BoolQuery

namespace Piece

def chars (ps : List Piece) : List Char := ps.flatMap fun p => p.2.toList

@[simp] theorem chars_nil : chars [] = [] := rfl

@[simp] theorem chars_cons (p : Piece) (ps : List Piece) :
    chars (p :: ps) = p.2.toList ++ chars ps := rfl

@[simp] theorem chars_append (ps qs : List Piece) :
    chars (ps ++ qs) = chars ps ++ chars qs := List.flatMap_append

/-- The pieces that matter to the grammar. -/
def significant (ps : List Piece) : List Piece := ps.filter fun p => !p.1.isWhitespace

theorem significant_append (ps qs : List Piece) :
    significant (ps ++ qs) = significant ps ++ significant qs := List.filter_append ..

theorem significant_blank (text : String) (ps : List Piece) :
    significant ((.whitespace, text) :: ps) = significant ps := rfl

theorem significant_token {t : Token} {ps : List Piece} (h : t.kind ≠ .whitespace) :
    significant (t.piece :: ps) = t.piece :: significant ps :=
  List.filter_cons_of_pos (by simpa [Token.piece, Kind.isWhitespace] using h)

/-- Whether pieces put one behind the other can be told apart again. -/
def Separate : List Piece → Prop
  | [] => True
  | p :: ps =>
      p.1.Spells p.2.toList ∧ p.1.EndsBefore p.2.toList (chars ps).head? ∧ Separate ps

theorem Separate.cuts {ps : List Piece} (h : Separate ps) (position : Nat) :
    ∃ ts, Cuts position (chars ps) ts ∧ ts.map Token.piece = ps := by
  induction ps generalizing position with
  | nil => exact ⟨[], .nil, rfl⟩
  | cons p ps ih =>
      obtain ⟨hspells, hends, hrest⟩ := h
      obtain ⟨ts, hcuts, hpieces⟩ := ih hrest (position + Text.byteLength p.2.toList)
      refine ⟨_, .cons hspells hends hcuts, ?_⟩
      rw [List.map_cons, hpieces, Token.piece, Token.placed, String.ofList_toList]

end Piece

/-- The tokens of a cutting are separate pieces, and they make up the text. -/
theorem Cuts.separate {position : Nat} {cs : List Char} {ts : List Token}
    (h : Cuts position cs ts) :
    Piece.Separate (ts.map Token.piece) ∧ Piece.chars (ts.map Token.piece) = cs := by
  induction h with
  | nil => exact ⟨trivial, rfl⟩
  | @cons position kind text rest ts hspells hends _ ih =>
      obtain ⟨hseparate, hchars⟩ := ih
      have hpiece : (Token.placed kind text position).piece = (kind, String.ofList text) :=
        rfl
      rw [List.map_cons, hpiece, Piece.Separate, Piece.chars_cons, hchars,
        String.toList_ofList]
      exact ⟨⟨hspells, hends, hseparate⟩, rfl⟩

/-- A query is cut into pieces exactly if they are separate and make up its text. -/
theorem TokenStream.exists_merged_iff {query : String} {ps : List Piece} :
    (∃ s, ofQuery query = .ok s ∧ s.merged.map Token.piece = ps) ↔
      Piece.Separate ps ∧ query.toList = Piece.chars ps := by
  constructor
  · rintro ⟨s, hs, rfl⟩
    obtain ⟨ts, hcuts, rfl⟩ := ofQuery_eq_ok_iff.1 hs
    obtain ⟨hseparate, hchars⟩ := hcuts.separate
    rw [merged_ofTokens _ hcuts.ascending]
    exact ⟨hseparate, hchars.symm⟩
  · rintro ⟨hseparate, hchars⟩
    obtain ⟨ts, hcuts, hpieces⟩ := hseparate.cuts 0
    rw [← hchars] at hcuts
    refine ⟨_, hcuts.ofQuery_eq, ?_⟩
    rw [merged_ofTokens _ hcuts.ascending, hpieces]

/-- What the kinds of the tokens of a query are, by some pieces of these kinds. -/
theorem TokenStream.exists_kinds_iff {query : String} {kinds : List Kind} :
    (∃ s, ofQuery query = .ok s ∧ s.merged.map (fun t => t.kind) = kinds) ↔
      ∃ ps : List Piece, ps.map Prod.fst = kinds ∧ Piece.Separate ps ∧
        query.toList = Piece.chars ps := by
  have hkinds : ∀ ts : List Token,
      (ts.map Token.piece).map Prod.fst = ts.map fun t => t.kind :=
    fun ts => List.map_map
  constructor
  · rintro ⟨s, hs, rfl⟩
    exact ⟨_, hkinds s.merged, exists_merged_iff.1 ⟨s, hs, rfl⟩⟩
  · rintro ⟨ps, rfl, hps⟩
    obtain ⟨s, hs, rfl⟩ := exists_merged_iff.2 hps
    exact ⟨s, hs, (hkinds s.merged).symm⟩

/-- Separate pieces are cut apart again, and those that matter to the grammar are
the significant tokens. -/
theorem TokenStream.ofQuery_of_separate {query : String} {ps : List Piece}
    (hps : Piece.Separate ps) (hquery : query.toList = Piece.chars ps) :
    ∃ s, ofQuery query = .ok s ∧
      s.tokens.map Token.piece = Piece.significant ps := by
  obtain ⟨ts, hcuts, rfl⟩ := hps.cuts 0
  rw [← hquery] at hcuts
  refine ⟨_, hcuts.ofQuery_eq, ?_⟩
  rw [Piece.significant, List.filter_map]
  rfl

end BoolQuery
