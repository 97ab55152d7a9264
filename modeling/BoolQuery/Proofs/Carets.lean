import BoolQuery.Command.Failure
import BoolQuery.Proofs.LexFaults
import BoolQuery.Proofs.Parts
import BoolQuery.Proofs.Places

/-!
# Carets stand where the error is

Three stages can refuse a query, and each says where in a way of its own: a lexical error
from the character it got stuck at, a syntax error from the token that was next or from
the length of the query, and mixed block types from the tokens of a block. All these
ranges are runs of characters of the query (`QueryError.exists_slice`), and only the one at
the end of input is empty. A range that is a run of characters can be drawn
(`caretAt?_eq`). Nothing is drawn only for a range that starts at no place of the
query, as one that is written by hand may.
-/

namespace BoolQuery

open Text

/-! ## Ranges of errors -/

theorem Cuts.eq_nil {position : Nat} {ts : List Token} (h : Cuts position [] ts) :
    ts = [] := by
  generalize hcs : ([] : List Char) = cs at h
  cases h with
  | nil => rfl
  | cons hspells => exact absurd (List.append_eq_nil_iff.1 hcs.symm).1 hspells.ne_nil

theorem Cuts.slice?_of_extends {cs : List Char} {ts mid : List Token} {s : Span}
    (h : Cuts 0 cs ts) (hrow : mid <:+: ts.filter fun t => !t.isWhitespace)
    (hspan : s.Extends mid) : ∃ part, part ≠ [] ∧ s.slice? cs = some part := by
  obtain ⟨first, last, hfirst, hlast, rfl⟩ := hspan
  obtain ⟨before, after, hrow⟩ := hrow
  obtain ⟨front, part, back, us, rfl, hus, hmoved, hstart, hstop⟩ :=
    h.exists_slice hrow.symm hfirst hlast
  rw [Nat.zero_add] at hstart hstop
  refine ⟨part, ?_, Span.slice?_eq_some_iff.2 ⟨front, back, rfl, by rw [hstart, hstop]⟩⟩
  rintro rfl
  rw [hus.eq_nil] at hmoved
  rw [← hmoved] at hfirst
  cases hfirst

mutual

theorem Operand.isPart_of_mem_blocks {b : Block} (operand : Operand)
    (h : b ∈ operand.blocks) :
    (Tree.single (.block b)).IsPart (.single operand) := by
  cases operand with
  | block b' =>
      obtain rfl := List.mem_singleton.1 h
      exact .refl _
  | negated not operand => exact .negated (operand.isPart_of_mem_blocks h)
  | group lparen tree rparen => exact .group (tree.isPart_of_mem_blocks h)

theorem Tree.isPart_of_mem_blocks {b : Block} (tree : Tree) (h : b ∈ tree.blocks) :
    (Tree.single (.block b)).IsPart tree := by
  cases tree with
  | single operand => exact operand.isPart_of_mem_blocks h
  | join left op token right =>
      rw [Tree.blocks_join, List.mem_append] at h
      rcases h with h | h
      · exact .left (left.isPart_of_mem_blocks h)
      · exact .right (right.isPart_of_mem_blocks h)

end

theorem Tree.span_of_error {s : TokenStream} {e : SyntaxError} (h : ofStream s = .error e) :
    (∃ t ∈ s.tokens, e.found = some t ∧ e.span = t.span) ∨
      e.found = none ∧ e.span = .point s.sourceLength := by
  obtain ⟨c, -, rfl⟩ := ofStream_eq_error_iff.1 h
  have hsuffix := Progress.run_rest_suffix 0 .start s.tokens
  rw [Cursor.readAll_snd]
  simp only [Cursor.ofStream, Cursor.refuse]
  cases hrest : (Progress.start.run 0 s.tokens).rest with
  | nil => exact .inr ⟨rfl, rfl⟩
  | cons t rest => exact .inl ⟨t, hsuffix.subset (hrest ▸ .head _), rfl, rfl⟩

/-- Whether a query is wrong only in that it ends. -/
def QueryError.AtEnd (e : QueryError) : Prop :=
  ∃ error, e = .syntactic error ∧ error.isAtEnd = true

theorem LexError.slice?_span {query : String} {e : LexError}
    (h : TokenStream.ofQuery query = .error e) :
    e.span.slice? query.toList = some [e.char] := by
  obtain ⟨front, c, back, ts, hquery, -, -, -, rfl⟩ :=
    scanFrom_eq_error_iff.1 (TokenStream.ofQuery_eq_error_iff.1 h)
  refine Span.slice?_eq_some_iff.2 ⟨front, back, by simp [hquery, char_atChar], ?_⟩
  simp [span, char_atChar, position_atChar]

theorem MixedBlockTypes.exists_slice {cs : List Char} {ts : List Token} {n : Nat}
    {tree : Tree} {e : MixedBlockTypes} (hcuts : Cuts 0 cs ts)
    (htree : Tree.ofStream (.ofTokens ts n) = .ok tree) (h : tree.checkUniform = .error e) :
    ∃ part, part ≠ [] ∧ e.span.slice? cs = some part := by
  obtain ⟨i, -, -, ⟨b, hb, -, hspan⟩, -⟩ := Tree.checkUniform_eq_error_iff.1 h
  obtain ⟨-, htokens⟩ := Tree.fits_of_ofStream htree
  have hrow : b.tokens <:+: (TokenStream.ofTokens ts n).tokens :=
    htokens ▸ (tree.isPart_of_mem_blocks (List.mem_of_getElem? hb)).infix_tokens
  have horder : InOrder b.tokens :=
    hcuts.inOrder.sublist (hrow.sublist.trans List.filter_sublist)
  rw [hspan]
  exact hcuts.slice?_of_extends hrow (Block.extends_span horder)

/-- An error of a query at its end has the range there. Any other has the range of some
characters of the query. -/
theorem QueryError.exists_slice {query : String} {e : QueryError}
    (h : parse query = .error e) :
    e.AtEnd ∧ e.span = .point query.utf8ByteSize ∨
      ¬ e.AtEnd ∧ ∃ part, part ≠ [] ∧ e.span.slice? query.toList = some part := by
  cases hs : TokenStream.ofQuery query with
  | error error =>
      rw [parse, hs] at h
      obtain rfl := Except.error.inj h
      exact .inr ⟨by simp [AtEnd], [error.char], by simp, LexError.slice?_span hs⟩
  | ok s =>
      rw [parse_of_ofQuery hs] at h
      obtain ⟨ts, hcuts, rfl⟩ := TokenStream.ofQuery_eq_ok_iff.1 hs
      cases htree : Tree.ofStream (.ofTokens ts query.utf8ByteSize) with
      | error error =>
          rw [compile_of_error htree] at h
          obtain rfl := Except.error.inj h
          rcases Tree.span_of_error htree with ⟨t, ht, hfound, hspan⟩ | ⟨hfound, hspan⟩
          · refine .inr ⟨by simp [AtEnd, SyntaxError.isAtEnd, hfound], ?_⟩
            obtain ⟨before, after, hrow⟩ := List.append_of_mem ht
            rw [QueryError.span, hspan]
            exact hcuts.slice?_of_extends
              ⟨before, after, (List.append_assoc ..).trans hrow.symm⟩
              t.extends_span
          · exact .inl ⟨⟨error, rfl, by simp [SyntaxError.isAtEnd, hfound]⟩, hspan⟩
      | ok tree =>
          cases hcheck : tree.checkUniform with
          | ok u =>
              rw [compile_of_tree htree, hcheck] at h
              cases h
          | error error =>
              rw [compile_of_mixed htree hcheck] at h
              obtain rfl := Except.error.inj h
              exact .inr ⟨by simp [AtEnd], MixedBlockTypes.exists_slice hcuts htree hcheck⟩

/-! ## Drawing -/

namespace Command

theorem flatChar_ne (c : Char) : flatChar c ≠ '\n' ∧ flatChar c ≠ '\r' := by
  rw [flatChar]
  split
  · decide
  · rename_i h
    exact not_or.1 h

/-- Carets for a run of characters stand below the first of them, one for each, and one for
none. -/
theorem caretAt?_eq {query : String} {before part after : List Char}
    (h : query.toList = before ++ part ++ after) :
    caretAt? query ⟨byteLength before, byteLength before + byteLength part⟩ =
      some (String.ofList (' ' :: ' ' :: query.toList.map flatChar ++ '\n' :: ' ' :: ' ' ::
        (List.replicate before.length ' ' ++ List.replicate (max 1 part.length) '^'))) := by
  have hsplit : split? (byteLength before) query.toList = some (before, part ++ after) :=
    split?_eq_some_iff.2 ⟨by rw [h, List.append_assoc], rfl⟩
  have hslice : Span.slice? ⟨byteLength before, byteLength before + byteLength part⟩
      query.toList =
      some part := Span.slice?_eq_some_iff.2 ⟨before, after, h, rfl⟩
  simp only [caretAt?, hsplit, hslice, Option.bind_eq_bind, Option.bind_some,
    Option.pure_def, Option.some.injEq]
  rw [← String.toList_inj]
  simp

/-- How carets stand in place. Of the query, `before` and `after` are around `part`, where
the error is, and `copy` is what is shown of it. -/
structure InPlace (query : String) (e : QueryError) (before part after copy : List Char) :
    Prop where
  text_eq : query.toList = before ++ part ++ after
  span_eq : e.span = ⟨byteLength before, byteLength before + byteLength part⟩
  within : e.span.start ≤ e.span.stop ∧ e.span.stop ≤ query.utf8ByteSize
  nonempty : part ≠ [] ∨ e.span = .point query.utf8ByteSize
  copy_eq : copy = query.toList.map flatChar
  aligned : copy.length = query.length
  flat : '\n' ∉ copy ∧ '\r' ∉ copy
  /-- The carets have a line of their own below the copy, and both are indented. -/
  drawn : caret? query e = some (String.ofList (' ' :: ' ' :: copy ++ '\n' :: ' ' :: ' ' ::
    (List.replicate before.length ' ' ++ List.replicate (max 1 part.length) '^')))
  below : ¬ e.AtEnd → before.length + max 1 part.length ≤ copy.length
  /-- At the end of input one caret stands behind the last character. -/
  behind : e.AtEnd → before.length = copy.length ∧ max 1 part.length = 1

theorem InPlace.of_append {query : String} {e : QueryError} {before part after : List Char}
    (htext : query.toList = before ++ part ++ after)
    (hspan : e.span = ⟨byteLength before, byteLength before + byteLength part⟩)
    (hend : e.AtEnd → part = [] ∧ after = []) (hinside : ¬ e.AtEnd → part ≠ []) :
    InPlace query e before part after (query.toList.map flatChar) where
  text_eq := htext
  span_eq := hspan
  within := by
    rw [hspan, ← byteLength_toList, htext, byteLength_append, byteLength_append]
    exact ⟨Nat.le_add_right _ _, Nat.le_add_right _ _⟩
  nonempty := by
    by_cases h : e.AtEnd
    · obtain ⟨rfl, rfl⟩ := hend h
      refine .inr ?_
      rw [hspan, ← byteLength_toList, htext]
      simp [Span.point]
    · exact .inl (hinside h)
  copy_eq := rfl
  aligned := by rw [List.length_map, String.length_toList]
  flat := by
    simp only [List.mem_map, not_exists, not_and]
    exact ⟨fun c _ => (flatChar_ne c).1, fun c _ => (flatChar_ne c).2⟩
  drawn := by rw [caret?, hspan, caretAt?_eq htext]
  below := fun h => by
    have hpos := List.length_pos_iff.2 (hinside h)
    rw [List.length_map, htext, List.length_append, List.length_append]
    omega
  behind := fun h => by
    obtain ⟨rfl, rfl⟩ := hend h
    rw [List.length_map, htext]
    simp

end Command

end BoolQuery
