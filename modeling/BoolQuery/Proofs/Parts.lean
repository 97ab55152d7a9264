import BoolQuery.Proofs.Retoken
import BoolQuery.Proofs.Slices

/-!
# Parts of a tree are where they say

The range of a tree is computed from the ends alone: the first and the last operand, a
NOT and what it negates, two parentheses. For tokens in the order of a query this is
from the start of the first token to the end of the last (`Tree.extends_span`).

The slice of the query with that range is then cut into the tokens of the part, moved to
the start, and read again as the part. Reading needs no more than that: a part is
well-kinded and no deeper than the whole, and `ofStream_of_mapTokens` gives a tree for
tokens that have been moved.
-/

namespace BoolQuery

namespace Tree

/-- The parts of a tree: itself, its operands, each taken as a tree, the trees in its
groups, and the parts of all these. The first few operands of a chain count as a part. -/
inductive IsPart : Tree → Tree → Prop where
  | refl (tree : Tree) : IsPart tree tree
  | left {part left : Tree} {op : Connective} {token : Token} {right : Operand} :
      IsPart part left → IsPart part (.join left op token right)
  | right {part left : Tree} {op : Connective} {token : Token} {right : Operand} :
      IsPart part (.single right) → IsPart part (.join left op token right)
  | negated {part : Tree} {not : Token} {operand : Operand} :
      IsPart part (.single operand) → IsPart part (.single (.negated not operand))
  | group {part tree : Tree} {lparen rparen : Token} :
      IsPart part tree → IsPart part (.single (.group lparen tree rparen))

namespace IsPart

variable {part tree : Tree}

theorem wellKinded (h : part.IsPart tree) (hkind : tree.WellKinded) : part.WellKinded := by
  induction h with
  | refl => exact hkind
  | left _ ih => exact ih hkind.1
  | right _ ih => exact ih hkind.2.2
  | negated _ ih => exact ih hkind.2
  | group _ ih => exact ih hkind.2.1

theorem nesting_le (h : part.IsPart tree) : part.nesting ≤ tree.nesting := by
  induction h with
  | refl => exact Nat.le_refl _
  | left _ ih => exact Nat.le_trans ih (Nat.le_max_left _ _)
  | right _ ih => exact Nat.le_trans ih (Nat.le_max_right _ _)
  | negated _ ih | group _ ih => exact Nat.le_succ_of_le ih

theorem fits {around : Nat} (h : part.IsPart tree) (hfits : tree.Fits around) :
    part.Fits around := by
  have := h.nesting_le
  have := hfits.2
  exact ⟨h.wellKinded hfits.1, by omega⟩

/-- A part is written in some of the tokens, all in a row. -/
theorem infix_tokens (h : part.IsPart tree) : part.tokens <:+: tree.tokens := by
  induction h with
  | refl => exact List.infix_refl _
  | left _ ih => exact ih.trans (List.prefix_append _ _).isInfix
  | right _ ih =>
      exact ih.trans ((List.suffix_cons _ _).trans (List.suffix_append _ _)).isInfix
  | negated _ ih => exact ih.trans (List.suffix_cons _ _).isInfix
  | group _ ih =>
      exact ih.trans ((List.prefix_append _ _).isInfix.trans (List.suffix_cons _ _).isInfix)

theorem blocks_subset (h : part.IsPart tree) : part.blocks ⊆ tree.blocks := by
  induction h with
  | refl => exact List.Subset.refl _
  | left _ ih =>
      rw [blocks_join]
      exact List.subset_append_of_subset_left _ ih
  | right _ ih =>
      rw [blocks_join]
      exact List.subset_append_of_subset_right _ ih
  | negated _ ih | group _ ih => exact ih

theorem uniform (h : part.IsPart tree) (huniform : tree.Uniform) : part.Uniform := by
  have hfirst := List.mem_of_mem_head? part.head?_blocks
  intro b hb
  rw [huniform b (h.blocks_subset hb), huniform _ (h.blocks_subset hfirst)]

end IsPart

end Tree

/-! ## Ranges -/

/-- Tokens that end before the next one starts. -/
structure InOrder (ts : List Token) : Prop where
  forward : ∀ t ∈ ts, t.span.start ≤ t.span.stop
  apart : ts.Pairwise fun a b => a.span.stop ≤ b.span.start

/-- Whether a range is from the start of the first of some tokens to the end of the
last. -/
def Span.Extends (s : Span) (ts : List Token) : Prop :=
  ∃ first last, ts.head? = some first ∧ ts.getLast? = some last ∧
    s = ⟨first.span.start, last.span.stop⟩

theorem InOrder.sublist {ts us : List Token} (h : InOrder us) (hsub : ts.Sublist us) :
    InOrder ts :=
  ⟨fun t ht => h.forward t (hsub.subset ht), h.apart.sublist hsub⟩

theorem Token.extends_span (t : Token) : t.span.Extends [t] := ⟨t, t, rfl, rfl, rfl⟩

/-- Two ranges join to that of all the tokens from the first to the second. -/
theorem Span.Extends.join {s r : Span} {ts front back : List Token} (hs : s.Extends front)
    (hr : r.Extends back) (mid : List Token) (htokens : ts = front ++ (mid ++ back))
    (h : InOrder ts) : (s.join r).Extends ts := by
  subst htokens
  obtain ⟨first, last, hfirst, hlast, rfl⟩ := hs
  obtain ⟨first', last', hfirst', hlast', rfl⟩ := hr
  have hmem : last' ∈ mid ++ back := List.mem_append_right mid (List.mem_of_getLast? hlast')
  have hmem' : first' ∈ mid ++ back :=
    List.mem_append_right mid (List.mem_of_mem_head? hfirst')
  have happart := (List.pairwise_append.1 h.apart).2.2
  refine ⟨first, last', ?_, ?_, ?_⟩
  · rw [List.head?_append, hfirst, Option.some_or]
  · rw [List.getLast?_append, List.getLast?_append, hlast', Option.some_or, Option.some_or]
  · have hfirst_le := h.forward first (List.mem_append_left _ (List.mem_of_mem_head? hfirst))
    have hlast_le := h.forward last' (List.mem_append_right _ hmem)
    have hstart := happart first (List.mem_of_mem_head? hfirst) first' hmem'
    have hstop := happart last (List.mem_of_getLast? hlast) last' hmem
    simp only [Span.join, Span.mk.injEq]
    omega

theorem Block.extends_span {b : Block} (h : InOrder b.tokens) : b.span.Extends b.tokens := by
  cases b with
  | quoted token | word token => exact token.extends_span
  | keyValue key value => exact key.extends_span.join value.extends_span [] rfl h

theorem Tree.exists_tokens_first (tree : Tree) :
    ∃ more, tree.tokens = tree.first.tokens ++ more := by
  cases tree with
  | single operand => exact ⟨[], (List.append_nil _).symm⟩
  | join left op token right =>
      obtain ⟨more, hmore⟩ := left.exists_tokens_first
      exact ⟨more ++ token :: right.tokens, by rw [tokens, hmore, List.append_assoc]; rfl⟩

mutual

theorem Operand.extends_span (operand : Operand) (h : InOrder operand.tokens) :
    operand.span.Extends operand.tokens := by
  cases operand with
  | block b => exact b.extends_span h
  | negated not operand =>
      have hinside := operand.extends_span (h.sublist (List.sublist_cons_self _ _))
      exact not.extends_span.join hinside [] rfl h
  | group lparen tree rparen =>
      exact lparen.extends_span.join rparen.extends_span tree.tokens rfl h

/-- For tokens in order, the range of a tree is from its first token to its last. The
range of a chain takes that of its first operand for that of all but the last, so this
is carried for the first operand as well. -/
theorem Tree.extends_span (tree : Tree) (h : InOrder tree.tokens) :
    tree.first.span.Extends tree.first.tokens ∧ tree.span.Extends tree.tokens := by
  cases tree with
  | single operand => exact ⟨operand.extends_span h, operand.extends_span h⟩
  | join left op token right =>
      have hleft := left.extends_span (h.sublist (List.sublist_append_left _ _))
      have hright := right.extends_span (h.sublist
        ((List.sublist_cons_self _ _).trans (List.sublist_append_right _ _)))
      refine ⟨hleft.1, ?_⟩
      obtain ⟨more, hmore⟩ := left.exists_tokens_first
      refine hleft.1.join hright (more ++ [token]) ?_ h
      rw [Tree.tokens, hmore]
      simp

end

theorem Cuts.inOrder {position : Nat} {cs : List Char} {ts : List Token}
    (h : Cuts position cs ts) : InOrder ts := by
  induction h with
  | nil => exact ⟨fun t ht => by simp at ht, .nil⟩
  | @cons position kind text rest ts _ _ hrest ih =>
      refine ⟨fun t ht => ?_, .cons hrest.le_start ih.apart⟩
      rcases List.mem_cons.1 ht with rfl | ht
      · exact Nat.le_add_right _ _
      · exact ih.forward t ht

/-! ## Reading a slice -/

theorem Tree.uniform_of_parse {query : String} {s : TokenStream} {tree : Tree} {e : Expr}
    (hs : TokenStream.ofQuery query = .ok s) (htree : Tree.ofStream s = .ok tree)
    (he : parse query = .ok e) : tree.Uniform := by
  obtain ⟨s', hs', hcompile⟩ := parse_eq_ok_iff.1 he
  obtain rfl := Except.ok.inj (hs.symm.trans hs')
  obtain ⟨tree', htree', huniform, -⟩ := compile_eq_ok_iff.1 hcompile
  obtain rfl := Except.ok.inj (htree.symm.trans htree')
  exact huniform

/-- A tree that is uniform where it was moved to has the expression that it has there. -/
theorem Tree.parse_of_moved {query : String} {s : TokenStream} {tree moved : Tree}
    {offset : Nat} (hs : TokenStream.ofQuery query = .ok s)
    (htree : Tree.ofStream s = .ok tree)
    (hmoved : tree.mapTokens (Token.moved offset) = moved) (huniform : moved.Uniform) :
    parse query = .ok moved.toExpr := by
  subst hmoved
  have htext : ∀ t, (Token.moved offset t).text = t.text := fun _ => rfl
  rw [uniform_mapTokens] at huniform
  rw [toExpr_mapTokens htext]
  exact parse_eq_ok_iff.2 ⟨s, hs, compile_eq_ok_iff.2 ⟨tree, htree, huniform, rfl⟩⟩

/-- A part of the tree of a query has the range from its first token to its last, and
what the query has in that range is read as this part, which stands at the start there.
If the query has an expression, so has the slice, and it is that of the part. -/
theorem Tree.IsPart.reread {query : String} {s : TokenStream} {tree part : Tree}
    (hs : TokenStream.ofQuery query = .ok s) (htree : Tree.ofStream s = .ok tree)
    (hpart : part.IsPart tree) :
    part.span.Extends part.tokens ∧
      ∃ slice : String, part.span.slice? query.toList = some slice.toList ∧
        (∃ s' again, TokenStream.ofQuery slice = .ok s' ∧ Tree.ofStream s' = .ok again ∧
          again.mapTokens (Token.moved part.span.start) = part) ∧
        ∀ e, parse query = .ok e → parse slice = .ok part.toExpr := by
  obtain ⟨ts, hcuts, rfl⟩ := TokenStream.ofQuery_eq_ok_iff.1 hs
  obtain ⟨hfits, htokens⟩ := Tree.fits_of_ofStream htree
  have hrow := hpart.infix_tokens
  rw [htokens] at hrow
  have horder : InOrder part.tokens :=
    hcuts.inOrder.sublist (hrow.sublist.trans List.filter_sublist)
  obtain ⟨-, hextends⟩ := part.extends_span horder
  refine ⟨hextends, ?_⟩
  obtain ⟨first, last, hfirst, hlast, hspan⟩ := hextends
  obtain ⟨before, after, hrow⟩ := hrow
  obtain ⟨front, slice, back, us, hquery, hus, hmoved, hstart, hstop⟩ :=
    hcuts.exists_slice hrow.symm hfirst hlast
  rw [Nat.zero_add] at hstart hstop
  rw [show first.span.start = part.span.start by rw [hspan]] at hmoved
  rw [← String.toList_ofList (l := slice)] at hus
  let stream := TokenStream.ofTokens us (String.ofList slice).utf8ByteSize
  have hstream : TokenStream.ofQuery (String.ofList slice) = .ok stream :=
    hus.ofQuery_eq
  -- The tokens of a part read as the part, wherever they come from.
  have hread : Tree.ofStream ⟨part.tokens, [], 0⟩ = .ok part :=
    Tree.ofStream_of_fits (hpart.fits hfits) rfl
  have hkind : ∀ t, (Token.moved part.span.start t).kind = t.kind := fun _ => rfl
  have htokens' : stream.tokens.map (Token.moved part.span.start) = part.tokens := hmoved
  obtain ⟨again, hagain, hsame⟩ := Tree.ofStream_of_mapTokens hkind htokens' hread
  refine ⟨String.ofList slice, ?_, ⟨stream, again, hstream, hagain, hsame⟩, fun e he => ?_⟩
  · rw [String.toList_ofList]
    refine Span.slice?_eq_some_iff.2 ⟨front, back, hquery, ?_⟩
    rw [hspan, hstart, hstop]
  · have huniform := Tree.uniform_of_parse hs htree he
    exact Tree.parse_of_moved hstream hagain hsame (hpart.uniform huniform)

/-- The group is left out of the slice of what stands in it, and its place in bytes is
not that in characters. -/
theorem Tree.IsPart.reread_in_group :
    let query := "é AND NOT( a OR 'b' )"
    let s : TokenStream :=
      ⟨[⟨.word, "é", ⟨0, 2⟩⟩, ⟨.and, "AND", ⟨3, 6⟩⟩, ⟨.not, "NOT", ⟨7, 10⟩⟩,
        ⟨.lparen, "(", ⟨10, 11⟩⟩, ⟨.word, "a", ⟨12, 13⟩⟩, ⟨.or, "OR", ⟨14, 16⟩⟩,
        ⟨.quoted, "'b'", ⟨17, 20⟩⟩,
          ⟨.rparen, ")", ⟨21, 22⟩⟩],
        [⟨.whitespace, " ", ⟨2, 3⟩⟩, ⟨.whitespace, " ", ⟨6, 7⟩⟩,
          ⟨.whitespace, " ", ⟨11, 12⟩⟩, ⟨.whitespace, " ", ⟨13, 14⟩⟩,
          ⟨.whitespace, " ", ⟨16, 17⟩⟩, ⟨.whitespace, " ", ⟨20, 21⟩⟩],
        22⟩
    let part : Tree := .join (.single (.block (.word ⟨.word, "a", ⟨12, 13⟩⟩))) .or
      ⟨.or, "OR", ⟨14, 16⟩⟩ (.block (.quoted ⟨.quoted, "'b'", ⟨17, 20⟩⟩))
    let tree : Tree := .join (.single (.block (.word ⟨.word, "é", ⟨0, 2⟩⟩))) .and
      ⟨.and, "AND", ⟨3, 6⟩⟩ (.negated ⟨.not, "NOT", ⟨7, 10⟩⟩
        (.group ⟨.lparen, "(", ⟨10, 11⟩⟩ part ⟨.rparen, ")", ⟨21, 22⟩⟩))
    (TokenStream.ofQuery query = .ok s ∧ Tree.ofStream s = .ok tree ∧ part.IsPart tree) ∧
      part.span.Extends part.tokens ∧
        ∃ slice : String, part.span.slice? query.toList = some slice.toList ∧
          (∃ s' again, TokenStream.ofQuery slice = .ok s' ∧ Tree.ofStream s' = .ok again ∧
            again.mapTokens (Token.moved part.span.start) = part) ∧
          ∀ e, parse query = .ok e → parse slice = .ok part.toExpr := by
  intro query s part tree
  have hs : TokenStream.ofQuery query = .ok s := eq_ok_of_toOption (by decide +kernel)
  have htree : Tree.ofStream s = .ok tree := rfl
  have hpart : part.IsPart tree := .right (.negated (.group (.refl part)))
  exact ⟨⟨hs, htree, hpart⟩, hpart.reread hs htree⟩

end BoolQuery
