import BoolQuery.Proofs.CanonicalText

/-!
# Nothing depends on places

What becomes of a query is a matter of the kinds and the texts of its significant
tokens. Where they stand, the blanks between them and the length of the query show in
messages only: two streams with the same kinds and texts have the same expression, or
the same complaint at the token of the same index, or the same conflict at the block of
the same number. This is `AgreeUpToPlaces`.

All of it comes from the reading of one stream being that of the other with places
exchanged. A reading that fails is an `Ending` like any other, and `complaint?` says what
is wrong with it. A reading that succeeds gives two trees with blocks of the same types,
and which block is blamed is a matter of these.

In the other direction an expression tells the tokens it was read from: its canonical
text is cut into them.
-/

namespace BoolQuery

/-! ## Syntax errors -/

namespace Tree

/-- What there is to complain of in how a reading of a whole query ended. -/
def Ending.complaint? (ending : Ending) : Option Complaint :=
  match ending.result, ending.rest with
  | .error complaint, _ => some complaint
  | .ok _, _ :: _ => some ⟨.expression, .operatorOrEnd⟩
  | .ok _, [] => none

theorem Ending.complaint?_mapTokens (f : Token → Token) (ending : Ending) :
    (ending.mapTokens f).complaint? = ending.complaint? := by
  obtain ⟨result, depth, rest⟩ := ending
  cases result with
  | error complaint => rfl
  | ok tree => cases rest <;> rfl

theorem Progress.run_rest_suffix (outside : Nat) (p : Progress) (ts : List Token) :
    (p.run outside ts).rest <:+ ts := by
  induction ts generalizing p with
  | nil => exact List.suffix_refl _
  | cons t ts ih =>
      rw [Progress.run]
      cases p.take outside t with
      | onward next => exact (ih next).trans (List.suffix_cons t ts)
      | stop result => exact List.suffix_refl _

end Tree

theorem Cursor.readAll_snd (c : Cursor) :
    c.readAll.2 = ⟨(Tree.Progress.start.run c.depth c.rest).rest,
      c.depth + (Tree.Progress.start.run c.depth c.rest).depth, c.sourceLength⟩ := by
  rw [readAll, readTree]
  cases (Tree.Progress.start.run c.depth c.rest).result with
  | error complaint => rfl
  | ok tree =>
      simp only [Except.mapError]
      split <;> rfl

theorem Tree.ofStream_eq_error_iff {s : TokenStream} {e : SyntaxError} :
    ofStream s = .error e ↔ ∃ c, (Progress.start.run 0 s.tokens).complaint? = some c ∧
      (Cursor.ofStream s).readAll.2.refuse c = e := by
  rw [ofStream, Cursor.readAll_snd]
  simp only [Cursor.readAll, Cursor.readTree, Cursor.ofStream]
  obtain ⟨result, depth, rest⟩ := Progress.start.run 0 s.tokens
  cases result with
  | error complaint => simp [Ending.complaint?, Except.mapError]
  | ok tree => cases rest <;> simp [Ending.complaint?, Except.mapError]

/-- Whether a syntax error is about the token at an index, or about the end behind the
last token: that is what was found, and there the reader stopped. -/
structure SyntaxError.StandsAt (e : SyntaxError) (s : TokenStream) (i : Nat) : Prop where
  le : i ≤ s.tokens.length
  rest : (Cursor.ofStream s).readAll.2.rest = s.tokens.drop i
  found : e.found = s.tokens[i]?

theorem SyntaxError.standsAt_refuse (s : TokenStream) (c : Complaint) :
    ((Cursor.ofStream s).readAll.2.refuse c).StandsAt s
      (s.tokens.length - (Cursor.ofStream s).readAll.2.rest.length) := by
  have hsuffix : (Cursor.ofStream s).readAll.2.rest <:+ s.tokens := by
    rw [Cursor.readAll_snd]
    exact Tree.Progress.run_rest_suffix 0 .start s.tokens
  have hdrop := List.suffix_iff_eq_drop.1 hsuffix
  refine ⟨Nat.sub_le _ _, hdrop, ?_⟩
  rw [← List.head?_drop, ← hdrop]
  rfl

/-- Queries whose tokens have the same kinds and texts are refused for the same, at the
token of the same index. -/
theorem Tree.error_congr {s c : TokenStream} {e : SyntaxError}
    (hpieces : s.tokens.map Token.piece = c.tokens.map Token.piece)
    (h : ofStream s = .error e) :
    ∃ e' i, ofStream c = .error e' ∧ e.rule = e'.rule ∧ e.expected = e'.expected ∧
      e.StandsAt s i ∧ e'.StandsAt c i := by
  have hkind : ∀ t : Token, t.unplaced.kind = t.kind := fun _ => rfl
  have hruns : (Progress.start.run 0 s.tokens).mapTokens Token.unplaced =
      (Progress.start.run 0 c.tokens).mapTokens Token.unplaced := by
    rw [← Progress.run_mapTokens hkind, ← Progress.run_mapTokens hkind,
      Token.map_unplaced_of_map_piece hpieces]
  obtain ⟨complaint, hcomplaint, rfl⟩ := ofStream_eq_error_iff.1 h
  rw [← Ending.complaint?_mapTokens Token.unplaced, hruns, Ending.complaint?_mapTokens]
    at hcomplaint
  have hrest : (Cursor.ofStream s).readAll.2.rest.length =
      (Cursor.ofStream c).readAll.2.rest.length := by
    have hlen := congrArg (fun ending : Ending => ending.rest.length) hruns
    simpa [Ending.mapTokens, Cursor.readAll_snd, Cursor.ofStream] using hlen
  have htokens : s.tokens.length = c.tokens.length := by
    simpa using congrArg List.length hpieces
  have hstands := SyntaxError.standsAt_refuse c complaint
  rw [← htokens, ← hrest] at hstands
  exact ⟨_, _, ofStream_eq_error_iff.2 ⟨complaint, hcomplaint, rfl⟩, rfl, rfl,
    SyntaxError.standsAt_refuse s complaint, hstands⟩

/-! ## Mixed block types -/

/-- Whether an error blames the block with a number, which is the first one whose type
is not that of the first block. -/
structure MixedBlockTypes.Blames (e : MixedBlockTypes) (tree : Tree) (n : Nat) : Prop where
  first : e.first = tree.firstBlock.blockType
  before : ∀ b ∈ tree.blocks.take n, b.blockType = e.first
  block : ∃ b, tree.blocks[n]? = some b ∧ e.conflicting = b.blockType ∧ e.span = b.span
  conflict : e.conflicting ≠ e.first

theorem Tree.checkUniform_of_find? {tree : Tree} {b : Block}
    (h : tree.blocks.find? (fun b => b.blockType != tree.firstBlock.blockType) = some b) :
    tree.checkUniform = .error ⟨tree.firstBlock.blockType, b.blockType, b.span⟩ := by
  simp only [checkUniform]
  split
  · rename_i b' hb'
    obtain rfl := Option.some.inj (h.symm.trans hb')
    rfl
  · rename_i hnone
    rw [h] at hnone
    exact absurd hnone (by simp)

theorem Tree.checkUniform_eq_error_iff {tree : Tree} {e : MixedBlockTypes} :
    tree.checkUniform = .error e ↔ ∃ n, e.Blames tree n := by
  constructor
  · intro h
    cases hfind : tree.blocks.find? (fun b => b.blockType != tree.firstBlock.blockType) with
    | none =>
        have huniform : tree.Uniform := by simpa [Uniform] using hfind
        obtain ⟨u, hu, -⟩ := tree.checkUniform_eq huniform
        rw [hu] at h
        cases h
    | some b =>
        rw [checkUniform_of_find? hfind] at h
        injection h with h
        subst h
        obtain ⟨hb, before, after, hblocks, hbefore⟩ := List.find?_eq_some_iff_append.1 hfind
        refine ⟨before.length, rfl, ?_, ⟨b, ?_, rfl, rfl⟩, by simpa using hb⟩
        · rw [hblocks, List.take_left]
          simpa using hbefore
        · simp [hblocks]
  · rintro ⟨n, hfirst, hbefore, ⟨b, hb, hconflicting, hspan⟩, hconflict⟩
    rw [hfirst] at hbefore hconflict
    have hfind : tree.blocks.find? (fun b => b.blockType != tree.firstBlock.blockType) =
        some b := by
      obtain ⟨hn, rfl⟩ := List.getElem?_eq_some_iff.1 hb
      refine List.find?_eq_some_iff_append.2 ⟨by simpa [← hconflicting] using hconflict,
        tree.blocks.take n, tree.blocks.drop (n + 1), ?_, by simpa using hbefore⟩
      rw [List.getElem_cons_drop, List.take_append_drop]
    rw [checkUniform_of_find? hfind, ← hfirst, ← hconflicting, ← hspan]

theorem Tree.blockTypes_congr {tree other : Tree}
    (h : tree.mapTokens Token.unplaced = other.mapTokens Token.unplaced) :
    tree.blocks.map Block.blockType = other.blocks.map Block.blockType := by
  have htypes : ∀ t : Tree, t.blocks.map Block.blockType =
      (t.mapTokens Token.unplaced).blocks.map Block.blockType := by
    intro t
    rw [t.blocks_mapTokens, List.map_map]
    exact List.map_congr_left fun b _ => b.blockType_mapTokens.symm
  rw [htypes tree, htypes other, h]

theorem MixedBlockTypes.Blames.congr {e : MixedBlockTypes} {tree other : Tree} {n : Nat}
    (hblames : e.Blames tree n)
    (h : tree.mapTokens Token.unplaced = other.mapTokens Token.unplaced) :
    ∃ e' : MixedBlockTypes, e.first = e'.first ∧ e.conflicting = e'.conflicting ∧
      e'.Blames other n := by
  have htypes := Tree.blockTypes_congr h
  obtain ⟨hfirst, hbefore, ⟨b, hb, hconflicting, -⟩, hconflict⟩ := hblames
  have hsame : tree.firstBlock.blockType = other.firstBlock.blockType := by
    have hhead := congrArg List.head? htypes
    simpa [Tree.head?_blocks] using hhead
  have hnth : (other.blocks[n]?).map Block.blockType = some b.blockType := by
    rw [← List.getElem?_map, ← htypes, List.getElem?_map, hb, Option.map_some]
  obtain ⟨b', hb', htype⟩ := Option.map_eq_some_iff.1 hnth
  refine ⟨⟨e.first, e.conflicting, b'.span⟩, rfl, rfl, hfirst.trans hsame, ?_,
    ⟨b', hb', hconflicting.trans htype.symm, rfl⟩, hconflict⟩
  intro b hb
  have htake := congrArg (List.take n) htypes
  rw [← List.map_take, ← List.map_take] at htake
  have hmem : b.blockType ∈ (tree.blocks.take n).map Block.blockType :=
    htake ▸ List.mem_map_of_mem hb
  obtain ⟨b₀, hb₀, htype⟩ := List.mem_map.1 hmem
  rw [← htype]
  exact hbefore b₀ hb₀

/-! ## Queries -/

/-- Whether two answers, each for a stream, are the same but for places. -/
inductive AgreeUpToPlaces (s c : TokenStream) :
    Except QueryError Expr → Except QueryError Expr → Prop where
  | accepted (e : Expr) : AgreeUpToPlaces s c (.ok e) (.ok e)
  | refused {e e' : SyntaxError} {i : Nat} :
      e.rule = e'.rule → e.expected = e'.expected → e.StandsAt s i → e'.StandsAt c i →
      AgreeUpToPlaces s c (.error (.syntactic e)) (.error (.syntactic e'))
  | mixed {e e' : MixedBlockTypes} {tree tree' : Tree} {n : Nat} :
      e.first = e'.first → e.conflicting = e'.conflicting →
      Tree.ofStream s = .ok tree → e.Blames tree n →
      Tree.ofStream c = .ok tree' → e'.Blames tree' n →
      AgreeUpToPlaces s c (.error (.mixed e)) (.error (.mixed e'))

theorem compile_of_mixed {s : TokenStream} {tree : Tree} {e : MixedBlockTypes}
    (htree : Tree.ofStream s = .ok tree) (h : tree.checkUniform = .error e) :
    compile s = .error (.mixed e) := by
  rw [compile_of_tree htree, h]
  rfl

theorem compile_agree {s c : TokenStream}
    (hpieces : s.tokens.map Token.piece = c.tokens.map Token.piece) :
    AgreeUpToPlaces s c (compile s) (compile c) := by
  cases htree : Tree.ofStream s with
  | error e =>
      obtain ⟨e', i, htree', hrule, hexpected, hs, hc⟩ := Tree.error_congr hpieces htree
      rw [compile_of_error htree, compile_of_error htree']
      exact .refused hrule hexpected hs hc
  | ok tree =>
      obtain ⟨tree', htree', hsame⟩ := Tree.ofStream_congr hpieces.symm htree
      cases hcheck : tree.checkUniform with
      | ok u =>
          obtain ⟨huniform, -⟩ := Tree.uniform_of_checkUniform hcheck
          have hs := compile_eq_ok_iff.2 ⟨tree, htree, huniform, rfl⟩
          rw [hs, compile_congr hpieces.symm hs]
          exact .accepted _
      | error e =>
          obtain ⟨n, hblames⟩ := Tree.checkUniform_eq_error_iff.1 hcheck
          obtain ⟨e', hfirst, hconflicting, hblames'⟩ := hblames.congr hsame.symm
          rw [compile_of_mixed htree hcheck,
            compile_of_mixed htree' (Tree.checkUniform_eq_error_iff.2 ⟨n, hblames'⟩)]
          exact .mixed hfirst hconflicting htree hblames htree' hblames'

theorem exists_pieces_of_parse {query : String} {e : Expr} (h : parse query = .ok e) :
    ∃ s c, TokenStream.ofQuery query = .ok s ∧ TokenStream.ofQuery e.text = .ok c ∧
      s.tokens.map Token.piece = c.tokens.map Token.piece := by
  obtain ⟨s, tree, hs, hfits, htokens, -, rfl⟩ := parse_eq_ok_iff_tree.1 h
  have hspelt := TokenStream.spelt_of_ofQuery hs
  rw [← htokens] at hspelt
  obtain ⟨c, hc, hpieces⟩ := tree.ofQuery_text hfits.1 hspelt
  exact ⟨s, c, hs, hc, by rw [← htokens, hpieces]⟩

/-- Streams with the same significant kinds and texts come to the same, and queries that
come to the same expression have the same significant kinds and texts. -/
theorem compile_upToPlaces :
    (∀ s c : TokenStream, s.tokens.map Token.piece = c.tokens.map Token.piece →
      AgreeUpToPlaces s c (compile s) (compile c)) ∧
    ∀ (query other : String) (e : Expr), parse query = .ok e → parse other = .ok e →
      ∃ s c, TokenStream.ofQuery query = .ok s ∧ TokenStream.ofQuery other = .ok c ∧
        s.tokens.map Token.piece = c.tokens.map Token.piece := by
  refine ⟨fun s c => compile_agree, fun query other e hquery hother => ?_⟩
  obtain ⟨s, t, hs, ht, hpieces⟩ := exists_pieces_of_parse hquery
  obtain ⟨c, t', hc, ht', hpieces'⟩ := exists_pieces_of_parse hother
  obtain rfl := Except.ok.inj (ht.symm.trans ht')
  exact ⟨s, c, hs, hc, hpieces.trans hpieces'.symm⟩

/-- Two hand-made streams with their tokens in different places, of which the third and
fourth are a key and a value where the first was a word; and a query written in two
ways. -/
theorem compile_upToPlaces_respaced :
    let s : TokenStream :=
      ⟨[⟨.word, "a", ⟨0, 1⟩⟩, ⟨.or, "OR", ⟨2, 4⟩⟩, ⟨.key, "K=", ⟨5, 7⟩⟩,
        ⟨.quoted, "''", ⟨7, 9⟩⟩], [], 9⟩
    let c : TokenStream :=
      ⟨[⟨.word, "a", ⟨3, 3⟩⟩, ⟨.or, "OR", ⟨8, 1⟩⟩, ⟨.key, "K=", ⟨2, 5⟩⟩,
        ⟨.quoted, "''", ⟨0, 0⟩⟩], [⟨.whitespace, " ", ⟨4, 5⟩⟩], 2⟩
    let e : Expr := .binary .or (.leaf "a" .bare) (.not (.leaf "'b'" .bare))
    (s.tokens.map Token.piece = c.tokens.map Token.piece ∧
      AgreeUpToPlaces s c (compile s) (compile c)) ∧
    parse "a OR NOT 'b'" = .ok e ∧ parse "a\tOR NOT'b' " = .ok e ∧
      ∃ s c, TokenStream.ofQuery "a OR NOT 'b'" = .ok s ∧
        TokenStream.ofQuery "a\tOR NOT'b' " = .ok c ∧
        s.tokens.map Token.piece = c.tokens.map Token.piece := by
  intro s c e
  have hquery : parse "a OR NOT 'b'" = .ok e := eq_ok_of_toOption (by decide +kernel)
  have hother : parse "a\tOR NOT'b' " = .ok e := eq_ok_of_toOption (by decide +kernel)
  exact ⟨⟨rfl, compile_upToPlaces.1 s c rfl⟩, hquery, hother,
    compile_upToPlaces.2 _ _ e hquery hother⟩

end BoolQuery
