import BoolQuery.Proofs.BlockRow
import BoolQuery.Proofs.Places

/-!
# One block type in a row of tokens

Whether the blocks of a query are all of one type can be seen from its tokens, without the
tree. A query of bare terms has no key at all. In a query of keys and values every word and
phrase is a phrase directly behind a key (`AllKeyed`). Anything else is refused.

That a tree has a key among its tokens only if it has a block of a key and a value is what
the grammar adds: in a row of tokens a key may stand alone, and then it makes no block.
-/

namespace BoolQuery

def Kind.endsBlock : Kind → Bool
  | word | quoted => true
  | _ => false

namespace Block

def lastToken : Block → Token
  | quoted token | word token => token
  | keyValue _ value => value

theorem map_lastToken_endingIn? (key? : Option Token) (t : Token) :
    (endingIn? key? t).toList.map lastToken = if t.kind.endsBlock then [t] else [] := by
  cases hkind : t.kind with
  | quoted => cases key? <;> simp [endingIn?, hkind, lastToken, Kind.endsBlock]
  | word => simp [endingIn?, hkind, lastToken, Kind.endsBlock]
  | whitespace | not | and | or | lparen | rparen | key =>
      simp [endingIn?, hkind, Kind.endsBlock]

theorem map_lastToken_rowFrom (key? : Option Token) (ts : List Token) :
    (rowFrom key? ts).map lastToken = ts.filter fun t => t.kind.endsBlock := by
  induction ts generalizing key? with
  | nil => rfl
  | cons t ts ih =>
      rw [rowFrom, List.map_append, map_lastToken_endingIn?, ih, List.filter_cons]
      split <;> rfl

theorem blockType_endingIn? (last : Option Token) (t : Token) :
    (∀ b ∈ endingIn? (last.filter fun key => key.kind == .key) t, b.blockType = .keyValue) ↔
      (t.kind.endsBlock = true → t.kind = .quoted ∧ ∃ key ∈ last, key.kind = .key) := by
  cases hkind : t.kind with
  | quoted =>
      cases last with
      | none => simp [endingIn?, hkind, Kind.endsBlock, blockType]
      | some key =>
          by_cases hkey : key.kind = .key <;>
            simp [endingIn?, hkind, Kind.endsBlock, blockType, hkey, Option.filter]
  | word => simp [endingIn?, hkind, Kind.endsBlock, blockType]
  | whitespace | not | and | or | lparen | rparen | key =>
      simp [endingIn?, hkind, Kind.endsBlock]

end Block

/-- Whether each word and each phrase among tokens is a phrase directly behind a key. -/
def AllKeyed (ts : List Token) : Prop :=
  ∀ before t after, ts = before ++ t :: after → t.kind.endsBlock = true →
    t.kind = .quoted ∧ ∃ key ∈ before.getLast?, key.kind = .key

/-- What holds of the members of a list, with those before them, holds of the first and of
the others. -/
theorem forall_split_cons {α : Type} {x : α} {xs : List α} {p : List α → α → Prop} :
    (∀ before y after, x :: xs = before ++ y :: after → p before y) ↔
      p [] x ∧ ∀ before y after, xs = before ++ y :: after → p (x :: before) y := by
  constructor
  · intro h
    exact ⟨h [] x xs rfl, fun before y after hxs =>
      h (x :: before) y after (by rw [hxs]; rfl)⟩
  · rintro ⟨hfirst, hrest⟩ before y after hxs
    cases before with
    | nil =>
        obtain ⟨rfl, -⟩ := List.cons_eq_cons.1 hxs
        exact hfirst
    | cons z before =>
        obtain ⟨rfl, hbehind⟩ := List.cons_eq_cons.1 hxs
        exact hrest before y after hbehind

namespace Block

/-- The blocks of tokens in a row, with one token more before them, are all of keys and
values if each word and phrase is a phrase directly behind a key. -/
theorem blockType_rowFrom (last : Option Token) (ts : List Token) :
    (∀ b ∈ rowFrom (last.filter fun key => key.kind == .key) ts, b.blockType = .keyValue) ↔
      ∀ before t after, ts = before ++ t :: after → t.kind.endsBlock = true →
        t.kind = .quoted ∧ ∃ key ∈ (last.toList ++ before).getLast?, key.kind = .key := by
  induction ts generalizing last with
  | nil => simp [rowFrom]
  | cons t ts ih =>
      have hkey : (if t.kind = .key then some t else none) =
          (some t).filter fun key => key.kind == .key := by
        by_cases h : t.kind = .key <;> simp [h, Option.filter]
      have hlast : ∀ before, (last.toList ++ t :: before).getLast? =
          ((some t).toList ++ before).getLast? := fun before => by
        rw [List.getLast?_append_of_ne_nil _ (List.cons_ne_nil t before)]
        rfl
      have hfirst : (last.toList ++ []).getLast? = last := by cases last <;> rfl
      rw [rowFrom, hkey, List.forall_mem_append, ih, forall_split_cons, hfirst,
        ← blockType_endingIn? last t]
      simp only [hlast, Option.mem_toList, Option.mem_def]

theorem blockType_row (ts : List Token) :
    (∀ b ∈ row ts, b.blockType = .keyValue) ↔ AllKeyed ts :=
  blockType_rowFrom none ts

end Block

theorem Block.exists_key_iff {b : Block} (hkind : b.WellKinded) :
    (∃ t ∈ b.tokens, t.kind = .key) ↔ b.blockType = .keyValue := by
  cases b with
  | quoted token | word token =>
      simp [tokens, blockType, show token.kind = _ from hkind]
  | keyValue key value => simp [tokens, blockType, hkind.1]

mutual

theorem Operand.exists_key_iff (operand : Operand) (hkind : operand.WellKinded) :
    (∃ t ∈ operand.tokens, t.kind = .key) ↔
      ∃ b ∈ operand.blocks, b.blockType = .keyValue := by
  cases operand with
  | block b => simpa [Operand.tokens] using b.exists_key_iff hkind
  | negated not operand =>
      rw [Operand.blocks_negated, ← operand.exists_key_iff hkind.2]
      simp [Operand.tokens, hkind.1]
  | group lparen tree rparen =>
      obtain ⟨hlparen, htree, hrparen⟩ := hkind
      rw [Operand.blocks_group, ← tree.exists_key_iff htree]
      simp [Operand.tokens, hlparen, hrparen, or_and_right, exists_or]

theorem Tree.exists_key_iff (tree : Tree) (hkind : tree.WellKinded) :
    (∃ t ∈ tree.tokens, t.kind = .key) ↔ ∃ b ∈ tree.blocks, b.blockType = .keyValue := by
  cases tree with
  | single operand => exact operand.exists_key_iff hkind
  | join left op token right =>
      obtain ⟨hleft, hop, hright⟩ := hkind
      have hoperator : token.kind ≠ .key := by
        rw [hop]
        cases op <;> decide
      simp only [Tree.tokens, Tree.blocks_join, List.mem_append, List.mem_cons, or_and_right,
        exists_or, exists_eq_left, left.exists_key_iff hleft, right.exists_key_iff hright]
      simp [hoperator]

end

theorem BlockType.ne_keyValue_iff {blockType : BlockType} :
    blockType ≠ .keyValue ↔ blockType = .bare := by
  cases blockType <;> decide

/-- The blocks of a tree are of one type exactly if its tokens have no key or use each word
and phrase as the value of one. -/
theorem Tree.uniform_iff {tree : Tree} (hkind : tree.WellKinded) :
    tree.Uniform ↔ (∀ t ∈ tree.tokens, t.kind ≠ .key) ∨ AllKeyed tree.tokens := by
  have hkeys := tree.exists_key_iff hkind
  have hnone : (∀ t ∈ tree.tokens, t.kind ≠ .key) ↔
      ∀ b ∈ tree.blocks, b.blockType = .bare := by
    rw [← not_iff_not]
    simpa [← BlockType.ne_keyValue_iff] using hkeys
  rw [hnone, ← Block.blockType_row, row_tokens hkind]
  constructor
  · intro huniform
    cases htype : tree.firstBlock.blockType with
    | bare => exact .inl fun b hb => (huniform b hb).trans htype
    | keyValue => exact .inr fun b hb => (huniform b hb).trans htype
  · have hfirst := List.mem_of_mem_head? tree.head?_blocks
    rintro (hall | hall) b hb
    · rw [hall b hb, hall _ hfirst]
    · rw [hall b hb, hall _ hfirst]

theorem Tree.eq_of_checkUniform {tree : Tree} {u : UniformTree}
    (h : tree.checkUniform = .ok u) :
    u.tree = tree ∧ u.blockType = tree.firstBlock.blockType := by
  simp only [checkUniform] at h
  split at h
  · cases h
  · injection h with h
    subst h
    exact ⟨rfl, rfl⟩

theorem Tree.exists_checkUniform_iff {tree : Tree} :
    (∃ u, tree.checkUniform = .ok u) ↔ tree.Uniform := by
  constructor
  · rintro ⟨u, hu⟩
    exact (uniform_of_checkUniform hu).1
  · intro huniform
    obtain ⟨u, hu, -⟩ := tree.checkUniform_eq huniform
    exact ⟨u, hu⟩

/-- A tree that is not uniform is refused, and the first block that differs is to blame. -/
theorem Tree.exists_conflict {tree : Tree} (h : ¬ tree.Uniform) :
    ∃ e before b after, tree.checkUniform = .error e ∧ tree.blocks = before ++ b :: after ∧
      (tree.blocks.head?.map fun b => b.blockType) = some e.first ∧
      (∀ b' ∈ before, b'.blockType = e.first) ∧ b.blockType = e.conflicting ∧
      e.conflicting ≠ e.first ∧ e.span = b.span := by
  cases hcheck : tree.checkUniform with
  | ok u => exact absurd (exists_checkUniform_iff.1 ⟨u, hcheck⟩) h
  | error e =>
      obtain ⟨n, hfirst, hbefore, ⟨b, hb, hconflicting, hspan⟩, hconflict⟩ :=
        checkUniform_eq_error_iff.1 hcheck
      obtain ⟨hn, rfl⟩ := List.getElem?_eq_some_iff.1 hb
      refine ⟨e, tree.blocks.take n, tree.blocks[n], tree.blocks.drop (n + 1), rfl, ?_, ?_,
        hbefore, hconflicting.symm, hconflict, hspan⟩
      · rw [List.getElem_cons_drop, List.take_append_drop]
      · rw [tree.head?_blocks, Option.map_some, hfirst]

/-- The check for one block type, by the tokens. The blocks of a tree are those of its
tokens, one for each word and phrase. They are accepted if there is no key or every word and
phrase is a phrase directly behind one, and the tree is kept with the type that the tokens
show. Otherwise the first block that is not of the type of the first one is to blame. -/
theorem Tree.checkUniform_by_tokens {s : TokenStream} {tree : Tree}
    (h : Tree.ofStream s = .ok tree) :
    (tree.blocks ≠ [] ∧ tree.blocks = Block.row s.tokens ∧
      tree.blocks.map Block.lastToken = s.tokens.filter fun t => t.kind.endsBlock) ∧
    ((∃ u, tree.checkUniform = .ok u) ↔
      (∀ t ∈ s.tokens, t.kind ≠ .key) ∨ AllKeyed s.tokens) ∧
    (∀ u, tree.checkUniform = .ok u → u.tree = tree ∧
      (u.blockType = .keyValue ↔ ∃ t ∈ s.tokens, t.kind = .key)) ∧
    (¬ ((∀ t ∈ s.tokens, t.kind ≠ .key) ∨ AllKeyed s.tokens) →
      ∃ e before b after, tree.checkUniform = .error e ∧ tree.blocks = before ++ b :: after ∧
        (tree.blocks.head?.map fun b => b.blockType) = some e.first ∧
        (∀ b' ∈ before, b'.blockType = e.first) ∧ b.blockType = e.conflicting ∧
        e.conflicting ≠ e.first ∧ e.span = b.span) := by
  obtain ⟨⟨hkind, -⟩, htokens⟩ := fits_of_ofStream h
  rw [← htokens]
  have hrow := row_tokens hkind
  have hfirst := List.mem_of_mem_head? tree.head?_blocks
  refine ⟨⟨List.ne_nil_of_mem hfirst, hrow.symm, ?_⟩, ?_, fun u hu => ?_, fun hmixed => ?_⟩
  · rw [← hrow]
    exact Block.map_lastToken_rowFrom none tree.tokens
  · rw [exists_checkUniform_iff, uniform_iff hkind]
  · obtain ⟨htree, htype⟩ := eq_of_checkUniform hu
    obtain ⟨huniform, -⟩ := uniform_of_checkUniform hu
    refine ⟨htree, ?_⟩
    rw [htype, tree.exists_key_iff hkind]
    constructor
    · exact fun hkeyed => ⟨_, hfirst, hkeyed⟩
    · rintro ⟨b, hb, hkeyed⟩
      rw [← huniform b hb, hkeyed]
  · exact exists_conflict (mt (uniform_iff hkind).1 hmixed)

/-- A phrase inside of a negated group that has no key, behind a phrase that has one. -/
theorem Tree.checkUniform_by_tokens_negated :
    let key : Token := ⟨.key, "K=", ⟨0, 2⟩⟩
    let value : Token := ⟨.quoted, "'v'", ⟨2, 5⟩⟩
    let or : Token := ⟨.or, "OR", ⟨6, 8⟩⟩
    let not : Token := ⟨.not, "NOT", ⟨9, 12⟩⟩
    let lparen : Token := ⟨.lparen, "(", ⟨12, 13⟩⟩
    let phrase : Token := ⟨.quoted, "'b'", ⟨13, 16⟩⟩
    let rparen : Token := ⟨.rparen, ")", ⟨16, 17⟩⟩
    let s : TokenStream := ⟨[key, value, or, not, lparen, phrase, rparen], [], 17⟩
    let tree : Tree := .join (.single (.block (.keyValue key value))) .or or
      (.negated not (.group lparen (.single (.block (.quoted phrase))) rparen))
    Tree.ofStream s = .ok tree ∧ tree.blocks = Block.row s.tokens ∧
      ∃ e before b after, tree.checkUniform = .error e ∧ tree.blocks = before ++ b :: after ∧
        (tree.blocks.head?.map fun b => b.blockType) = some e.first ∧
        (∀ b' ∈ before, b'.blockType = e.first) ∧ b.blockType = e.conflicting ∧
        e.conflicting ≠ e.first ∧ e.span = b.span := by
  intro key value or not lparen phrase rparen s tree
  have htree : Tree.ofStream s = .ok tree := eq_ok_of_toOption (by decide +kernel)
  obtain ⟨⟨-, hrow, -⟩, -, -, hconflict⟩ := checkUniform_by_tokens htree
  refine ⟨htree, hrow, hconflict ?_⟩
  rintro (hnone | hkeyed)
  · exact hnone key List.mem_cons_self rfl
  · obtain ⟨-, before, hbefore, hkind⟩ :=
      hkeyed [key, value, or, not, lparen] phrase [rparen] rfl rfl
    obtain rfl : lparen = before := Option.some.inj hbefore
    cases hkind

end BoolQuery
