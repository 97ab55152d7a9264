import BoolQuery.Proofs.ReadGrammar
import BoolQuery.Query

/-!
# Reading does not look at places

A reading decides by the kinds of the tokens alone and puts the tokens themselves
into the tree. So exchanging every token for another of the same kind and reading
afterwards gives what reading and exchanging gives: `take_mapTokens` for one token,
`run_mapTokens` for all.

Taking the places out of all tokens is one such exchange, and it does not change
the expression. Two streams whose tokens agree but for their places therefore have
the same expression or none (`compile_congr`): both are compared with the one that
has no places.
-/

namespace BoolQuery

/-- A block with its tokens exchanged. -/
def Block.mapTokens (f : Token → Token) : Block → Block
  | .quoted token => .quoted (f token)
  | .word token => .word (f token)
  | .keyValue key value => .keyValue (f key) (f value)

mutual

def Operand.mapTokens (f : Token → Token) : Operand → Operand
  | .block b => .block (b.mapTokens f)
  | .negated not operand => .negated (f not) (operand.mapTokens f)
  | .group lparen tree rparen => .group (f lparen) (tree.mapTokens f) (f rparen)

def Tree.mapTokens (f : Token → Token) : Tree → Tree
  | .single operand => .single (operand.mapTokens f)
  | .join left op token right => .join (left.mapTokens f) op (f token) (right.mapTokens f)

end

namespace Tree

namespace Slot

def mapTokens (f : Token → Token) (slot : Slot) : Slot :=
  ⟨slot.joined.map fun j => (j.1.mapTokens f, j.2.1, f j.2.2), slot.nots.map f⟩

theorem fill_mapTokens (f : Token → Token) (slot : Slot) (operand : Operand) :
    (slot.mapTokens f).fill (operand.mapTokens f) = (slot.fill operand).mapTokens f := by
  obtain ⟨joined, nots⟩ := slot
  induction nots generalizing operand with
  | nil => cases joined <;> rfl
  | cons t nots ih =>
      rw [fill_not, ← ih]
      simp only [mapTokens, List.map_cons, fill_not, Operand.mapTokens]

end Slot

def OpenGroup.mapTokens (f : Token → Token) (g : OpenGroup) : OpenGroup :=
  ⟨g.slot.mapTokens f, f g.lparen⟩

def Progress.mapTokens (f : Token → Token) : Progress → Progress
  | .operandDue slot groups =>
      .operandDue (slot.mapTokens f) (groups.map (OpenGroup.mapTokens f))
  | .valueDue key slot groups =>
      .valueDue (f key) (slot.mapTokens f) (groups.map (OpenGroup.mapTokens f))
  | .operandDone tree groups =>
      .operandDone (tree.mapTokens f) (groups.map (OpenGroup.mapTokens f))

def Move.mapTokens (f : Token → Token) : Move → Move
  | .onward next => .onward (next.mapTokens f)
  | .stop result => .stop (result.map (Tree.mapTokens f))

def Ending.mapTokens (f : Token → Token) (ending : Ending) : Ending :=
  ⟨ending.result.map (Tree.mapTokens f), ending.depth, ending.rest.map f⟩

namespace Progress

theorem depthOfGroups_mapTokens (f : Token → Token) (groups : List OpenGroup) :
    depthOfGroups (groups.map (OpenGroup.mapTokens f)) = depthOfGroups groups := by
  induction groups with
  | nil => rfl
  | cons g groups ih =>
      simp [ih, OpenGroup.mapTokens, Slot.mapTokens]

theorem depth_mapTokens (f : Token → Token) (p : Progress) :
    (p.mapTokens f).depth = p.depth := by
  cases p <;> simp [mapTokens, depthOfGroups_mapTokens, Slot.mapTokens]

theorem halt_mapTokens (f : Token → Token) (p : Progress) :
    (p.mapTokens f).halt = p.halt.map (Tree.mapTokens f) := by
  cases p with
  | operandDue | valueDue => rfl
  | operandDone tree groups => cases groups <;> rfl

variable {f : Token → Token}

/-- One token, exchanged for another of its kind, does the same. -/
theorem take_mapTokens (hf : ∀ t, (f t).kind = t.kind) (outside : Nat) (p : Progress)
    (t : Token) :
    (p.mapTokens f).take outside (f t) = (p.take outside t).mapTokens f := by
  have hdepth := depth_mapTokens f p
  have hhalt := halt_mapTokens f p
  cases p with
  | operandDue slot groups =>
      simp only [mapTokens] at hdepth hhalt
      simp only [take, mapTokens, hf, hdepth, hhalt]
      cases t.kind with
      | not | lparen =>
          simp only []
          split
          · rfl
          · rfl
      | quoted | word =>
          simp only [Move.mapTokens, mapTokens, ← Slot.fill_mapTokens, Operand.mapTokens,
            Block.mapTokens]
      | key | whitespace | and | or | rparen => rfl
  | valueDue key slot groups =>
      simp only [mapTokens] at hhalt
      simp only [take, mapTokens, hf, hhalt]
      cases t.kind with
      | quoted =>
          simp only [Move.mapTokens, mapTokens, ← Slot.fill_mapTokens, Operand.mapTokens,
            Block.mapTokens]
      | _ => rfl
  | operandDone tree groups =>
      simp only [mapTokens] at hhalt
      simp only [take, mapTokens, hf, hhalt]
      cases groups with
      | nil =>
          cases Connective.ofKind? t.kind <;> rfl
      | cons g groups =>
          cases Connective.ofKind? t.kind with
          | some op => rfl
          | none =>
              simp only [List.map_cons]
              split
              · simp only [Move.mapTokens, mapTokens, ← Slot.fill_mapTokens,
                  Operand.mapTokens, OpenGroup.mapTokens]
              · rfl

/-- Exchanging tokens within their kinds and reading can be done in either order. -/
theorem run_mapTokens (hf : ∀ t, (f t).kind = t.kind) (outside : Nat) (p : Progress)
    (ts : List Token) :
    (p.mapTokens f).run outside (ts.map f) = (p.run outside ts).mapTokens f := by
  induction ts generalizing p with
  | nil =>
      simp only [List.map_nil, run, Ending.mapTokens, halt_mapTokens, depth_mapTokens]
  | cons t ts ih =>
      rw [List.map_cons, run, run, take_mapTokens hf]
      cases p.take outside t with
      | onward next => exact ih next
      | stop result => simp only [Move.mapTokens, Ending.mapTokens, depth_mapTokens,
          List.map_cons]

end Progress

/-- A whole query has a tree exactly if the reading takes all of it. -/
theorem ofStream_eq_ok_iff_run {s : TokenStream} {tree : Tree} :
    ofStream s = .ok tree ↔ Progress.start.run 0 s.tokens = ⟨.ok tree, 0, []⟩ := by
  constructor
  · intro h
    have hrun := Progress.run_of_reached (reached_of_ofStream h) []
    rwa [List.append_nil] at hrun
  · intro h
    simp only [ofStream, Cursor.readAll, Cursor.readTree, Cursor.ofStream, h]
    rfl

/-- Exchanging the tokens of a query exchanges those of its tree. -/
theorem ofStream_mapTokens {f : Token → Token} (hf : ∀ t, (f t).kind = t.kind)
    {s c : TokenStream} {tree : Tree} (htokens : s.tokens.map f = c.tokens)
    (h : ofStream s = .ok tree) : ofStream c = .ok (tree.mapTokens f) := by
  have hrun := Progress.run_mapTokens hf 0 .start s.tokens
  rw [ofStream_eq_ok_iff_run.1 h, htokens] at hrun
  exact ofStream_eq_ok_iff_run.2 hrun

/-- If a query has a tree with its tokens exchanged, it had one before. -/
theorem ofStream_of_mapTokens {f : Token → Token} (hf : ∀ t, (f t).kind = t.kind)
    {s c : TokenStream} {tree : Tree} (htokens : s.tokens.map f = c.tokens)
    (h : ofStream c = .ok tree) :
    ∃ before, ofStream s = .ok before ∧ before.mapTokens f = tree := by
  have hrun := Progress.run_mapTokens hf 0 .start s.tokens
  have hmapped : Progress.start.run 0 (s.tokens.map f) = ⟨.ok tree, 0, []⟩ :=
    htokens ▸ ofStream_eq_ok_iff_run.1 h
  rw [show Progress.start.mapTokens f = Progress.start from rfl, hmapped] at hrun
  cases hend : Progress.start.run 0 s.tokens with
  | mk result depth rest =>
      rw [hend] at hrun
      simp only [Ending.mapTokens, Ending.mk.injEq] at hrun
      obtain ⟨hresult, rfl, hrest⟩ := hrun
      obtain rfl : rest = [] := List.map_eq_nil_iff.1 hrest.symm
      cases result with
      | error complaint => simp [Except.map] at hresult
      | ok before =>
          injection hresult with hresult
          exact ⟨before, ofStream_eq_ok_iff_run.2 hend, hresult.symm⟩

end Tree

/-! ## Tokens without their places -/

/-- A kind and a text, which is what a token is apart from its place. -/
abbrev Piece := Kind × String

def Token.piece (t : Token) : Piece := (t.kind, t.text)

def Token.unplaced (t : Token) : Token := ⟨t.kind, t.text, .point 0⟩

theorem Token.map_unplaced_of_map_piece {ts us : List Token}
    (h : ts.map Token.piece = us.map Token.piece) :
    ts.map Token.unplaced = us.map Token.unplaced := by
  have hmap : ∀ l : List Token, l.map Token.unplaced =
      (l.map Token.piece).map fun p => ⟨p.1, p.2, .point 0⟩ := by
    intro l
    rw [List.map_map]
    rfl
  rw [hmap ts, hmap us, h]

section Uniform

variable {f : Token → Token}

mutual

theorem Operand.blocks_mapTokens (operand : Operand) :
    (operand.mapTokens f).blocks = operand.blocks.map (Block.mapTokens f) := by
  cases operand with
  | block b => rfl
  | negated not operand => exact operand.blocks_mapTokens
  | group lparen tree rparen => exact tree.blocks_mapTokens

theorem Tree.blocks_mapTokens (tree : Tree) :
    (tree.mapTokens f).blocks = tree.blocks.map (Block.mapTokens f) := by
  cases tree with
  | single operand => exact operand.blocks_mapTokens
  | join left op token right =>
      rw [Tree.mapTokens, Tree.blocks_join, Tree.blocks_join, List.map_append,
        left.blocks_mapTokens, right.blocks_mapTokens]

end

theorem Tree.firstBlock_mapTokens (tree : Tree) :
    (tree.mapTokens f).firstBlock = tree.firstBlock.mapTokens f := by
  have hhead := (tree.mapTokens f).head?_blocks
  rw [tree.blocks_mapTokens, List.head?_map, tree.head?_blocks, Option.map_some] at hhead
  injection hhead with hhead
  exact hhead.symm

theorem Block.blockType_mapTokens (b : Block) :
    (b.mapTokens f).blockType = b.blockType := by
  cases b <;> rfl

/-- Whether all blocks of a tree are of one type. -/
def Tree.Uniform (tree : Tree) : Prop :=
  ∀ b ∈ tree.blocks, b.blockType = tree.firstBlock.blockType

theorem Tree.uniform_mapTokens (tree : Tree) :
    (tree.mapTokens f).Uniform ↔ tree.Uniform := by
  simp only [Uniform, tree.blocks_mapTokens, tree.firstBlock_mapTokens,
    Block.blockType_mapTokens, List.mem_map, forall_exists_index, and_imp,
    forall_apply_eq_imp_iff₂]

theorem Block.toExpr_mapTokens (hf : ∀ t, (f t).text = t.text) (b : Block) :
    (b.mapTokens f).toExpr = b.toExpr := by
  cases b <;> simp only [Block.mapTokens, Block.toExpr, hf]

mutual

theorem Operand.toExpr_mapTokens (hf : ∀ t, (f t).text = t.text) (operand : Operand) :
    (operand.mapTokens f).toExpr = operand.toExpr := by
  cases operand with
  | block b => exact b.toExpr_mapTokens hf
  | negated not operand =>
      rw [Operand.mapTokens, Operand.toExpr, Operand.toExpr, operand.toExpr_mapTokens hf]
  | group lparen tree rparen =>
      rw [Operand.mapTokens, Operand.toExpr, Operand.toExpr, tree.toExpr_mapTokens hf]

theorem Tree.toExpr_mapTokens (hf : ∀ t, (f t).text = t.text) (tree : Tree) :
    (tree.mapTokens f).toExpr = tree.toExpr := by
  cases tree with
  | single operand => exact operand.toExpr_mapTokens hf
  | join left op token right =>
      rw [Tree.mapTokens, Tree.toExpr, Tree.toExpr, left.toExpr_mapTokens hf,
        right.toExpr_mapTokens hf]

end

end Uniform

/-! ## Expressions of queries -/

theorem Tree.checkUniform_eq (tree : Tree) (h : tree.Uniform) :
    ∃ u, tree.checkUniform = .ok u ∧ u.toExpr = tree.toExpr := by
  simp only [checkUniform]
  split
  · rename_i b hb
    have hmem := List.mem_of_find?_eq_some hb
    have hdiff := List.find?_some hb
    simp [h b hmem] at hdiff
  · exact ⟨_, rfl, rfl⟩

theorem Tree.uniform_of_checkUniform {tree : Tree} {u : UniformTree}
    (h : tree.checkUniform = .ok u) : tree.Uniform ∧ u.toExpr = tree.toExpr := by
  simp only [checkUniform] at h
  split at h
  · simp at h
  · rename_i hnone
    injection h with h
    subst h
    exact ⟨by simpa [Uniform] using hnone, rfl⟩

theorem compile_of_error {s : TokenStream} {err : SyntaxError}
    (h : Tree.ofStream s = .error err) : compile s = .error (.syntactic err) := by
  rw [compile, h]
  rfl

theorem compile_of_tree {s : TokenStream} {tree : Tree} (h : Tree.ofStream s = .ok tree) :
    compile s = do
      let uniform ← tree.checkUniform.mapError .mixed
      return uniform.toExpr := by
  rw [compile, h]
  rfl

/-- A query cut into tokens has an expression exactly if it has a tree whose blocks
are of one type, and it is that of the tree. -/
theorem compile_eq_ok_iff {s : TokenStream} {e : Expr} :
    compile s = .ok e ↔ ∃ tree, Tree.ofStream s = .ok tree ∧ tree.Uniform ∧
      tree.toExpr = e := by
  constructor
  · intro h
    cases htree : Tree.ofStream s with
    | error err =>
        rw [compile_of_error htree] at h
        exact absurd h (by simp)
    | ok tree =>
        rw [compile_of_tree htree] at h
        cases hu : tree.checkUniform with
        | error err =>
            rw [hu] at h
            cases h
        | ok u =>
            obtain ⟨huniform, hexpr⟩ := Tree.uniform_of_checkUniform hu
            rw [hu] at h
            injection h with h
            exact ⟨tree, rfl, huniform, hexpr.symm.trans h⟩
  · rintro ⟨tree, htree, huniform, rfl⟩
    obtain ⟨u, hu, hexpr⟩ := tree.checkUniform_eq huniform
    rw [compile_of_tree htree, hu, ← hexpr]
    rfl

theorem parse_of_ofQuery {query : String} {s : TokenStream}
    (h : TokenStream.ofQuery query = .ok s) : parse query = compile s := by
  rw [parse, h]
  rfl

theorem parse_eq_ok_iff {query : String} {e : Expr} :
    parse query = .ok e ↔ ∃ s, TokenStream.ofQuery query = .ok s ∧ compile s = .ok e := by
  rw [parse]
  cases TokenStream.ofQuery query with
  | error err =>
      constructor
      · intro h
        cases h
      · rintro ⟨s, hs, -⟩
        cases hs
  | ok s =>
      constructor
      · intro h
        exact ⟨s, rfl, h⟩
      · rintro ⟨_, hs, h⟩
        injection hs with hs
        rw [hs]
        exact h

/-- The expression of a query is that of a tree of the grammar, of one block type, which
is written in the tokens of the query. -/
theorem parse_eq_ok_iff_tree {query : String} {e : Expr} :
    parse query = .ok e ↔ ∃ (s : TokenStream) (tree : Tree),
      TokenStream.ofQuery query = .ok s ∧ tree.Fits 0 ∧ tree.tokens = s.tokens ∧
        tree.Uniform ∧ tree.toExpr = e := by
  constructor
  · intro h
    obtain ⟨s, hs, hcompile⟩ := parse_eq_ok_iff.1 h
    obtain ⟨tree, htree, huniform, hexpr⟩ := compile_eq_ok_iff.1 hcompile
    obtain ⟨hfits, htokens⟩ := Tree.fits_of_ofStream htree
    exact ⟨s, tree, hs, hfits, htokens, huniform, hexpr⟩
  · rintro ⟨s, tree, hs, hfits, htokens, huniform, hexpr⟩
    have htree := Tree.ofStream_of_fits hfits htokens
    exact parse_eq_ok_iff.2 ⟨s, hs, compile_eq_ok_iff.2 ⟨tree, htree, huniform, hexpr⟩⟩

/-- Queries whose tokens have the same kinds and texts have the same tree but for the
places of its tokens. -/
theorem Tree.ofStream_congr {s c : TokenStream} {tree : Tree}
    (hpieces : c.tokens.map Token.piece = s.tokens.map Token.piece)
    (h : ofStream s = .ok tree) :
    ∃ other, ofStream c = .ok other ∧
      other.mapTokens Token.unplaced = tree.mapTokens Token.unplaced := by
  have hkind : ∀ t : Token, t.unplaced.kind = t.kind := fun _ => rfl
  let unplaced : TokenStream := ⟨s.tokens.map Token.unplaced, [], 0⟩
  have hunplaced : ofStream unplaced = .ok (tree.mapTokens Token.unplaced) :=
    ofStream_mapTokens hkind rfl h
  exact ofStream_of_mapTokens hkind (Token.map_unplaced_of_map_piece hpieces) hunplaced

/-- The expression of a tree is not a matter of the places of its tokens. -/
theorem Tree.toExpr_congr {tree other : Tree}
    (h : other.mapTokens Token.unplaced = tree.mapTokens Token.unplaced) :
    other.toExpr = tree.toExpr := by
  have htext : ∀ t : Token, t.unplaced.text = t.text := fun _ => rfl
  rw [← toExpr_mapTokens htext other, h, toExpr_mapTokens htext tree]

/-- Only the kinds and the texts of the tokens count for the expression. -/
theorem compile_congr {s c : TokenStream} {e : Expr}
    (hpieces : c.tokens.map Token.piece = s.tokens.map Token.piece) (h : compile s = .ok e) :
    compile c = .ok e := by
  obtain ⟨tree, htree, huniform, rfl⟩ := compile_eq_ok_iff.1 h
  obtain ⟨other, hother, hsame⟩ := Tree.ofStream_congr hpieces htree
  refine compile_eq_ok_iff.2 ⟨other, hother, ?_, Tree.toExpr_congr hsame⟩
  rwa [← other.uniform_mapTokens (f := Token.unplaced), hsame, tree.uniform_mapTokens]

end BoolQuery
