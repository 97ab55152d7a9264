import BoolQuery.Proofs.Expressible
import BoolQuery.Proofs.Uniformity

/-!
# What becomes of the tokens

Each token of a query but the keys and the closing parentheses makes one node of its
expression: a word or a phrase makes a term, a NOT a negation, an opening parenthesis a
group and a connective a joining. If the nodes are listed from left to right, a joining
between its two sides, they come in the order of these tokens (`Tree.map_form_toExpr`),
and so whatever is counted among the nodes can be counted among the tokens.

Two further things are not a matter of single tokens. A group needs a closing parenthesis
as well, so there are as many of both. And a node has the type of its leftmost term only,
but where all terms are of one type this makes no difference.
-/

namespace BoolQuery

/-- What a node of an expression is, its parts apart. -/
inductive Form where
  | term
  | negation
  | group
  | joining (op : Connective)
deriving DecidableEq, Repr

/-- The form of the node that a token of a kind makes, if it makes one. -/
def Kind.form? : Kind → Option Form
  | word | quoted => some .term
  | not => some .negation
  | lparen => some .group
  | and => some (.joining .and)
  | or => some (.joining .or)
  | whitespace | key | rparen => none

theorem Connective.form?_kind (op : Connective) : op.kind.form? = some (.joining op) := by
  cases op <;> rfl

namespace Expr

/-- What an expression is at its top. -/
def form : Expr → Form
  | leaf _ _ => .term
  | not _ => .negation
  | group _ => .group
  | binary op _ _ => .joining op

def isNot : Expr → Bool
  | not _ => true
  | _ => false

def isGroup : Expr → Bool
  | group _ => true
  | _ => false

/-- An expression and all that it is made of, from left to right: a negation or a group
stands before what is inside of it, and a joining between its sides. -/
def nodes : Expr → List Expr
  | leaf text blockType => [leaf text blockType]
  | not child => not child :: child.nodes
  | group child => group child :: child.nodes
  | binary op left right => left.nodes ++ binary op left right :: right.nodes

/-! ## Terms and their types -/

theorem countLeaves_eq (counted : Nat) (pending : List Expr) :
    countLeaves counted pending = pending.foldl (fun n e => n + e.leaves) counted := by
  fun_induction countLeaves counted pending with
  | case1 counted => rfl
  | case2 counted text blockType rest ih => exact ih
  | case3 counted child rest ih => exact ih
  | case4 counted child rest ih => exact ih
  | case5 counted op left right rest ih =>
      -- The right side is visited first.
      rw [ih, List.foldl_cons, List.foldl_cons, List.foldl_cons, leaves, Nat.add_assoc,
        Nat.add_comm right.leaves]

/-- Counting terms with a list of what is left to visit comes to the same as recursion. -/
theorem leafCount_eq (e : Expr) : e.leafCount = e.leaves := by
  rw [leafCount, countLeaves_eq, List.foldl_cons, List.foldl_nil, Nat.zero_add]

theorem leaves_eq_countP (e : Expr) :
    e.leaves = e.nodes.countP fun n => n.form == .term := by
  induction e with
  | leaf text blockType => rfl
  | not child ih => simpa [leaves, nodes, form] using ih
  | group child ih => simpa [leaves, nodes, form] using ih
  | binary op left right ihl ihr =>
      simp [leaves, nodes, form, ihl, ihr]

theorem exists_blockType_mem_terms (e : Expr) : ∃ t ∈ e.terms, t.2 = e.blockType := by
  induction e with
  | leaf text blockType => exact ⟨_, List.mem_singleton_self _, rfl⟩
  | not child ih => exact ih
  | group child ih => exact ih
  | binary op left right ihl _ =>
      obtain ⟨t, ht, htype⟩ := ihl
      exact ⟨t, List.mem_append_left _ ht, htype⟩

theorem terms_subset_of_mem_nodes {e n : Expr} (h : n ∈ e.nodes) : n.terms ⊆ e.terms := by
  induction e with
  | leaf text blockType =>
      obtain rfl := List.mem_singleton.1 h
      exact List.Subset.refl _
  | not child ih | group child ih =>
      rcases List.mem_cons.1 h with rfl | hchild
      · exact List.Subset.refl _
      · exact ih hchild
  | binary op left right ihl ihr =>
      rcases List.mem_append.1 h with hleft | hright
      · exact List.subset_append_of_subset_left _ (ihl hleft)
      · rcases List.mem_cons.1 hright with rfl | hright
        · exact List.Subset.refl _
        · exact List.subset_append_of_subset_right _ (ihr hright)

theorem blockType_of_mem_nodes {e n : Expr} {blockType : BlockType}
    (h : ∀ t ∈ e.terms, t.2 = blockType) (hn : n ∈ e.nodes) : n.blockType = blockType := by
  obtain ⟨t, ht, htype⟩ := n.exists_blockType_mem_terms
  rw [← htype]
  exact h t (terms_subset_of_mem_nodes hn ht)

end Expr

/-! ## One node for each token -/

/-- The text of a block as a term: a key and its value without what stood between them. -/
def Block.text : Block → String
  | quoted token | word token => token.text
  | keyValue key value => key.text ++ value.text

theorem Block.terms_toExpr (b : Block) : b.toExpr.terms = [(b.text, b.blockType)] := by
  cases b <;> rfl

theorem Tree.terms_toExpr_eq_map (tree : Tree) :
    tree.toExpr.terms = tree.blocks.map fun b => (b.text, b.blockType) := by
  rw [tree.terms_toExpr, List.map_eq_flatMap]
  simp only [Block.terms_toExpr]

theorem Block.map_form_toExpr {b : Block} (hkind : b.WellKinded) :
    b.toExpr.nodes.map Expr.form = b.tokens.filterMap fun t => t.kind.form? := by
  cases b with
  | quoted token | word token =>
      simp [toExpr, Expr.nodes, Expr.form, tokens, show token.kind = _ from hkind,
        Kind.form?]
  | keyValue key value =>
      simp [toExpr, Expr.nodes, Expr.form, tokens, hkind.1, hkind.2, Kind.form?]

mutual

theorem Operand.map_form_toExpr (operand : Operand) (hkind : operand.WellKinded) :
    operand.toExpr.nodes.map Expr.form =
      operand.tokens.filterMap fun t => t.kind.form? := by
  cases operand with
  | block b => exact Block.map_form_toExpr hkind
  | negated not operand =>
      obtain ⟨hnot, hoperand⟩ := hkind
      simp [Operand.toExpr, Expr.nodes, operand.map_form_toExpr hoperand, Operand.tokens,
        Expr.form, hnot, Kind.form?]
  | group lparen tree rparen =>
      obtain ⟨hlparen, htree, hrparen⟩ := hkind
      simp [Operand.toExpr, Expr.nodes, tree.map_form_toExpr htree, Operand.tokens,
        Expr.form, hlparen, hrparen, Kind.form?]

/-- The nodes of the expression of a tree are what its tokens make, in their order. -/
theorem Tree.map_form_toExpr (tree : Tree) (hkind : tree.WellKinded) :
    tree.toExpr.nodes.map Expr.form = tree.tokens.filterMap fun t => t.kind.form? := by
  cases tree with
  | single operand => exact operand.map_form_toExpr hkind
  | join left op token right =>
      obtain ⟨hleft, hop, hright⟩ := hkind
      simp [Tree.toExpr, Expr.nodes, left.map_form_toExpr hleft,
        right.map_form_toExpr hright, Tree.tokens, Expr.form, hop, op.form?_kind]

end

/-- Nodes of some forms are as many as the tokens that make nodes of these forms. -/
theorem Tree.countP_nodes {tree : Tree} (hkind : tree.WellKinded) {r : Form → Bool}
    (p : Expr → Bool) (q : Kind → Bool) (hp : ∀ n, p n = r n.form)
    (hq : ∀ kind, q kind = (kind.form?.map r).getD false) :
    tree.toExpr.nodes.countP p = tree.tokens.countP fun t => q t.kind := by
  have hcount := congrArg (List.countP r) (tree.map_form_toExpr hkind)
  rw [List.countP_map, List.countP_filterMap] at hcount
  rw [funext hp, funext fun t : Token => hq t.kind]
  exact hcount

/-! ## Parentheses -/

theorem Block.countP_parens {b : Block} (hkind : b.WellKinded) :
    b.tokens.countP (fun t => t.kind == .lparen) =
      b.tokens.countP (fun t => t.kind == .rparen) := by
  cases b with
  | quoted token | word token => simp [tokens, show token.kind = _ from hkind]
  | keyValue key value => simp [tokens, hkind.1, hkind.2]

mutual

theorem Operand.countP_parens (operand : Operand) (hkind : operand.WellKinded) :
    operand.tokens.countP (fun t => t.kind == .lparen) =
      operand.tokens.countP (fun t => t.kind == .rparen) := by
  cases operand with
  | block b => exact Block.countP_parens hkind
  | negated not operand =>
      simp [Operand.tokens, hkind.1, operand.countP_parens hkind.2]
  | group lparen tree rparen =>
      obtain ⟨hlparen, htree, hrparen⟩ := hkind
      simp [Operand.tokens, hlparen, hrparen, tree.countP_parens htree]

theorem Tree.countP_parens (tree : Tree) (hkind : tree.WellKinded) :
    tree.tokens.countP (fun t => t.kind == .lparen) =
      tree.tokens.countP (fun t => t.kind == .rparen) := by
  cases tree with
  | single operand => exact operand.countP_parens hkind
  | join left op token right =>
      obtain ⟨hleft, hop, hright⟩ := hkind
      have hoperator : token.kind ≠ .lparen ∧ token.kind ≠ .rparen := by
        rw [hop]
        cases op <;> decide
      simp [Tree.tokens, hoperator, left.countP_parens hleft, right.countP_parens hright]

end

/-! ## Queries -/

/-- Whether an expression has the type and the terms of a tree, and a node for each token
of a stream that makes one. -/
structure Expr.Mirrors (e : Expr) (s : TokenStream) (u : UniformTree) : Prop where
  blockType : ∀ n ∈ e.nodes, n.blockType = u.blockType
  texts : e.terms.map Prod.fst = u.tree.blocks.map Block.text
  joinings : e.nodes.countP isBinary = s.tokens.countP fun t =>
    t.kind == .and || t.kind == .or
  negations : e.nodes.countP isNot = s.tokens.countP fun t => t.kind == .not
  groups : e.nodes.countP isGroup = s.tokens.countP fun t => t.kind == .lparen
  parens : s.tokens.countP (fun t => t.kind == .lparen) =
    s.tokens.countP fun t => t.kind == .rparen
  leafCount : e.leafCount = s.tokens.countP fun t => t.kind == .word || t.kind == .quoted

theorem Tree.mirrors_toExpr {s : TokenStream} {u : UniformTree} (hkind : u.tree.WellKinded)
    (htokens : u.tree.tokens = s.tokens) : u.tree.toExpr.Mirrors s u where
  blockType n := by
    refine Expr.blockType_of_mem_nodes ?_
    rw [u.tree.terms_toExpr_eq_map]
    simpa using u.uniform
  texts := by
    rw [u.tree.terms_toExpr_eq_map, List.map_map]
    rfl
  joinings := by
    rw [← htokens]
    exact countP_nodes (r := (· matches .joining _)) hkind Expr.isBinary
      (fun kind => kind == .and || kind == .or)
      (fun n => by cases n <;> rfl) (fun kind => by cases kind <;> rfl)
  negations := by
    rw [← htokens]
    exact countP_nodes (r := (· == .negation)) hkind Expr.isNot (· == .not)
      (fun n => by cases n <;> rfl) (fun kind => by cases kind <;> rfl)
  groups := by
    rw [← htokens]
    exact countP_nodes (r := (· == .group)) hkind Expr.isGroup (· == .lparen)
      (fun n => by cases n <;> rfl) (fun kind => by cases kind <;> rfl)
  parens := by
    rw [← htokens]
    exact u.tree.countP_parens hkind
  leafCount := by
    rw [← htokens, Expr.leafCount_eq, Expr.leaves_eq_countP]
    exact countP_nodes (r := (· == .term)) hkind (fun n => n.form == .term)
      (fun kind => kind == .word || kind == .quoted)
      (fun _ => rfl) (fun kind => by cases kind <;> rfl)

theorem exists_uniform_of_compile {s : TokenStream} {e : Expr} (h : compile s = .ok e) :
    ∃ u : UniformTree, Tree.ofStream s = .ok u.tree ∧ u.tree.checkUniform = .ok u ∧
      e = u.tree.toExpr ∧ u.tree.WellKinded ∧ u.tree.tokens = s.tokens := by
  obtain ⟨tree, htree, huniform, rfl⟩ := compile_eq_ok_iff.1 h
  obtain ⟨u, hu, -⟩ := tree.checkUniform_eq huniform
  obtain ⟨rfl, -⟩ := Tree.eq_of_checkUniform hu
  obtain ⟨⟨hkind, -⟩, htokens⟩ := Tree.fits_of_ofStream htree
  exact ⟨u, htree, hu, rfl, hkind, htokens⟩

/-- What a row of tokens is compiled to mirrors the tokens and their tree, which has been
checked to be of one type. -/
theorem compile_mirrors {s : TokenStream} {e : Expr} (h : compile s = .ok e) :
    ∃ u, Tree.ofStream s = .ok u.tree ∧ u.tree.checkUniform = .ok u ∧ e.Mirrors s u := by
  obtain ⟨u, htree, hu, rfl, hkind, htokens⟩ := exists_uniform_of_compile h
  exact ⟨u, htree, hu, Tree.mirrors_toExpr hkind htokens⟩

/-- Keys and values with two connectives and a NOT before each of a group and a term. -/
theorem compile_mirrors_nested :
    let key : Token := ⟨.key, "K=", ⟨0, 2⟩⟩
    let value : Token := ⟨.quoted, "'v'", ⟨2, 5⟩⟩
    let not : Token := ⟨.not, "NOT", ⟨5, 8⟩⟩
    let s : TokenStream := ⟨[not, ⟨.lparen, "(", ⟨8, 9⟩⟩, key, value,
      ⟨.or, "OR", ⟨9, 11⟩⟩, not, key, value, ⟨.rparen, ")", ⟨11, 12⟩⟩,
      ⟨.and, "AND", ⟨12, 15⟩⟩, key, value], [], 15⟩
    let term : Expr := .leaf "K='v'" .keyValue
    let e : Expr := .binary .and (.not (.group (.binary .or term (.not term)))) term
    compile s = .ok e ∧ e.leafCount = 3 ∧
      ∃ u, Tree.ofStream s = .ok u.tree ∧ u.tree.checkUniform = .ok u ∧ e.Mirrors s u := by
  intro key value not s term e
  have hcompile : compile s = .ok e := eq_ok_of_toOption (by decide +kernel)
  obtain ⟨u, htree, hu, hmirrors⟩ := compile_mirrors hcompile
  exact ⟨hcompile, hmirrors.leafCount, u, htree, hu, hmirrors⟩

end BoolQuery
