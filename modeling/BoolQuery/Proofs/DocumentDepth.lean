import BoolQuery.Json.Shape
import BoolQuery.Proofs.Chains
import BoolQuery.Proofs.Expressible

/-!
# How deep a document gets

A document gets deeper with a NOT or a group and not with the length of a chain: a chain
takes an object and a list of operands, however many there are. Since nothing joined
stands next to a connective, or behind a NOT, without a group around it, a chain costs its
two levels at most once for each group and once on top. The limit on how deep a query can
be nested is then one on how deep its document can be.
-/

namespace BoolQuery

namespace Expr

/-! ### The depth of each kind of object -/

theorem depth_leafDoc (text : String) (blockType : BlockType) :
    (leafDoc text blockType).depth = 1 := rfl

theorem depth_notDoc (blockType : BlockType) (child : Json) :
    (notDoc blockType child).depth = child.depth + 1 := by
  simp [notDoc, Json.depth, Json.depthOfFields]

theorem depth_groupDoc (blockType : BlockType) (child : Json) :
    (groupDoc blockType child).depth = child.depth + 1 := by
  simp [groupDoc, Json.depth, Json.depthOfFields]

theorem depth_chainDoc_le {blockType : BlockType} {operands : List Json}
    {operators : List String} {bound : Nat}
    (h : ∀ operand ∈ operands, operand.depth ≤ bound) :
    (chainDoc blockType operands (operators.map .str)).depth ≤ bound + 2 := by
  have hoperands := Json.depthOfItems_le_iff.2 h
  have hoperators : Json.depthOfItems (operators.map .str) ≤ 0 :=
    Json.depthOfItems_le_iff.2 (by simp [Json.depth])
  simp only [chainDoc, Json.depth, Json.depthOfFields]
  omega

theorem depth_lt_depth_chainDoc {blockType : BlockType} {operands operators : List Json}
    {operand : Json} (h : operand ∈ operands) :
    operand.depth < (chainDoc blockType operands operators).depth := by
  have hoperand := Json.depthOfItems_le_iff.1 (Nat.le_refl _) operand h
  simp only [chainDoc, Json.depth, Json.depthOfFields]
  omega

/-- Each NOT and each group around a term takes a level, and so does the term. -/
theorem nesting_lt_depth_toJson (e : Expr) : e.nesting < e.toJson.depth := by
  induction e using chainInduction with
  | leaf text blockType =>
      rw [toJson, depth_leafDoc, nesting]
      omega
  | not child ih =>
      rw [toJson, depth_notDoc, nesting]
      omega
  | group child ih =>
      rw [toJson, depth_groupDoc, nesting]
      omega
  | chain first others hfirst hsome ihFirst ihOthers =>
      have hbelow : ∀ operand ∈ first.toJson :: others.map fun other => other.2.toJson,
          operand.depth < (joinAll first others).toJson.depth := by
        rw [toJson_joinAll hfirst hsome]
        exact fun operand hoperand => depth_lt_depth_chainDoc hoperand
      rw [List.forall_mem_cons, List.forall_mem_map] at hbelow
      obtain ⟨hfirstDepth, hotherDepths⟩ := hbelow
      have hnesting : (joinAll first others).nesting ≤
          (joinAll first others).toJson.depth - 1 := by
        rw [nesting_joinAll_le_iff]
        refine ⟨by omega, fun other hother => ?_⟩
        have := ihOthers other hother
        have := hotherDepths other hother
        omega
      omega

/-- A document is three levels deep for each NOT and each group around a term, and a chain
on top is two levels more. -/
theorem HangsLeft.depth_toJson_le {e : Expr} (h : e.HangsLeft) :
    e.toJson.depth ≤ 3 * e.nesting + 3 ∧
      (e.isBinary = false → e.toJson.depth ≤ 3 * e.nesting + 1) := by
  induction e using chainInduction with
  | leaf text blockType =>
      rw [toJson, depth_leafDoc, nesting]
      omega
  | not child ih =>
      have hchild := (ih h.2).2 h.1
      rw [toJson, depth_notDoc, nesting]
      omega
  | group child ih =>
      have hchild := (ih h).1
      rw [toJson, depth_groupDoc, nesting]
      omega
  | chain first others hfirst hsome ihFirst ihOthers =>
      obtain ⟨hleft, hright⟩ := hangsLeft_joinAll_iff.1 h
      obtain ⟨hnest, hnests⟩ := nesting_joinAll_le_iff.1
        (joinAll first others).nesting.le_refl
      have hoperands : ∀ operand ∈ first.toJson :: others.map fun other => other.2.toJson,
          operand.depth ≤ 3 * (joinAll first others).nesting + 1 := by
        rw [List.forall_mem_cons, List.forall_mem_map]
        constructor
        · have := (ihFirst hleft).2 hfirst
          omega
        · intro other hother
          have := (ihOthers other hother (hright other hother).2).2 (hright other hother).1
          have := hnests other hother
          omega
      rw [toJson_joinAll hfirst hsome, isBinary_joinAll first hsome]
      exact ⟨depth_chainDoc_le hoperands, Bool.noConfusion⟩

end Expr

/-- The document of a query gets deeper with each NOT and each group around a term, by three
levels at most, and is three levels deep at most without one, however long the chains of the
query. -/
theorem depth_toJson_of_parse {query : String} {e : Expr} (h : parse query = .ok e) :
    e.nesting < e.toJson.depth ∧ e.toJson.depth ≤ 3 * e.nesting + 3 ∧
      e.toJson.depth ≤ 387 := by
  obtain ⟨s, tree, -, hfits, -, -, rfl⟩ := parse_eq_ok_iff_tree.1 h
  have hdepth := tree.hangsLeft_toExpr.depth_toJson_le.1
  have hlimit : tree.toExpr.nesting ≤ 128 := by
    rw [tree.nesting_toExpr, ← Nat.zero_add tree.nesting]
    exact hfits.2
  exact ⟨tree.toExpr.nesting_lt_depth_toJson, hdepth, by omega⟩

/-- With a chain at every level the document is as deep as it can be. -/
theorem depth_toJson_of_parse_chains :
    ∃ e, parse "a OR b AND (c OR NOT d OR (e AND f AND g))" = .ok e ∧ e.nesting = 2 ∧
      e.toJson.depth = 9 ∧ e.nesting < e.toJson.depth ∧ e.toJson.depth ≤ 3 * e.nesting + 3 ∧
      e.toJson.depth ≤ 387 := by
  let inner : Expr := .binary .and (.binary .and (.leaf "e" .bare) (.leaf "f" .bare))
    (.leaf "g" .bare)
  let middle : Expr := .binary .or (.binary .or (.leaf "c" .bare) (.not (.leaf "d" .bare)))
    (.group inner)
  let e : Expr := .binary .and (.binary .or (.leaf "a" .bare) (.leaf "b" .bare))
    (.group middle)
  have he : parse "a OR b AND (c OR NOT d OR (e AND f AND g))" = .ok e :=
    eq_ok_of_toOption (by decide +kernel)
  exact ⟨e, he, rfl, by decide, depth_toJson_of_parse he⟩

end BoolQuery
