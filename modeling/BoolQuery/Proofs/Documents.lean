import BoolQuery.Expr.OfDocument
import BoolQuery.Json.Shape
import BoolQuery.Proofs.Chains

/-!
# Nothing is lost in a document

Chains stand in documents with their operands side by side. Neither the shape of a chain
nor the block types along it are written, and both come back: a chain is joined from the
left, and has the block type of its first operand. That the first operand is no chain
itself is what makes the operands of a document those of the expression.
-/

namespace BoolQuery.Expr

/-! ### Reading each kind of object -/

theorem lookup_readFields (fields : List (String × Json)) (name : String) :
    (readFields fields).lookup name = (fields.lookup name).map readDoc := by
  induction fields with
  | nil => rfl
  | cons field fields ih =>
      rw [readFields, List.lookup_cons, List.lookup_cons, ih]
      split <;> rfl

theorem readItems_eq_map (items : List Json) : readItems items = items.map readDoc := by
  induction items with
  | nil => rfl
  | cons item items ih => rw [readItems, ih, List.map_cons]

/-- An object is read as an expression that its type and its block type fit. -/
theorem readDoc_obj {fields : List (String × Json)} {type : String} {e : Expr}
    (htype : fields.lookup "type" = some (.str type))
    (hblock : fields.lookup "block_type" = some (.str e.blockType.name))
    (h : ofFieldsOf? type e.blockType (readFields fields) = some e) :
    readDoc (.obj fields) = .expr e := by
  simp [readDoc, ofFields?, lookup_readFields, htype, hblock, h, Reading.text?,
    BlockType.ofName?_name]

theorem readDoc_leafDoc (text : String) (blockType : BlockType) :
    readDoc (leafDoc text blockType) = .expr (leaf text blockType) := by
  refine readDoc_obj rfl rfl ?_
  simp [ofFieldsOf?, lookup_readFields, List.lookup_cons, readDoc, Reading.text?,
    Expr.blockType]

theorem readDoc_notDoc {child : Expr} {doc : Json} (h : readDoc doc = .expr child) :
    readDoc (notDoc child.blockType doc) = .expr (not child) := by
  refine readDoc_obj rfl rfl ?_
  simp [ofFieldsOf?, lookup_readFields, List.lookup_cons, readDoc, h, Reading.text?,
    Reading.expr?]

theorem readDoc_groupDoc {child : Expr} {doc : Json} (h : readDoc doc = .expr child) :
    readDoc (groupDoc child.blockType doc) = .expr (group child) := by
  refine readDoc_obj rfl rfl ?_
  simp [ofFieldsOf?, lookup_readFields, List.lookup_cons, h, Reading.expr?]

/-- The operands and the connectives of a chain are joined to that chain. -/
theorem ofChain?_chain (first : Expr) (others : List (Connective × Expr)) :
    ofChain? (.expr first :: others.map fun other => .expr other.2)
      (others.map fun other => .text other.1.text) = some (joinAll first others) := by
  have hoperands : (others.map fun other => Reading.expr other.2).mapM Reading.expr? =
      some (others.map (·.2)) := by
    rw [List.mapM_map]
    exact List.mapM_pure
  have hoperators : (others.map fun other => Reading.text other.1.text).mapM
      Reading.connective? = some (others.map (·.1)) := by
    have hread :
        (Reading.connective? ∘ fun other : Connective × Expr => .text other.1.text) =
        fun other => pure other.1 := funext fun other => other.1.ofText?_text
    rw [List.mapM_map, hread]
    exact List.mapM_pure
  rw [ofChain?, List.mapM_cons, hoperands, hoperators]
  simp [Reading.expr?, List.zip_map']

theorem readDoc_chainDoc {first : Expr} {others : List (Connective × Expr)}
    (hfirst : readDoc first.toJson = .expr first)
    (hothers : ∀ other ∈ others, readDoc other.2.toJson = .expr other.2) :
    readDoc (chainDoc first.blockType
      (first.toJson :: others.map fun other => other.2.toJson)
      ((others.map fun other => other.1.text).map .str)) = .expr (joinAll first others) := by
  have hoperands : (others.map fun other => other.2.toJson).map readDoc =
      others.map fun other => .expr other.2 := by
    rw [List.map_map]
    exact List.map_congr_left hothers
  have hoperators : ((others.map fun other => other.1.text).map Json.str).map readDoc =
      others.map fun other => .text other.1.text := by
    rw [List.map_map, List.map_map]
    rfl
  refine readDoc_obj rfl (by rw [blockType_joinAll]; rfl) ?_
  simp only [ofFieldsOf?, lookup_readFields, List.lookup_cons, String.reduceBEq,
    Option.map_some, Option.bind_eq_bind, Option.bind_some, readDoc, Reading.items?,
    readItems_eq_map,
    List.map_cons, hfirst, hoperands, hoperators]
  exact ofChain?_chain first others

/-- The document of an expression is read as that expression. -/
theorem readDoc_toJson (e : Expr) : readDoc e.toJson = .expr e := by
  induction e using chainInduction with
  | leaf text blockType => exact readDoc_leafDoc text blockType
  | not child ih => exact readDoc_notDoc ih
  | group child ih => exact readDoc_groupDoc ih
  | chain first others hfirst hsome ihFirst ihOthers =>
      rw [toJson_joinAll hfirst hsome]
      exact readDoc_chainDoc ihFirst ihOthers

/-! ### The objects in a document -/

section Objects

variable {fields : List (String × Json)} {blockType : BlockType}

theorem isPart_leafDoc_iff {text : String} :
    (Json.obj fields).IsPart (leafDoc text blockType) ↔
      .obj fields = leafDoc text blockType := by
  simp [leafDoc, Json.isPart_obj_iff, Json.isPart_str_iff]

theorem isPart_notDoc_iff {child : Json} :
    (Json.obj fields).IsPart (notDoc blockType child) ↔
      .obj fields = notDoc blockType child ∨ (Json.obj fields).IsPart child := by
  simp [notDoc, Json.isPart_obj_iff, Json.isPart_str_iff]

theorem isPart_groupDoc_iff {child : Json} :
    (Json.obj fields).IsPart (groupDoc blockType child) ↔
      .obj fields = groupDoc blockType child ∨ (Json.obj fields).IsPart child := by
  simp [groupDoc, Json.isPart_obj_iff, Json.isPart_str_iff]

theorem isPart_chainDoc_iff {operands : List Json} {operators : List String} :
    (Json.obj fields).IsPart (chainDoc blockType operands (operators.map .str)) ↔
      .obj fields = chainDoc blockType operands (operators.map .str) ∨
        ∃ operand ∈ operands, (Json.obj fields).IsPart operand := by
  simp [chainDoc, Json.isPart_obj_iff, Json.isPart_arr_iff, Json.isPart_str_iff]

/-- Every object in the document of an expression is the document of an expression. -/
theorem exists_eq_toJson {e : Expr} (h : (Json.obj fields).IsPart e.toJson) :
    ∃ part : Expr, .obj fields = part.toJson := by
  induction e using chainInduction with
  | leaf text blockType => exact ⟨leaf text blockType, isPart_leafDoc_iff.1 h⟩
  | not child ih => exact (isPart_notDoc_iff.1 h).elim (fun heq => ⟨not child, heq⟩) ih
  | group child ih => exact (isPart_groupDoc_iff.1 h).elim (fun heq => ⟨group child, heq⟩) ih
  | chain first others hfirst hsome ihFirst ihOthers =>
      have hdoc := toJson_joinAll hfirst hsome
      rw [hdoc] at h
      obtain heq | ⟨operand, hoperand, hpart⟩ := isPart_chainDoc_iff.1 h
      · exact ⟨joinAll first others, heq.trans hdoc.symm⟩
      · obtain rfl | hother := List.mem_cons.1 hoperand
        · exact ihFirst hpart
        · obtain ⟨other, hmem, rfl⟩ := List.mem_map.1 hother
          exact ihOthers other hmem hpart

end Objects

/-- The type `binary` is that of chains. -/
theorem field?_type_eq_binary_iff (e : Expr) :
    e.toJson.field? "type" = some (.str "binary") ↔ e.isBinary = true := by
  cases e <;> simp [toJson, leafDoc, notDoc, groupDoc, chainDoc, Json.field?,
    List.lookup_cons, isBinary]

/-- The document of an expression holds all of it: read again, it is the same expression
with the same block types. Every `binary` object in it has one operand more than operators,
and its first operand is no `binary` object. -/
theorem toJson_lossless (e : Expr) :
    ofJson? e.toJson = some e ∧
      ∀ part : Json, part.IsPart e.toJson → part.field? "type" = some (.str "binary") →
        ∃ first others operators,
          part.field? "operands" = some (.arr (first :: others)) ∧
          part.field? "operators" = some (.arr operators) ∧
          (first :: others).length = operators.length + 1 ∧
          first.field? "type" ≠ some (.str "binary") := by
  refine ⟨by rw [ofJson?, readDoc_toJson]; rfl, fun part hpart htype => ?_⟩
  obtain ⟨fields, rfl⟩ : ∃ fields, part = .obj fields := by
    cases part with
    | obj fields => exact ⟨fields, rfl⟩
    | _ => cases htype
  obtain ⟨chained, hdoc⟩ := exists_eq_toJson hpart
  rw [hdoc] at htype ⊢
  cases chained with
  | binary op left right =>
      have hfirst := (binary op left right).isBinary_chain_fst
      rw [toJson_binary]
      exact ⟨_, _, _, rfl, rfl, by simp, by simp [field?_type_eq_binary_iff, hfirst]⟩
  | _ => cases (field?_type_eq_binary_iff _).1 htype

/-- Block types that differ, a text that no query holds, and a chain on the right of
another without a group around it. -/
theorem toJson_lossless_mixed :
    let right := binary .and (leaf "status=\"" .keyValue) (leaf "" .bare)
    let e := binary .or (binary .and (not (leaf "a" .bare)) (group right)) right
    ofJson? e.toJson = some e ∧ right.toJson.IsPart e.toJson ∧
      ∃ first others operators,
        right.toJson.field? "operands" = some (.arr (first :: others)) ∧
        right.toJson.field? "operators" = some (.arr operators) ∧
        (first :: others).length = operators.length + 1 ∧
        first.field? "type" ≠ some (.str "binary") := by
  intro right e
  have hpart : right.toJson.IsPart e.toJson :=
    .field (.item .refl (List.mem_cons_of_mem _ (List.mem_cons_of_mem _ (.head _))))
      (List.mem_cons_of_mem _ (.head _))
  have ⟨hread, hchains⟩ := toJson_lossless e
  exact ⟨hread, hpart, hchains right.toJson hpart rfl⟩

end BoolQuery.Expr
