import BoolQuery.Json

/-!
# The shape of a document

A document is a tree: its parts are itself and the parts of what it holds. `depth` counts
the lists and objects that stand inside each other. Text and numbers have no depth.

As with the shape of an expression, nothing here is run to write a document.
-/

namespace BoolQuery.Json

/-- What an object holds under a name. -/
def field? (name : String) : Json → Option Json
  | .obj fields => fields.lookup name
  | _ => none

/-- A document is part of another if it stands somewhere in it. -/
inductive IsPart (part : Json) : Json → Prop
  | refl : IsPart part part
  | item {item : Json} {items : List Json} :
      IsPart part item → item ∈ items → IsPart part (.arr items)
  | field {field : String × Json} {fields : List (String × Json)} :
      IsPart part field.2 → field ∈ fields → IsPart part (.obj fields)

variable {part : Json}

theorem isPart_str_iff {text : String} : part.IsPart (.str text) ↔ part = .str text := by
  constructor
  · rintro ⟨⟩
    rfl
  · rintro rfl
    exact .refl

theorem isPart_arr_iff {items : List Json} :
    part.IsPart (.arr items) ↔ part = .arr items ∨ ∃ item ∈ items, part.IsPart item := by
  constructor
  · intro h
    cases h with
    | refl => exact .inl rfl
    | item hpart hmem => exact .inr ⟨_, hmem, hpart⟩
  · rintro (rfl | ⟨item, hmem, hpart⟩)
    · exact .refl
    · exact .item hpart hmem

theorem isPart_obj_iff {fields : List (String × Json)} :
    part.IsPart (.obj fields) ↔ part = .obj fields ∨
      ∃ field ∈ fields, part.IsPart field.2 := by
  constructor
  · intro h
    cases h with
    | refl => exact .inl rfl
    | field hpart hmem => exact .inr ⟨_, hmem, hpart⟩
  · rintro (rfl | ⟨field, hmem, hpart⟩)
    · exact .refl
    · exact .field hpart hmem

mutual

/-- The number of lists and objects that stand inside each other in a document. -/
def depth : Json → Nat
  | .arr items => depthOfItems items + 1
  | .obj fields => depthOfFields fields + 1
  | _ => 0

def depthOfItems : List Json → Nat
  | [] => 0
  | item :: items => max item.depth (depthOfItems items)

def depthOfFields : List (String × Json) → Nat
  | [] => 0
  | (_, value) :: fields => max value.depth (depthOfFields fields)

end

theorem depthOfItems_le_iff {items : List Json} {bound : Nat} :
    depthOfItems items ≤ bound ↔ ∀ item ∈ items, item.depth ≤ bound := by
  induction items with
  | nil => simp [depthOfItems]
  | cons item items ih => rw [depthOfItems, Nat.max_le, ih, List.forall_mem_cons]

end BoolQuery.Json
