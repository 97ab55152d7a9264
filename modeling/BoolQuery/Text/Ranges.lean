/-!
# Sets of characters as ranges of code points

A character class is a table of ranges. Tables are kept in ascending order, so a
look-up stops at the first range that starts above the code point;
`contains_iff` says that on such a table nothing is missed by stopping.
-/

namespace BoolQuery.Text

/-- Ranges of code points, both ends included. -/
abbrev Ranges := List (Nat × Nat)

namespace Ranges

/-- Whether a code point lies in one of the ranges of an ascending table. -/
def contains : Ranges → Nat → Bool
  | [], _ => false
  | (lo, hi) :: rest, n => if n < lo then false else n ≤ hi || contains rest n

/-- Each range starts above `above`, ends no lower than it starts, and the next
one starts above its end. -/
def Ascending (above : Nat) : Ranges → Bool
  | [] => true
  | (lo, hi) :: rest => above ≤ lo && lo ≤ hi && Ascending (hi + 1) rest

theorem le_of_ascending {above : Nat} {table : Ranges} (h : Ascending above table = true)
    {r : Nat × Nat} (hr : r ∈ table) : above ≤ r.1 := by
  induction table generalizing above with
  | nil => simp at hr
  | cons s rest ih =>
      simp only [Ascending, Bool.and_eq_true, decide_eq_true_eq] at h
      rcases List.mem_cons.1 hr with rfl | hr
      · exact h.1.1
      · have := ih h.2 hr
        omega

/-- In an ascending table the look-up finds exactly the members of the ranges. -/
theorem contains_iff {above : Nat} {table : Ranges} (h : Ascending above table = true)
    (n : Nat) :
    contains table n = true ↔ ∃ r ∈ table, r.1 ≤ n ∧ n ≤ r.2 := by
  induction table generalizing above with
  | nil => simp [contains]
  | cons s rest ih =>
      obtain ⟨lo, hi⟩ := s
      simp only [Ascending, Bool.and_eq_true, decide_eq_true_eq] at h
      simp only [contains, List.mem_cons, exists_eq_or_imp]
      split
      · rename_i hlt
        constructor
        · intro hf
          exact absurd hf (by simp)
        · rintro (⟨hlo, -⟩ | ⟨r, hr, hlo, -⟩)
          · omega
          · have := le_of_ascending h.2 hr
            omega
      · rename_i hge
        rw [Bool.or_eq_true, decide_eq_true_eq, ih h.2]
        constructor
        · rintro (hle | hr)
          · exact .inl ⟨by omega, hle⟩
          · exact .inr hr
        · rintro (⟨-, hle⟩ | hr)
          · exact .inl hle
          · exact .inr hr

end Ranges

end BoolQuery.Text
