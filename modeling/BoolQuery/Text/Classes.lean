import BoolQuery.Text.Blank
import BoolQuery.Text.Word

/-!
# The two classes of characters

Which characters are blank and which may stand in a word is a matter of tables, and these
are as long as a version of Unicode makes them. What cutting texts into tokens rests on are
the few facts of `Classes`: no character is in both classes, the letters of keys and of
reserved words are word characters, and the characters that have a meaning of their own are
in neither class.

They are shown of the tables once, in `classes`. Behind this module no proof opens a table,
but for those on a fixed text, so with other tables there is little to show again.
-/

namespace BoolQuery.Text

/-- The characters with a meaning of their own. -/
def marks : List Char := ['(', ')', '"', '\'', '\\', '=']

theorem mem_marks_of_quote {quote : Char} (h : quote = '"' ∨ quote = '\'') :
    quote ∈ marks := by
  rcases h with rfl | rfl <;> decide

/-- What blanks and word characters have to be like. -/
structure Classes (blank word : Char → Bool) : Prop where
  apart : ∀ c, blank c = true → word c = false
  capitals : ∀ c, 'A' ≤ c → c ≤ 'Z' → word c = true
  blank_marks : ∀ c ∈ marks, blank c = false
  word_marks : ∀ c ∈ marks, word c = false
  breaks : ∀ c ∈ [' ', '\n', '\r'], blank c = true

namespace Classes

variable {blank word : Char → Bool} {c mark : Char} (h : Classes blank word)

include h

theorem blank_of_word (hc : word c = true) : blank c = false := by
  rw [← Bool.not_eq_true]
  intro hblank
  rw [h.apart c hblank] at hc
  cases hc

theorem ne_mark_of_blank (hc : blank c = true) (hmark : mark ∈ marks) : c ≠ mark := by
  rintro rfl
  rw [h.blank_marks c hmark] at hc
  cases hc

theorem ne_mark_of_word (hc : word c = true) (hmark : mark ∈ marks) : c ≠ mark := by
  rintro rfl
  rw [h.word_marks c hmark] at hc
  cases hc

end Classes

/-- No range of one table meets a range of the other. -/
def Ranges.apart (a b : Ranges) : Bool :=
  a.all fun r => b.all fun s => r.2 < s.1 || s.2 < r.1

theorem Ranges.not_mem_of_apart {a b : Ranges} (h : a.apart b = true) {n : Nat}
    (ha : ∃ r ∈ a, r.1 ≤ n ∧ n ≤ r.2) : ¬ ∃ s ∈ b, s.1 ≤ n ∧ n ≤ s.2 := by
  rintro ⟨s, hs, hlo', hhi'⟩
  obtain ⟨r, hr, hlo, hhi⟩ := ha
  have hapart := List.all_eq_true.1 (List.all_eq_true.1 h r hr) s hs
  simp only [Bool.or_eq_true, decide_eq_true_eq] at hapart
  omega

theorem apart_blankRanges_wordRanges : blankRanges.apart wordRanges = true := by
  decide +kernel

/-- The tables are as they have to be. -/
theorem classes : Classes isBlank isWord where
  apart c hblank := by
    rw [← Bool.not_eq_true, isWord_iff]
    exact Ranges.not_mem_of_apart apart_blankRanges_wordRanges ((isBlank_iff c).1 hblank)
  capitals c hlo hhi := by
    rw [Char.le_def, UInt32.le_iff_toNat_le] at hlo hhi
    exact (isWord_iff c).2 ⟨(0x41, 0x5A), by decide +kernel, hlo, hhi⟩
  blank_marks := by simpa using show marks.any isBlank = false by decide +kernel
  word_marks := by simpa using show marks.any isWord = false by decide +kernel
  breaks := List.all_eq_true.1 (by decide +kernel)

/-- Blanks are not word characters. -/
theorem isWord_of_isBlank {c : Char} (h : isBlank c = true) : isWord c = false :=
  classes.apart c h

theorem isBlank_of_isWord {c : Char} (h : isWord c = true) : isBlank c = false :=
  classes.blank_of_word h

end BoolQuery.Text
