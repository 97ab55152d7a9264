import BoolQuery.Proofs.Pieces
import Mathlib.Data.List.Chain

/-!
# Tokens without blanks between them

Blanks are only needed where two tokens would become one. Whether they would is a
matter of their kinds alone, whatever they are spelt like: a run of blanks goes on
with blanks, and a word, reserved or not, goes on with whatever starts with a word
character, which is another word or a key. No other kind runs on.

`Spells.first` gives the first character of each kind, and the first character is
all that `EndsBefore` looks at. So the condition for a list of pieces to be separate
becomes one for each pair of neighbours.
-/

namespace BoolQuery

open Text

namespace Kind

/-- Whether a token of one kind runs on into a token of another kind behind it. -/
def RunsInto (a b : Kind) : Prop :=
  a = whitespace ∧ b = whitespace ∨
    a ∈ [not, and, or, word] ∧ b ∈ [not, and, or, word, key]

instance (a b : Kind) : Decidable (RunsInto a b) :=
  inferInstanceAs (Decidable (_ ∨ _))

/-- Whether the texts of a kind start with a word character. -/
def startsWord : Kind → Bool
  | not | and | or | word | key => true
  | _ => false

/-- What the kind of a token says of its first character. An equals sign starts
none, so it can only make a word before it a key. -/
theorem Spells.first {kind : Kind} {c : Char} {cs : List Char} (h : kind.Spells (c :: cs)) :
    isBlank c = kind.isWhitespace ∧ isWord c = kind.startsWord ∧ c ≠ '=' := by
  have hword : isWord c = true → isBlank c = false ∧ isWord c = true ∧ c ≠ '=' :=
    fun hc => ⟨isBlank_of_isWord hc, hc, classes.ne_mark_of_word hc (by decide)⟩
  have hmark : c ∈ marks → c ≠ '=' → isBlank c = false ∧ isWord c = false ∧ c ≠ '=' :=
    fun hc hne => ⟨classes.blank_marks c hc, classes.word_marks c hc, hne⟩
  cases kind with
  | whitespace =>
      have hblank := h.2 c List.mem_cons_self
      exact ⟨hblank, isWord_of_isBlank hblank, classes.ne_mark_of_blank hblank (by decide)⟩
  | not | and | or =>
      exact hword (isWord_of_mem_reservedText _ c (h ▸ List.mem_cons_self))
  | lparen | rparen =>
      obtain ⟨rfl, -⟩ := List.cons_eq_cons.1 h
      exact hmark (by decide) (by decide)
  | key =>
      obtain ⟨name, hname, hne, hcapital, -⟩ := h
      obtain ⟨d, name, rfl⟩ := List.exists_cons_of_ne_nil hne
      obtain ⟨rfl, -⟩ := List.cons_eq_cons.1 hname
      exact hword (Pattern.isWord_of_isCapital (hcapital c List.mem_cons_self))
  | quoted =>
      obtain ⟨quote, body, hquote, -, htext⟩ := h
      obtain ⟨rfl, -⟩ := List.cons_eq_cons.1 htext
      exact hmark (mem_marks_of_quote hquote) (by rcases hquote with rfl | rfl <;> decide)
  | word => exact hword (h.2.1 c List.mem_cons_self)

theorem endsBefore_iff {a b : Kind} {text next : List Char} (hb : b.Spells next) :
    a.EndsBefore text next.head? ↔ ¬ a.RunsInto b := by
  obtain ⟨c, cs, rfl⟩ := List.exists_cons_of_ne_nil hb.ne_nil
  obtain ⟨hblank, hword, hequals⟩ := hb.first
  have hnext (p : Char → Bool) : (∀ d ∈ (c :: cs).head?, p d = false) ↔ p c = false := by
    simp
  cases a with
  | whitespace =>
      rw [EndsBefore, hnext, hblank]
      cases b <;> decide
  | not | and | or =>
      rw [EndsBefore, hnext, hword]
      cases b <;> decide
  | word =>
      have hkey : (∀ d ∈ text, Pattern.isCapital d = true) → (c :: cs).head? ≠ some '=' :=
        fun _ h => hequals (Option.some.inj h)
      rw [EndsBefore, hnext, hword, and_iff_left hkey]
      cases b <;> decide
  | lparen | rparen | key | quoted => simp [EndsBefore, RunsInto]

end Kind

namespace Piece

/-- Whether a text, on its own, is one token of its kind. -/
def Alone (p : Piece) : Prop :=
  ∃ s, TokenStream.ofQuery p.2 = .ok s ∧ s.merged.map (fun t => t.kind) = [p.1]

instance (p : Piece) : Decidable p.Alone :=
  match h : TokenStream.ofQuery p.2 with
  | .ok s =>
      decidable_of_iff (s.merged.map (fun t => t.kind) = [p.1])
        ⟨fun hkinds => ⟨s, h, hkinds⟩, fun ⟨s', hs', hkinds⟩ => by
          rw [h] at hs'
          injection hs' with hs'
          rwa [hs']⟩
  | .error e => isFalse fun ⟨s, hs, _⟩ => by
      rw [h] at hs
      cases hs

theorem separate_singleton {p : Piece} : Separate [p] ↔ p.1.Spells p.2.toList := by
  have hends : p.1.EndsBefore p.2.toList none := by
    cases p.1 <;> simp [Kind.EndsBefore]
  exact ⟨fun h => h.1, fun h => ⟨h, hends, trivial⟩⟩

/-- A text on its own is a token of a kind exactly if it is spelt like one. -/
theorem alone_iff {p : Piece} : p.Alone ↔ p.1.Spells p.2.toList := by
  constructor
  · intro h
    obtain ⟨ps, hkinds, hseparate, hchars⟩ := TokenStream.exists_kinds_iff.1 h
    obtain ⟨⟨_, text⟩, rfl, rfl⟩ := List.map_eq_singleton_iff.1 hkinds
    rw [chars_cons, chars_nil, List.append_nil] at hchars
    rw [hchars]
    exact separate_singleton.1 hseparate
  · intro h
    exact TokenStream.exists_kinds_iff.2
      ⟨[p], rfl, separate_singleton.2 h, (List.append_nil p.2.toList).symm⟩

theorem separate_iff {ps : List Piece} (h : ∀ p ∈ ps, p.1.Spells p.2.toList) :
    Separate ps ↔ (ps.map Prod.fst).IsChain fun a b => ¬ a.RunsInto b := by
  induction ps with
  | nil => simp [Separate]
  | cons p ps ih =>
      have hspells := h p List.mem_cons_self
      have ih := ih fun q hq => h q (List.mem_cons_of_mem p hq)
      cases ps with
      | nil => simp [separate_singleton, hspells]
      | cons q ps =>
          have hnext := h q (by simp)
          -- A token is not empty, so what follows starts as the next token does.
          have hhead : (chars (q :: ps)).head? = q.2.toList.head? := by
            obtain ⟨c, cs, htext⟩ := List.exists_cons_of_ne_nil hnext.ne_nil
            rw [chars_cons, htext]
            rfl
          rw [Separate, ih, hhead, Kind.endsBefore_iff hnext]
          simp only [List.map_cons, List.isChain_cons_cons]
          exact ⟨fun h => h.2, fun h => ⟨hspells, h⟩⟩

/-- Texts that are each one token on their own, put one behind the other, are cut
into these tokens again exactly if none runs into the next. -/
theorem recut_iff_isChain (ps : List Piece) (halone : ∀ p ∈ ps, p.Alone) :
    (∃ s, TokenStream.ofQuery (String.join (ps.map fun p => p.2)) = .ok s ∧
        s.merged.map Token.piece = ps) ↔
      (ps.map fun p => p.1).IsChain fun a b => ¬ a.RunsInto b := by
  have hchars : (String.join (ps.map fun p => p.2)).toList = chars ps := by
    rw [String.toList_join, List.flatMap_map]
    rfl
  rw [TokenStream.exists_merged_iff, ← separate_iff fun p hp => alone_iff.1 (halone p hp)]
  exact and_iff_left hchars

/-- None of the first texts runs into the next, reserved words and capitals included.
The word and the key at the end become one key. -/
theorem recut_iff_isChain_capitals :
    let apart : List Piece :=
      [(.key, "A="), (.quoted, "'NOT'"), (.or, "OR"), (.lparen, "("), (.word, "É"),
        (.quoted, "\"\"")]
    let fused : List Piece := [(.word, "A"), (.key, "B=")]
    ((∀ p ∈ apart, p.Alone) ∧
      ∃ s, TokenStream.ofQuery "A='NOT'OR(É\"\"" = .ok s ∧
        s.merged.map Token.piece = apart) ∧
    ((∀ p ∈ fused, p.Alone) ∧
      ¬ ∃ s, TokenStream.ofQuery "AB=" = .ok s ∧ s.merged.map Token.piece = fused) := by
  intro apart fused
  have hapart : ∀ p ∈ apart, p.Alone := by decide +kernel
  have hfused : ∀ p ∈ fused, p.Alone := by decide +kernel
  exact ⟨⟨hapart, (recut_iff_isChain apart hapart).2 (by decide)⟩,
    ⟨hfused, fun h => absurd ((recut_iff_isChain fused hfused).1 h) (by decide)⟩⟩

end Piece

end BoolQuery
