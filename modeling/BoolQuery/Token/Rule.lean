import BoolQuery.Text.Blank
import BoolQuery.Text.Word
import BoolQuery.Token

/-!
# Rules for cutting tokens

At each place of a query the first rule that applies says which token starts
there. A rule pairs a kind with a pattern, and a pattern takes as many characters
as it can; a pattern that finds nothing takes none, and its rule does not apply.

Reserved words are whole words only. `OR` does not start `ORDER`, because a word
character follows, and the text falls through to the rules for keys and words.

`Pattern.Accepts` gives the language of each pattern without saying how it is
found, and `accepts_take` that what a pattern takes is in its language. For quoted
phrases more is said here, because how long they are is not a matter of the next
character: `closing?_eq_some_iff` says that the search for the closing quote finds
exactly the phrases of the language, and `Phrase.eq_of_append_eq` that a text starts
with at most one.
-/

namespace BoolQuery

/-- The inside of a phrase between two quotes of one sort. A backslash takes the
next character with it, whatever that is. -/
inductive Phrase (quote : Char) : List Char → Prop where
  | nil : Phrase quote []
  | plain {c : Char} {cs : List Char} :
      c ≠ quote → c ≠ '\\' → Phrase quote cs → Phrase quote (c :: cs)
  | escaped {c : Char} {cs : List Char} : Phrase quote cs → Phrase quote ('\\' :: c :: cs)

/-- The number of characters up to and with the closing quote, added to those
already passed, if the phrase is closed. -/
def closing? (quote : Char) : List Char → Nat → Option Nat
  | [], _ => none
  | c :: cs, passed =>
      if c = quote then some (passed + 1)
      else if c = '\\' then
        match cs with
        | [] => none
        | _ :: cs => closing? quote cs (passed + 2)
      else closing? quote cs (passed + 1)

theorem closing?_phrase {quote : Char} (hquote : quote ≠ '\\') {body : List Char}
    (h : Phrase quote body) (rest : List Char) (passed : Nat) :
    closing? quote (body ++ quote :: rest) passed = some (passed + body.length + 1) := by
  induction h generalizing passed with
  | nil =>
      rw [List.nil_append, closing?.eq_def]
      simp
  | plain hq hb _ ih =>
      rw [List.cons_append, closing?.eq_def]
      simp only [hq, hb, if_false, ih, List.length_cons, Option.some.injEq]
      omega
  | escaped _ ih =>
      rw [List.cons_append, List.cons_append, closing?.eq_def]
      simp only [Ne.symm hquote, if_false, if_true, ih, List.length_cons, Option.some.injEq]
      omega

theorem phrase_of_closing? {quote : Char} (cs : List Char) (passed n : Nat)
    (h : closing? quote cs passed = some n) :
    ∃ body rest, Phrase quote body ∧ cs = body ++ quote :: rest ∧
      n = passed + body.length + 1 := by
  fun_induction closing? quote cs passed with
  | case1 => exact absurd h (by simp)
  | case2 cs passed =>
      exact ⟨[], cs, .nil, rfl, by simpa using h.symm⟩
  | case3 => exact absurd h (by simp)
  | case4 c passed hq cs ih =>
      obtain ⟨body, rest, hbody, rfl, rfl⟩ := ih h
      exact ⟨_, rest, .escaped hbody, rfl, by simp only [List.length_cons]; omega⟩
  | case5 c cs passed hq hb ih =>
      obtain ⟨body, rest, hbody, rfl, rfl⟩ := ih h
      exact ⟨_, rest, .plain hq hb hbody, rfl, by simp only [List.length_cons]; omega⟩

/-- The closing quote is found exactly where the text starts with a phrase. -/
theorem closing?_eq_some_iff {quote : Char} (hquote : quote ≠ '\\') {cs : List Char}
    {passed n : Nat} :
    closing? quote cs passed = some n ↔
      ∃ body rest, Phrase quote body ∧ cs = body ++ quote :: rest ∧
        n = passed + body.length + 1 := by
  constructor
  · exact phrase_of_closing? cs passed n
  · rintro ⟨body, rest, hbody, rfl, rfl⟩
    exact closing?_phrase hquote hbody rest passed

theorem Phrase.eq_of_append_eq {quote : Char} (hquote : quote ≠ '\\')
    {body body' rest rest' : List Char} (h : Phrase quote body) (h' : Phrase quote body')
    (heq : body ++ quote :: rest = body' ++ quote :: rest') : body = body' := by
  have hlen := closing?_phrase hquote h rest 0
  rw [heq, closing?_phrase hquote h' rest' 0, Option.some.injEq] at hlen
  exact (List.append_inj heq (by omega)).1

/-- What the text of a token looks like. -/
inductive Pattern where
  /-- Blanks. -/
  | blanks
  /-- These very characters. -/
  | exactly (text : List Char)
  /-- Capital letters and an equals sign. -/
  | key
  /-- A phrase between two quotes of this sort. -/
  | quoted (quote : Char)
  /-- Word characters. -/
  | word
deriving DecidableEq, Repr

namespace Pattern

def isCapital (c : Char) : Bool := 'A' ≤ c && c ≤ 'Z'

def Accepts : Pattern → List Char → Prop
  | blanks, cs => cs ≠ [] ∧ ∀ c ∈ cs, Text.isBlank c = true
  | exactly text, cs => cs = text
  | key, cs => ∃ name, name ≠ [] ∧ (∀ c ∈ name, isCapital c = true) ∧ cs = name ++ ['=']
  | quoted quote, cs => ∃ body, Phrase quote body ∧ cs = quote :: body ++ [quote]
  | word, cs => cs ≠ [] ∧ ∀ c ∈ cs, Text.isWord c = true

/-- The number of characters that a pattern takes from the start of a text. -/
def length : Pattern → List Char → Nat
  | blanks, cs => (cs.takeWhile Text.isBlank).length
  | exactly text, cs => if text.isPrefixOf cs then text.length else 0
  | key, cs =>
      let name := cs.takeWhile isCapital
      if name ≠ [] ∧ (cs.drop name.length).head? = some '=' then name.length + 1 else 0
  | quoted _, [] => 0
  | quoted quote, c :: cs => if c = quote then (closing? quote cs 1).getD 0 else 0
  | word, cs => (cs.takeWhile Text.isWord).length

theorem take_takeWhile (p : Char → Bool) (cs : List Char) :
    cs.take (cs.takeWhile p).length = cs.takeWhile p :=
  (List.prefix_iff_eq_take.1 (List.takeWhile_prefix p)).symm

theorem of_mem_takeWhile {p : Char → Bool} {cs : List Char} {c : Char}
    (h : c ∈ cs.takeWhile p) : p c = true :=
  List.all_eq_true.1 (List.all_takeWhile (l := cs)) c h

theorem accepts_take {pattern : Pattern} {cs : List Char} (h : 0 < pattern.length cs) :
    pattern.Accepts (cs.take (pattern.length cs)) := by
  cases pattern with
  | blanks =>
      simp only [length, Accepts, take_takeWhile] at h ⊢
      exact ⟨List.ne_nil_of_length_pos h, fun c hc => of_mem_takeWhile hc⟩
  | exactly text =>
      simp only [length, Accepts] at h ⊢
      split at h
      · rename_i hstart
        rw [if_pos hstart]
        exact (List.prefix_iff_eq_take.1 (List.isPrefixOf_iff_prefix.1 hstart)).symm
      · exact absurd h (by omega)
  | key =>
      simp only [length, Accepts] at h ⊢
      split at h
      · rename_i hkey
        rw [if_pos hkey]
        refine ⟨cs.takeWhile isCapital, hkey.1, fun c hc => of_mem_takeWhile hc, ?_⟩
        rw [List.take_add_one, take_takeWhile, ← List.head?_drop, hkey.2]
        rfl
      · exact absurd h (by omega)
  | quoted quote =>
      cases cs with
      | nil => exact absurd h (by simp [length])
      | cons c cs =>
          simp only [length] at h ⊢
          split at h
          · rename_i hc
            rw [if_pos hc]
            cases hclose : closing? quote cs 1 with
            | none =>
                rw [hclose] at h
                exact absurd h (by simp)
            | some n =>
                obtain ⟨body, rest, hbody, rfl, rfl⟩ := phrase_of_closing? cs 1 n hclose
                refine ⟨body, hbody, ?_⟩
                have hlength : 1 + body.length + 1 = (quote :: body ++ [quote]).length := by
                  simp
                  omega
                have htext : quote :: (body ++ quote :: rest) =
                    (quote :: body ++ [quote]) ++ rest := by
                  simp
                rw [hc, hlength, htext]
                exact List.take_left
          · exact absurd h (by omega)
  | word =>
      simp only [length, Accepts, take_takeWhile] at h ⊢
      exact ⟨List.ne_nil_of_length_pos h, fun c hc => of_mem_takeWhile hc⟩

end Pattern

/-- A token that starts at some place: its kind, and how many characters it has,
which is never none. -/
structure Lexeme where
  kind : Kind
  length : Nat
  length_pos : 0 < length
deriving DecidableEq, Repr

structure Rule where
  kind : Kind
  pattern : Pattern
deriving DecidableEq, Repr

namespace Rule

/-- The token that a rule finds at the start of a text. A reserved word is none
if a word goes on after it. -/
def lexeme? (rule : Rule) (cs : List Char) : Option Lexeme :=
  let n := rule.pattern.length cs
  if h : 0 < n then
    if rule.kind.isReserved && Text.startsWord (cs.drop n) then none
    else some ⟨rule.kind, n, h⟩
  else none

def table : List Rule := [
  ⟨.whitespace, .blanks⟩,
  ⟨.not, .exactly ['N', 'O', 'T']⟩,
  ⟨.and, .exactly ['A', 'N', 'D']⟩,
  ⟨.or, .exactly ['O', 'R']⟩,
  ⟨.lparen, .exactly ['(']⟩,
  ⟨.rparen, .exactly [')']⟩,
  ⟨.key, .key⟩,
  ⟨.quoted, .quoted '"'⟩,
  ⟨.quoted, .quoted '\''⟩,
  ⟨.word, .word⟩]

end Rule

def lexeme? (cs : List Char) : Option Lexeme :=
  Rule.table.findSome? fun rule => rule.lexeme? cs

end BoolQuery
