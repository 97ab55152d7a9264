import BoolQuery.Proofs.LexFaults
import Mathlib.Computability.Language

/-!
# The rules in one pass

The rules for cutting tokens are regular expressions in order of priority, and each takes
as much as it can. A reader of a text would not go through them one by one but look at the
first character, take the run that it starts, and say which kind it is. `firstToken?` does
so, and `lexeme?_eq_firstToken?` says that the rules come to the same on every text.

What a rule is, is said without its search: `Pattern.language` builds the language of each
pattern from classes of characters as its regular expression does, and `Rule.Finds` asks
for the longest text of that language. Being the longest only matters for runs. A key ends
with its equals sign and a phrase with its closing quote, so a text starts with one of them
at most (`Pattern.eq_of_mem_quoted`).
-/

namespace BoolQuery

open Text
open scoped Computability

/-! ## Patterns as regular expressions -/

/-- The texts that are one character of a class. -/
def oneOf (p : Char → Prop) : Language Char := {cs | ∃ c, p c ∧ cs = [c]}

theorem mem_oneOf {p : Char → Prop} {cs : List Char} : cs ∈ oneOf p ↔ ∃ c, p c ∧ cs = [c] :=
  Iff.rfl

theorem append_mem_kstar {L : Language Char} {text cs : List Char} (htext : text ∈ L)
    (hcs : cs ∈ L∗) : text ++ cs ∈ L∗ := by
  have hle : L * L∗ ≤ L∗ := mul_kstar_le_kstar
  exact hle (Language.append_mem_mul htext hcs)

theorem mem_kstar_oneOf {p : Char → Prop} {cs : List Char} :
    cs ∈ (oneOf p)∗ ↔ ∀ c ∈ cs, p c := by
  constructor
  · intro h
    obtain ⟨parts, rfl, hparts⟩ := Language.mem_kstar.1 h
    intro c hc
    obtain ⟨part, hpart, hmem⟩ := List.mem_flatten.1 hc
    obtain ⟨d, hd, rfl⟩ := mem_oneOf.1 (hparts part hpart)
    obtain rfl := List.mem_singleton.1 hmem
    exact hd
  · intro h
    induction cs with
    | nil => exact Language.nil_mem_kstar _
    | cons c cs ih =>
        obtain ⟨hc, hcs⟩ := List.forall_mem_cons.1 h
        have hone : [c] ∈ oneOf p := ⟨c, hc, rfl⟩
        exact append_mem_kstar hone (ih hcs)

theorem mem_oneOf_mul_kstar {p : Char → Prop} {cs : List Char} :
    cs ∈ oneOf p * (oneOf p)∗ ↔ cs ≠ [] ∧ ∀ c ∈ cs, p c := by
  rw [Language.mem_mul]
  constructor
  · rintro ⟨_, ⟨c, hc, rfl⟩, cs, hcs, rfl⟩
    exact ⟨by simp, List.forall_mem_cons.2 ⟨hc, mem_kstar_oneOf.1 hcs⟩⟩
  · rintro ⟨hne, hcs⟩
    obtain ⟨c, cs, rfl⟩ := List.exists_cons_of_ne_nil hne
    obtain ⟨hc, hcs⟩ := List.forall_mem_cons.1 hcs
    exact ⟨[c], ⟨c, hc, rfl⟩, cs, mem_kstar_oneOf.2 hcs, rfl⟩

namespace Pattern

/-- What can follow within quotes: a character that is not special, or any character
behind a backslash. -/
def quotedUnit (quote : Char) : Language Char :=
  oneOf (fun c => c ≠ quote ∧ c ≠ '\\') + {['\\']} * oneOf fun _ => True

/-- The language of a pattern, as its regular expression writes it. -/
def language : Pattern → Language Char
  | blanks => oneOf (fun c => isBlank c = true) * (oneOf fun c => isBlank c = true)∗
  | exactly text => {text}
  | key => oneOf (fun c => isCapital c = true) * (oneOf fun c => isCapital c = true)∗ *
    {['=']}
  | quoted quote => {[quote]} * (quotedUnit quote)∗ * {[quote]}
  | word => oneOf (fun c => isWord c = true) * (oneOf fun c => isWord c = true)∗

theorem phrase_append_of_mem {quote : Char} {unit body : List Char}
    (hunit : unit ∈ quotedUnit quote) (hbody : Phrase quote body) :
    Phrase quote (unit ++ body) := by
  rw [quotedUnit, Language.mem_add] at hunit
  rcases hunit with ⟨c, ⟨hquote, hback⟩, rfl⟩ | hescaped
  · exact .plain hquote hback hbody
  · obtain ⟨_, rfl, _, ⟨c, -, rfl⟩, rfl⟩ := Language.mem_mul.1 hescaped
    exact .escaped hbody

theorem mem_kstar_quotedUnit {quote : Char} {body : List Char} :
    body ∈ (quotedUnit quote)∗ ↔ Phrase quote body := by
  constructor
  · intro h
    obtain ⟨units, rfl, hunits⟩ := Language.mem_kstar.1 h
    clear h
    induction units with
    | nil => exact .nil
    | cons unit units ih =>
        obtain ⟨hunit, hunits⟩ := List.forall_mem_cons.1 hunits
        exact phrase_append_of_mem hunit (ih hunits)
  · intro h
    induction h with
    | nil => exact Language.nil_mem_kstar _
    | @plain c cs hquote hback _ ih =>
        have hunit : [c] ∈ quotedUnit quote := .inl ⟨c, ⟨hquote, hback⟩, rfl⟩
        exact append_mem_kstar hunit ih
    | @escaped c cs _ ih =>
        have hunit : ['\\', c] ∈ quotedUnit quote :=
          .inr (Language.append_mem_mul (a := ['\\']) rfl ⟨c, trivial, rfl⟩)
        exact append_mem_kstar hunit ih

/-- The regular expressions are those of the texts that patterns are said to accept. -/
theorem mem_language_iff {pattern : Pattern} {cs : List Char} :
    cs ∈ pattern.language ↔ pattern.Accepts cs := by
  cases pattern with
  | blanks => exact mem_oneOf_mul_kstar
  | word => exact mem_oneOf_mul_kstar
  | exactly text => exact Iff.rfl
  | key =>
      rw [language, Language.mem_mul]
      simp only [mem_oneOf_mul_kstar, Accepts]
      constructor
      · rintro ⟨name, ⟨hne, hname⟩, _, rfl, rfl⟩
        exact ⟨name, hne, hname, rfl⟩
      · rintro ⟨name, hne, hname, rfl⟩
        exact ⟨name, ⟨hne, hname⟩, ['='], rfl, rfl⟩
  | quoted quote =>
      simp only [language, Language.mem_mul, mem_kstar_quotedUnit, Accepts]
      constructor
      · rintro ⟨_, ⟨_, rfl, body, hbody, rfl⟩, _, rfl, rfl⟩
        exact ⟨body, hbody, rfl⟩
      · rintro ⟨body, hbody, rfl⟩
        exact ⟨_, ⟨[quote], rfl, body, hbody, rfl⟩, [quote], rfl, rfl⟩

/-- A text starts with one phrase between quotes at most. -/
theorem eq_of_mem_quoted {quote : Char} (hquote : quote ≠ '\\') {cs text text' : List Char}
    (htext : text ∈ (quoted quote).language) (htext' : text' ∈ (quoted quote).language)
    (hstart : text <+: cs) (hstart' : text' <+: cs) : text = text' := by
  obtain ⟨body, hbody, rfl⟩ := mem_language_iff.1 htext
  obtain ⟨body', hbody', rfl⟩ := mem_language_iff.1 htext'
  obtain ⟨rest, rfl⟩ := hstart
  obtain ⟨rest', heq⟩ := hstart'
  have hinside : body' ++ quote :: rest' = body ++ quote :: rest := by simpa using heq
  rw [hbody.eq_of_append_eq hquote hbody' hinside.symm]

theorem ne_nil_of_mem_quoted {quote : Char} {text : List Char}
    (h : text ∈ (quoted quote).language) : text ≠ [] := by
  obtain ⟨body, -, rfl⟩ := mem_language_iff.1 h
  simp

/-- No text of a pattern at the start of another is longer than what the pattern takes. -/
theorem length_le_length {pattern : Pattern} (hpattern : pattern ≠ quoted '\\')
    {text rest : List Char} (h : text ∈ pattern.language) :
    text.length ≤ pattern.length (text ++ rest) := by
  have haccepts := mem_language_iff.1 h
  cases pattern with
  | blanks | word =>
      rw [length, List.takeWhile_append_of_pos haccepts.2, List.length_append]
      exact Nat.le_add_right _ _
  | exactly text' =>
      obtain rfl : text = text' := haccepts
      simp [length]
  | key =>
      obtain ⟨name, hne, hcapital, rfl⟩ := haccepts
      have hname : (name ++ '=' :: rest).takeWhile isCapital = name :=
        takeWhile_append_eq hcapital fun c hc => by
          obtain rfl : '=' = c := by simpa using hc
          decide
      simp [length, hname, hne]
  | quoted quote =>
      obtain ⟨body, hbody, rfl⟩ := haccepts
      have hquote : quote ≠ '\\' := fun h => hpattern (h ▸ rfl)
      have htext : quote :: body ++ [quote] ++ rest = quote :: (body ++ quote :: rest) := by
        simp
      rw [htext, length_quoted hquote hbody]
      simp

end Pattern

/-- Whether a text is the longest one of a language at the start of a text, with `rest`
behind it. -/
def Longest (L : Language Char) (text rest : List Char) : Prop :=
  text ∈ L ∧ ∀ other ∈ L, other <+: text ++ rest → other.length ≤ text.length

/-- Whether a rule finds a token at the start of a text, by its regular expression alone:
the longest text of it, and a whole word if that is reserved. -/
def Rule.Finds (rule : Rule) (cs : List Char) (l : Lexeme) : Prop :=
  ∃ text rest, cs = text ++ rest ∧ l.kind = rule.kind ∧ l.length = text.length ∧
    Longest rule.pattern.language text rest ∧
    (rule.kind.isReserved = true → ∀ c ∈ rest.head?, isWord c = false)

namespace Rule

theorem pattern_ne_of_mem_table {rule : Rule} (h : rule ∈ table) :
    rule.pattern ≠ .quoted '\\' := by
  have hall : ∀ rule ∈ table, rule.pattern ≠ .quoted '\\' := by decide
  exact hall rule h

theorem startsWord_eq_false_iff {cs : List Char} :
    startsWord cs = false ↔ ∀ c ∈ cs.head?, isWord c = false := by
  cases cs <;> simp [startsWord]

theorem lexeme?_eq_some_iff_finds {rule : Rule} (h : rule ∈ table) {cs : List Char}
    {l : Lexeme} :
    rule.lexeme? cs = some l ↔ rule.Finds cs l := by
  have hpattern := pattern_ne_of_mem_table h
  constructor
  · intro hl
    obtain ⟨hkind, hlength, hwhole⟩ := of_lexeme?_eq_some hl
    have hcs := List.take_append_drop l.length cs
    have hle : l.length ≤ cs.length := hlength ▸ rule.pattern.length_le cs
    have hmem : cs.take l.length ∈ rule.pattern.language := by
      rw [hlength]
      exact Pattern.mem_language_iff.2 (Pattern.accepts_take (hlength ▸ l.length_pos))
    refine ⟨cs.take l.length, cs.drop l.length, hcs.symm, hkind, ?_, ⟨hmem, ?_⟩, ?_⟩
    · rw [List.length_take, Nat.min_eq_left hle]
    · intro other hother hstart
      rw [hcs] at hstart
      obtain ⟨rest, rfl⟩ := hstart
      rw [List.length_take, Nat.min_eq_left hle, hlength]
      exact Pattern.length_le_length hpattern hother
    · intro hreserved
      exact startsWord_eq_false_iff.1 (hwhole hreserved)
  · rintro ⟨text, rest, rfl, hkind, hlength, ⟨hmem, hlongest⟩, hwhole⟩
    have hle : text.length ≤ rule.pattern.length (text ++ rest) :=
      Pattern.length_le_length hpattern hmem
    have hpos : 0 < rule.pattern.length (text ++ rest) := by
      have := l.length_pos
      omega
    have htake := hlongest _ (Pattern.mem_language_iff.2 (Pattern.accepts_take hpos))
      (List.take_prefix _ _)
    rw [List.length_take, Nat.min_eq_left (rule.pattern.length_le _)] at htake
    have hsame : rule.pattern.length (text ++ rest) = text.length :=
      Nat.le_antisymm htake hle
    have hstop : (rule.kind.isReserved && startsWord rest) = false := by
      cases hreserved : rule.kind.isReserved with
      | false => rfl
      | true => exact startsWord_eq_false_iff.2 (hwhole hreserved)
    rw [hsame] at hpos
    obtain ⟨kind, length, length_pos⟩ := l
    obtain rfl : kind = rule.kind := hkind
    obtain rfl : length = text.length := hlength
    simp [lexeme?, hsame, hpos, hstop]

end Rule

/-! ## One pass -/

/-- The number of characters behind an opening quote up to and with the closing one, if it
is there. `escaped` says that the last character was a backslash that takes the next one
with it. -/
def phraseLength? (quote : Char) (escaped : Bool) : List Char → Option Nat
  | [] => none
  | c :: cs =>
      if !escaped && c == quote then some 1
      else (phraseLength? quote (!escaped && c == '\\') cs).map (· + 1)

/-- The token that a run of word characters starts, from the character behind it. -/
def wordToken (run : List Char) (next : Option Char) : Kind × Nat :=
  if Kind.ofWord run == .word && run.all Pattern.isCapital && next == some '=' then
    (.key, run.length + 1)
  else (Kind.ofWord run, run.length)

/-- The kind and the length of the token at the start of a text, from the first character
on and without a rule that is given up for another. -/
def firstToken? : List Char → Option (Kind × Nat)
  | [] => none
  | c :: cs =>
      if isBlank c then some (.whitespace, ((c :: cs).takeWhile isBlank).length)
      else if c = '(' then some (.lparen, 1)
      else if c = ')' then some (.rparen, 1)
      else if c = '"' ∨ c = '\'' then
        (phraseLength? c false cs).map fun n => (.quoted, n + 1)
      else if isWord c then
        some (wordToken ((c :: cs).takeWhile isWord) ((c :: cs).dropWhile isWord).head?)
      else none

theorem phraseLength?_escaped (quote c : Char) (cs : List Char) :
    phraseLength? quote true (c :: cs) = (phraseLength? quote false cs).map (· + 1) := rfl

/-- The pass over a phrase and the search for its closing quote count the same characters. -/
theorem map_phraseLength? {quote : Char} (cs : List Char) (passed : Nat) :
    (phraseLength? quote false cs).map (passed + ·) = closing? quote cs passed := by
  fun_induction closing? quote cs passed with
  | case1 => rfl
  | case2 => simp [phraseLength?]
  | case3 passed hquote => simp [phraseLength?, hquote]
  | case4 passed c cs hquote ih =>
      rw [← ih, phraseLength?, if_neg (by simpa using hquote)]
      simp only [Bool.not_false, Bool.true_and, beq_self_eq_true, phraseLength?_escaped,
        Option.map_map]
      congr 1
      funext n
      simp only [Function.comp_apply]
      omega
  | case5 c cs passed hquote hback ih =>
      rw [← ih, phraseLength?, if_neg (by simpa using hquote)]
      have hflag : (c == '\\') = false := by simpa using hback
      simp only [Bool.not_false, Bool.true_and, hflag, Option.map_map]
      congr 1
      funext n
      simp only [Function.comp_apply]
      omega

/-- The pass ends where the text starts with a text of the regular expression for phrases
between quotes, and only there. -/
theorem phraseLength?_eq_some_iff {quote : Char} (hquote : quote ≠ '\\') {cs : List Char}
    {n : Nat} :
    phraseLength? quote false cs = some n ↔
      ∃ text rest, quote :: cs = text ++ rest ∧ text ∈ (Pattern.quoted quote).language ∧
        text.length = n + 1 := by
  have hclosing : phraseLength? quote false cs = some n ↔
      closing? quote cs 1 = some (1 + n) := by
    rw [← map_phraseLength? cs 1]
    cases phraseLength? quote false cs with
    | none => simp
    | some m => simp
  rw [hclosing, closing?_eq_some_iff hquote]
  constructor
  · rintro ⟨body, rest, hbody, rfl, hlength⟩
    refine ⟨quote :: body ++ [quote], rest, by simp, ?_, ?_⟩
    · exact Pattern.mem_language_iff.2 ⟨body, hbody, rfl⟩
    · simp only [List.length_append, List.length_cons, List.length_nil]
      omega
  · rintro ⟨text, rest, hcs, hmem, hlength⟩
    obtain ⟨body, hbody, rfl⟩ := Pattern.mem_language_iff.1 hmem
    refine ⟨body, rest, hbody, by simpa using hcs, ?_⟩
    simp only [List.length_append, List.length_cons, List.length_nil] at hlength
    omega

theorem map_lexeme?_of_lexes {kind : Kind} {text rest : List Char}
    (h : Lexes kind text rest) :
    (lexeme? (text ++ rest)).map (fun l => (l.kind, l.length)) =
      some (kind, text.length) := by
  obtain ⟨l, hl, rfl, hlength⟩ := h
  rw [hl, Option.map_some, hlength]

theorem head?_dropWhile {p : Char → Bool} (cs : List Char) :
    ∀ c ∈ (cs.dropWhile p).head?, p c = false := by
  intro c hc
  have := List.head?_dropWhile_not p cs
  rw [hc] at this
  simpa using this

/-- The rules for reserved words, keys and words find what the run of word characters at the
start of a text comes to. -/
theorem map_lexeme?_run {run rest : List Char} (hne : run ≠ [])
    (hrun : ∀ c ∈ run, isWord c = true) (hend : ∀ c ∈ rest.head?, isWord c = false) :
    (lexeme? (run ++ rest)).map (fun l => (l.kind, l.length)) =
      some (wordToken run rest.head?) := by
  rw [wordToken]
  rcases Kind.ofWord_spec run with ⟨hreserved, htext⟩ | ⟨hkind, hfree⟩
  · have hkind : Kind.ofWord run ≠ .word :=
      fun h => by simp [h, Kind.isReserved] at hreserved
    have hlexes := lexes_reserved hreserved hend
    rw [← htext] at hlexes
    rw [beq_false_of_ne hkind]
    exact map_lexeme?_of_lexes hlexes
  rw [hkind, beq_self_eq_true, Bool.true_and]
  split
  · rename_i hkey
    rw [Bool.and_eq_true, List.all_eq_true, beq_iff_eq] at hkey
    obtain ⟨hcapital, hequals⟩ := hkey
    obtain ⟨rest, rfl⟩ := List.head?_eq_some_iff.1 hequals
    have hspells : Kind.key.Spells (run ++ ['=']) := ⟨run, rfl, hne, hcapital, hfree⟩
    have hlexes : Lexes .key (run ++ ['=']) rest := lexes_key hspells
    have hmap := map_lexeme?_of_lexes hlexes
    rwa [List.append_assoc, List.length_append] at hmap
  · rename_i hkey
    rw [Bool.and_eq_true, List.all_eq_true, beq_iff_eq] at hkey
    refine map_lexeme?_of_lexes (lexes_word ⟨hne, hrun, hfree⟩ ⟨hend, ?_⟩)
    exact fun hcapital hequals => hkey ⟨hcapital, hequals⟩

theorem map_lexeme?_quote {quote : Char} (hquote : quote = '"' ∨ quote = '\'')
    (cs : List Char) :
    (lexeme? (quote :: cs)).map (fun l => (l.kind, l.length)) =
      (phraseLength? quote false cs).map fun n => (.quoted, n + 1) := by
  have hback : quote ≠ '\\' := by rcases hquote with rfl | rfl <;> decide
  cases hlength : phraseLength? quote false cs with
  | none =>
      have hclosing : closing? quote cs 1 = none := by
        rw [← map_phraseLength? cs 1, hlength, Option.map_none]
      rw [lexeme?_of_open hquote hclosing, Option.map_none, Option.map_none]
  | some n =>
      obtain ⟨text, rest, hcs, hmem, hn⟩ := (phraseLength?_eq_some_iff hback).1 hlength
      obtain ⟨body, hbody, rfl⟩ := Pattern.mem_language_iff.1 hmem
      rw [hcs, map_lexeme?_of_lexes (lexes_quoted ⟨quote, body, hquote, hbody, rfl⟩), hn,
        Option.map_some]

theorem firstToken?_quote {quote : Char} (hquote : quote = '"' ∨ quote = '\'')
    (cs : List Char) :
    firstToken? (quote :: cs) =
      (phraseLength? quote false cs).map fun n => (.quoted, n + 1) := by
  have hblank := classes.blank_marks _ (mem_marks_of_quote hquote)
  have hparens : quote ≠ '(' ∧ quote ≠ ')' := by rcases hquote with rfl | rfl <;> decide
  obtain ⟨hlparen, hrparen⟩ := hparens
  rw [firstToken?, if_neg (by simp [hblank]), if_neg hlparen, if_neg hrparen, if_pos hquote]

theorem map_lexeme? (cs : List Char) :
    (lexeme? cs).map (fun l => (l.kind, l.length)) = firstToken? cs := by
  cases cs with
  | nil => decide
  | cons c cs =>
      rw [firstToken?]
      split
      · rename_i hblank
        have hcs := List.takeWhile_append_dropWhile (p := isBlank) (l := c :: cs)
        have hspells : Kind.whitespace.Spells ((c :: cs).takeWhile isBlank) :=
          ⟨by simp [hblank], fun d hd => Pattern.of_mem_takeWhile hd⟩
        rw [← map_lexeme?_of_lexes (lexes_blank hspells (head?_dropWhile (c :: cs))), hcs]
      split
      · rename_i hlparen
        subst hlparen
        exact map_lexeme?_of_lexes lexes_paren.1
      split
      · rename_i hrparen
        subst hrparen
        exact map_lexeme?_of_lexes lexes_paren.2
      rename_i hblank hlparen hrparen
      split
      · rename_i hquote
        exact map_lexeme?_quote hquote cs
      split
      · rename_i hword
        have hcs := List.takeWhile_append_dropWhile (p := isWord) (l := c :: cs)
        rw [← map_lexeme?_run (by simp [hword]) (fun d hd => Pattern.of_mem_takeWhile hd)
          (head?_dropWhile (c :: cs)), hcs]
      · rename_i hquote hword
        have hnone : lexeme? (c :: cs) = none :=
          lexeme?_eq_none_iff.2
            ⟨⟨by simpa using hblank, by simpa using hword, hlparen, hrparen⟩,
              fun h => absurd h hquote⟩
        rw [hnone, Option.map_none]

/-- Whether some rules, of which the first that finds a token decides, find it at the start
of a text. -/
def Rule.FindsFirst (rules : List Rule) (cs : List Char) (l : Lexeme) : Prop :=
  ∃ earlier rule later, rules = earlier ++ rule :: later ∧ rule.Finds cs l ∧
    ∀ other ∈ earlier, ∀ l', ¬ other.Finds cs l'

theorem lexeme?_eq_some_iff_findsFirst {cs : List Char} {l : Lexeme} :
    lexeme? cs = some l ↔ Rule.FindsFirst Rule.table cs l := by
  rw [lexeme?, List.findSome?_eq_some_iff]
  constructor
  · rintro ⟨earlier, rule, later, htable, hl, hnone⟩
    refine ⟨earlier, rule, later, htable, ?_, fun other hother l' hfinds => ?_⟩
    · exact (Rule.lexeme?_eq_some_iff_finds (htable ▸ by simp)).1 hl
    · have hmem : other ∈ Rule.table := htable ▸ List.mem_append_left _ hother
      have hsome := (Rule.lexeme?_eq_some_iff_finds hmem).2 hfinds
      rw [hnone other hother] at hsome
      cases hsome
  · rintro ⟨earlier, rule, later, htable, hfinds, hnone⟩
    refine ⟨earlier, rule, later, htable, ?_, fun other hother => ?_⟩
    · exact (Rule.lexeme?_eq_some_iff_finds (htable ▸ by simp)).2 hfinds
    · have hmem : other ∈ Rule.table := htable ▸ List.mem_append_left _ hother
      refine Option.eq_none_iff_forall_ne_some.2 fun l' hl' => ?_
      exact hnone other hother l' ((Rule.lexeme?_eq_some_iff_finds hmem).1 hl')

/-- The rules in their order come to one pass over the text. In it, a quote starts the one
text of its regular expression that the text starts with, and a word is never one of the
reserved words. -/
theorem lexeme?_eq_firstToken? (cs : List Char) :
    (∀ l, lexeme? cs = some l ↔ Rule.FindsFirst Rule.table cs l) ∧
    (lexeme? cs).map (fun l => (l.kind, l.length)) = firstToken? cs ∧
    (∀ quote ∈ ['"', '\''], cs.head? = some quote → ∀ kind n,
      firstToken? cs = some (kind, n) ↔ kind = .quoted ∧ ∃ text rest, cs = text ++ rest ∧
        text ∈ (Pattern.quoted quote).language ∧ text.length = n) ∧
    (∀ quote ∈ ['"', '\''], ∀ text ∈ (Pattern.quoted quote).language,
      ∀ text' ∈ (Pattern.quoted quote).language, text <+: cs → text' <+: cs → text = text') ∧
    ∀ l, lexeme? cs = some l → l.kind = .word →
      ¬ Kind.IsReservedText (cs.take l.length) := by
  have hback : ∀ quote ∈ ['"', '\''], quote ≠ '\\' := by simp
  refine ⟨fun l => lexeme?_eq_some_iff_findsFirst, map_lexeme? cs, ?_, ?_, ?_⟩
  · intro quote hquote hhead kind n
    obtain ⟨cs, rfl⟩ := List.head?_eq_some_iff.1 hhead
    rw [firstToken?_quote (by simpa using hquote), Option.map_eq_some_iff]
    simp only [phraseLength?_eq_some_iff (hback quote hquote), Prod.mk.injEq]
    constructor
    · rintro ⟨m, ⟨text, rest, hcs, hmem, hlength⟩, rfl, rfl⟩
      exact ⟨rfl, text, rest, hcs, hmem, hlength⟩
    · rintro ⟨rfl, text, rest, hcs, hmem, hlength⟩
      have hpos := List.length_pos_iff.2 (Pattern.ne_nil_of_mem_quoted hmem)
      exact ⟨n - 1, ⟨text, rest, hcs, hmem, by omega⟩, rfl, by omega⟩
  · intro quote hquote text htext text' htext' hstart hstart'
    exact Pattern.eq_of_mem_quoted (hback quote hquote) htext htext' hstart hstart'
  · intro l hl hword
    obtain ⟨hspells, -⟩ := lexes_iff.1 (exists_lexes hl)
    rw [hword] at hspells
    exact hspells.2.2

/-- A phrase whose first inner quote is escaped, and a reserved word before an equals sign,
where a key would be longer. -/
theorem lexeme?_eq_firstToken?_escaped :
    let cs := ['\'', '\\', '\'', '\'', '\'']
    let word := ['O', 'R', '=', 'x']
    ((lexeme? cs).map (fun l => (l.kind, l.length)) = some (.quoted, 4) ∧
      ∃ text rest, cs = text ++ rest ∧ text ∈ (Pattern.quoted '\'').language ∧
        text.length = 4) ∧
    (lexeme? word).map (fun l => (l.kind, l.length)) = some (.or, 2) := by
  intro cs word
  obtain ⟨-, hpass, hquoted, -⟩ := lexeme?_eq_firstToken? cs
  have hfound : firstToken? cs = some (.quoted, 4) := by decide +kernel
  refine ⟨⟨hpass.trans hfound, ?_⟩,
    (lexeme?_eq_firstToken? word).2.1.trans (by decide +kernel)⟩
  exact ((hquoted '\'' (by decide) rfl .quoted 4).1 hfound).2

end BoolQuery
