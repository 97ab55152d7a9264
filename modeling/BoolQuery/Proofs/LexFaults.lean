import BoolQuery.Proofs.Slices

/-!
# Where cutting stops

A scan that fails has cut all of the text up to some character, and no rule applies at
that character (`scanFrom_eq_error_iff`). The tokens before it were found with the
character in sight, so what they ask of the rest is asked of this one character only:
`LastEndsBefore` keeps it beside the cutting of the front, and the rest of the text can be
exchanged for any other (`Cuts.scanFrom_append`).

The character at fault is either one that starts no token whatever follows, or a quote.
A quote is at fault if the search for its partner ran to the end of the text, and there are
two ways in which it can have done so: with a whole phrase behind the quote, or with a
backslash left over that waits for the character it escapes (`closing?_eq_none_iff`). One
more quote closes the phrase in the first case. In the second it is escaped, and it is the
quote after it that closes.
-/

namespace BoolQuery

open Text

/-! ## Text with something behind it -/

/-- Whether the last of some tokens ends before a character, or at the end. -/
def LastEndsBefore (ts : List Token) (next : Option Char) : Prop :=
  ∀ t ∈ ts.getLast?, t.kind.EndsBefore t.text.toList next

theorem lastEndsBefore_nil (next : Option Char) : LastEndsBefore [] next := by
  intro t ht
  simp at ht

/-- Tokens end before what is behind them all if the first ends before the others with it
behind them, and the others do. -/
theorem Cuts.endsBefore_append_iff {position start : Nat} {kind : Kind}
    {text rest : List Char} {ts : List Token} (hrest : Cuts start rest ts) (ds : List Char) :
    kind.EndsBefore text (rest ++ ds).head? ∧ LastEndsBefore ts ds.head? ↔
      kind.EndsBefore text rest.head? ∧
        LastEndsBefore (.placed kind text position :: ts) ds.head? := by
  cases hrest with
  | nil =>
      have hend : kind.EndsBefore text none := by
        cases kind <;> simp [Kind.EndsBefore]
      simp [LastEndsBefore, Token.placed, hend]
  | @cons _ kind' text' rest' ts hspells _ _ =>
      obtain ⟨c, cs, rfl⟩ := List.exists_cons_of_ne_nil hspells.ne_nil
      simp [LastEndsBefore, List.getLast?_cons_cons]

theorem Cuts.scanFrom_append {position : Nat} {cs : List Char} {ts : List Token}
    (h : Cuts position cs ts) (ds : List Char) (hlast : LastEndsBefore ts ds.head?) :
    Token.scanFrom position (cs ++ ds) [] =
      (Token.scanFrom (position + byteLength cs) ds []).map (ts ++ ·) := by
  induction h with
  | nil =>
      simp only [List.nil_append, byteLength_nil, Nat.add_zero]
      cases Token.scanFrom _ ds [] <;> rfl
  | @cons position kind text rest ts hspells hends hrest ih =>
      obtain ⟨hends, hlast⟩ := (hrest.endsBefore_append_iff ds).2 ⟨hends, hlast⟩
      rw [List.append_assoc, scanFrom_of_lexes (lexes_of_spells hspells hends), ih hlast,
        byteLength_append, Nat.add_assoc]
      cases Token.scanFrom _ ds [] <;> rfl

theorem Cuts.snoc {position : Nat} {cs text : List Char} {kind : Kind} {ts : List Token}
    (h : Cuts position cs ts) (hlast : LastEndsBefore ts text.head?)
    (hspells : kind.Spells text) :
    Cuts position (cs ++ text) (ts ++ [.placed kind text (position + byteLength cs)]) := by
  refine cuts_of_scanFrom ?_
  rw [h.scanFrom_append text hlast, scanFrom_of_cuts (single hspells _)]
  rfl

theorem scanFrom_of_stuck {position : Nat} {front back : List Char} {c : Char}
    {ts : List Token} (h : Cuts position front ts) (hlast : LastEndsBefore ts (some c))
    (hnone : lexeme? (c :: back) = none) :
    Token.scanFrom position (front ++ c :: back) [] =
      .error (.atChar c (position + byteLength front)) := by
  rw [h.scanFrom_append (c :: back) hlast, Token.scanFrom_cons, hnone]
  rfl

/-- Every text is made of tokens, all of it or up to a character at which no rule
applies. -/
theorem exists_cuts (position : Nat) (cs : List Char) :
    (∃ ts, Cuts position cs ts) ∨
      ∃ front c back ts, cs = front ++ c :: back ∧ Cuts position front ts ∧
        LastEndsBefore ts (some c) ∧ lexeme? (c :: back) = none := by
  induction hlen : cs.length using Nat.strongRecOn generalizing position cs with
  | ind n ih =>
      cases cs with
      | nil => exact .inl ⟨[], .nil⟩
      | cons c cs =>
          cases hl : lexeme? (c :: cs) with
          | none => exact .inr ⟨[], c, cs, [], rfl, .nil, lastEndsBefore_nil _, hl⟩
          | some l =>
              obtain ⟨hspells, hends⟩ := lexes_iff.1 (exists_lexes hl)
              have hcs := List.take_append_drop l.length (c :: cs)
              generalize (c :: cs).take l.length = text at hspells hends hcs
              generalize (c :: cs).drop l.length = rest at hends hcs
              rw [← hcs] at hlen ⊢
              have hpos := List.length_pos_iff.2 hspells.ne_nil
              rw [List.length_append] at hlen
              rcases ih rest.length (by omega) (position + byteLength text) rest rfl with
                ⟨ts, hts⟩ | ⟨front, d, back, ts, rfl, hfront, hlast, hnone⟩
              · exact .inl ⟨_, .cons hspells hends hts⟩
              · obtain ⟨hends, hlast⟩ :=
                  (hfront.endsBefore_append_iff (d :: back)).1 ⟨hends, hlast⟩
                exact .inr ⟨text ++ front, d, back, _, (List.append_assoc ..).symm,
                  .cons hspells hends hfront, hlast, hnone⟩

/-- A scan fails exactly where the text is made of tokens up to a character at which no
rule applies. -/
theorem scanFrom_eq_error_iff {position : Nat} {cs : List Char} {e : LexError} :
    Token.scanFrom position cs [] = .error e ↔
      ∃ front c back ts, cs = front ++ c :: back ∧ Cuts position front ts ∧
        LastEndsBefore ts (some c) ∧ lexeme? (c :: back) = none ∧
        e = .atChar c (position + byteLength front) := by
  constructor
  · intro h
    rcases exists_cuts position cs with
      ⟨ts, hts⟩ | ⟨front, c, back, ts, rfl, hcuts, hlast, hnone⟩
    · rw [scanFrom_of_cuts hts] at h
      cases h
    · rw [scanFrom_of_stuck hcuts hlast hnone] at h
      injection h with h
      exact ⟨front, c, back, ts, rfl, hcuts, hlast, hnone, h.symm⟩
  · rintro ⟨front, c, back, ts, rfl, hcuts, hlast, hnone, rfl⟩
    exact scanFrom_of_stuck hcuts hlast hnone

/-! ## Characters at which no rule applies -/

theorem Rule.length_eq_zero {rule : Rule} {cs : List Char} (h : rule.lexeme? cs = none)
    (hkind : rule.kind.isReserved = false) : rule.pattern.length cs = 0 := by
  rcases Nat.eq_zero_or_pos (rule.pattern.length cs) with hzero | hpos
  · exact hzero
  · rw [lexeme?_eq_some rule.kind rfl hpos hkind] at h
    cases h

theorem length_quoted_eq_zero_iff {quote c : Char} {cs : List Char} :
    (Pattern.quoted quote).length (c :: cs) = 0 ↔
      (c = quote → closing? quote cs 1 = none) := by
  by_cases hc : c = quote
  · cases hclose : closing? quote cs 1 with
    | none => simp [Pattern.length, hc, hclose]
    | some n =>
        obtain ⟨body, rest, -, -, rfl⟩ := phrase_of_closing? cs 1 n hclose
        simp [Pattern.length, hc, hclose]
  · simp [Pattern.length, hc]

/-- No token starts with a character exactly if none of its sort does and, for a quote,
the search for its partner finds nothing. -/
theorem lexeme?_eq_none_iff {c : Char} {cs : List Char} :
    lexeme? (c :: cs) = none ↔
      (isBlank c = false ∧ isWord c = false ∧ c ≠ '(' ∧ c ≠ ')') ∧
        (c = '"' ∨ c = '\'' → closing? c cs 1 = none) := by
  constructor
  · intro h
    have hrules := List.findSome?_eq_none_iff.1 h
    have hlength : ∀ rule ∈ Rule.table, rule.kind.isReserved = false →
        rule.pattern.length (c :: cs) = 0 :=
      fun rule hmem hkind => Rule.length_eq_zero (hrules rule hmem) hkind
    simp only [Rule.table, List.forall_mem_cons] at hlength
    obtain ⟨hblanks, -, -, -, hlparen, hrparen, -, hdouble, hsingle, hword, -⟩ := hlength
    have hdouble := length_quoted_eq_zero_iff.1 (hdouble rfl)
    have hsingle := length_quoted_eq_zero_iff.1 (hsingle rfl)
    refine ⟨⟨?_, ?_, ?_, ?_⟩, ?_⟩
    · simpa [Pattern.length, List.takeWhile_cons] using hblanks rfl
    · simpa [Pattern.length, List.takeWhile_cons] using hword rfl
    · rintro rfl
      simpa [Pattern.length] using hlparen rfl
    · rintro rfl
      simpa [Pattern.length] using hrparen rfl
    · rintro (rfl | rfl)
      · exact hdouble rfl
      · exact hsingle rfl
  · rintro ⟨⟨hblank, hword, hlparen, hrparen⟩, hclose⟩
    have hquoted : ∀ quote, quote = '"' ∨ quote = '\'' →
        (Rule.mk .quoted (.quoted quote)).lexeme? (c :: cs) = none := by
      intro quote hquote
      refine Rule.lexeme?_eq_none (length_quoted_eq_zero_iff.2 ?_)
      rintro rfl
      exact hclose hquote
    rw [lexeme?_of_not_word hblank hword]
    simp only [List.findSome?_cons, List.findSome?_nil,
      Rule.lexeme?_exactly_cons hlparen.symm, Rule.lexeme?_exactly_cons hrparen.symm,
      hquoted _ (.inl rfl), hquoted _ (.inr rfl)]

/-! ## Phrases without an end -/

theorem Phrase.append {quote : Char} {body more : List Char} (h : Phrase quote body)
    (hmore : Phrase quote more) : Phrase quote (body ++ more) := by
  induction h with
  | nil => exact hmore
  | plain hquote hback _ ih => exact .plain hquote hback ih
  | escaped _ ih => exact .escaped ih

theorem Phrase.closing?_append {quote : Char} (hquote : quote ≠ '\\') {body : List Char}
    (h : Phrase quote body) (rest : List Char) (passed : Nat) :
    closing? quote (body ++ rest) passed = closing? quote rest (passed + body.length) := by
  induction h generalizing passed with
  | nil => rfl
  | @plain c cs hq hb _ ih =>
      rw [List.cons_append, closing?.eq_def]
      simp only [hq, hb, if_false, ih, List.length_cons]
      congr 1
      omega
  | @escaped c cs _ ih =>
      rw [List.cons_append, List.cons_append, closing?.eq_def]
      simp only [hquote.symm, if_false, if_true, ih, List.length_cons]
      congr 1
      omega

/-- The closing quote is missing exactly behind a whole phrase, and behind a phrase and a
backslash. -/
theorem closing?_eq_none_iff {quote : Char} (hquote : quote ≠ '\\') {cs : List Char}
    {passed : Nat} :
    closing? quote cs passed = none ↔
      Phrase quote cs ∨ ∃ body, Phrase quote body ∧ cs = body ++ ['\\'] := by
  constructor
  · intro h
    fun_induction closing? quote cs passed with
    | case1 => exact .inl .nil
    | case2 => cases h
    | case3 passed => exact .inr ⟨[], .nil, rfl⟩
    | case4 c passed hq cs ih =>
        rcases ih h with hcs | ⟨body, hbody, rfl⟩
        · exact .inl (.escaped hcs)
        · exact .inr ⟨_, .escaped hbody, rfl⟩
    | case5 c cs passed hq hb ih =>
        rcases ih h with hcs | ⟨body, hbody, rfl⟩
        · exact .inl (.plain hq hb hcs)
        · exact .inr ⟨_, .plain hq hb hbody, rfl⟩
  · rintro (h | ⟨body, hbody, rfl⟩)
    · rw [← List.append_nil cs, h.closing?_append hquote]
      rfl
    · rw [hbody.closing?_append hquote, closing?.eq_def]
      simp [hquote.symm]

/-! ## Errors of queries -/

theorem Cuts.snoc_quoted {front body : List Char} {quote : Char} {ts : List Token}
    (h : Cuts 0 front ts) (hlast : LastEndsBefore ts (some quote))
    (hquote : quote = '"' ∨ quote = '\'') (hbody : Phrase quote body) :
    Cuts 0 (front ++ (quote :: body ++ [quote]))
      (ts ++ [.placed .quoted (quote :: body ++ [quote]) (byteLength front)]) := by
  have hspells : Kind.quoted.Spells (quote :: body ++ [quote]) :=
    ⟨quote, body, hquote, hbody, rfl⟩
  rw [← Nat.zero_add (byteLength front)]
  exact h.snoc hlast hspells

/-- Whether a query is cut into tokens of which the last is a phrase that goes from a
position to the end. -/
def EndsInPhrase (query : String) (position : Nat) : Prop :=
  ∃ s t, TokenStream.ofQuery query = .ok s ∧ s.merged.getLast? = some t ∧ t.kind = .quoted ∧
    t.span = ⟨position, query.utf8ByteSize⟩

theorem endsInPhrase_of_cuts {query : String} {ts : List Token} {text : List Char}
    {position : Nat} (h : Cuts 0 query.toList (ts ++ [.placed .quoted text position])) :
    EndsInPhrase query position := by
  have hlast : (ts ++ [Token.placed .quoted text position]).getLast? =
      some (.placed .quoted text position) := List.getLast?_concat
  have hstop := h.stop_eq hlast
  rw [Nat.zero_add, byteLength_toList] at hstop
  refine ⟨_, .placed .quoted text position, h.ofQuery_eq, ?_,
    rfl, ?_⟩
  · rw [TokenStream.merged_ofTokens _ h.ascending]
    exact hlast
  · rw [← hstop]
    rfl

theorem TokenStream.ofQuery_eq_error_iff {query : String} {e : LexError} :
    ofQuery query = .error e ↔ Token.scanFrom 0 query.toList [] = .error e := by
  rw [ofQuery, Token.scan]
  cases Token.scanFrom 0 query.toList [] with
  | error e' => simp [Except.map]
  | ok ts => simp [Except.map]

theorem not_exists_ofQuery {query : String} {e : LexError}
    (h : Token.scanFrom 0 query.toList [] = .error e) :
    ¬ ∃ s, TokenStream.ofQuery query = .ok s := by
  rintro ⟨s, hs⟩
  rw [TokenStream.ofQuery_eq_error_iff.2 h] at hs
  cases hs

theorem lexeme?_of_open {quote : Char} {cs : List Char} (hquote : quote = '"' ∨ quote = '\'')
    (hclose : closing? quote cs 1 = none) : lexeme? (quote :: cs) = none := by
  have hmark := mem_marks_of_quote hquote
  refine lexeme?_eq_none_iff.2
    ⟨⟨classes.blank_marks _ hmark, classes.word_marks _ hmark, ?_⟩, fun _ => hclose⟩
  rcases hquote with rfl | rfl <;> decide

/-- One more quote or two more close a phrase without an end, and not both do. -/
theorem Cuts.closes_once {query : String} {front back : List Char} {quote : Char}
    {ts : List Token} (h : Cuts 0 front ts) (hlast : LastEndsBefore ts (some quote))
    (hquote : quote = '"' ∨ quote = '\'') (hclose : closing? quote back 1 = none)
    (hquery : query.toList = front ++ quote :: back) :
    EndsInPhrase (query.push quote) (byteLength front) ∧
        ¬ (∃ s, TokenStream.ofQuery ((query.push quote).push quote) = .ok s) ∨
      ¬ (∃ s, TokenStream.ofQuery (query.push quote) = .ok s) ∧
        EndsInPhrase ((query.push quote).push quote) (byteLength front) := by
  have hback : quote ≠ '\\' := by rcases hquote with rfl | rfl <;> decide
  have hone : (query.push quote).toList = front ++ (quote :: back ++ [quote]) := by
    simp [String.toList_push, hquery]
  have htwo : ((query.push quote).push quote).toList =
      front ++ (quote :: back ++ [quote]) ++ [quote] := by
    simp [String.toList_push, hquery]
  rcases (closing?_eq_none_iff hback).1 hclose with hphrase | ⟨body, hbody, rfl⟩
  · -- The first quote closes, and the second opens a phrase at the end of the text.
    have hcuts := h.snoc_quoted hlast hquote hphrase
    refine .inl ⟨?_, ?_⟩
    · rw [← hone] at hcuts
      exact endsInPhrase_of_cuts hcuts
    · refine not_exists_ofQuery (htwo ▸ scanFrom_of_stuck hcuts ?_ ?_)
      · intro t ht
        rw [List.getLast?_concat] at ht
        obtain rfl := Option.some.inj ht
        trivial
      · exact lexeme?_of_open hquote rfl
  · -- The first quote is escaped, which leaves the phrase open for the second.
    have hphrase : Phrase quote (body ++ ['\\', quote]) := hbody.append (.escaped .nil)
    have hopen : closing? quote (body ++ ['\\', quote]) 1 = none :=
      (closing?_eq_none_iff hback).2 (.inl hphrase)
    have hcuts := h.snoc_quoted hlast hquote hphrase
    refine .inr ⟨?_, ?_⟩
    · have hstuck := scanFrom_of_stuck h hlast (lexeme?_of_open hquote hopen)
      rw [show front ++ quote :: (body ++ ['\\', quote]) = (query.push quote).toList by
        rw [hone]; simp] at hstuck
      exact not_exists_ofQuery hstuck
    · rw [show front ++ (quote :: (body ++ ['\\', quote]) ++ [quote]) =
          ((query.push quote).push quote).toList by rw [htwo]; simp] at hcuts
      exact endsInPhrase_of_cuts hcuts

/-- Why no token starts at the end of `front`, where an error stands. -/
def LexError.Cause (front back : String) : LexError → Prop
  | .unexpected ch position =>
      (isBlank ch = false ∧ isWord ch = false ∧ ch ∉ ['(', ')', '"', '\'']) ∧
        ∀ more : String, TokenStream.ofQuery (front ++ String.singleton ch ++ more) =
          .error (.unexpected ch position)
  | .unterminated quote position =>
      let query := front ++ String.singleton quote ++ back
      (quote = '"' ∨ quote = '\'') ∧
        (EndsInPhrase (query.push quote) position ∧
            ¬ (∃ s, TokenStream.ofQuery ((query.push quote).push quote) = .ok s) ∨
          ¬ (∃ s, TokenStream.ofQuery (query.push quote) = .ok s) ∧
            EndsInPhrase ((query.push quote).push quote) position)

theorem LexError.char_atChar (ch : Char) (position : Nat) :
    (atChar ch position).char = ch := by
  rw [atChar]
  split <;> rfl

theorem LexError.position_atChar (ch : Char) (position : Nat) :
    (atChar ch position).position = position := by
  rw [atChar]
  split <;> rfl

/-- A lexical error stands at one character of the query. What is before it can be cut into
tokens, and the character is at fault: one that starts no token is so whatever follows, and
a quote is so because one or two more quotes are missing at the end. -/
theorem lexError_cause {query : String} {e : LexError}
    (h : TokenStream.ofQuery query = .error e) :
    ∃ front back : String, query = front ++ String.singleton e.char ++ back ∧
      e.position = front.utf8ByteSize ∧ e.position < query.utf8ByteSize ∧
      e.span.slice? query.toList = some [e.char] ∧
      (∃ s, TokenStream.ofQuery front = .ok s) ∧ e.Cause front back := by
  obtain ⟨front, c, back, ts, hquery, hcuts, hlast, hnone, rfl⟩ :=
    scanFrom_eq_error_iff.1 (TokenStream.ofQuery_eq_error_iff.1 h)
  obtain ⟨⟨hblank, hword, hlparen, hrparen⟩, hclose⟩ := lexeme?_eq_none_iff.1 hnone
  have hwhole : query = String.ofList front ++ String.singleton c ++ String.ofList back := by
    rw [← String.toList_inj, hquery]
    simp
  have hposition : (String.ofList front).utf8ByteSize = byteLength front := by
    rw [← byteLength_toList, String.toList_ofList]
  rw [Nat.zero_add, LexError.char_atChar, LexError.position_atChar]
  refine ⟨String.ofList front, String.ofList back, hwhole, hposition.symm, ?_, ?_, ?_, ?_⟩
  · have hpos := c.utf8Size_pos
    rw [← byteLength_toList, hquery, byteLength_append, byteLength_cons]
    omega
  · refine Span.slice?_eq_some_iff.2 ⟨front, back, by simp [hquery], ?_⟩
    rw [LexError.span, LexError.char_atChar, LexError.position_atChar]
    simp
  · rw [← String.toList_ofList (l := front)] at hcuts
    exact ⟨_, hcuts.ofQuery_eq⟩
  · by_cases hquote : c = '"' ∨ c = '\''
    · rw [LexError.atChar, if_pos hquote, LexError.Cause, ← hwhole]
      exact ⟨hquote, hcuts.closes_once hlast hquote (hclose hquote) hquery⟩
    · rw [LexError.atChar, if_neg hquote, LexError.Cause]
      refine ⟨⟨hblank, hword, by simpa [hlparen, hrparen] using hquote⟩, fun more => ?_⟩
      have hmore : lexeme? (c :: more.toList) = none :=
        lexeme?_eq_none_iff.2 ⟨⟨hblank, hword, hlparen, hrparen⟩, fun hq => absurd hq hquote⟩
      have hstuck := scanFrom_of_stuck hcuts hlast hmore
      rw [Nat.zero_add, LexError.atChar, if_neg hquote] at hstuck
      refine TokenStream.ofQuery_eq_error_iff.2 ?_
      simpa using hstuck

theorem eq_error_of_match {ε α : Type} {x : Except ε α} {e : ε}
    (h : (match x with | .ok _ => none | .error e' => some e') = some e) : x = .error e := by
  cases x with
  | ok a => cases h
  | error e' =>
      injection h with h
      rw [h]

/-- A phrase that ends in a backslash, and an equals sign behind a reserved word, which it
does not make a key. -/
theorem lexError_cause_backslash :
    let query := "é AND \"b\\"
    let e : LexError := .unterminated '"' 7
    let other := "NOT=''"
    let e' : LexError := .unexpected '=' 3
    (TokenStream.ofQuery query = .error e ∧
      ∃ front back : String, query = front ++ String.singleton e.char ++ back ∧
        e.position = front.utf8ByteSize ∧ e.position < query.utf8ByteSize ∧
        e.span.slice? query.toList = some [e.char] ∧
        (∃ s, TokenStream.ofQuery front = .ok s) ∧ e.Cause front back) ∧
    (TokenStream.ofQuery other = .error e' ∧
      ∃ front back : String, other = front ++ String.singleton e'.char ++ back ∧
        e'.position = front.utf8ByteSize ∧ e'.position < other.utf8ByteSize ∧
        e'.span.slice? other.toList = some [e'.char] ∧
        (∃ s, TokenStream.ofQuery front = .ok s) ∧ e'.Cause front back) := by
  intro query e other e'
  have hopen : TokenStream.ofQuery query = .error e := eq_error_of_match (by decide +kernel)
  have hequals : TokenStream.ofQuery other = .error e' :=
    eq_error_of_match (by decide +kernel)
  exact ⟨⟨hopen, lexError_cause hopen⟩, hequals, lexError_cause hequals⟩

end BoolQuery
