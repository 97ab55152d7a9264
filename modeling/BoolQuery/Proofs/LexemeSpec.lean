import BoolQuery.Text.Classes
import BoolQuery.Token.Rule

/-!
# Which token stands at the start of a text

The rules for cutting tokens are tried in turn, each with its own way of searching.
This file says what they come to together, without an order of rules: `Spells`
gives the texts of each kind, and `EndsBefore` the one character of look-ahead by
which a token of that text stays whole. `lexes_iff` puts the two together: a text
starts with a token exactly if the token is spelt right and what comes behind does
not make it longer or turn it into something else.

Most of the work is the run of word characters at the start of a text. A reserved
word is found exactly if it is that whole run (`lexeme?_reserved`), so a rule for a
reserved word never gets in the way of a key or a word that only starts like one.
-/

namespace BoolQuery

open Text

theorem Pattern.isWord_of_isCapital {c : Char} (h : isCapital c = true) :
    isWord c = true := by
  simp only [isCapital, Bool.and_eq_true, decide_eq_true_eq] at h
  exact classes.capitals c h.1 h.2

theorem takeWhile_append_eq {p : Char → Bool} {run rest : List Char}
    (hrun : ∀ c ∈ run, p c = true) (hrest : ∀ c ∈ rest.head?, p c = false) :
    (run ++ rest).takeWhile p = run := by
  rw [List.takeWhile_append_of_pos hrun]
  cases rest with
  | nil => simp
  | cons c rest => simp [hrest c rfl]

theorem head?_of_takeWhile_append {p : Char → Bool} {run rest : List Char}
    (h : (run ++ rest).takeWhile p = run) : ∀ c ∈ rest.head?, p c = false := by
  intro c hc
  have hrun : ∀ d ∈ run, p d = true := by
    intro d hd
    rw [← h] at hd
    exact Pattern.of_mem_takeWhile hd
  rw [List.takeWhile_append_of_pos hrun] at h
  cases rest with
  | nil => simp at hc
  | cons d rest =>
      obtain rfl : d = c := by simpa using hc
      rw [← Bool.not_eq_true]
      intro hp
      simp [hp] at h

theorem head?_of_length_takeWhile {p : Char → Bool} {run rest : List Char}
    (h : run.length = ((run ++ rest).takeWhile p).length) :
    ∀ c ∈ rest.head?, p c = false := by
  have htake : (run ++ rest).takeWhile p = run := by
    rw [← Pattern.take_takeWhile p (run ++ rest), ← h, List.take_left]
  exact head?_of_takeWhile_append htake

namespace Kind

/-- The characters of a reserved word. -/
def reservedText : Kind → List Char
  | not => ['N', 'O', 'T']
  | and => ['A', 'N', 'D']
  | or => ['O', 'R']
  | _ => []

theorem reservedText_pos {kind : Kind} (h : kind.isReserved = true) :
    0 < kind.reservedText.length := by
  cases kind <;> simp_all [isReserved, reservedText]

theorem isWord_of_mem_reservedText (kind : Kind) :
    ∀ c ∈ kind.reservedText, isWord c = true := by
  have hall : kind.reservedText.all Pattern.isCapital = true := by cases kind <;> rfl
  exact fun c hc => Pattern.isWord_of_isCapital (List.all_eq_true.1 hall c hc)

/-- Whether a text is one of the reserved words. -/
def IsReservedText (text : List Char) : Prop :=
  text = not.reservedText ∨ text = and.reservedText ∨ text = or.reservedText

/-- The kind of a word: the one that it is reserved for, if it is. -/
def ofWord (text : List Char) : Kind :=
  if text = not.reservedText then not
  else if text = and.reservedText then and
  else if text = or.reservedText then or
  else word

theorem ofWord_spec (text : List Char) :
    ((ofWord text).isReserved = true ∧ text = (ofWord text).reservedText) ∨
      (ofWord text = word ∧ ¬ IsReservedText text) := by
  rw [ofWord]
  split
  · exact .inl ⟨rfl, by assumption⟩
  split
  · exact .inl ⟨rfl, by assumption⟩
  split
  · exact .inl ⟨rfl, by assumption⟩
  rename_i hnot hand hor
  refine .inr ⟨rfl, ?_⟩
  rintro (h | h | h)
  · exact hnot h
  · exact hand h
  · exact hor h

/-- The texts of the tokens of a kind. -/
def Spells : Kind → List Char → Prop
  | whitespace, text => text ≠ [] ∧ ∀ c ∈ text, isBlank c = true
  | lparen, text => text = ['(']
  | rparen, text => text = [')']
  | key, text => ∃ name, text = name ++ ['='] ∧ name ≠ [] ∧
      (∀ c ∈ name, Pattern.isCapital c = true) ∧ ¬ IsReservedText name
  | quoted, text => ∃ quote body, (quote = '"' ∨ quote = '\'') ∧ Phrase quote body ∧
      text = quote :: body ++ [quote]
  | word, text => text ≠ [] ∧ (∀ c ∈ text, isWord c = true) ∧ ¬ IsReservedText text
  | not, text => text = not.reservedText
  | and, text => text = and.reservedText
  | or, text => text = or.reservedText

theorem spells_ofWord {text : List Char} (hne : text ≠ [])
    (hword : ∀ c ∈ text, isWord c = true) : (ofWord text).Spells text := by
  rcases ofWord_spec text with ⟨hreserved, htext⟩ | ⟨hkind, hfree⟩
  · revert hreserved htext
    cases ofWord text <;> simp [isReserved, Spells]
  · rw [hkind]
    exact ⟨hne, hword, hfree⟩

/-- Whether a token of a kind and a text ends before a character, or at the end. -/
def EndsBefore (kind : Kind) (text : List Char) (next : Option Char) : Prop :=
  match kind with
  | whitespace => ∀ c ∈ next, isBlank c = false
  | not | and | or => ∀ c ∈ next, isWord c = false
  | word => (∀ c ∈ next, isWord c = false) ∧
      ((∀ c ∈ text, Pattern.isCapital c = true) → next ≠ some '=')
  | lparen | rparen | key | quoted => True

end Kind

/-- Whether a text starts with a token of a kind. -/
def Lexes (kind : Kind) (text rest : List Char) : Prop :=
  ∃ l, lexeme? (text ++ rest) = some l ∧ l.kind = kind ∧ l.length = text.length

namespace Rule

theorem lexeme?_eq_none {kind : Kind} {pattern : Pattern} {cs : List Char}
    (h : pattern.length cs = 0) : (Rule.mk kind pattern).lexeme? cs = none := by
  simp [lexeme?, h]

theorem lexeme?_eq_some (kind : Kind) {pattern : Pattern} {cs : List Char} {n : Nat}
    (h : pattern.length cs = n) (hn : 0 < n) (hkind : kind.isReserved = false) :
    (Rule.mk kind pattern).lexeme? cs = some ⟨kind, n, hn⟩ := by
  simp [lexeme?, h, hn, hkind]

theorem lexeme?_exactly_cons {kind : Kind} {a c : Char} {text cs : List Char} (h : a ≠ c) :
    (Rule.mk kind (.exactly (a :: text))).lexeme? (c :: cs) = none :=
  lexeme?_eq_none (by simp [Pattern.length, h])

/-- A reserved word is found exactly if it is the whole run of word characters. -/
theorem lexeme?_reserved (kind : Kind) (cs : List Char) (hkind : kind.isReserved = true) :
    (Rule.mk kind (.exactly kind.reservedText)).lexeme? cs =
      if cs.takeWhile isWord = kind.reservedText then
        some ⟨kind, kind.reservedText.length, Kind.reservedText_pos hkind⟩
      else none := by
  have hword := Kind.isWord_of_mem_reservedText kind
  have hpos := Kind.reservedText_pos hkind
  by_cases hpre : kind.reservedText <+: cs
  · obtain ⟨more, rfl⟩ := hpre
    have hlen : (Pattern.exactly kind.reservedText).length (kind.reservedText ++ more) =
        kind.reservedText.length := by
      simp [Pattern.length]
    simp only [lexeme?, hlen, hpos, hkind, dif_pos, Bool.true_and, List.drop_left]
    cases more with
    | nil =>
        rw [if_neg (by simp [startsWord]),
          if_pos (takeWhile_append_eq hword (fun c hc => by simp at hc))]
    | cons c more =>
        by_cases hc : isWord c = true
        · rw [if_pos (by simpa [startsWord] using hc), if_neg]
          intro heq
          have := head?_of_takeWhile_append heq c rfl
          simp [hc] at this
        · rw [if_neg (by simpa [startsWord] using hc), if_pos]
          exact takeWhile_append_eq hword (fun d hd => by
            obtain rfl : c = d := by simpa using hd
            simpa using hc)
  · have hlen : (Pattern.exactly kind.reservedText).length cs = 0 := by
      simp [Pattern.length, hpre]
    rw [lexeme?_eq_none hlen, if_neg]
    intro heq
    exact hpre (heq ▸ List.takeWhile_prefix _)

/-- Where no word starts that is reserved, the rules for reserved words are of no
account. -/
theorem findSome?_table_of_not_reserved {c : Char} {cs : List Char}
    (hblank : isBlank c = false)
    (hrun : ¬ Kind.IsReservedText ((c :: cs).takeWhile isWord)) :
    BoolQuery.lexeme? (c :: cs) =
      [⟨.lparen, .exactly ['(']⟩, ⟨.rparen, .exactly [')']⟩, ⟨.key, .key⟩,
        ⟨.quoted, .quoted '"'⟩, ⟨.quoted, .quoted '\''⟩, ⟨.word, .word⟩].findSome?
          fun rule : Rule => rule.lexeme? (c :: cs) := by
  have hblanks : (Rule.mk .whitespace .blanks).lexeme? (c :: cs) = none :=
    lexeme?_eq_none (by simp [Pattern.length, hblank])
  have hnot := lexeme?_reserved .not (c :: cs) rfl
  have hand := lexeme?_reserved .and (c :: cs) rfl
  have hor := lexeme?_reserved .or (c :: cs) rfl
  rw [if_neg (fun h => hrun (.inl h))] at hnot
  rw [if_neg (fun h => hrun (.inr (.inl h)))] at hand
  rw [if_neg (fun h => hrun (.inr (.inr h)))] at hor
  simp only [Kind.reservedText] at hnot hand hor
  simp only [BoolQuery.lexeme?, table, List.findSome?_cons, hblanks, hnot, hand, hor]

theorem lexeme?_of_reserved {kind : Kind} {cs : List Char} (hkind : kind.isReserved = true)
    (hrun : cs.takeWhile isWord = kind.reservedText) :
    BoolQuery.lexeme? cs =
      some ⟨kind, kind.reservedText.length, Kind.reservedText_pos hkind⟩ := by
  have hblanks : (Rule.mk .whitespace .blanks).lexeme? cs = none := by
    refine lexeme?_eq_none ?_
    cases cs with
    | nil => rfl
    | cons c cs =>
        have hc : isWord c = true := by
          rw [← Bool.not_eq_false]
          intro hc
          have hpos := Kind.reservedText_pos hkind
          rw [← hrun, List.takeWhile_cons_of_neg (by simp [hc])] at hpos
          exact absurd hpos (by simp)
        simp [Pattern.length, isBlank_of_isWord hc]
  have hnot := lexeme?_reserved .not cs rfl
  have hand := lexeme?_reserved .and cs rfl
  have hor := lexeme?_reserved .or cs rfl
  rw [hrun] at hnot hand hor
  simp only [BoolQuery.lexeme?, table, List.findSome?_cons, hblanks]
  cases kind with
  | not | and | or =>
      simp only [Kind.reservedText] at hnot hand hor ⊢
      simp [hnot, hand, hor]
  | whitespace | lparen | rparen | key | quoted | word => simp [Kind.isReserved] at hkind

end Rule

open Rule

theorem lexes_reserved {kind : Kind} {rest : List Char} (hkind : kind.isReserved = true)
    (hend : ∀ c ∈ rest.head?, isWord c = false) : Lexes kind kind.reservedText rest :=
  ⟨_, lexeme?_of_reserved hkind
    (takeWhile_append_eq (Kind.isWord_of_mem_reservedText kind) hend), rfl, rfl⟩

theorem not_isReservedText_nil : ¬ Kind.IsReservedText [] := by
  rintro (h | h | h) <;> simp [Kind.reservedText] at h

theorem lexes_blank {text rest : List Char} (h : Kind.whitespace.Spells text)
    (hend : ∀ c ∈ rest.head?, isBlank c = false) : Lexes .whitespace text rest := by
  have hlen : Pattern.blanks.length (text ++ rest) = text.length := by
    rw [Pattern.length, takeWhile_append_eq h.2 hend]
  have hfound := lexeme?_eq_some .whitespace hlen (List.length_pos_iff.2 h.1) rfl
  refine ⟨⟨.whitespace, text.length, List.length_pos_iff.2 h.1⟩, ?_, rfl, rfl⟩
  simp only [lexeme?, table, List.findSome?_cons, hfound]

/-- The rules behind those for reserved words start from characters of their own. -/
theorem lexeme?_of_not_word {c : Char} {cs : List Char} (hblank : isBlank c = false)
    (hword : isWord c = false) :
    lexeme? (c :: cs) =
      [⟨.lparen, .exactly ['(']⟩, ⟨.rparen, .exactly [')']⟩, ⟨.quoted, .quoted '"'⟩,
        ⟨.quoted, .quoted '\''⟩].findSome? fun rule : Rule => rule.lexeme? (c :: cs) := by
  have hrun : (c :: cs).takeWhile isWord = [] := List.takeWhile_cons_of_neg (by simp [hword])
  have hcapital : Pattern.isCapital c = false := by
    rw [← Bool.not_eq_true]
    intro h
    rw [Pattern.isWord_of_isCapital h] at hword
    exact absurd hword (by simp)
  have hkey : (Rule.mk .key .key).lexeme? (c :: cs) = none :=
    lexeme?_eq_none (by simp [Pattern.length, hcapital])
  have hlast : (Rule.mk .word .word).lexeme? (c :: cs) = none :=
    lexeme?_eq_none (by rw [Pattern.length, hrun]; rfl)
  rw [findSome?_table_of_not_reserved hblank (hrun ▸ not_isReservedText_nil)]
  simp only [List.findSome?_cons, List.findSome?_nil, hkey, hlast]

theorem lexeme?_of_mark {c : Char} {cs : List Char} (hmark : c ∈ marks) :
    lexeme? (c :: cs) =
      [⟨.lparen, .exactly ['(']⟩, ⟨.rparen, .exactly [')']⟩, ⟨.quoted, .quoted '"'⟩,
        ⟨.quoted, .quoted '\''⟩].findSome? fun rule : Rule => rule.lexeme? (c :: cs) :=
  lexeme?_of_not_word (classes.blank_marks c hmark) (classes.word_marks c hmark)

theorem lexes_paren {rest : List Char} :
    Lexes .lparen ['('] rest ∧ Lexes .rparen [')'] rest := by
  constructor
  · refine ⟨⟨.lparen, 1, by omega⟩, ?_, rfl, rfl⟩
    rw [List.singleton_append, lexeme?_of_mark (by decide)]
    simp [Rule.lexeme?, Pattern.length, Kind.isReserved]
  · refine ⟨⟨.rparen, 1, by omega⟩, ?_, rfl, rfl⟩
    rw [List.singleton_append, lexeme?_of_mark (by decide)]
    simp [Rule.lexeme?, Pattern.length, Kind.isReserved]

theorem length_quoted {quote : Char} {body rest : List Char} (hquote : quote ≠ '\\')
    (hbody : Phrase quote body) :
    (Pattern.quoted quote).length (quote :: (body ++ quote :: rest)) = body.length + 2 := by
  simp only [Pattern.length, if_true, closing?_phrase hquote hbody, Option.getD_some]
  omega

theorem lexes_quoted {text rest : List Char} (h : Kind.quoted.Spells text) :
    Lexes .quoted text rest := by
  obtain ⟨quote, body, hquote, hbody, rfl⟩ := h
  have happend : quote :: body ++ [quote] ++ rest = quote :: (body ++ quote :: rest) := by
    simp
  have hlen : (Pattern.quoted quote).length (quote :: (body ++ quote :: rest)) =
      body.length + 2 := by
    refine length_quoted ?_ hbody
    rcases hquote with rfl | rfl <;> decide
  have hfound := lexeme?_eq_some .quoted hlen (by omega) rfl
  refine ⟨⟨.quoted, body.length + 2, by omega⟩, ?_, rfl, by simp⟩
  rw [happend]
  rcases hquote with rfl | rfl
  · rw [lexeme?_of_mark (by decide)]
    simp [lexeme?_exactly_cons, hfound]
  · have hother :
        (Rule.mk .quoted (.quoted '"')).lexeme? ('\'' :: (body ++ '\'' :: rest)) = none :=
      lexeme?_eq_none (by simp [Pattern.length])
    rw [lexeme?_of_mark (by decide)]
    simp [lexeme?_exactly_cons, hother, hfound]

/-- Only the last two kinds of token start with a word character and are not reserved. -/
theorem lexeme?_of_word {c : Char} {cs : List Char} (hword : isWord c = true)
    (hrun : ¬ Kind.IsReservedText ((c :: cs).takeWhile isWord)) :
    lexeme? (c :: cs) =
      [⟨.key, .key⟩, ⟨.word, .word⟩].findSome? fun rule : Rule =>
        rule.lexeme? (c :: cs) := by
  have hne : ∀ d ∈ marks, d ≠ c := fun d hd => (classes.ne_mark_of_word hword hd).symm
  have hquoted : ∀ d ∈ marks, (Rule.mk .quoted (.quoted d)).lexeme? (c :: cs) = none :=
    fun d hd => lexeme?_eq_none (by simp [Pattern.length, (hne d hd).symm])
  rw [findSome?_table_of_not_reserved (isBlank_of_isWord hword) hrun]
  simp only [List.findSome?_cons, List.findSome?_nil,
    lexeme?_exactly_cons (hne '(' (by decide)), lexeme?_exactly_cons (hne ')' (by decide)),
    hquoted '"' (by decide), hquoted '\'' (by decide)]

theorem lexes_key {text rest : List Char} (h : Kind.key.Spells text) :
    Lexes .key text rest := by
  obtain ⟨name, rfl, hne, hcapital, hfree⟩ := h
  have hnames : (name ++ '=' :: rest).takeWhile Pattern.isCapital = name :=
    takeWhile_append_eq hcapital (fun c hc => by
      obtain rfl : '=' = c := by simpa using hc
      decide)
  have hrun : (name ++ '=' :: rest).takeWhile isWord = name :=
    takeWhile_append_eq (fun c hc => Pattern.isWord_of_isCapital (hcapital c hc))
      (fun c hc => by
        obtain rfl : '=' = c := by simpa using hc
        exact classes.word_marks _ (by decide))
  have hlen : Pattern.key.length (name ++ '=' :: rest) = name.length + 1 := by
    simp [Pattern.length, hnames, hne]
  have hfound := lexeme?_eq_some .key hlen (by omega) rfl
  refine ⟨⟨.key, name.length + 1, by omega⟩, ?_, rfl, by simp⟩
  rw [List.append_assoc, List.singleton_append]
  cases name with
  | nil => exact absurd rfl hne
  | cons c name =>
      have hword := Pattern.isWord_of_isCapital (hcapital c (by simp))
      rw [List.cons_append] at hrun hfound ⊢
      rw [lexeme?_of_word hword (by rwa [hrun])]
      simp only [List.findSome?_cons, hfound]

/-- A key at the start of a run of word characters would have to be all of the run,
with the equals sign behind it. -/
theorem length_key_eq_zero {text rest : List Char}
    (hrun : (text ++ rest).takeWhile isWord = text)
    (hend : (∀ c ∈ text, Pattern.isCapital c = true) → rest.head? ≠ some '=') :
    Pattern.key.length (text ++ rest) = 0 := by
  rw [Pattern.length]
  refine if_neg ?_
  rintro ⟨-, hnext⟩
  generalize hname : (text ++ rest).takeWhile Pattern.isCapital = name at hnext
  obtain ⟨more, hmore⟩ : name <+: text ++ rest := hname ▸ List.takeWhile_prefix _
  rw [← hmore, List.drop_left] at hnext
  have hcapital : ∀ c ∈ name, Pattern.isCapital c = true := by
    intro c hc
    rw [← hname] at hc
    exact Pattern.of_mem_takeWhile hc
  have heq : name = text := by
    rw [← hrun, ← hmore, takeWhile_append_eq
      (fun c hc => Pattern.isWord_of_isCapital (hcapital c hc))]
    intro c hc
    rw [hnext] at hc
    obtain rfl : '=' = c := by simpa using hc
    exact classes.word_marks _ (by decide)
  subst heq
  rw [List.append_cancel_left hmore] at hnext
  exact hend hcapital hnext

theorem lexes_word {text rest : List Char} (h : Kind.word.Spells text)
    (hend : Kind.word.EndsBefore text rest.head?) : Lexes .word text rest := by
  obtain ⟨hne, hword, hfree⟩ := h
  have hrun : (text ++ rest).takeWhile isWord = text := takeWhile_append_eq hword hend.1
  have hlen : Pattern.word.length (text ++ rest) = text.length := by
    rw [Pattern.length, hrun]
  have hfound := lexeme?_eq_some .word hlen (List.length_pos_iff.2 hne) rfl
  have hkey := length_key_eq_zero hrun hend.2
  refine ⟨⟨.word, text.length, List.length_pos_iff.2 hne⟩, ?_, rfl, rfl⟩
  cases text with
  | nil => exact absurd rfl hne
  | cons c text =>
      rw [List.cons_append] at hrun hfound hkey ⊢
      rw [lexeme?_of_word (hword c (by simp)) (by rwa [hrun])]
      simp only [List.findSome?_cons, lexeme?_eq_none hkey, hfound]

/-- A token that is spelt right and ends before what follows is found. -/
theorem lexes_of_spells {kind : Kind} {text rest : List Char} (h : kind.Spells text)
    (hend : kind.EndsBefore text rest.head?) : Lexes kind text rest := by
  cases kind with
  | whitespace => exact lexes_blank h hend
  | not | and | or =>
      obtain rfl := h
      exact lexes_reserved rfl hend
  | lparen =>
      obtain rfl := h
      exact lexes_paren.1
  | rparen =>
      obtain rfl := h
      exact lexes_paren.2
  | key => exact lexes_key h
  | quoted => exact lexes_quoted h
  | word => exact lexes_word h hend

/-! ## Nothing else is found

The rule that applies gives the language of the text. That no earlier rule should
have been the one to apply follows from the direction above, because a text starts
with one token only. -/

theorem Pattern.length_le (pattern : Pattern) (cs : List Char) :
    pattern.length cs ≤ cs.length := by
  cases pattern with
  | blanks | word => exact (List.takeWhile_prefix _).length_le
  | exactly text =>
      simp only [length]
      split
      · rename_i hpre
        exact (List.isPrefixOf_iff_prefix.1 hpre).length_le
      · exact Nat.zero_le _
  | key =>
      simp only [length]
      split
      · rename_i hkey
        have hdrop : (cs.drop (cs.takeWhile isCapital).length) ≠ [] := by
          intro hnil
          rw [hnil] at hkey
          simp at hkey
        have := List.length_pos_iff.2 hdrop
        rw [List.length_drop] at this
        omega
      · exact Nat.zero_le _
  | quoted quote =>
      cases cs with
      | nil => exact Nat.le_refl _
      | cons c cs =>
          simp only [length]
          split
          · cases hclose : closing? quote cs 1 with
            | none => simp
            | some n =>
                obtain ⟨body, rest, -, rfl, rfl⟩ := phrase_of_closing? cs 1 n hclose
                simp
                omega
          · exact Nat.zero_le _

/-- A text starts with one token only. -/
theorem Lexes.unique {kind kind' : Kind} {text text' rest rest' : List Char}
    (h : Lexes kind text rest) (h' : Lexes kind' text' rest')
    (heq : text ++ rest = text' ++ rest') : kind = kind' ∧ text = text' ∧ rest = rest' := by
  obtain ⟨l, hl, rfl, hlen⟩ := h
  obtain ⟨l', hl', rfl, hlen'⟩ := h'
  rw [heq, hl', Option.some.injEq] at hl
  subst hl
  obtain ⟨htext, hrest⟩ := List.append_inj heq (hlen.symm.trans hlen')
  exact ⟨rfl, htext, hrest⟩

theorem Rule.of_lexeme?_eq_some {rule : Rule} {cs : List Char} {l : Lexeme}
    (h : rule.lexeme? cs = some l) :
    l.kind = rule.kind ∧ l.length = rule.pattern.length cs ∧
      (rule.kind.isReserved = true → startsWord (cs.drop l.length) = false) := by
  simp only [Rule.lexeme?] at h
  split at h
  · split at h
    · simp at h
    · rename_i hstop
      injection h with h
      subst h
      refine ⟨rfl, rfl, fun hkind => ?_⟩
      simpa [hkind] using hstop
  · simp at h

theorem exists_lexes {cs : List Char} {l : Lexeme} (h : lexeme? cs = some l) :
    Lexes l.kind (cs.take l.length) (cs.drop l.length) := by
  refine ⟨l, by rw [List.take_append_drop, h], rfl, ?_⟩
  obtain ⟨rule, _, hrule⟩ := List.exists_of_findSome?_eq_some h
  rw [List.length_take, (of_lexeme?_eq_some hrule).2.1,
    Nat.min_eq_left (rule.pattern.length_le cs)]

theorem not_startsWord {cs : List Char} (h : startsWord cs = false) :
    ∀ c ∈ cs.head?, isWord c = false := by
  intro c hc
  cases cs with
  | nil => simp at hc
  | cons d cs =>
      obtain rfl : d = c := by simpa using hc
      exact h

/-- A reserved word that ends a run of word characters is a token of its own kind. -/
theorem not_isReservedText {kind : Kind} {text cs rest rest' : List Char}
    (h : Lexes kind cs rest) (hkind : kind.isReserved = false)
    (heq : cs ++ rest = text ++ rest') (hend : ∀ c ∈ rest'.head?, isWord c = false) :
    ¬ Kind.IsReservedText text := by
  have hne : ∀ {k : Kind}, k.isReserved = true → text ≠ k.reservedText := by
    rintro k hk rfl
    obtain ⟨rfl, -⟩ := h.unique (lexes_reserved hk hend) heq
    rw [hk] at hkind
    exact absurd hkind (by simp)
  rintro (h | h | h)
  · exact hne (k := .not) rfl h
  · exact hne (k := .and) rfl h
  · exact hne (k := .or) rfl h

theorem spells_of_lexes {kind : Kind} {text rest : List Char} (h : Lexes kind text rest) :
    kind.Spells text ∧ kind.EndsBefore text rest.head? := by
  have hlexes := h
  obtain ⟨l, hl, rfl, hlen⟩ := h
  obtain ⟨⟨kind, pattern⟩, hmem, hrule⟩ := List.exists_of_findSome?_eq_some hl
  obtain ⟨hkind, hlength, hstop⟩ := of_lexeme?_eq_some hrule
  simp only at hkind hlength hstop
  rw [hkind] at hlexes ⊢
  rw [hlen] at hlength
  rw [hlen, List.drop_left] at hstop
  have hpos : 0 < pattern.length (text ++ rest) := by
    rw [← hlength, ← hlen]
    exact l.length_pos
  have haccepts := Pattern.accepts_take hpos
  rw [← hlength, List.take_left] at haccepts
  simp only [table, List.mem_cons, Rule.mk.injEq, List.not_mem_nil, or_false] at hmem
  rcases hmem with ⟨rfl, rfl⟩ | ⟨rfl, rfl⟩ | ⟨rfl, rfl⟩ | ⟨rfl, rfl⟩ | ⟨rfl, rfl⟩ |
    ⟨rfl, rfl⟩ | ⟨rfl, rfl⟩ | ⟨rfl, rfl⟩ | ⟨rfl, rfl⟩ | ⟨rfl, rfl⟩
  · exact ⟨haccepts, head?_of_length_takeWhile hlength⟩
  · exact ⟨haccepts, not_startsWord (hstop rfl)⟩
  · exact ⟨haccepts, not_startsWord (hstop rfl)⟩
  · exact ⟨haccepts, not_startsWord (hstop rfl)⟩
  · exact ⟨haccepts, trivial⟩
  · exact ⟨haccepts, trivial⟩
  · obtain ⟨name, hne, hcapital, rfl⟩ := haccepts
    have hend : ∀ c ∈ ('=' :: rest).head?, isWord c = false := by
      intro c hc
      obtain rfl : '=' = c := by simpa using hc
      exact classes.word_marks _ (by decide)
    exact ⟨⟨name, rfl, hne, hcapital, not_isReservedText hlexes rfl (by simp) hend⟩, trivial⟩
  · obtain ⟨body, hbody, rfl⟩ := haccepts
    exact ⟨⟨_, body, .inl rfl, hbody, rfl⟩, trivial⟩
  · obtain ⟨body, hbody, rfl⟩ := haccepts
    exact ⟨⟨_, body, .inr rfl, hbody, rfl⟩, trivial⟩
  · have hend := head?_of_length_takeWhile (p := isWord) hlength
    have hfree := not_isReservedText hlexes rfl rfl hend
    refine ⟨⟨haccepts.1, haccepts.2, hfree⟩, hend, fun hcapital hnext => ?_⟩
    cases rest with
    | nil => simp at hnext
    | cons c rest =>
        obtain rfl : c = '=' := by simpa using hnext
        have hkey : Kind.key.Spells (text ++ ['=']) :=
          ⟨text, rfl, haccepts.1, hcapital, hfree⟩
        have hlonger : Lexes .key (text ++ ['=']) rest := lexes_key hkey
        exact absurd (hlexes.unique hlonger (by simp)).1 (by simp)

/-- A text starts with a token exactly if the token is spelt right and ends before
what follows. -/
theorem lexes_iff {kind : Kind} {text rest : List Char} :
    Lexes kind text rest ↔ kind.Spells text ∧ kind.EndsBefore text rest.head? :=
  ⟨spells_of_lexes, fun h => lexes_of_spells h.1 h.2⟩

end BoolQuery
