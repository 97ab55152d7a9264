import BoolQuery.Proofs.LexFaults

/-!
# Tokens while typing

Take a text that is cut into tokens and drop all of it behind some place. The tokens that
end there or before stay as they are, since none of them asked for more than the character
behind it. What is left of a token with the place inside of it is a token of its own: of
blanks there remain blanks, and of a word, a key or a reserved word there remain word
characters, which may by now be a reserved word. Only a phrase does not survive, because a
part of a phrase never closes it (`Kind.Spells.cut`).

`Cuts.cut` finds the place among the tokens, and `ofQuery_truncated` is the outcome for
queries.
-/

namespace BoolQuery

open Text

namespace Kind

/-- The kind of what is left of a token when its end is cut off, unless it is a phrase. -/
def cutTo (kind : Kind) (text : List Char) : Kind :=
  if kind = whitespace then whitespace else ofWord text

theorem spells_cutTo_of_word {kind : Kind} {text : List Char} (hkind : kind ≠ whitespace)
    (hne : text ≠ []) (hword : ∀ c ∈ text, isWord c = true) :
    (kind.cutTo text).Spells text := by
  rw [cutTo, if_neg hkind]
  exact spells_ofWord hne hword

theorem closing?_of_part {quote : Char} (hquote : quote ≠ '\\') {body part more : List Char}
    (hbody : Phrase quote body) (hmore : more ≠ []) (h : part ++ more = body ++ [quote])
    (passed : Nat) : closing? quote part passed = none := by
  refine Option.eq_none_iff_forall_ne_some.2 fun n hn => ?_
  obtain ⟨body', rest, hbody', rfl, -⟩ := phrase_of_closing? part passed n hn
  have heq : body' ++ quote :: (rest ++ more) = body ++ quote :: [] := by simpa using h
  obtain rfl := hbody'.eq_of_append_eq hquote hbody heq
  have hnil : rest ++ more = [] := by simpa using heq
  exact hmore (List.append_eq_nil_iff.1 hnil).2

/-- What is left of the text of a token is an open phrase or a token of its own. -/
theorem Spells.cut {kind : Kind} {text more : List Char} (h : kind.Spells (text ++ more))
    (htext : text ≠ []) (hmore : more ≠ []) :
    (kind = quoted ∧ ∃ quote part, (quote = '"' ∨ quote = '\'') ∧ text = quote :: part ∧
      closing? quote part 1 = none) ∨
    kind ≠ quoted ∧ (kind.cutTo text).Spells text := by
  have hsingle : ∀ c, text ++ more ≠ [c] := by
    intro c hc
    rcases List.append_eq_singleton_iff.1 hc with ⟨hnil, -⟩ | ⟨-, hnil⟩
    · exact htext hnil
    · exact hmore hnil
  cases kind with
  | whitespace =>
      exact .inr ⟨by decide, htext, fun c hc => h.2 c (List.mem_append_left more hc)⟩
  | not | and | or =>
      refine .inr ⟨by decide, spells_cutTo_of_word (by decide) htext fun c hc => ?_⟩
      exact isWord_of_mem_reservedText _ c (h ▸ List.mem_append_left more hc)
  | lparen | rparen => exact absurd h (hsingle _)
  | key =>
      obtain ⟨name, hname, -, hcapital, -⟩ := h
      -- The equals sign is in the part that is cut off.
      obtain ⟨more, last, rfl⟩ := List.eq_nil_or_concat more |>.resolve_left hmore
      have hends : text ++ more ++ [last] = name ++ ['='] := by simpa using hname
      have hstart : text ++ more = name := (List.append_inj' hends rfl).1
      refine .inr ⟨by decide, spells_cutTo_of_word (by decide) htext fun c hc => ?_⟩
      exact Pattern.isWord_of_isCapital (hcapital c (hstart ▸ List.mem_append_left more hc))
  | quoted =>
      obtain ⟨quote, body, hquote, hbody, heq⟩ := h
      have hback : quote ≠ '\\' := by rcases hquote with rfl | rfl <;> decide
      obtain ⟨c, part, rfl⟩ := List.exists_cons_of_ne_nil htext
      obtain ⟨rfl, hpart⟩ := List.cons_eq_cons.1 heq
      exact .inl ⟨rfl, c, part, hquote, rfl, closing?_of_part hback hbody hmore hpart 1⟩
  | word =>
      refine .inr ⟨by decide, spells_cutTo_of_word (by decide) htext fun c hc => ?_⟩
      exact h.2.1 c (List.mem_append_left more hc)

end Kind

namespace Cuts

variable {position : Nat} {cs front back : List Char} {ts : List Token}

theorem start_lt_stop (h : Cuts position cs ts) : ∀ t ∈ ts, t.span.start < t.span.stop := by
  induction h with
  | nil => simp
  | cons hspells _ _ ih =>
      refine List.forall_mem_cons.2 ⟨?_, ih⟩
      have hpos := byteLength_pos hspells.ne_nil
      simp only [Token.placed]
      omega

theorem stop_le (h : Cuts position cs ts) :
    ∀ t ∈ ts, t.span.stop ≤ position + byteLength cs := by
  induction h with
  | nil => simp
  | cons _ _ _ ih =>
      rw [byteLength_append]
      refine List.forall_mem_cons.2 ⟨?_, fun t ht => ?_⟩
      · simp only [Token.placed]
        omega
      · have := ih t ht
        omega

theorem cut (h : Cuts position (front ++ back) ts) :
    (∃ fronts backs, ts = fronts ++ backs ∧ Cuts position front fronts ∧
      ∀ t ∈ backs, position + byteLength front ≤ t.span.start) ∨
    ∃ before text more kind fronts backs, front = before ++ text ∧ text ≠ [] ∧ more ≠ [] ∧
      kind.Spells (text ++ more) ∧
      ts = fronts ++ .placed kind (text ++ more) (position + byteLength before) :: backs ∧
      Cuts position before fronts ∧ LastEndsBefore fronts text.head? ∧
      ∀ t ∈ backs, position + byteLength front ≤ t.span.start := by
  generalize hcs : front ++ back = cs at h
  induction h generalizing front with
  | nil =>
      obtain ⟨rfl, rfl⟩ := List.append_eq_nil_iff.1 hcs
      exact .inl ⟨[], [], rfl, .nil, by simp⟩
  | @cons position kind text rest ts hspells hends hrest ih =>
      rcases List.append_eq_append_iff.1 hcs with ⟨more, rfl, rfl⟩ | ⟨more, rfl, rfl⟩
      · by_cases hfront : front = []
        · subst hfront
          exact .inl ⟨[], _, rfl, .nil, (cons hspells hends hrest).le_start⟩
        by_cases hmore : more = []
        · subst hmore
          rw [List.append_nil] at *
          exact .inl ⟨[_], ts, rfl, single hspells position, hrest.le_start⟩
        · refine .inr ⟨[], front, more, kind, [], ts, rfl, hfront, hmore, hspells, rfl, .nil,
            lastEndsBefore_nil _, fun t ht => ?_⟩
          have hle := hrest.le_start t ht
          rw [byteLength_append] at hle
          omega
      · have hlength : position + byteLength (text ++ more) =
            position + byteLength text + byteLength more := by
          rw [byteLength_append, Nat.add_assoc]
        rw [hlength]
        rcases ih rfl with ⟨fronts, backs, rfl, hfronts, hbacks⟩ |
          ⟨before, text', more', kind', fronts, backs, rfl, htext, hmore, hspells', rfl,
            hfronts, hlast, hbacks⟩
        · exact .inl ⟨_ :: fronts, backs, rfl, .cons hspells hends.append hfronts, hbacks⟩
        · obtain ⟨hends, hlast⟩ := (hfronts.endsBefore_append_iff text').1
            ⟨hends.append, hlast⟩
          refine .inr ⟨text ++ before, text', more', kind', _ :: fronts, backs,
            (List.append_assoc ..).symm, htext, hmore, hspells', ?_,
            .cons hspells hends hfronts, hlast, hbacks⟩
          rw [byteLength_append, ← Nat.add_assoc, List.cons_append]

end Cuts

/-! ## Queries that are cut off -/

def TokenStream.upTo (s : TokenStream) (stop : Nat) : List Token :=
  s.merged.filter fun t => t.span.stop ≤ stop

theorem Cuts.merged_eq {query : String} {ts : List Token} (h : Cuts 0 query.toList ts) :
    ∃ s, TokenStream.ofQuery query = .ok s ∧ s.merged = ts :=
  ⟨_, h.ofQuery_eq, TokenStream.merged_ofTokens _ h.ascending⟩

section Places

variable {fronts backs : List Token} {stop : Nat}

theorem filter_stop_le (hfronts : ∀ t ∈ fronts, t.span.stop ≤ stop)
    (hbacks : ∀ t ∈ backs, stop < t.span.stop) :
    (fronts ++ backs).filter (fun t => t.span.stop ≤ stop) = fronts := by
  have hkept : fronts.filter (fun t => t.span.stop ≤ stop) = fronts :=
    List.filter_eq_self.2 fun t ht => decide_eq_true (hfronts t ht)
  have hdropped : backs.filter (fun t => t.span.stop ≤ stop) = [] :=
    List.filter_eq_nil_iff.2 fun t ht => by simpa using hbacks t ht
  rw [List.filter_append, hkept, hdropped, List.append_nil]

theorem not_across (hfronts : ∀ t ∈ fronts, t.span.stop ≤ stop)
    (hbacks : ∀ t ∈ backs, stop ≤ t.span.start) {x : Token} (hx : x ∈ fronts ++ backs) :
    ¬ (x.span.start < stop ∧ stop < x.span.stop) := by
  rcases List.mem_append.1 hx with hx | hx
  · have := hfronts x hx
    omega
  · have := hbacks x hx
    omega

end Places

/-- What becomes of a token when the text is cut off inside of it, with the tokens before
it and what is left of its own text. -/
theorem Cuts.ofQuery_inside {front : String} {before text more : List Char} {kind : Kind}
    {fronts : List Token} (hfront : front.toList = before ++ text) (htext : text ≠ [])
    (hmore : more ≠ []) (hspells : kind.Spells (text ++ more))
    (hfronts : Cuts 0 before fronts) (hlast : LastEndsBefore fronts text.head?) :
    (kind = .quoted → ∃ quote, text.head? = some quote ∧
      TokenStream.ofQuery front = .error (.unterminated quote (byteLength before))) ∧
    (kind ≠ .quoted → ∃ s, TokenStream.ofQuery front = .ok s ∧
      s.merged = fronts ++ [.placed (kind.cutTo text) text (byteLength before)]) := by
  rcases hspells.cut htext hmore with
    ⟨hkind, quote, part, hquote, rfl, hopen⟩ | ⟨hkind, hleft⟩
  · refine ⟨fun _ => ⟨quote, rfl, ?_⟩, fun h => absurd hkind h⟩
    have hstuck := scanFrom_of_stuck hfronts hlast (lexeme?_of_open hquote hopen)
    rw [Nat.zero_add, LexError.atChar, if_pos hquote, ← hfront] at hstuck
    exact TokenStream.ofQuery_eq_error_iff.2 hstuck
  · refine ⟨fun h => absurd h hkind, fun _ => ?_⟩
    have hcuts := hfronts.snoc hlast hleft
    rw [Nat.zero_add, ← hfront] at hcuts
    exact hcuts.merged_eq

/-- A query that is cut off anywhere is cut into the tokens before the place and what is left
of the token around it, which is a token as well if it is not a phrase. A phrase is left
open. -/
theorem ofQuery_truncated {query : String} {s : TokenStream} {stop : Nat}
    (hs : TokenStream.ofQuery query = .ok s)
    (hstop : (String.Pos.Raw.mk stop).IsValid query) :
    ∃ front back : String, query = front ++ back ∧ front.utf8ByteSize = stop ∧
      ((∀ x ∈ s.merged, ¬ (x.span.start < stop ∧ stop < x.span.stop)) →
        ∃ s', TokenStream.ofQuery front = .ok s' ∧ s'.merged = s.upTo stop) ∧
      ∀ x ∈ s.merged, x.span.start < stop → stop < x.span.stop →
        (x.kind = .quoted → ∃ quote, x.text.toList.head? = some quote ∧
          TokenStream.ofQuery front = .error (.unterminated quote x.span.start)) ∧
        (x.kind ≠ .quoted → ∃ s' t, TokenStream.ofQuery front = .ok s' ∧
          s'.merged = s.upTo stop ++ [t] ∧ t.span = ⟨x.span.start, stop⟩ ∧
          t.span.slice? query.toList = some t.text.toList ∧
          t.kind = x.kind.cutTo t.text.toList) := by
  obtain ⟨front, back, rfl, hend⟩ := String.Pos.Raw.isValid_iff_exists_append.1 hstop
  obtain rfl : stop = front.utf8ByteSize := congrArg String.Pos.Raw.byteIdx hend
  obtain ⟨ts, hcuts, rfl⟩ := TokenStream.ofQuery_eq_ok_iff.1 hs
  have hmerged := TokenStream.merged_ofTokens (front ++ back).utf8ByteSize hcuts.ascending
  have hlonger := hcuts.start_lt_stop
  have hlength := byteLength_toList front
  rw [String.toList_append] at hcuts ⊢
  refine ⟨front, back, rfl, rfl, ?_⟩
  rw [TokenStream.upTo, hmerged]
  rcases hcuts.cut with ⟨fronts, backs, rfl, hfronts, hbacks⟩ |
    ⟨before, text, more, kind, fronts, backs, hfront, htext, hmore, hspells, rfl, hfronts,
      hlast, hbacks⟩
  · have hstops := hfronts.stop_le
    rw [Nat.zero_add, hlength] at hbacks hstops
    refine ⟨fun _ => ?_, fun x hx hstart hstop => ?_⟩
    · obtain ⟨s', hs', hmerged'⟩ := hfronts.merged_eq
      have hbehind : ∀ t ∈ backs, front.utf8ByteSize < t.span.stop := fun t ht =>
        Nat.lt_of_le_of_lt (hbacks t ht) (hlonger t (List.mem_append_right fronts ht))
      exact ⟨s', hs', by rw [hmerged', filter_stop_le hstops hbehind]⟩
    · exact absurd ⟨hstart, hstop⟩ (not_across hstops hbacks hx)
  · rw [Nat.zero_add] at hbacks ⊢
    rw [hlength] at hbacks
    have hsize : byteLength before + byteLength text = front.utf8ByteSize := by
      rw [← hlength, hfront, byteLength_append]
    have hstops : ∀ t ∈ fronts, t.span.stop ≤ front.utf8ByteSize := fun t ht => by
      have := hfronts.stop_le t ht
      omega
    obtain ⟨hstart, hstop⟩ : byteLength before < front.utf8ByteSize ∧
        front.utf8ByteSize < byteLength before + byteLength (text ++ more) := by
      have htextPos := byteLength_pos htext
      have hmorePos := byteLength_pos hmore
      rw [byteLength_append]
      omega
    have hkept : (fronts ++ .placed kind (text ++ more) (byteLength before) :: backs).filter
        (fun t => t.span.stop ≤ front.utf8ByteSize) = fronts := by
      refine filter_stop_le hstops (List.forall_mem_cons.2 ⟨hstop, fun t ht => ?_⟩)
      exact Nat.lt_of_le_of_lt (hbacks t ht) (hlonger t (by simp [ht]))
    obtain ⟨hopen, hleft⟩ := Cuts.ofQuery_inside hfront htext hmore hspells hfronts hlast
    refine ⟨fun hnone => ?_, fun x hx hxstart hxstop => ?_⟩
    · refine absurd ⟨hstart, hstop⟩
        (hnone (.placed kind (text ++ more) (byteLength before)) ?_)
      exact List.mem_append_right fronts List.mem_cons_self
    obtain rfl : x = .placed kind (text ++ more) (byteLength before) := by
      refine Classical.byContradiction fun hne => ?_
      have hx : x ∈ fronts ++ backs := by simpa [hne] using hx
      exact not_across hstops hbacks hx ⟨hxstart, hxstop⟩
    refine ⟨fun hkind => ?_, fun hkind => ?_⟩
    · obtain ⟨quote, hquote, herror⟩ := hopen hkind
      exact ⟨quote, by simp [Token.placed, List.head?_append, hquote], herror⟩
    · obtain ⟨s', hs', hmerged'⟩ := hleft hkind
      refine ⟨s', .placed (kind.cutTo text) text (byteLength before), hs', ?_, ?_, ?_, ?_⟩
      · rw [hmerged', hkept]
      · rw [Token.placed, hsize]
        rfl
      · exact Span.slice?_eq_some_iff.2
          ⟨before, back.toList, by simp [Token.placed, hfront], by simp [Token.placed]⟩
      · simp [Token.placed]

/-- A key that is cut off leaves a reserved word, and a phrase is left open, at a place that
is further on in bytes than in characters. -/
theorem ofQuery_truncated_key :
    let query := "é ORDER= 'ab'"
    let s : TokenStream :=
      ⟨[⟨.word, "é", ⟨0, 2⟩⟩, ⟨.key, "ORDER=", ⟨3, 9⟩⟩, ⟨.quoted, "'ab'", ⟨10, 14⟩⟩],
        [⟨.whitespace, " ", ⟨2, 3⟩⟩, ⟨.whitespace, " ", ⟨9, 10⟩⟩], 14⟩
    TokenStream.ofQuery query = .ok s ∧
    (∃ front back, query = front ++ back ∧ front.utf8ByteSize = 5 ∧
      ∃ s' t, TokenStream.ofQuery front = .ok s' ∧ s'.merged = s.upTo 5 ++ [t] ∧
        t.span = ⟨3, 5⟩ ∧ t.kind = .or) ∧
    ∃ front back, query = front ++ back ∧ front.utf8ByteSize = 12 ∧
      TokenStream.ofQuery front = .error (.unterminated '\'' 10) := by
  intro query s
  have hs : TokenStream.ofQuery query = .ok s := eq_ok_of_toOption (by decide +kernel)
  have hkey : ⟨.key, "ORDER=", ⟨3, 9⟩⟩ ∈ s.merged := s.merged_perm.symm.subset (by simp [s])
  have hphrase : ⟨.quoted, "'ab'", ⟨10, 14⟩⟩ ∈ s.merged :=
    s.merged_perm.symm.subset (by simp [s])
  refine ⟨hs, ?_, ?_⟩
  · have hplace : (String.Pos.Raw.mk 5).IsValid query := by decide +kernel
    obtain ⟨front, back, hquery, hsize, -, hacross⟩ := ofQuery_truncated hs hplace
    obtain ⟨s', t, hs', hmerged, hspan, hslice, hkind⟩ :=
      (hacross _ hkey (by decide) (by decide)).2 (by decide)
    have hleft : (Span.mk 3 5).slice? query.toList = some ['O', 'R'] := by decide +kernel
    have htext : ['O', 'R'] = t.text.toList :=
      Option.some.inj (hleft.symm.trans (hspan ▸ hslice))
    rw [← htext] at hkind
    exact ⟨front, back, hquery, hsize, s', t, hs', hmerged, hspan, hkind⟩
  · have hplace : (String.Pos.Raw.mk 12).IsValid query := by decide +kernel
    obtain ⟨front, back, hquery, hsize, -, hacross⟩ := ofQuery_truncated hs hplace
    obtain ⟨quote, hquote, herror⟩ := (hacross _ hphrase (by decide) (by decide)).1 rfl
    obtain rfl : '\'' = quote := Option.some.inj hquote
    exact ⟨front, back, hquery, hsize, herror⟩

end BoolQuery
