import BoolQuery.Analysis
import BoolQuery.Proofs.LexemeSpec

/-!
# Tokens cover the query

`Cuts` says what a scan is, by the shape of the text alone: a text at some position
is cut into tokens by cutting one token that is spelt right and ends where it
should, and by cutting the rest at the position behind it. `scanFrom_eq_ok_iff`
says that a scan succeeds with some tokens exactly if they are such a cutting.

All that is said here of the tokens of a query goes by induction over its cutting.
Positions move by the bytes of each text, so every range falls between characters
and the ranges lie end to end. What a stream keeps apart in two groups comes back
in the same order, since no token is empty and no two have the same start. Where
there is no cutting, the query is shown as one piece, which covers it as well.
-/

namespace BoolQuery

open Text

/-! ## Cuttings -/

/-- A token of a kind with a text that stands at a position. -/
def Token.placed (kind : Kind) (text : List Char) (position : Nat) : Token :=
  ⟨kind, String.ofList text, ⟨position, position + byteLength text⟩⟩

/-- A text that stands at a position is made of tokens. -/
inductive Cuts : Nat → List Char → List Token → Prop where
  | nil {position : Nat} : Cuts position [] []
  | cons {position : Nat} {kind : Kind} {text rest : List Char} {ts : List Token} :
      kind.Spells text → kind.EndsBefore text rest.head? →
      Cuts (position + byteLength text) rest ts →
      Cuts position (text ++ rest) (.placed kind text position :: ts)

theorem Kind.Spells.ne_nil {kind : Kind} {text : List Char} (h : kind.Spells text) :
    text ≠ [] := by
  cases kind with
  | whitespace | word => exact h.1
  | not | and | or | lparen | rparen => simp [show text = _ from h, Kind.reservedText]
  | key =>
      obtain ⟨name, rfl, -⟩ := h
      simp
  | quoted =>
      obtain ⟨quote, body, -, -, rfl⟩ := h
      simp

theorem scanFrom_of_lexes {kind : Kind} {text rest : List Char} (h : Lexes kind text rest)
    (position : Nat) :
    Token.scanFrom position (text ++ rest) [] =
      (Token.scanFrom (position + byteLength text) rest []).map
        (Token.placed kind text position :: ·) := by
  obtain ⟨l, hl, rfl, hlen⟩ := h
  cases hcs : text ++ rest with
  | nil =>
      have hpos := l.length_pos
      rw [hlen, (List.append_eq_nil_iff.1 hcs).1] at hpos
      exact absurd hpos (by simp)
  | cons c cs =>
      have htoken : Token.ofLexeme l position (c :: cs) = .placed l.kind text position := by
        rw [Token.ofLexeme, hlen, ← hcs, List.take_left]
        rfl
      rw [hcs] at hl
      rw [Token.scanFrom_cons, hl]
      simp only [htoken]
      rw [← hcs, hlen, List.drop_left]
      rfl

theorem scanFrom_of_cuts {position : Nat} {cs : List Char} {ts : List Token}
    (h : Cuts position cs ts) : Token.scanFrom position cs [] = .ok ts := by
  induction h with
  | nil => exact Token.scanFrom_nil _ _
  | cons hspells hends _ ih =>
      rw [scanFrom_of_lexes (lexes_of_spells hspells hends), ih]
      rfl

theorem cuts_of_scanFrom {position : Nat} {cs : List Char} {ts : List Token}
    (h : Token.scanFrom position cs [] = .ok ts) : Cuts position cs ts := by
  induction hlen : cs.length using Nat.strongRecOn generalizing position cs ts with
  | ind n ih =>
      cases cs with
      | nil =>
          rw [Token.scanFrom_nil] at h
          injection h with h
          rw [← h]
          exact .nil
      | cons c cs =>
          cases hl : lexeme? (c :: cs) with
          | none =>
              rw [Token.scanFrom_cons, hl] at h
              simp at h
          | some l =>
              have hlexes := exists_lexes hl
              obtain ⟨hspells, hends⟩ := lexes_iff.1 hlexes
              have hcs := List.take_append_drop l.length (c :: cs)
              generalize (c :: cs).take l.length = text at hlexes hspells hends hcs
              generalize (c :: cs).drop l.length = rest at hlexes hends hcs
              rw [← hcs] at h hlen ⊢
              rw [scanFrom_of_lexes hlexes] at h
              cases hrest : Token.scanFrom (position + byteLength text) rest [] with
              | error e =>
                  rw [hrest] at h
                  simp [Except.map] at h
              | ok us =>
                  rw [hrest] at h
                  injection h with h
                  rw [← h]
                  have hpos := List.length_pos_iff.2 hspells.ne_nil
                  refine .cons hspells hends (ih rest.length ?_ hrest rfl)
                  rw [List.length_append] at hlen
                  omega

/-- A scan succeeds exactly with the cuttings of the text. -/
theorem scanFrom_eq_ok_iff {position : Nat} {cs : List Char} {ts : List Token} :
    Token.scanFrom position cs [] = .ok ts ↔ Cuts position cs ts :=
  ⟨cuts_of_scanFrom, scanFrom_of_cuts⟩

/-! ## The ranges of a cutting -/

/-- Ranges lie end to end from one position to another. -/
def Span.Tile : Nat → List Span → Nat → Prop
  | start, [], stop => start = stop
  | start, s :: rest, stop => s.start = start ∧ Span.Tile s.stop rest stop

/-- Pieces of text with their ranges make up a text: none is empty, each is what the
text has in its range, and the ranges lie end to end from the start of the text to
its end, without ever falling inside of a character. -/
structure Covers (source : String) (pieces : List (String × Span)) : Prop where
  nonempty : ∀ p ∈ pieces, p.1 ≠ ""
  sliced : ∀ p ∈ pieces, p.2.slice? source.toList = some p.1.toList
  boundary : ∀ p ∈ pieces, (String.Pos.Raw.mk p.2.start).IsValid source ∧
    (String.Pos.Raw.mk p.2.stop).IsValid source
  tile : Span.Tile 0 (pieces.map fun p => p.2) source.utf8ByteSize

namespace Cuts

variable {position : Nat} {cs : List Char} {ts : List Token}

theorem tile (h : Cuts position cs ts) :
    Span.Tile position (ts.map fun t => t.span) (position + byteLength cs) := by
  induction h with
  | nil => rfl
  | cons _ _ _ ih =>
      refine ⟨rfl, ?_⟩
      rw [byteLength_append, ← Nat.add_assoc]
      exact ih

theorem text_eq (h : Cuts position cs ts) : cs = ts.flatMap fun t => t.text.toList := by
  induction h with
  | nil => rfl
  | cons _ _ _ ih =>
      rw [List.flatMap_cons, ← ih]
      simp [Token.placed]

theorem spells (h : Cuts position cs ts) : ∀ t ∈ ts, t.kind.Spells t.text.toList := by
  induction h with
  | nil => simp
  | cons hspells _ _ ih =>
      intro t ht
      rcases List.mem_cons.1 ht with rfl | ht
      · simpa [Token.placed] using hspells
      · exact ih t ht

theorem slice?_eq (h : Cuts position cs ts) (before : List Char)
    (hbefore : byteLength before = position) :
    ∀ t ∈ ts, t.span.slice? (before ++ cs) = some t.text.toList := by
  induction h generalizing before with
  | nil => simp
  | @cons position kind text rest ts _ _ _ ih =>
      intro t ht
      rcases List.mem_cons.1 ht with rfl | ht
      · refine Span.slice?_eq_some_iff.2 ⟨before, rest, ?_, ?_⟩
        · simp [Token.placed]
        · simp [Token.placed, hbefore]
      · have hslice := ih (before ++ text) (by rw [byteLength_append, hbefore]) t ht
        rwa [List.append_assoc] at hslice

theorem le_start (h : Cuts position cs ts) : ∀ t ∈ ts, position ≤ t.span.start := by
  induction h with
  | nil => simp
  | cons _ _ _ ih =>
      intro t ht
      rcases List.mem_cons.1 ht with rfl | ht
      · exact Nat.le_refl _
      · have := ih t ht
        omega

theorem ascending (h : Cuts position cs ts) :
    ts.Pairwise fun a b => a.span.start < b.span.start := by
  induction h with
  | nil => exact .nil
  | @cons position kind text rest ts hspells _ hrest ih =>
      refine .cons (fun t ht => ?_) ih
      have hle := hrest.le_start t ht
      have hpos : byteLength text ≠ 0 :=
        fun h0 => hspells.ne_nil (byteLength_eq_zero_iff.1 h0)
      simp only [Token.placed]
      omega

/-- A run of blanks is one token. -/
theorem apart (h : Cuts position cs ts) (a b : Token) (hab : [a, b] <:+: ts) :
    ¬ (a.isWhitespace = true ∧ b.isWhitespace = true) := by
  induction h with
  | nil => simp at hab
  | @cons position kind text rest ts hspells hends hrest ih =>
      rcases List.infix_cons_iff.1 hab with hpre | hinfix
      · rintro ⟨ha, hb⟩
        obtain ⟨rfl, hnext⟩ := List.cons_prefix_cons.1 hpre
        cases hrest with
        | nil => simp at hnext
        | @cons _ kind' text' rest' ts hspells' _ _ =>
            obtain ⟨rfl, -⟩ := List.cons_prefix_cons.1 hnext
            obtain rfl : kind = .whitespace := by
              simpa [Token.isWhitespace, Kind.isWhitespace, Token.placed] using ha
            obtain rfl : kind' = .whitespace := by
              simpa [Token.isWhitespace, Kind.isWhitespace, Token.placed] using hb
            cases text' with
            | nil => exact hspells'.1 rfl
            | cons c text' =>
                have hblank := hspells'.2 c (by simp)
                rw [hends c rfl] at hblank
                exact absurd hblank (by simp)
      · exact ih hinfix

end Cuts

/-! ## The tokens of a query in their two groups -/

namespace TokenStream

/-- Among tokens that start one behind the other, the start tells the token. -/
theorem eq_of_start_eq {all : List Token}
    (h : all.Pairwise fun a b => a.span.start < b.span.start) {a b : Token} (ha : a ∈ all)
    (hb : b ∈ all) (hstart : a.span.start = b.span.start) : a = b := by
  obtain ⟨i, hi, rfl⟩ := List.getElem_of_mem ha
  obtain ⟨j, hj, rfl⟩ := List.getElem_of_mem hb
  rw [List.pairwise_iff_getElem] at h
  rcases Nat.lt_trichotomy i j with hlt | rfl | hgt
  · have := h i j hi hj hlt
    omega
  · rfl
  · have := h j i hj hi hgt
    omega

/-- Tokens that start one behind the other come back in their order, however they have been
sorted into groups. -/
theorem merged_of_perm {s : TokenStream} {all : List Token}
    (h : all.Pairwise fun a b => a.span.start < b.span.start)
    (hperm : (s.tokens ++ s.whitespace).Perm all) : s.merged = all := by
  have hmerged : s.merged.Perm all := s.merged_perm.trans hperm
  have hall : all.Pairwise fun a b => a.span.start ≤ b.span.start := h.imp Nat.le_of_lt
  refine hmerged.eq_of_pairwise (fun a b ha hb hle hge => ?_) s.merged_pairwise hall
  exact eq_of_start_eq h (hmerged.subset ha) hb (Nat.le_antisymm hle hge)

theorem ofTokens_perm (all : List Token) (n : Nat) :
    ((ofTokens all n).tokens ++ (ofTokens all n).whitespace).Perm all :=
  List.perm_append_comm.trans (List.filter_append_perm Token.isWhitespace all)

theorem merged_ofTokens {all : List Token} (n : Nat)
    (h : all.Pairwise fun a b => a.span.start < b.span.start) :
    (ofTokens all n).merged = all :=
  merged_of_perm h (ofTokens_perm all n)

/-- What a stream of tokens is to the query that it was cut from: the two groups,
merged, make up the query, each group holds its kinds in the order of the query, and
blanks that stand together are one token. -/
structure Partitions (s : TokenStream) (query : String) : Prop where
  sourceLength : s.sourceLength = query.utf8ByteSize
  covers : Covers query (s.merged.map fun t => (t.text, t.span))
  tokens : s.tokens = s.merged.filter fun t => !t.isWhitespace
  whitespace : s.whitespace = s.merged.filter fun t => t.isWhitespace
  tokens_ascending : s.tokens.Pairwise fun a b => a.span.start < b.span.start
  whitespace_ascending : s.whitespace.Pairwise fun a b => a.span.start < b.span.start
  apart : ∀ a b, [a, b] <:+: s.merged → ¬ (a.isWhitespace = true ∧ b.isWhitespace = true)

/-- A query is cut into tokens exactly if there is a cutting of its text. -/
theorem ofQuery_eq_ok_iff {query : String} {s : TokenStream} :
    ofQuery query = .ok s ↔
      ∃ ts, Cuts 0 query.toList ts ∧ s = ofTokens ts query.utf8ByteSize := by
  rw [ofQuery, ← byteLength_toList]
  simp only [Token.scan]
  constructor
  · intro h
    cases hscan : Token.scanFrom 0 query.toList [] with
    | error e =>
        rw [hscan] at h
        simp [Except.map] at h
    | ok ts =>
        rw [hscan] at h
        injection h with h
        exact ⟨ts, cuts_of_scanFrom hscan, h.symm⟩
  · rintro ⟨ts, hcuts, rfl⟩
    rw [scanFrom_of_cuts hcuts]
    rfl

end TokenStream

theorem Cuts.ofQuery_eq {query : String} {ts : List Token} (h : Cuts 0 query.toList ts) :
    TokenStream.ofQuery query = .ok (.ofTokens ts query.utf8ByteSize) :=
  TokenStream.ofQuery_eq_ok_iff.2 ⟨ts, h, rfl⟩

theorem Span.boundary_of_slice? {span : Span} {source : String} {part : List Char}
    (h : span.slice? source.toList = some part) :
    (String.Pos.Raw.mk span.start).IsValid source ∧
      (String.Pos.Raw.mk span.stop).IsValid source := by
  obtain ⟨before, after, hsource, rfl⟩ := Span.slice?_eq_some_iff.1 h
  have hvalid : ∀ front back, source.toList = front ++ back →
      (String.Pos.Raw.mk (byteLength front)).IsValid source := by
    intro front back heq
    refine String.Pos.Raw.isValid_iff_exists_append.2
      ⟨String.ofList front, String.ofList back, ?_, ?_⟩
    · rw [← String.ofList_append, ← heq, String.ofList_toList]
    · rw [String.rawEndPos, ← byteLength_toList, String.toList_ofList]
  constructor
  · exact hvalid before (part ++ after) (by rw [hsource, List.append_assoc])
  · rw [← byteLength_append]
    exact hvalid (before ++ part) after hsource

namespace Cuts

theorem covers {query : String} {ts : List Token} (h : Cuts 0 query.toList ts) :
    Covers query (ts.map fun t => (t.text, t.span)) where
  nonempty := by
    intro p hp hempty
    obtain ⟨t, ht, rfl⟩ := List.mem_map.1 hp
    exact (h.spells t ht).ne_nil (by simp [show t.text = "" from hempty])
  sliced := by
    intro p hp
    obtain ⟨t, ht, rfl⟩ := List.mem_map.1 hp
    exact h.slice?_eq [] rfl t ht
  boundary := by
    intro p hp
    obtain ⟨t, ht, rfl⟩ := List.mem_map.1 hp
    exact Span.boundary_of_slice? (h.slice?_eq [] rfl t ht)
  tile := by
    have htile := h.tile
    rw [Nat.zero_add, byteLength_toList] at htile
    rwa [List.map_map]

theorem partitions {query : String} {ts : List Token} (h : Cuts 0 query.toList ts) :
    (TokenStream.ofTokens ts query.utf8ByteSize).Partitions query := by
  have hmerged := TokenStream.merged_ofTokens query.utf8ByteSize h.ascending
  exact {
    sourceLength := rfl
    covers := by rw [hmerged]; exact h.covers
    tokens := by rw [hmerged]; rfl
    whitespace := by rw [hmerged]; rfl
    tokens_ascending := h.ascending.filter _
    whitespace_ascending := h.ascending.filter _
    apart := by rw [hmerged]; exact h.apart }

end Cuts

/-! ## Every query is shown in full -/

theorem covers_unclassified (query : String) :
    Covers query ((Highlight.unclassified query).map fun h => (h.text, h.span)) := by
  rw [Highlight.unclassified]
  split
  · rename_i hempty
    obtain rfl : query = "" := by simpa using hempty
    exact ⟨by simp, by simp, by simp, rfl⟩
  · rename_i hempty
    have hslice : (Span.mk 0 (byteLength query.toList)).slice? query.toList =
        some query.toList :=
      Span.slice?_eq_some_iff.2 ⟨[], [], by simp, by simp⟩
    refine ⟨?_, ?_, ?_, ?_⟩
    · simpa using hempty
    · simpa using hslice
    · simpa using Span.boundary_of_slice? hslice
    · exact ⟨rfl, byteLength_toList query⟩

theorem reconstruct_unclassified (query : String) :
    Highlight.reconstruct (Highlight.unclassified query) = query := by
  rw [Highlight.unclassified]
  split
  · rename_i hempty
    obtain rfl : query = "" := by simpa using hempty
    rfl
  · simp [Highlight.reconstruct, String.join]

theorem Cuts.reconstruct_eq {query : String} {ts : List Token}
    (h : Cuts 0 query.toList ts) :
    Highlight.reconstruct (ts.map Highlight.ofToken) = query := by
  rw [← String.toList_inj, Highlight.reconstruct, String.toList_join, h.text_eq,
    List.map_map, List.flatMap_map]
  rfl

theorem eq_ok_of_toOption {ε α : Type} {x : Except ε α} {a : α} (h : x.toOption = some a) :
    x = .ok a := by
  cases x with
  | error e => cases h
  | ok b =>
      injection h with h
      rw [h]

/-- Whatever becomes of a query, its highlights make it up; and if it can be cut into
tokens, the tokens do. -/
theorem analyze_covers (query : String) :
    (∀ s, TokenStream.ofQuery query = .ok s → s.Partitions query) ∧
      Covers query ((analyze query).highlights.map fun h => (h.text, h.span)) ∧
      Highlight.reconstruct (analyze query).highlights = query := by
  refine ⟨fun s hs => ?_, ?_⟩
  · obtain ⟨ts, hcuts, rfl⟩ := TokenStream.ofQuery_eq_ok_iff.1 hs
    exact hcuts.partitions
  · rw [highlights_analyze, Highlight.ofQuery]
    cases hs : TokenStream.ofQuery query with
    | error e => exact ⟨covers_unclassified query, reconstruct_unclassified query⟩
    | ok s =>
        obtain ⟨ts, hcuts, rfl⟩ := TokenStream.ofQuery_eq_ok_iff.1 hs
        rw [Highlight.ofTokens, Highlight.ofStream,
          TokenStream.merged_ofTokens _ hcuts.ascending]
        refine ⟨?_, hcuts.reconstruct_eq⟩
        rw [List.map_map]
        exact hcuts.covers

/-- The ranges count bytes, of which the last character here has two. -/
theorem analyze_covers_accent :
    let s : TokenStream := ⟨[⟨.not, "NOT", ⟨0, 3⟩⟩, ⟨.word, "é", ⟨4, 6⟩⟩],
      [⟨.whitespace, " ", ⟨3, 4⟩⟩], 6⟩
    TokenStream.ofQuery "NOT é" = .ok s ∧ s.Partitions "NOT é" ∧
      Highlight.reconstruct (analyze "NOT é").highlights = "NOT é" := by
  intro s
  have hs : TokenStream.ofQuery "NOT é" = .ok s := eq_ok_of_toOption (by decide +kernel)
  obtain ⟨hstream, -, hreconstruct⟩ := analyze_covers "NOT é"
  exact ⟨hs, hstream s hs, hreconstruct⟩

end BoolQuery
