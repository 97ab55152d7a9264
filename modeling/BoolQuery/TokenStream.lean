import BoolQuery.Token.Scan

/-!
# Token streams

What comes out of cutting a query: the significant tokens, which the grammar
reads, the whitespace beside them, and the byte length of the query, which is
where the end of input is reported.

A stream can also be put together by hand, with tokens in any order and in either
group. `merged` brings the tokens of both groups back into the order of the
query by their starts; tokens with the same start stay as they are, the significant
ones first.
-/

namespace BoolQuery

/-- The tokens of a query in two groups. -/
structure TokenStream where
  tokens : List Token
  whitespace : List Token
  sourceLength : Nat
deriving DecidableEq, Repr

namespace TokenStream

/-- Sorts the tokens of a query into the two groups. -/
def ofTokens (all : List Token) (sourceLength : Nat) : TokenStream :=
  ⟨all.filter (fun t => !t.isWhitespace), all.filter (fun t => t.isWhitespace), sourceLength⟩

def ofQuery (query : String) : Except LexError TokenStream :=
  let chars := query.toList
  (Token.scan chars).map fun all => ofTokens all (Text.byteLength chars)

/-- The tokens of both groups by their starts. -/
def merged (s : TokenStream) : List Token :=
  (s.tokens ++ s.whitespace).mergeSort fun a b => a.span.start ≤ b.span.start

/-- Whether no token matters to the grammar. -/
def isEmpty (s : TokenStream) : Bool := s.tokens.isEmpty

theorem merged_perm (s : TokenStream) : s.merged.Perm (s.tokens ++ s.whitespace) :=
  List.mergeSort_perm _ _

theorem start_le_trans (a b c : Token) (hab : decide (a.span.start ≤ b.span.start) = true)
    (hbc : decide (b.span.start ≤ c.span.start) = true) :
    decide (a.span.start ≤ c.span.start) = true := by
  simp only [decide_eq_true_eq] at *
  omega

theorem start_le_total (a b : Token) :
    (decide (a.span.start ≤ b.span.start) || decide (b.span.start ≤ a.span.start)) =
      true := by
  simp only [Bool.or_eq_true, decide_eq_true_eq]
  omega

theorem merged_pairwise (s : TokenStream) :
    s.merged.Pairwise fun a b => a.span.start ≤ b.span.start := by
  have h := List.pairwise_mergeSort start_le_trans start_le_total (s.tokens ++ s.whitespace)
  exact h.imp (by simp)

/-- Tokens of a stream that are in order already are not reordered. -/
theorem sublist_merged {s : TokenStream} {ts : List Token}
    (h : ts.Sublist (s.tokens ++ s.whitespace))
    (horder : ts.Pairwise fun a b => a.span.start ≤ b.span.start) : ts.Sublist s.merged :=
  List.sublist_mergeSort start_le_trans start_le_total (horder.imp (by simp)) h

end TokenStream

end BoolQuery
