import BoolQuery.Document
import BoolQuery.Proofs.ScanCover

/-!
# Groups filled in another way

What is shown of a stream is its tokens by their starts, wherever they were kept. For a
stream of any tokens this leaves a choice where two of them start at the same place, and
the choice is to leave them as they were. With that, there is one list only that `merged`
can be (`sortedFrom_iff`).

The tokens of a query never meet at a start, since none of them is empty. So however they
are shuffled and shared out between the groups, there is one way to put them in order, and
all that is shown is the same.
-/

namespace BoolQuery

namespace TokenStream

/-- The tokens that start at a place. -/
def startingAt (start : Nat) (ts : List Token) : List Token :=
  ts.filter fun t => t.span.start == start

/-- Whether a list holds some tokens by their starts, and those with the same start in the
order they were in. -/
structure SortedFrom (sorted all : List Token) : Prop where
  perm : sorted.Perm all
  ascending : sorted.Pairwise fun a b => a.span.start ≤ b.span.start
  stable : ∀ start, startingAt start sorted = startingAt start all

theorem mem_startingAt {start : Nat} {ts : List Token} {t : Token} :
    t ∈ startingAt start ts ↔ t ∈ ts ∧ t.span.start = start := by
  rw [startingAt, List.mem_filter, beq_iff_eq]

theorem startingAt_merged (s : TokenStream) (start : Nat) :
    startingAt start s.merged = startingAt start (s.tokens ++ s.whitespace) := by
  have horder : (startingAt start (s.tokens ++ s.whitespace)).Pairwise
      fun a b => a.span.start ≤ b.span.start := by
    refine List.pairwise_of_forall_mem_list fun a ha b hb => Nat.le_of_eq ?_
    rw [(mem_startingAt.1 ha).2, (mem_startingAt.1 hb).2]
  have hsub : (startingAt start (startingAt start (s.tokens ++ s.whitespace))).Sublist
      (startingAt start s.merged) :=
    (sublist_merged List.filter_sublist horder).filter _
  have htwice : startingAt start (startingAt start (s.tokens ++ s.whitespace)) =
      startingAt start (s.tokens ++ s.whitespace) := by
    simp [startingAt]
  rw [htwice] at hsub
  exact (hsub.eq_of_length (s.merged_perm.filter _).length_eq.symm).symm

theorem sortedFrom_merged (s : TokenStream) :
    SortedFrom s.merged (s.tokens ++ s.whitespace) :=
  ⟨s.merged_perm, s.merged_pairwise, s.startingAt_merged⟩

theorem mem_iff_of_startingAt_eq {ts us : List Token}
    (h : ∀ start, startingAt start ts = startingAt start us) (t : Token) :
    t ∈ ts ↔ t ∈ us := by
  have hiff : t ∈ startingAt t.span.start ts ↔ t ∈ startingAt t.span.start us := by rw [h]
  simpa [mem_startingAt] using hiff

theorem startingAt_cons (start : Nat) (t : Token) (ts : List Token) :
    startingAt start (t :: ts) =
      if t.span.start = start then t :: startingAt start ts else startingAt start ts := by
  simp [startingAt, List.filter_cons]

/-- Ordered lists with the same tokens at each start are the same list. -/
theorem eq_of_startingAt_eq {ts us : List Token}
    (hts : ts.Pairwise fun a b => a.span.start ≤ b.span.start)
    (hus : us.Pairwise fun a b => a.span.start ≤ b.span.start)
    (h : ∀ start, startingAt start ts = startingAt start us) : ts = us := by
  induction ts generalizing us with
  | nil =>
      have hnone : ∀ u, u ∉ us :=
        fun u hu => absurd ((mem_iff_of_startingAt_eq h u).2 hu) (by simp)
      exact (List.eq_nil_iff_forall_not_mem.2 hnone).symm
  | cons t ts ih =>
      have hmem := mem_iff_of_startingAt_eq h
      obtain ⟨u, us, rfl⟩ := List.exists_cons_of_ne_nil
        (List.ne_nil_of_mem ((hmem t).1 (.head _)))
      rw [List.pairwise_cons] at hts hus
      -- Neither of the first two stands behind the other.
      have hstart : u.span.start = t.span.start := by
        rcases List.mem_cons.1 ((hmem t).1 (.head _)) with rfl | htu
        · rfl
        rcases List.mem_cons.1 ((hmem u).2 (.head _)) with rfl | hut
        · rfl
        exact Nat.le_antisymm (hus.1 t htu) (hts.1 u hut)
      have hfirst := h t.span.start
      rw [startingAt_cons, startingAt_cons, if_pos rfl, if_pos hstart] at hfirst
      obtain ⟨rfl, -⟩ := List.cons_eq_cons.1 hfirst
      have hrest : ∀ start, startingAt start ts = startingAt start us := fun start => by
        have heq := h start
        rw [startingAt_cons, startingAt_cons] at heq
        split at heq
        · exact (List.cons_eq_cons.1 heq).2
        · exact heq
      rw [ih hts.2 hus.2 hrest]

/-- A list is what a stream is merged to exactly if it is the tokens of both groups,
sorted, and no two with the same start have changed places. -/
theorem sortedFrom_iff {s : TokenStream} {sorted : List Token} :
    SortedFrom sorted (s.tokens ++ s.whitespace) ↔ sorted = s.merged := by
  constructor
  · intro h
    exact eq_of_startingAt_eq h.ascending s.merged_pairwise fun start =>
      (h.stable start).trans (s.startingAt_merged start).symm
  · rintro rfl
    exact s.sortedFrom_merged

/-- Tokens of a query are shown in the same way from whichever groups they are kept in. -/
theorem merged_eq_of_perm {query : String} {s c : TokenStream} (h : ofQuery query = .ok s)
    (hperm : (c.tokens ++ c.whitespace).Perm (s.tokens ++ s.whitespace)) :
    c.merged = s.merged ∧ Highlight.reconstruct (Highlight.ofStream c) = query := by
  obtain ⟨ts, hcuts, rfl⟩ := ofQuery_eq_ok_iff.1 h
  have hmerged : c.merged = ts :=
    merged_of_perm hcuts.ascending (hperm.trans (ofTokens_perm ts _))
  refine ⟨hmerged.trans (merged_ofTokens _ hcuts.ascending).symm, ?_⟩
  rw [Highlight.ofStream, hmerged]
  exact hcuts.reconstruct_eq

/-- A stream is merged to its tokens, sorted by their starts and otherwise left as they
were, and to nothing else; and streams that have the tokens of a query are shown as the
query is, however these are rearranged and divided between the groups. -/
theorem merged_regrouped :
    (∀ (s : TokenStream) (sorted : List Token),
      SortedFrom sorted (s.tokens ++ s.whitespace) ↔ sorted = s.merged) ∧
    ∀ (query : String) (s c : TokenStream), ofQuery query = .ok s →
      (c.tokens ++ c.whitespace).Perm (s.tokens ++ s.whitespace) →
      Highlight.ofStream c = Highlight.ofStream s ∧ c.toJson = s.toJson ∧
        Highlight.reconstruct (Highlight.ofStream c) = query := by
  refine ⟨fun s sorted => sortedFrom_iff, fun query s c hs hperm => ?_⟩
  obtain ⟨hmerged, hreconstruct⟩ := merged_eq_of_perm hs hperm
  refine ⟨?_, ?_, hreconstruct⟩
  · rw [Highlight.ofStream, Highlight.ofStream, hmerged]
  · rw [toJson, toJson, hmerged]

/-- The blanks of a query among its significant tokens and a key among the blanks, all out
of order, with a length that is not that of the query. -/
theorem merged_regrouped_out_of_order :
    let query := "é OR K='v'"
    let word : Token := ⟨.word, "é", ⟨0, 2⟩⟩
    let blank : Token := ⟨.whitespace, " ", ⟨2, 3⟩⟩
    let or : Token := ⟨.or, "OR", ⟨3, 5⟩⟩
    let blank' : Token := ⟨.whitespace, " ", ⟨5, 6⟩⟩
    let key : Token := ⟨.key, "K=", ⟨6, 8⟩⟩
    let value : Token := ⟨.quoted, "'v'", ⟨8, 11⟩⟩
    let s : TokenStream := ⟨[word, or, key, value], [blank, blank'], 11⟩
    let c : TokenStream := ⟨[value, blank, word], [blank', key, or], 0⟩
    ofQuery query = .ok s ∧ (c.tokens ++ c.whitespace).Perm (s.tokens ++ s.whitespace) ∧
      Highlight.ofStream c = Highlight.ofStream s ∧ c.toJson = s.toJson ∧
        Highlight.reconstruct (Highlight.ofStream c) = query := by
  intro query word blank or blank' key value s c
  have hs : ofQuery query = .ok s := eq_ok_of_toOption (by decide +kernel)
  have hperm : (c.tokens ++ c.whitespace).Perm (s.tokens ++ s.whitespace) := by decide
  exact ⟨hs, hperm, merged_regrouped.2 query s c hs hperm⟩

end TokenStream

end BoolQuery
