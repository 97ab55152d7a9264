import BoolQuery.Proofs.BlockRow
import BoolQuery.Proofs.Gluing

/-!
# Queries cut off between tokens

The start of a query, up to a place between two tokens, is either a query itself or one
that is not finished yet: the reader asks for more at the end of it, and has no complaint of
any of its tokens.

For the text this is `Cuts.split`. The reader goes through the same states as before, since
it never looks ahead, so all tokens of the start are taken and only the end can be amiss
(`Reached.of_append`). What it says there is never that the nesting is too deep. And where
the start can be read as a tree, its blocks are the first few of those of the whole, which
are all of one type.
-/

namespace BoolQuery

open Text

theorem Cuts.split_at {position stop : Nat} {cs : List Char} {ts : List Token}
    (h : Cuts position cs ts) (hstart : position ≤ stop)
    (hstop : stop ≤ position + byteLength cs)
    (hacross : ∀ t ∈ ts, ¬ (t.span.start < stop ∧ stop < t.span.stop)) :
    ∃ front back fronts backs, cs = front ++ back ∧ ts = fronts ++ backs ∧
      Cuts position front fronts ∧ position + byteLength front = stop := by
  induction h with
  | nil => exact ⟨[], [], [], [], rfl, rfl, .nil,
      by simpa using Nat.le_antisymm hstart hstop⟩
  | @cons position kind text rest ts hspells hends hrest ih =>
      by_cases hhere : stop = position
      · exact ⟨[], text ++ rest, [], _, rfl, rfl, .nil, by simp [hhere]⟩
      · have hfirst := hacross (.placed kind text position) List.mem_cons_self
        simp only [Token.placed] at hfirst
        rw [byteLength_append] at hstop
        obtain ⟨front, back, fronts, backs, rfl, rfl, hfront, hlength⟩ :=
          ih (by omega) (by omega) fun t ht => hacross t (List.mem_cons_of_mem _ ht)
        refine ⟨text ++ front, back, _ :: fronts, backs, (List.append_assoc ..).symm, rfl,
          .cons hspells hends.append hfront, ?_⟩
        rw [byteLength_append, ← Nat.add_assoc, hlength]

namespace Tree

open Progress

theorem ofStream_of_reached_end {s : TokenStream} {p : Progress} (h : Reached 0 s.tokens p) :
    (∃ tree, ofStream s = .ok tree) ∨
      ∃ e, ofStream s = .error e ∧ e.found = none ∧ e.span = .point s.sourceLength ∧
        e.expected ≠ .shallowerNesting := by
  have hstop : StopsBefore 0 p [] := fun t ht => by simp at ht
  have hread := readAll_eq (Cursor.ofStream s) (List.append_nil s.tokens).symm h hstop
  cases hout : p.outcome (([] : List Token).head?.map fun t => t.kind) with
  | ok tree =>
      rw [hout] at hread
      exact .inl ⟨tree, hread⟩
  | error c =>
      rw [hout] at hread
      have hhalt : p.halt = .error c := (outcome_none p).symm.trans hout
      exact .inr ⟨_, hread, rfl, rfl, expected_of_halt hhalt⟩

theorem uniform_of_prefix {tree other : Tree} (hkind : tree.WellKinded)
    (hother : other.WellKinded) (h : tree.tokens <+: other.tokens)
    (huniform : other.Uniform) :
    tree.Uniform := by
  obtain ⟨more, hblocks⟩ := blocks_prefix hkind hother h
  have hfirst : tree.firstBlock = other.firstBlock := by
    have hhead := other.head?_blocks
    rw [← hblocks, List.head?_append, tree.head?_blocks, Option.some_or] at hhead
    exact Option.some.inj hhead
  intro b hb
  rw [hfirst]
  exact huniform b (hblocks ▸ List.mem_append_left more hb)

end Tree

/-- A query cut off between two tokens is a query, or more is asked for at its end. -/
theorem parse_truncated {query : String} {s : TokenStream} {e : Expr} {stop : Nat}
    (hs : TokenStream.ofQuery query = .ok s) (h : parse query = .ok e)
    (hstop : stop ≤ query.utf8ByteSize)
    (hacross : ∀ t ∈ s.merged, ¬ (t.span.start < stop ∧ stop < t.span.stop)) :
    ∃ front back : String, query = front ++ back ∧ front.utf8ByteSize = stop ∧
      ((∃ e', parse front = .ok e') ∨
        ∃ err, parse front = .error (.syntactic err) ∧ err.found = none ∧
          err.span = .point stop ∧ err.expected ≠ .shallowerNesting) := by
  obtain ⟨ts, tree, hcuts, hfits, htokens, huniform, -⟩ := exists_cuts_of_parse h
  obtain rfl := Except.ok.inj (hs.symm.trans hcuts.ofQuery_eq)
  rw [TokenStream.merged_ofTokens _ hcuts.ascending] at hacross
  rw [← byteLength_toList] at hstop
  obtain ⟨front, back, fronts, backs, hquery, rfl, hfront, hlength⟩ :=
    hcuts.split_at (Nat.zero_le _) (by omega) hacross
  have hsize : (String.ofList front).utf8ByteSize = stop := by
    rw [← byteLength_toList, String.toList_ofList, ← hlength, Nat.zero_add]
  refine ⟨String.ofList front, String.ofList back, ?_, hsize, ?_⟩
  · rw [← String.ofList_append, ← hquery, String.ofList_toList]
  -- The tokens of the start are taken as they were in the whole query.
  rw [significantTokens, List.filter_append] at htokens
  have hwhole := Tree.Progress.Reached.tree tree
    (.start : Tree.Progress.Reached 0 [] .start) hfits
  rw [List.nil_append, htokens] at hwhole
  obtain ⟨p, hp⟩ := hwhole.of_append
  rw [← String.toList_ofList (l := front)] at hfront
  let stream : TokenStream := .ofTokens fronts (String.ofList front).utf8ByteSize
  have hstream : TokenStream.ofQuery (String.ofList front) = .ok stream :=
    hfront.ofQuery_eq
  rcases Tree.ofStream_of_reached_end (s := stream) hp with
    ⟨start, hstart⟩ | ⟨err, herr, hfound, hspan, hexpected⟩
  · obtain ⟨hfitsStart, htokensStart⟩ := Tree.fits_of_ofStream hstart
    have hprefix : start.tokens <+: tree.tokens := by
      rw [htokensStart, htokens]
      exact List.prefix_append _ _
    have huniformStart := Tree.uniform_of_prefix hfitsStart.1 hfits.1 hprefix huniform
    exact .inl ⟨_, hfront.parse_eq hfitsStart htokensStart huniformStart⟩
  · refine .inr ⟨err, ?_, hfound, hsize ▸ hspan, hexpected⟩
    rw [parse_of_ofQuery hstream, compile_of_error herr]

/-- Cut off behind a key, inside of a group, and at a place that is one further on in bytes
than in characters. -/
theorem parse_truncated_behind_key :
    let query := "A='é' AND (B= 'c')"
    let s : TokenStream :=
      ⟨[⟨.key, "A=", ⟨0, 2⟩⟩, ⟨.quoted, "'é'", ⟨2, 6⟩⟩, ⟨.and, "AND", ⟨7, 10⟩⟩,
          ⟨.lparen, "(", ⟨11, 12⟩⟩, ⟨.key, "B=", ⟨12, 14⟩⟩, ⟨.quoted, "'c'", ⟨15, 18⟩⟩,
          ⟨.rparen, ")", ⟨18, 19⟩⟩],
        [⟨.whitespace, " ", ⟨6, 7⟩⟩, ⟨.whitespace, " ", ⟨10, 11⟩⟩,
          ⟨.whitespace, " ", ⟨14, 15⟩⟩],
        19⟩
    let e : Expr := .binary .and (.leaf "A='é'" .keyValue) (.group (.leaf "B='c'" .keyValue))
    (TokenStream.ofQuery query = .ok s ∧ parse query = .ok e ∧ 14 ≤ query.utf8ByteSize ∧
      ∀ t ∈ s.merged, ¬ (t.span.start < 14 ∧ 14 < t.span.stop)) ∧
    ∃ front back : String, query = front ++ back ∧ front.utf8ByteSize = 14 ∧
      ((∃ e', parse front = .ok e') ∨
        ∃ err, parse front = .error (.syntactic err) ∧ err.found = none ∧
          err.span = .point 14 ∧ err.expected ≠ .shallowerNesting) := by
  intro query s e
  have hs : TokenStream.ofQuery query = .ok s := eq_ok_of_toOption (by decide +kernel)
  have he : parse query = .ok e := eq_ok_of_toOption (by decide +kernel)
  have hstop : 14 ≤ query.utf8ByteSize := by decide +kernel
  have hgroups : ∀ t ∈ s.tokens ++ s.whitespace,
      ¬ (t.span.start < 14 ∧ 14 < t.span.stop) := by
    decide +kernel
  have hacross : ∀ t ∈ s.merged, ¬ (t.span.start < 14 ∧ 14 < t.span.stop) :=
    fun t ht => hgroups t (s.merged_perm.subset ht)
  exact ⟨⟨hs, he, hstop, hacross⟩, parse_truncated hs he hstop hacross⟩

end BoolQuery
