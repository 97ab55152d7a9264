import BoolQuery.Proofs.ReadGrammar

/-!
# Trees beyond the nesting limit

Tokens of a tree that is well-kinded but too deep are not a query, and what the reader says
of them is that they are too deep, never anything else. The walk is that of completeness,
for a tree that does not fit: it follows the operand that is to blame, which is the first
one that goes too deep, and comes to a NOT or a group at the limit. All that stands before
this token has been taken.
-/

namespace BoolQuery

open BoolQuery.Tree BoolQuery.Tree.Progress

namespace Tree.Progress

variable {outside : Nat}

/-- Whether a reading that has taken some tokens takes further ones up to one that is
refused for its depth. -/
def RefusesDepth (outside : Nat) (before ts : List Token) : Prop :=
  ∃ taken t rest p c, ts = taken ++ t :: rest ∧ Reached outside (before ++ taken) p ∧
    p.take outside t = .stop (.error c) ∧ c.expected = .shallowerNesting

namespace RefusesDepth

variable {before ts us : List Token}

theorem append (h : RefusesDepth outside before ts) (us : List Token) :
    RefusesDepth outside before (ts ++ us) := by
  obtain ⟨taken, t, rest, p, c, rfl, hp, htake, hc⟩ := h
  exact ⟨taken, t, rest ++ us, p, c, by simp, hp, htake, hc⟩

theorem after (ts : List Token) (h : RefusesDepth outside (before ++ ts) us) :
    RefusesDepth outside before (ts ++ us) := by
  obtain ⟨taken, t, rest, p, c, rfl, hp, htake, hc⟩ := h
  exact ⟨ts ++ taken, t, rest, p, c, by simp, by simpa using hp, htake, hc⟩

theorem head {t : Token} {p : Progress} {c : Complaint} (h : Reached outside before p)
    (htake : p.take outside t = .stop (.error c)) (hc : c.expected = .shallowerNesting) :
    RefusesDepth outside before (t :: ts) :=
  ⟨[], t, ts, p, c, rfl, by simpa using h, htake, hc⟩

end RefusesDepth

theorem take_not_at_limit {slot : Slot} {groups : List OpenGroup} {t : Token}
    (hkind : t.kind = .not)
    (hlimit : maxNesting ≤ outside + (operandDue slot groups).depth) :
    (operandDue slot groups).take outside t =
      .stop (.error ⟨.negation, .shallowerNesting⟩) := by
  simp only [take, hkind]
  rw [if_pos hlimit]

theorem take_lparen_at_limit {slot : Slot} {groups : List OpenGroup} {t : Token}
    (hkind : t.kind = .lparen)
    (hlimit : maxNesting ≤ outside + (operandDue slot groups).depth) :
    (operandDue slot groups).take outside t =
      .stop (.error ⟨.group, .shallowerNesting⟩) := by
  simp only [take, hkind]
  rw [if_pos hlimit]

mutual

theorem Reached.refuses_operand {before : List Token} {slot : Slot} {groups : List OpenGroup}
    (operand : Operand) (h : Reached outside before (operandDue slot groups))
    (hout : outside ≤ maxNesting) (hkind : operand.WellKinded)
    (hdeep : maxNesting < outside + (operandDue slot groups).depth + operand.nesting) :
    RefusesDepth outside before operand.tokens := by
  have hdepth := h.depth_le hout
  cases operand with
  | block b =>
      simp only [Operand.nesting] at hdeep
      omega
  | negated not operand =>
      by_cases hlimit : maxNesting ≤ outside + (operandDue slot groups).depth
      · exact .head h (take_not_at_limit hkind.1 hlimit) rfl
      · simp only [Operand.nesting, depth_operandDue] at hdeep hlimit
        have hnot := h.snoc (.not hkind.1 (by simp only [depth_operandDue]; omega))
        refine .after [not] (Reached.refuses_operand operand hnot hout hkind.2 ?_)
        simp only [depth_operandDue, List.length_cons]
        omega
  | group lparen tree rparen =>
      by_cases hlimit : maxNesting ≤ outside + (operandDue slot groups).depth
      · exact .head h (take_lparen_at_limit hkind.1 hlimit) rfl
      · simp only [Operand.nesting, depth_operandDue] at hdeep hlimit
        have hopen := h.snoc (.lparen hkind.1 (by simp only [depth_operandDue]; omega))
        have hinside := Reached.refuses_tree tree hopen hout hkind.2.1 (by
          simp only [depth_operandDone, depthOfGroups_cons]
          omega)
        exact .after [lparen] (hinside.append [rparen])

theorem Reached.refuses_tree {before : List Token} {groups : List OpenGroup} (tree : Tree)
    (h : Reached outside before (operandDue .first groups)) (hout : outside ≤ maxNesting)
    (hkind : tree.WellKinded)
    (hdeep : maxNesting < outside + (operandDone tree groups).depth + tree.nesting) :
    RefusesDepth outside before tree.tokens := by
  cases tree with
  | single operand =>
      exact Reached.refuses_operand operand h hout hkind (by
        simpa [Slot.first, Tree.nesting] using hdeep)
  | join left op token right =>
      obtain ⟨hleft, hop, hright⟩ := hkind
      simp only [Tree.nesting, depth_operandDone] at hdeep
      by_cases hdeepLeft : maxNesting < outside + depthOfGroups groups + left.nesting
      · exact (Reached.refuses_tree left h hout hleft (by simpa using hdeepLeft)).append _
      · -- The chain up to here can be taken, so it is the last operand that goes too deep.
        have hdone := Reached.tree left h ⟨hleft, by simp only [depth_operandDone]; omega⟩
        have hdue := hdone.snoc (.connective hop)
        have hlast := Reached.refuses_operand right hdue hout hright (by
          simp only [depth_operandDue, List.length_nil]
          omega)
        rw [List.append_assoc] at hlast
        simpa [Tree.tokens] using RefusesDepth.after _ hlast

end

end Tree.Progress

/-- Tokens of a tree of the grammar that goes beyond the nesting limit are refused for
that. -/
theorem Tree.ofStream_of_deep {s : TokenStream} {tree : Tree} (hkind : tree.WellKinded)
    (hdeep : maxNesting < tree.nesting) (htokens : tree.tokens = s.tokens) :
    ∃ e, ofStream s = .error e ∧ e.expected = .shallowerNesting := by
  have hrefuses := Reached.refuses_tree tree (.start : Reached 0 [] .start)
    (Nat.zero_le _) hkind
    (by simpa using hdeep)
  obtain ⟨taken, t, rest, p, c, hsplit, hp, htake, hc⟩ := hrefuses
  rw [List.nil_append] at hp
  have hstop : StopsBefore 0 p (t :: rest) := by
    intro u hu
    obtain rfl : t = u := by simpa using hu
    exact ⟨_, htake⟩
  have hrest : (Cursor.ofStream s).rest = taken ++ t :: rest := htokens.symm.trans hsplit
  have hread := readAll_eq (Cursor.ofStream s) hrest hp hstop
  rw [List.head?_cons, Option.map_some, ← take_eq_stop htake] at hread
  exact ⟨_, hread, hc⟩

end BoolQuery
