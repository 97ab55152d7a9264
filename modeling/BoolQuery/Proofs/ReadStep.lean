import BoolQuery.Tree.Grammar
import BoolQuery.Tree.Read

/-!
# What one token does to a reading

`take` is a case split over where a reading stands and over the kind of the next
token. The split is made here, once. `Step` has a constructor for each way in
which a token is taken, guards included, and `take_eq_onward_iff` says that there
is no other way. `outcome` says what a reading comes to where it stops, and
`take_eq_stop` that a refused token never leads to anything else.

What follows are the two facts about whole readings that the grammar and the error
positions rest on. A reading that has reached a state goes on from there as if the
tokens before had never been (`run_of_reached`). And every token list falls into a
part that is taken and a rest before which the reading stops (`exists_reached`),
so the result of a reading is always the `outcome` of some reached state.
-/

namespace BoolQuery

theorem Block.kind_eq {b : Block} {t : Token} (htokens : b.tokens = [t])
    (hb : b.WellKinded) : t.kind = .quoted ∨ t.kind = .word := by
  cases b with
  | quoted u =>
      obtain rfl : u = t := by simpa [Block.tokens] using htokens
      exact .inl hb
  | word u =>
      obtain rfl : u = t := by simpa [Block.tokens] using htokens
      exact .inr hb
  | keyValue key value => simp [Block.tokens] at htokens

namespace Tree.Progress

/-- A token that is taken, inside of `outside` NOTs and groups, and where the
reading stands behind it. -/
inductive Step (outside : Nat) : Progress → Token → Progress → Prop where
  | not {slot : Slot} {groups : List OpenGroup} {t : Token} :
      t.kind = .not → outside + (operandDue slot groups).depth < maxNesting →
      Step outside (operandDue slot groups) t
        (operandDue ⟨slot.joined, t :: slot.nots⟩ groups)
  | lparen {slot : Slot} {groups : List OpenGroup} {t : Token} :
      t.kind = .lparen → outside + (operandDue slot groups).depth < maxNesting →
      Step outside (operandDue slot groups) t (operandDue .first (⟨slot, t⟩ :: groups))
  | block {slot : Slot} {groups : List OpenGroup} {t : Token} {b : Block} :
      b.tokens = [t] → b.WellKinded →
      Step outside (operandDue slot groups) t (operandDone (slot.fill (.block b)) groups)
  | key {slot : Slot} {groups : List OpenGroup} {t : Token} :
      t.kind = .key → Step outside (operandDue slot groups) t (valueDue t slot groups)
  | value {key : Token} {slot : Slot} {groups : List OpenGroup} {t : Token} :
      t.kind = .quoted →
      Step outside (valueDue key slot groups) t
        (operandDone (slot.fill (.block (.keyValue key t))) groups)
  | connective {tree : Tree} {groups : List OpenGroup} {t : Token} {op : Connective} :
      t.kind = op.kind →
      Step outside (operandDone tree groups) t (operandDue ⟨some (tree, op, t), []⟩ groups)
  | rparen {tree : Tree} {group : OpenGroup} {groups : List OpenGroup} {t : Token} :
      t.kind = .rparen →
      Step outside (operandDone tree (group :: groups)) t
        (operandDone (group.slot.fill (.group group.lparen tree t)) groups)

/-- What a reading comes to if it stops before a token of some kind, or at the end
of the tokens. A NOT or a parenthesis where an operand is due is only ever refused
for its depth. -/
def outcome : Progress → Option Kind → Except Complaint Tree
  | operandDue _ _, some .not => .error ⟨.negation, .shallowerNesting⟩
  | operandDue _ _, some .lparen => .error ⟨.group, .shallowerNesting⟩
  | p, _ => p.halt

variable {outside : Nat}

theorem step_of_take {p q : Progress} {t : Token} (h : p.take outside t = .onward q) :
    Step outside p t q := by
  cases p with
  | operandDue slot groups =>
      simp only [take] at h
      split at h <;> rename_i hkind
      · split at h
        · simp at h
        · injection h with h
          subst h
          exact .not hkind (by omega)
      · split at h
        · simp at h
        · injection h with h
          subst h
          exact .lparen hkind (by omega)
      · injection h with h
        subst h
        exact .block rfl hkind
      · injection h with h
        subst h
        exact .block rfl hkind
      · injection h with h
        subst h
        exact .key hkind
      · simp at h
  | valueDue key slot groups =>
      simp only [take] at h
      split at h <;> rename_i hkind
      · injection h with h
        subst h
        exact .value hkind
      · simp at h
  | operandDone tree groups =>
      simp only [take] at h
      split at h
      · rename_i op hop
        injection h with h
        subst h
        exact .connective (Connective.ofKind?_eq_some_iff.1 hop)
      · split at h <;> rename_i hkind
        · injection h with h
          subst h
          exact .rparen hkind
        · simp at h
      · simp at h

theorem Step.take_eq {p q : Progress} {t : Token} (h : Step outside p t q) :
    p.take outside t = .onward q := by
  cases h with
  | not hkind hdepth =>
      simp only [take, hkind]
      rw [if_neg (by omega)]
  | lparen hkind hdepth =>
      simp only [take, hkind]
      rw [if_neg (by omega)]
  | block htokens hkind =>
      rename_i b
      cases b with
      | quoted token =>
          obtain rfl : token = t := by simpa [Block.tokens] using htokens
          simp only [Block.WellKinded] at hkind
          simp only [take, hkind]
      | word token =>
          obtain rfl : token = t := by simpa [Block.tokens] using htokens
          simp only [Block.WellKinded] at hkind
          simp only [take, hkind]
      | keyValue key value => simp [Block.tokens] at htokens
  | key hkind => simp only [take, hkind]
  | value hkind => simp only [take, hkind]
  | connective hkind =>
      simp only [take, Connective.ofKind?_eq_some_iff.2 hkind]
  | rparen hkind => simp [take, hkind, Connective.ofKind?]

/-- The constructors of `Step` are all the ways of taking a token. -/
theorem take_eq_onward_iff {p q : Progress} {t : Token} :
    p.take outside t = .onward q ↔ Step outside p t q :=
  ⟨step_of_take, Step.take_eq⟩

/-- A refused token ends the reading with the outcome for its kind. -/
theorem take_eq_stop {p : Progress} {t : Token} {result : Except Complaint Tree}
    (h : p.take outside t = .stop result) : result = p.outcome (some t.kind) := by
  cases p with
  | operandDue slot groups =>
      simp only [take] at h
      split at h <;> rename_i hkind
      · split at h
        · injection h with h
          rw [← h, hkind, outcome]
        · simp at h
      · split at h
        · injection h with h
          rw [← h, hkind, outcome]
        · simp at h
      · simp at h
      · simp at h
      · simp at h
      · rename_i hnot hlparen _ _ _
        injection h with h
        rw [← h]
        cases hk : t.kind <;> simp_all [outcome]
  | valueDue key slot groups =>
      simp only [take] at h
      split at h
      · simp at h
      · injection h with h
        rw [← h, outcome]
        all_goals simp
  | operandDone tree groups =>
      simp only [take] at h
      split at h
      · simp at h
      · split at h
        · simp at h
        · injection h with h
          rw [← h, outcome]
          all_goals simp
      · injection h with h
        rw [← h, outcome]
        all_goals simp

@[simp] theorem outcome_none (p : Progress) : p.outcome none = p.halt := by
  rw [outcome]
  all_goals simp

theorem expected_of_halt {p : Progress} {c : Complaint} (h : p.halt = .error c) :
    c.expected ≠ .shallowerNesting := by
  unfold halt at h
  split at h
  all_goals first
    | (injection h with h; rw [← h]; simp)
    | simp at h

/-- Complaints about depth are only made at the limit. -/
theorem le_depth_of_stop {p : Progress} {t : Token} {c : Complaint}
    (h : p.take outside t = .stop (.error c)) (hc : c.expected = .shallowerNesting) :
    maxNesting ≤ outside + p.depth := by
  unfold take at h
  repeat' split at h
  all_goals first
    | assumption
    | (injection h with h; exact absurd hc (expected_of_halt h))
    | simp at h

/-! ## Depth

The depth of a state is a sum over its open groups. One more NOT or one more group
adds one, and everything else that is taken can only lower it. -/

theorem depthOfGroups_foldl (groups : List OpenGroup) (n : Nat) :
    groups.foldl (fun n g => n + g.slot.nots.length + 1) n = n + depthOfGroups groups := by
  unfold depthOfGroups
  induction groups generalizing n with
  | nil => rfl
  | cons g groups ih =>
      simp only [List.foldl_cons]
      rw [ih (n + g.slot.nots.length + 1), ih (0 + g.slot.nots.length + 1)]
      omega

@[simp] theorem depthOfGroups_nil : depthOfGroups [] = 0 := rfl

@[simp] theorem depthOfGroups_cons (g : OpenGroup) (groups : List OpenGroup) :
    depthOfGroups (g :: groups) = depthOfGroups groups + g.slot.nots.length + 1 := by
  rw [depthOfGroups, List.foldl_cons, depthOfGroups_foldl]
  omega

@[simp] theorem depth_operandDue (slot : Slot) (groups : List OpenGroup) :
    (operandDue slot groups).depth = slot.nots.length + depthOfGroups groups := rfl

@[simp] theorem depth_valueDue (key : Token) (slot : Slot) (groups : List OpenGroup) :
    (valueDue key slot groups).depth = slot.nots.length + depthOfGroups groups := rfl

@[simp] theorem depth_operandDone (tree : Tree) (groups : List OpenGroup) :
    (operandDone tree groups).depth = depthOfGroups groups := rfl

@[simp] theorem depth_start : Progress.start.depth = 0 := rfl

/-- No step goes beyond the nesting limit. -/
theorem Step.depth_le {p q : Progress} {t : Token} (h : Step outside p t q)
    (hp : outside + p.depth ≤ maxNesting) : outside + q.depth ≤ maxNesting := by
  cases h with
  | not _ hdepth | lparen _ hdepth =>
      simp [Slot.first] at hdepth ⊢
      omega
  | block | key | value | connective | rparen =>
      simp at hp ⊢
      omega

/-! ## Whole readings -/

/-- The tokens that lead a reading from its start to a state. -/
inductive Reached (outside : Nat) : List Token → Progress → Prop where
  | start : Reached outside [] start
  | snoc {ts : List Token} {p q : Progress} {t : Token} :
      Reached outside ts p → Step outside p t q → Reached outside (ts ++ [t]) q

/-- A reading stops in a state, before the rest of the tokens or at their end. -/
def StopsBefore (outside : Nat) (p : Progress) (rest : List Token) : Prop :=
  ∀ t ∈ rest.head?, ∃ result, p.take outside t = .stop result

theorem Step.run_eq {p q : Progress} {t : Token} (h : Step outside p t q)
    (rest : List Token) : p.run outside (t :: rest) = q.run outside rest := by
  rw [run, h.take_eq]

/-- What a reading comes to depends on the state it has reached and on the tokens
still to come. -/
theorem run_of_reached {ts : List Token} {p : Progress} (h : Reached outside ts p)
    (rest : List Token) : start.run outside (ts ++ rest) = p.run outside rest := by
  induction h generalizing rest with
  | start => rfl
  | snoc _ hstep ih =>
      rw [List.append_assoc, List.singleton_append, ih, hstep.run_eq]

theorem run_of_stopsBefore {p : Progress} {rest : List Token}
    (h : StopsBefore outside p rest) :
    p.run outside rest = ⟨p.outcome (rest.head?.map fun t => t.kind), p.depth, rest⟩ := by
  cases rest with
  | nil =>
      rw [run, List.head?_nil, Option.map_none, outcome]
      all_goals simp
  | cons t rest =>
      obtain ⟨result, htake⟩ := h t rfl
      rw [run, htake, take_eq_stop htake]
      rfl

/-- Every list of tokens falls into a part that a reading takes and a rest before
which it stops. -/
theorem exists_reached {before : List Token} {p : Progress} (h : Reached outside before p)
    (ts : List Token) :
    ∃ taken rest q, ts = taken ++ rest ∧ Reached outside (before ++ taken) q ∧
      StopsBefore outside q rest := by
  induction ts generalizing before p with
  | nil => exact ⟨[], [], p, rfl, by simpa using h, fun t ht => by simp at ht⟩
  | cons t ts ih =>
      cases htake : p.take outside t with
      | onward next =>
          obtain ⟨taken, rest, q, rfl, hq, hstop⟩ := ih (h.snoc (step_of_take htake))
          exact ⟨t :: taken, rest, q, rfl, by simpa using hq, hstop⟩
      | stop result =>
          refine ⟨[], t :: ts, p, rfl, by simpa using h, fun u hu => ?_⟩
          obtain rfl : t = u := by simpa using hu
          exact ⟨result, htake⟩

/-- The first tokens of those that are taken are taken. -/
theorem Reached.of_append {ts us : List Token} {p : Progress}
    (h : Reached outside (ts ++ us) p) : ∃ q, Reached outside ts q := by
  generalize hall : ts ++ us = all at h
  induction h generalizing us with
  | start =>
      obtain ⟨rfl, -⟩ := List.append_eq_nil_iff.1 hall
      exact ⟨_, .start⟩
  | @snoc before p q t hbefore hstep ih =>
      rcases List.eq_nil_or_concat us with rfl | ⟨us, u, rfl⟩
      · rw [List.append_nil] at hall
        exact ⟨q, hall ▸ hbefore.snoc hstep⟩
      · rw [List.concat_eq_append, ← List.append_assoc] at hall
        exact ih (List.append_inj_left' hall rfl)

theorem Reached.depth_le {ts : List Token} {p : Progress} (h : Reached outside ts p)
    (hout : outside ≤ maxNesting) : outside + p.depth ≤ maxNesting := by
  induction h with
  | start => simpa using hout
  | snoc _ hstep ih => exact hstep.depth_le ih

end Tree.Progress

end BoolQuery
