import BoolQuery.Proofs.ReadStep

/-!
# Readings accept the grammar

The reader and the grammar are compared through `Fits`: a tree fits in a place if
it is well-kinded and can stand inside of that many NOTs and groups without going
beyond the nesting limit. The number of NOTs and groups around is a parameter and
not part of the tree, so nothing has to be undone when a group is closed.

Soundness carries `Fits` through every state of a reading, for the chain in hand
and for the chains that wait outside the open groups, together with the fact that
the tokens written in a state are those taken so far. Completeness walks a tree
that fits and lets the reader take its tokens one by one; the walk of an operand
ends with the operand filled into its slot, which is where the two inductions
meet. `ofStream_eq_ok_iff` is the outcome for a whole query.
-/

namespace BoolQuery

open BoolQuery.Tree BoolQuery.Tree.Progress

/-- Whether an operand can stand inside of `around` NOTs and groups. -/
def Operand.Fits (around : Nat) (operand : Operand) : Prop :=
  operand.WellKinded ∧ around + operand.nesting ≤ maxNesting

namespace Tree

/-- Whether a tree can stand inside of `around` NOTs and groups. -/
def Fits (around : Nat) (tree : Tree) : Prop :=
  tree.WellKinded ∧ around + tree.nesting ≤ maxNesting

namespace Slot

/-- The tokens before the operand that a slot waits for. -/
def tokens (slot : Slot) : List Token :=
  (match slot.joined with
    | none => []
    | some (left, _, token) => left.tokens ++ [token]) ++ slot.nots.reverse

/-- Whether a slot can stand inside of `around` NOTs and groups. -/
structure Fits (around : Nat) (slot : Slot) : Prop where
  depth : around + slot.nots.length ≤ maxNesting
  nots : ∀ t ∈ slot.nots, t.kind = .not
  joined : ∀ left op token, slot.joined = some (left, op, token) →
    left.Fits around ∧ token.kind = op.kind

theorem fits_first {around : Nat} (h : around ≤ maxNesting) : first.Fits around :=
  ⟨h, fun t ht => by simp [first] at ht, fun left op token hj => by simp [first] at hj⟩

/-- A NOT in front of an operand may as well belong to the operand. -/
theorem fill_not (joined : Option (Tree × Connective × Token)) (t : Token)
    (nots : List Token) (operand : Operand) :
    (Slot.mk joined (t :: nots)).fill operand =
      (Slot.mk joined nots).fill (.negated t operand) := by
  cases joined with
  | none => rfl
  | some j => rfl

@[simp] theorem fill_first (operand : Operand) : first.fill operand = .single operand := rfl

@[simp] theorem fill_joined (left : Tree) (op : Connective) (token : Token)
    (operand : Operand) :
    (Slot.mk (some (left, op, token)) []).fill operand = .join left op token operand := rfl

theorem tokens_fill (slot : Slot) (operand : Operand) :
    (slot.fill operand).tokens = slot.tokens ++ operand.tokens := by
  obtain ⟨joined, nots⟩ := slot
  induction nots generalizing operand with
  | nil =>
      cases joined with
      | none => rfl
      | some j => simp [fill, tokens, Tree.tokens]
  | cons t nots ih =>
      rw [fill_not, ih]
      simp [tokens, Operand.tokens]

theorem fits_fill {around : Nat} {slot : Slot} {operand : Operand}
    (hslot : slot.Fits around) (hop : operand.Fits (around + slot.nots.length)) :
    (slot.fill operand).Fits around := by
  obtain ⟨joined, nots⟩ := slot
  induction nots generalizing operand with
  | nil =>
      obtain ⟨hkind, hnest⟩ := hop
      simp only [List.length_nil, Nat.add_zero] at hnest
      cases joined with
      | none => exact ⟨hkind, hnest⟩
      | some j =>
          obtain ⟨hleft, hop⟩ := hslot.joined _ _ _ rfl
          exact ⟨⟨hleft.1, hop, hkind⟩, by
            have := hleft.2
            simp only [fill, List.foldl_nil, nesting]
            omega⟩
  | cons t nots ih =>
      rw [fill_not]
      refine ih ⟨?_, ?_, hslot.joined⟩ ⟨⟨?_, hop.1⟩, ?_⟩
      · have := hslot.depth
        simp only [List.length_cons] at this ⊢
        omega
      · exact fun u hu => hslot.nots u (by simp [hu])
      · exact hslot.nots t (by simp)
      · have := hop.2
        simp only [List.length_cons, Operand.nesting] at this ⊢
        omega

end Slot

namespace Progress

/-- The tokens up to the innermost open group, its parenthesis included. -/
def tokensOfGroups : List OpenGroup → List Token
  | [] => []
  | g :: groups => tokensOfGroups groups ++ g.slot.tokens ++ [g.lparen]

def tokens : Progress → List Token
  | operandDue slot groups => tokensOfGroups groups ++ slot.tokens
  | valueDue key slot groups => tokensOfGroups groups ++ slot.tokens ++ [key]
  | operandDone tree groups => tokensOfGroups groups ++ tree.tokens

/-- Whether what waits outside of open groups fits its place. -/
def GroupsFit (outside : Nat) : List OpenGroup → Prop
  | [] => True
  | g :: groups =>
      g.slot.Fits (outside + depthOfGroups groups) ∧ g.lparen.kind = .lparen ∧
        GroupsFit outside groups

/-- Whether all that a reading holds fits its place. -/
def Fits (outside : Nat) : Progress → Prop
  | operandDue slot groups =>
      slot.Fits (outside + depthOfGroups groups) ∧ GroupsFit outside groups
  | valueDue key slot groups =>
      key.kind = .key ∧ slot.Fits (outside + depthOfGroups groups) ∧ GroupsFit outside groups
  | operandDone tree groups =>
      tree.Fits (outside + depthOfGroups groups) ∧ GroupsFit outside groups

variable {outside : Nat}

theorem Step.tokens_eq {p q : Progress} {t : Token} (h : Step outside p t q) :
    q.tokens = p.tokens ++ [t] := by
  cases h with
  | not | lparen | key => simp [tokens, tokensOfGroups, Slot.tokens, Slot.first]
  | block htokens =>
      simp [tokens, Slot.tokens_fill, Operand.tokens, htokens]
  | value =>
      simp [tokens, Slot.tokens_fill, Operand.tokens, Block.tokens]
  | connective => simp [tokens, Slot.tokens]
  | rparen =>
      simp [tokens, tokensOfGroups, Slot.tokens_fill, Operand.tokens]

theorem Step.fits {p q : Progress} {t : Token} (h : Step outside p t q)
    (hp : p.Fits outside) : q.Fits outside := by
  cases h with
  | not hkind hdepth =>
      obtain ⟨hslot, hgroups⟩ := hp
      refine ⟨⟨?_, ?_, hslot.joined⟩, hgroups⟩
      · simp only [depth_operandDue, List.length_cons] at hdepth ⊢
        omega
      · intro u hu
        rcases List.mem_cons.1 hu with rfl | hu
        · exact hkind
        · exact hslot.nots u hu
  | lparen hkind hdepth =>
      obtain ⟨hslot, hgroups⟩ := hp
      refine ⟨Slot.fits_first ?_, hslot, hkind, hgroups⟩
      simp only [depth_operandDue, depthOfGroups_cons] at hdepth ⊢
      omega
  | block _ hb =>
      obtain ⟨hslot, hgroups⟩ := hp
      exact ⟨Slot.fits_fill hslot ⟨hb, hslot.depth⟩, hgroups⟩
  | key hkind => exact ⟨hkind, hp⟩
  | value hkind =>
      obtain ⟨hkey, hslot, hgroups⟩ := hp
      exact ⟨Slot.fits_fill hslot ⟨⟨hkey, hkind⟩, hslot.depth⟩, hgroups⟩
  | connective hkind =>
      obtain ⟨htree, hgroups⟩ := hp
      refine ⟨⟨?_, fun u hu => by simp at hu, ?_⟩, hgroups⟩
      · have := htree.2
        simp only [List.length_nil]
        omega
      · intro left op token hj
        simp only [Option.some.injEq, Prod.mk.injEq] at hj
        obtain ⟨rfl, rfl, rfl⟩ := hj
        exact ⟨htree, hkind⟩
  | rparen hkind =>
      obtain ⟨htree, hslot, hlparen, hgroups⟩ := hp
      refine ⟨Slot.fits_fill hslot ⟨⟨hlparen, htree.1, hkind⟩, ?_⟩, hgroups⟩
      have := htree.2
      simp only [depthOfGroups_cons, Operand.nesting] at this ⊢
      omega

theorem Reached.tokens_eq {ts : List Token} {p : Progress} (h : Reached outside ts p) :
    p.tokens = ts := by
  induction h with
  | start => rfl
  | snoc _ hstep ih => rw [hstep.tokens_eq, ih]

theorem Reached.fits {ts : List Token} {p : Progress} (h : Reached outside ts p)
    (hout : outside ≤ maxNesting) : p.Fits outside := by
  induction h with
  | start => exact ⟨Slot.fits_first hout, trivial⟩
  | snoc _ hstep ih => exact hstep.fits ih

/-! ## Completeness

An operand that fits where a slot waits for it is taken token by token, and ends up
in the slot. The induction is over the operand and, inside its groups, over trees,
which are read from the slot of a first operand. -/

mutual

theorem Reached.operand {before : List Token} {slot : Slot} {groups : List OpenGroup}
    (operand : Operand) (h : Reached outside before (operandDue slot groups))
    (hfits : operand.Fits (outside + (operandDue slot groups).depth)) :
    Reached outside (before ++ operand.tokens)
      (operandDone (slot.fill operand) groups) := by
  obtain ⟨hkind, hnest⟩ := hfits
  cases operand with
  | block b =>
      cases b with
      | quoted t | word t => exact h.snoc (.block rfl hkind)
      | keyValue key value =>
          have hkey := h.snoc (.key hkind.1)
          simpa [Operand.tokens, Block.tokens] using hkey.snoc (.value hkind.2)
  | negated not operand =>
      simp only [Operand.nesting, depth_operandDue] at hnest
      have hnot := h.snoc (.not hkind.1 (by simp only [depth_operandDue]; omega))
      have hop := Reached.operand operand hnot ⟨hkind.2, by
        simp only [depth_operandDue, List.length_cons]
        omega⟩
      rw [Slot.fill_not] at hop
      simpa [Operand.tokens] using hop
  | group lparen tree rparen =>
      simp only [Operand.nesting, depth_operandDue] at hnest
      have hopen := h.snoc (.lparen hkind.1 (by simp only [depth_operandDue]; omega))
      have htree := Reached.tree tree hopen ⟨hkind.2.1, by
        simp only [depth_operandDone, depthOfGroups_cons]
        omega⟩
      simpa [Operand.tokens] using htree.snoc (.rparen hkind.2.2)

theorem Reached.tree {before : List Token} {groups : List OpenGroup} (tree : Tree)
    (h : Reached outside before (operandDue .first groups))
    (hfits : tree.Fits (outside + (operandDone tree groups).depth)) :
    Reached outside (before ++ tree.tokens) (operandDone tree groups) := by
  obtain ⟨hkind, hnest⟩ := hfits
  cases tree with
  | single operand =>
      exact Reached.operand operand h ⟨hkind, by simpa [Slot.first, nesting] using hnest⟩
  | join left op token right =>
      simp only [nesting, depth_operandDone] at hnest
      have hleft := Reached.tree left h ⟨hkind.1, by simp only [depth_operandDone]; omega⟩
      have hright := Reached.operand right (hleft.snoc (.connective hkind.2.1))
        ⟨hkind.2.2, by simp only [depth_operandDue, List.length_nil]; omega⟩
      simpa [Tree.tokens] using hright

end

end Progress

/-! ## Whole queries -/

/-- What a reader of whole queries answers, from the state in which it stops. -/
theorem readAll_eq (c : Cursor) {taken rest : List Token} {p : Progress}
    (htokens : c.rest = taken ++ rest) (hp : Reached c.depth taken p)
    (hstop : StopsBefore c.depth p rest) :
    c.readAll.1 =
      match p.outcome (rest.head?.map fun t => t.kind), rest with
      | .ok tree, [] => .ok tree
      | .ok _, _ :: _ =>
          .error ((Cursor.mk rest (c.depth + p.depth) c.sourceLength).refuse
            ⟨.expression, .operatorOrEnd⟩)
      | .error complaint, _ =>
          .error ((Cursor.mk rest (c.depth + p.depth) c.sourceLength).refuse complaint) := by
  have hrun : Progress.start.run c.depth c.rest =
      ⟨p.outcome (rest.head?.map fun t => t.kind), p.depth, rest⟩ := by
    rw [htokens, run_of_reached hp, run_of_stopsBefore hstop]
  simp only [Cursor.readAll, Cursor.readTree, hrun]
  cases p.outcome (rest.head?.map fun t => t.kind) with
  | error complaint => rfl
  | ok tree => cases rest <;> rfl

/-- Only a complete operand outside of all groups is a tree. -/
theorem eq_operandDone_of_outcome {p : Progress} {next : Option Kind} {tree : Tree}
    (h : p.outcome next = .ok tree) : p = operandDone tree [] := by
  unfold outcome at h
  split at h
  · simp at h
  · simp at h
  · unfold halt at h
    split at h
    · simp at h
    · simp at h
    · simp at h
    · injection h with h
      rw [h]

/-- A query is read as a tree by reaching it with all of its tokens. -/
theorem reached_of_ofStream {s : TokenStream} {tree : Tree} (h : ofStream s = .ok tree) :
    Reached 0 s.tokens (operandDone tree []) := by
  obtain ⟨taken, rest, p, htokens, hp, hstop⟩ :=
    exists_reached (Reached.start : Reached 0 [] .start) s.tokens
  rw [ofStream, readAll_eq (Cursor.ofStream s) htokens hp hstop] at h
  cases hout : p.outcome (rest.head?.map fun t => t.kind) with
  | error complaint =>
      rw [hout] at h
      simp at h
  | ok t =>
      rw [hout] at h
      cases rest with
      | cons u rest => simp at h
      | nil =>
          injection h with h
          subst h
          rw [htokens, List.append_nil, ← eq_operandDone_of_outcome hout]
          exact hp

theorem ofStream_of_reached {s : TokenStream} {tree : Tree}
    (h : Reached 0 s.tokens (operandDone tree [])) : ofStream s = .ok tree := by
  rw [ofStream, readAll_eq (Cursor.ofStream s) (List.append_nil s.tokens).symm h
    (fun t ht => by simp at ht)]
  rfl

theorem fits_of_ofStream {s : TokenStream} {tree : Tree} (h : ofStream s = .ok tree) :
    tree.Fits 0 ∧ tree.tokens = s.tokens := by
  have hreached := reached_of_ofStream h
  exact ⟨(hreached.fits (Nat.zero_le _)).1, hreached.tokens_eq⟩

theorem ofStream_of_fits {s : TokenStream} {tree : Tree} (hfits : tree.Fits 0)
    (htokens : tree.tokens = s.tokens) : ofStream s = .ok tree := by
  have hreached := Reached.tree tree (.start : Reached 0 [] .start) hfits
  rw [List.nil_append, htokens] at hreached
  exact ofStream_of_reached hreached

/-- The tokens of a query are read as a tree exactly if the tree is one of the
grammar, within the nesting limit, that is written in these tokens. So there is at
most one such tree, and what stands beside a group does not count for its depth. -/
theorem ofStream_eq_ok_iff (s : TokenStream) (tree : Tree) :
    ofStream s = .ok tree ↔
      tree.WellKinded ∧ tree.nesting ≤ maxNesting ∧ tree.tokens = s.tokens := by
  constructor
  · intro h
    obtain ⟨⟨hkind, hnest⟩, htokens⟩ := fits_of_ofStream h
    exact ⟨hkind, by omega, htokens⟩
  · rintro ⟨hkind, hnest, htokens⟩
    exact ofStream_of_fits ⟨hkind, by omega⟩ htokens

end Tree

end BoolQuery
