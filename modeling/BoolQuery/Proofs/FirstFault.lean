import BoolQuery.Proofs.ReadGrammar

/-!
# Errors stand at the first fault

A list of tokens is viable if some query starts with it. The reader never goes
back, so it has to notice the first token with which the tokens stop being viable
at that token, and this file shows that it does, and what it says there.

Viable tokens are exactly those that a reading takes. In one direction, any state
can be completed: an operand where one is due, the value of a key, and a
parenthesis for each open group. In the other, a reading that has stopped at a
token stops there whatever comes behind.

What the reader says at the first fault is a matter of the tokens before it alone,
and `blame` reads it off them without a state: from the last token, from the
parentheses that are open, and from the refused token itself. `Reached.lastKind`,
`Reached.parens` and `Reached.pending` tie the three to the state; the last one
also counts the NOTs and groups around a place, so that complaints about depth can
be told to come at the limit and not before.
-/

namespace BoolQuery.Tree

open Progress

/-- Whether some query that can be read starts with these tokens. -/
def Viable (ts : List Token) : Prop :=
  ∃ s tree, ts <+: s.tokens ∧ ofStream s = .ok tree

/-- The first token with which tokens stop being viable, or their end. -/
def FirstFault (ts : List Token) (i : Nat) : Prop :=
  (∀ j < i, Viable (ts.take (j + 1))) ∧
    (i < ts.length ∧ ¬ Viable (ts.take (i + 1)) ∨ i = ts.length)

def Unclosed (ts : List Token) : Prop :=
  ts.countP (fun t => t.kind = .rparen) < ts.countP (fun t => t.kind = .lparen)

instance (ts : List Token) : Decidable (Unclosed ts) :=
  inferInstanceAs (Decidable (_ < _))

def operandDueAfter : Option Kind → Bool
  | none | some .not | some .and | some .or | some .lparen => true
  | _ => false

/-- What breaks the grammar behind viable tokens, at a further token that they do
not go on with or at the end. -/
def blame (before : List Token) (next : Option Token) : Complaint :=
  let last := before.getLast?.map fun t => t.kind
  if last = some .key then ⟨.block, .quotedValue⟩
  else if operandDueAfter last then
    match next.map Token.kind with
    | some .not => ⟨.negation, .shallowerNesting⟩
    | some .lparen => ⟨.group, .shallowerNesting⟩
    | _ => ⟨.primary, .operand⟩
  else if Unclosed before then ⟨.group, .closingParen⟩
  else ⟨.expression, .operatorOrEnd⟩

/-- The NOTs that wait for their operands after one more token: those of the
innermost open group first, those outside of all groups last. -/
def pendingAfter (pending : List Nat) (t : Token) : List Nat :=
  match t.kind, pending with
  | .not, n :: outer => (n + 1) :: outer
  | .lparen, _ => 0 :: pending
  | .rparen, _ :: _ :: outer => 0 :: outer
  | .quoted, _ :: outer => 0 :: outer
  | .word, _ :: outer => 0 :: outer
  | _, _ => pending

/-- The number of NOTs and groups around the place behind some tokens. -/
def enclosing (ts : List Token) : Nat :=
  let pending := ts.foldl pendingAfter [0]
  pending.foldr (· + ·) 0 + (pending.length - 1)

/-- Whether a syntax error points at the first fault of a query, with a rule and an
expectation that the tokens up to there call for. A complaint about depth is only in
order with as many NOTs and groups around as there may be. -/
structure PointsAt (s : TokenStream) (e : SyntaxError) (i : Nat) : Prop where
  first : ∀ j, FirstFault s.tokens j ↔ j = i
  found : e.found = s.tokens[i]?
  span : e.span = match s.tokens[i]? with
    | some t => t.span
    | none => .point s.sourceLength
  blame : Complaint.mk e.rule e.expected = blame (s.tokens.take i) s.tokens[i]?
  depth : e.expected = .shallowerNesting → enclosing (s.tokens.take i) = maxNesting

namespace Progress

variable {outside : Nat}

/-! ## Viable tokens are those that a reading takes -/

theorem Reached.close {ts : List Token} {tree : Tree} {groups : List OpenGroup}
    (h : Reached outside ts (operandDone tree groups)) :
    ∃ more whole, Reached outside (ts ++ more) (operandDone whole []) := by
  induction groups generalizing ts tree with
  | nil => exact ⟨[], tree, by simpa using h⟩
  | cons group groups ih =>
      have hclosed := h.snoc (.rparen (t := ⟨.rparen, ")", .point 0⟩) rfl)
      obtain ⟨more, whole, hwhole⟩ := ih hclosed
      exact ⟨_ :: more, whole, by simpa using hwhole⟩

theorem Reached.complete {ts : List Token} {p : Progress} (h : Reached outside ts p) :
    ∃ more whole, Reached outside (ts ++ more) (operandDone whole []) := by
  cases p with
  | operandDue slot groups =>
      have hword := h.snoc (.block (t := ⟨.word, "a", .point 0⟩) (b := .word _) rfl rfl)
      obtain ⟨more, whole, hwhole⟩ := hword.close
      exact ⟨_ :: more, whole, by simpa using hwhole⟩
  | valueDue key slot groups =>
      have hvalue := h.snoc (.value (t := ⟨.quoted, "''", .point 0⟩) rfl)
      obtain ⟨more, whole, hwhole⟩ := hvalue.close
      exact ⟨_ :: more, whole, by simpa using hwhole⟩
  | operandDone tree groups => exact h.close

theorem Reached.viable {ts : List Token} {p : Progress} (h : Reached 0 ts p) :
    Viable ts := by
  obtain ⟨more, whole, hwhole⟩ := h.complete
  exact ⟨⟨ts ++ more, [], 0⟩, whole, List.prefix_append .., ofStream_of_reached hwhole⟩

theorem Reached.not_viable {ts : List Token} {p : Progress} {t : Token}
    {result : Except Complaint Tree} (h : Reached 0 ts p)
    (htake : p.take 0 t = .stop result) :
    ¬ Viable (ts ++ [t]) := by
  rintro ⟨s, tree, ⟨more, hmore⟩, htree⟩
  have hall := run_of_reached (reached_of_ofStream htree) []
  have hpart := run_of_reached h (t :: more)
  rw [List.append_nil] at hall
  rw [show ts ++ t :: more = s.tokens by simpa using hmore, hall, run, run, htake] at hpart
  simp at hpart

/-! ## What the tokens say of the state -/

theorem Reached.lastKind {ts : List Token} {p : Progress} (h : Reached outside ts p) :
    match p with
    | operandDue _ _ => operandDueAfter (ts.getLast?.map fun t => t.kind) = true
    | valueDue _ _ _ => ts.getLast?.map (fun t => t.kind) = some .key
    | operandDone _ _ =>
        ts.getLast?.map (fun t => t.kind) ≠ some .key ∧
          operandDueAfter (ts.getLast?.map fun t => t.kind) = false := by
  cases h with
  | start => rfl
  | snoc _ hstep =>
      cases hstep with
      | not hkind _ | lparen hkind _ | key hkind => simp [hkind, operandDueAfter]
      | value hkind | rparen hkind => simp [hkind, operandDueAfter]
      | @connective _ _ _ op hkind =>
          cases op <;> simp [hkind, Connective.kind, operandDueAfter]
      | block htokens hb =>
          rcases Block.kind_eq htokens hb with hkind | hkind <;>
            simp [hkind, operandDueAfter]

def openGroups : Progress → List OpenGroup
  | operandDue _ groups | valueDue _ _ groups | operandDone _ groups => groups

def waitingNots : Progress → List Token
  | operandDue slot _ | valueDue _ slot _ => slot.nots
  | operandDone _ _ => []

theorem Reached.parens {ts : List Token} {p : Progress} (h : Reached outside ts p) :
    ts.countP (fun t => t.kind = .lparen) =
      ts.countP (fun t => t.kind = .rparen) + p.openGroups.length := by
  induction h with
  | start => rfl
  | snoc _ hstep ih =>
      cases hstep with
      | not hkind _ | lparen hkind _ | key hkind | value hkind | rparen hkind =>
          simp [hkind, openGroups] at ih ⊢
          omega
      | @connective _ _ _ op hkind =>
          cases op <;> simpa [hkind, Connective.kind, openGroups] using ih
      | block htokens hb =>
          rcases Block.kind_eq htokens hb with hkind | hkind <;>
            simpa [hkind, openGroups] using ih

theorem Reached.pending {ts : List Token} {p : Progress} (h : Reached outside ts p) :
    ts.foldl pendingAfter [0] =
      p.waitingNots.length :: p.openGroups.map fun g => g.slot.nots.length := by
  induction h with
  | start => rfl
  | snoc _ hstep ih =>
      rw [List.foldl_append, List.foldl_cons, List.foldl_nil, ih]
      cases hstep with
      | not hkind _ | lparen hkind _ | key hkind | value hkind | rparen hkind =>
          simp [pendingAfter, hkind, openGroups, waitingNots, Slot.first]
      | @connective _ _ _ op hkind =>
          cases op <;>
            simp [pendingAfter, hkind, Connective.kind, openGroups, waitingNots]
      | block htokens hb =>
          rcases Block.kind_eq htokens hb with hkind | hkind <;>
            simp [pendingAfter, hkind, openGroups, waitingNots]

theorem depthOfGroups_eq_foldr (groups : List OpenGroup) :
    depthOfGroups groups =
      (groups.map fun g => g.slot.nots.length).foldr (· + ·) 0 + groups.length := by
  induction groups with
  | nil => rfl
  | cons g groups ih =>
      simp only [depthOfGroups_cons, ih, List.map_cons, List.foldr_cons, List.length_cons]
      omega

theorem Reached.enclosing_eq {ts : List Token} {p : Progress} (h : Reached outside ts p) :
    enclosing ts = p.depth := by
  have hdepth : p.depth = p.waitingNots.length + depthOfGroups p.openGroups := by
    cases p with
    | operandDue | valueDue => rfl
    | operandDone => simp [waitingNots, openGroups]
  rw [enclosing, h.pending, hdepth, depthOfGroups_eq_foldr]
  simp only [List.foldr_cons, List.length_cons, List.length_map, Nat.add_sub_cancel]
  omega

theorem Reached.unclosed_iff {ts : List Token} {p : Progress} (h : Reached outside ts p) :
    Unclosed ts ↔ p.openGroups ≠ [] := by
  have hparens := h.parens
  rw [Unclosed, ← List.length_pos_iff]
  omega

theorem Reached.blame_eq {ts : List Token} {p : Progress} {next : Option Token}
    {c : Complaint} (h : Reached outside ts p)
    (hout : p.outcome (next.map Token.kind) = .error c) : blame ts next = c := by
  have hlast := h.lastKind
  have hopen := h.unclosed_iff
  cases p with
  | operandDue slot groups =>
      have hkey : ts.getLast?.map (fun t => t.kind) ≠ some .key := by
        intro heq
        rw [heq] at hlast
        simp [operandDueAfter] at hlast
      rw [blame, if_neg hkey, if_pos hlast]
      unfold outcome at hout
      split at hout
      · rename_i hnext
        rw [hnext]
        injection hout
      · rename_i hnext
        rw [hnext]
        injection hout
      · rename_i hnot hlparen
        injection hout with hout
        rw [← hout]
        cases hnext : next.map Token.kind with
        | none => rfl
        | some kind => cases kind <;> simp_all
  | valueDue key slot groups =>
      rw [outcome] at hout
      · injection hout with hout
        rw [← hout, blame, if_pos hlast]
      all_goals simp
  | operandDone tree groups =>
      rw [outcome] at hout
      · cases groups with
        | nil => simp [halt] at hout
        | cons group groups =>
            injection hout with hout
            rw [← hout, blame, if_neg hlast.1, if_neg (by simp [hlast.2]),
              if_pos (hopen.2 (by simp [openGroups]))]
      all_goals simp

theorem Reached.blame_whole {ts : List Token} {tree : Tree} (next : Option Token)
    (h : Reached outside ts (operandDone tree [])) :
    blame ts next = ⟨.expression, .operatorOrEnd⟩ := by
  have hlast := h.lastKind
  have hopen := h.unclosed_iff
  rw [blame, if_neg hlast.1, if_neg (by simp [hlast.2]),
    if_neg (fun hu => hopen.1 hu (by simp [openGroups]))]

theorem Reached.firstFault {taken rest : List Token} {p : Progress}
    (h : Reached 0 taken p) (hstop : StopsBefore 0 p rest) :
    FirstFault (taken ++ rest) taken.length := by
  constructor
  · intro j hj
    obtain ⟨s, tree, hpre, htree⟩ := h.viable
    refine ⟨s, tree, ?_, htree⟩
    rw [List.take_append_of_le_length (by omega)]
    exact (List.take_prefix _ _).trans hpre
  · cases rest with
    | nil => exact .inr (by simp)
    | cons t rest =>
        obtain ⟨result, htake⟩ := hstop t rfl
        refine .inl ⟨by simp, ?_⟩
        rw [List.take_append, List.take_of_length_le (by omega)]
        simpa using h.not_viable htake

theorem Reached.depth_eq {taken rest : List Token} {p : Progress} {c : Complaint}
    (h : Reached 0 taken p) (hstop : StopsBefore 0 p rest)
    (hout : p.outcome (rest.head?.map fun t => t.kind) = .error c)
    (hc : c.expected = .shallowerNesting) : p.depth = maxNesting := by
  refine Nat.le_antisymm (by simpa using h.depth_le (Nat.zero_le _)) ?_
  cases rest with
  | nil => exact absurd hc (expected_of_halt (by simpa using hout))
  | cons t rest =>
      obtain ⟨result, htake⟩ := hstop t rfl
      obtain rfl : result = .error c := (take_eq_stop htake).trans hout
      simpa using le_depth_of_stop htake hc

end Progress

theorem FirstFault.unique {ts : List Token} {i j : Nat} (hi : FirstFault ts i)
    (hj : FirstFault ts j) : i = j := by
  have hle : ∀ {a b}, FirstFault ts a → FirstFault ts b → a ≤ b := by
    intro a b ha hb
    rcases Nat.lt_or_ge b a with hlt | hge
    · have hviable := ha.1 b hlt
      rcases hb.2 with ⟨_, hnot⟩ | hlen
      · exact absurd hviable hnot
      · rcases ha.2 with ⟨hlt', _⟩ | hlen' <;> omega
    · exact hge
  exact Nat.le_antisymm (hle hi hj) (hle hj hi)

/-- What is refused where a reading stops is the first fault, and a complaint that
the tokens call for points at it. -/
theorem pointsAt_refuse {s : TokenStream} {taken rest : List Token} {p : Progress}
    {c : Complaint} (depth : Nat) (htokens : s.tokens = taken ++ rest)
    (hp : Reached 0 taken p) (hstop : StopsBefore 0 p rest)
    (hblame : blame taken rest.head? = c)
    (hdepth : c.expected = .shallowerNesting → p.depth = maxNesting) :
    PointsAt s ((Cursor.mk rest depth s.sourceLength).refuse c) taken.length := by
  have hfault : FirstFault s.tokens taken.length := by
    rw [htokens]
    exact hp.firstFault hstop
  have hnext : s.tokens[taken.length]? = rest.head? := by
    rw [htokens, List.getElem?_append_right (Nat.le_refl _), Nat.sub_self,
      List.head?_eq_getElem?]
  have hbefore : s.tokens.take taken.length = taken := by
    rw [htokens, List.take_left]
  refine ⟨fun j => ⟨fun hj => hj.unique hfault, ?_⟩, hnext.symm, ?_, ?_, ?_⟩
  · rintro rfl
    exact hfault
  · rw [hnext]
    rfl
  · rw [hnext, hbefore, hblame]
    rfl
  · intro hexpected
    rw [hbefore, hp.enclosing_eq]
    exact hdepth hexpected

/-- A query that cannot be read is refused at the first token with which its tokens
stop being viable, or at its end if they never do. -/
theorem error_pointsAt {s : TokenStream} {e : SyntaxError} (h : ofStream s = .error e) :
    ∃ i, PointsAt s e i := by
  obtain ⟨taken, rest, p, htokens, hp, hstop⟩ :=
    exists_reached (Reached.start : Reached 0 [] .start) s.tokens
  rw [List.nil_append] at hp
  rw [ofStream, readAll_eq (Cursor.ofStream s) htokens hp hstop] at h
  cases hout : p.outcome (rest.head?.map fun t => t.kind) with
  | error c =>
      rw [hout] at h
      injection h with h
      rw [← h]
      exact ⟨_, pointsAt_refuse _ htokens hp hstop (hp.blame_eq hout)
        (hp.depth_eq hstop hout)⟩
  | ok tree =>
      rw [hout] at h
      obtain rfl := eq_operandDone_of_outcome hout
      cases rest with
      | nil => simp at h
      | cons t rest =>
          injection h with h
          rw [← h]
          exact ⟨_, pointsAt_refuse _ htokens hp hstop (hp.blame_whole _) (by simp)⟩

/-- The last of 129 NOTs is one too many, whatever would have come behind it. -/
theorem error_pointsAt_last_not :
    let not : Token := ⟨.not, "NOT", ⟨0, 3⟩⟩
    let s : TokenStream := ⟨List.replicate 129 not, [], 516⟩
    let e : SyntaxError := ⟨.negation, .shallowerNesting, some not, not.span⟩
    ofStream s = .error e ∧ ∃ i, PointsAt s e i :=
  ⟨rfl, error_pointsAt rfl⟩

end BoolQuery.Tree
