import BoolQuery.Proofs.ReadGrammar
import BoolQuery.Tree.Descent
import Mathlib.Data.List.Chain

/-!
# Both ways of reading agree

Reading by descent is followed step by step with the states of `Progress`. While a reader is
inside of an operand, the state waits for that operand, and the count of the reader is what
the state is inside of; the same holds where a tree is read in a group. A stretch `Follows`
such a state if it ends in one of two ways: something was read, and the state in which it
was read comes to the same as the one before; or the reader complains where the reading
that is followed stops, of the same, at the same depth.

Besides, the states that a walk went through are `Orderly`: each follows from the one before
by a move of the reader, and all of them stay within the tokens, and between the depth of the
start and the limit. So there is always something to leave where the reader leaves something.
-/

namespace BoolQuery

open BoolQuery.Tree BoolQuery.Tree.Progress

namespace Reader

/-- The tokens still to come. -/
def rest (r : Reader) : List Token := r.tokens.drop r.position

/-- The same reader, with no more than it has to know. -/
def cursor (r : Reader) : Cursor := ⟨r.rest, r.depth, r.sourceLength⟩

theorem head?_rest (r : Reader) : r.rest.head? = r.next? := List.head?_drop

theorem refuse_cursor (r : Reader) (c : Complaint) : r.cursor.refuse c = r.refuse c := by
  rw [refuse, ← head?_rest, Cursor.refuse, cursor]
  cases r.rest <;> rfl

/-- Whether a reader can be what another one comes to. -/
structure Follows (start r : Reader) : Prop where
  tokens : r.tokens = start.tokens
  sourceLength : r.sourceLength = start.sourceLength
  position : start.position ≤ r.position ∧ r.position ≤ start.tokens.length
  depth : start.depth ≤ r.depth ∧ r.depth ≤ maxNesting

/-- The moves of a reader. It takes the token that is next, enters something above the
limit, or leaves something that it is inside of. -/
inductive Moves : Reader → Reader → Prop where
  | take {r : Reader} {t : Token} :
      r.next? = some t → Moves r { r with position := r.position + 1 }
  | enter {r : Reader} : r.depth < maxNesting → Moves r { r with depth := r.depth + 1 }
  | leave {r : Reader} : 0 < r.depth → Moves r { r with depth := r.depth - 1 }

end Reader

namespace Walk

variable {start : Reader} {w : Walk}

/-- The states of a walk, the latest first. -/
def states (w : Walk) : List Reader := w.now :: w.past

/-- Whether a walk goes from the start by moves of a reader, and all of its states can
follow the start. -/
structure Orderly (start : Reader) (w : Walk) : Prop where
  first : w.states.getLast? = some start
  moves : w.states.IsChain fun later earlier => earlier.Moves later
  follows : ∀ r ∈ w.states, start.Follows r

theorem Orderly.now (h : w.Orderly start) : start.Follows w.now := h.follows _ (.head _)

theorem Orderly.move (h : w.Orderly start) {r : Reader} (hmove : w.now.Moves r)
    (hr : start.Follows r) : (w.move r).Orderly start := by
  refine ⟨?_, List.isChain_cons_cons.2 ⟨hmove, h.moves⟩,
    List.forall_mem_cons.2 ⟨hr, h.follows⟩⟩
  exact List.getLast?_cons_cons.trans h.first

theorem rest_advance {t : Token} (h : w.now.next? = some t) :
    w.now.rest = t :: w.advance.now.rest := by
  obtain ⟨hlt, ht⟩ := List.getElem?_eq_some_iff.1 h
  rw [Reader.rest, List.drop_eq_getElem_cons hlt, ht]
  rfl

theorem Orderly.advance (h : w.Orderly start) {t : Token} (ht : w.now.next? = some t) :
    w.advance.Orderly start := by
  obtain ⟨hlt, -⟩ := List.getElem?_eq_some_iff.1 ht
  have hnow := h.now
  rw [hnow.tokens] at hlt
  exact h.move (.take ht) ⟨hnow.tokens, hnow.sourceLength,
    ⟨Nat.le_succ_of_le hnow.position.1, hlt⟩, hnow.depth⟩

theorem Orderly.enter (h : w.Orderly start) (hdepth : w.now.depth < maxNesting) :
    (w.count (w.now.depth + 1)).Orderly start :=
  h.move (.enter hdepth) ⟨h.now.tokens, h.now.sourceLength, h.now.position,
    Nat.le_succ_of_le h.now.depth.1, hdepth⟩

theorem Orderly.leave (h : w.Orderly start) (hdepth : start.depth < w.now.depth) :
    (w.count (w.now.depth - 1)).Orderly start :=
  h.move (.leave (Nat.zero_lt_of_lt hdepth))
    ⟨h.now.tokens, h.now.sourceLength, h.now.position, Nat.le_pred_of_lt hdepth,
    Nat.le_trans (Nat.pred_le _) h.now.depth.2⟩

end Walk

namespace Stretch

variable {start : Reader} {w : Walk} {α β : Type}

theorem Gives.andThen {first : Stretch w α} {a : α} {after last : Walk}
    {result : Except Fault β}
    {next : (a : α) → (after : Walk) → first.Gives (.ok a) after → Stretch after β}
    (h : first.Gives (.ok a) after) (hnext : (next a after h).Gives result last) :
    (first.andThen next).Gives result last := by
  obtain ⟨hresult, rfl⟩ := h
  unfold Stretch.andThen
  split
  · rename_i a' ha
    obtain rfl : a' = a := by simpa using ha.symm.trans hresult
    exact hnext
  · rename_i fault hfault
    cases hfault.symm.trans hresult

theorem Gives.andThen_error {first : Stretch w α} {fault : Fault} {after : Walk}
    {next : (a : α) → (after : Walk) → first.Gives (.ok a) after → Stretch after β}
    (h : first.Gives (.error fault) after) :
    (first.andThen next).Gives (.error fault) after := by
  obtain ⟨hresult, rfl⟩ := h
  unfold Stretch.andThen
  split
  · rename_i a ha
    cases ha.symm.trans hresult
  · rename_i fault' hfault
    obtain rfl : fault' = fault := by simpa using hfault.symm.trans hresult
    exact ⟨rfl, rfl⟩

/-- Whether a stretch, from where the reading that it follows is in a state, reads something
which brings that reading into a further state, or stops where it does. -/
inductive Follows (start : Reader) (p : Progress) (done : α → Progress)
    (post : α → Walk → Prop) (stretch : Stretch w α) : Prop where
  | read (a : α) (after : Walk) : stretch.Gives (.ok a) after → after.Orderly start →
      post a after → p.run start.depth w.now.rest = (done a).run start.depth after.now.rest →
      Follows start p done post stretch
  | refused (c : Complaint) (depth : Nat) (after : Walk) :
      stretch.Gives (.error (.refused (after.now.refuse c))) after → after.Orderly start →
      after.now.depth = start.depth + depth →
      p.run start.depth w.now.rest = ⟨.error c, depth, after.now.rest⟩ →
      Follows start p done post stretch

variable {p : Progress} {mid : α → Progress} {done : β → Progress}
variable {post : α → Walk → Prop} {post' : β → Walk → Prop}

theorem Follows.andThen {first : Stretch w α}
    {next : (a : α) → (after : Walk) → first.Gives (.ok a) after → Stretch after β}
    (h : first.Follows start p mid post)
    (hnext : ∀ a after (hgives : first.Gives (.ok a) after), after.Orderly start →
      post a after → (next a after hgives).Follows start (mid a) done post') :
    (first.andThen next).Follows start p done post' := by
  cases h with
  | read a after hgives horder hpost hrun =>
      cases hnext a after hgives horder hpost with
      | read b last hgives' horder' hpost' hrun' =>
          exact .read b last (hgives.andThen hgives') horder' hpost' (hrun.trans hrun')
      | refused c depth last hgives' horder' hdepth hrun' =>
          exact .refused c depth last (hgives.andThen hgives') horder' hdepth
            (hrun.trans hrun')
  | refused c depth after hgives horder hdepth hrun =>
      exact .refused c depth after hgives.andThen_error horder hdepth hrun

end Stretch

namespace Walk

variable {start : Reader} {w : Walk} {p : Progress} {α : Type}

/-! ## One token, one count -/

theorem follows_found {done : α → Progress} {post : α → Walk → Prop} {a : α}
    (hw : w.Orderly start) (hpost : post a w) (hdone : done a = p) :
    (w.found a).Follows start p done post :=
  .read a w ⟨rfl, rfl⟩ hw hpost (by rw [hdone])

/-- A reader complains where the reading that it follows has no way to go on. -/
theorem follows_refuse {done : α → Progress} {post : α → Walk → Prop} {c : Complaint}
    (hw : w.Orderly start) (hdepth : w.now.depth = start.depth + p.depth)
    (hstop : ∀ t ∈ w.now.next?, ∀ q, ¬ Step start.depth p t q)
    (houtcome : p.outcome (w.now.next?.map Token.kind) = .error c) :
    (w.refuse c).Follows start p done post := by
  refine .refused c p.depth w ⟨rfl, rfl⟩ hw hdepth ?_
  have hstops : StopsBefore start.depth p w.now.rest := by
    intro t ht
    rw [w.now.head?_rest] at ht
    cases htake : p.take start.depth t with
    | onward q => exact absurd (step_of_take htake) (hstop t ht q)
    | stop result => exact ⟨result, rfl⟩
  rw [run_of_stopsBefore hstops, w.now.head?_rest]
  exact congrArg (Ending.mk · _ _) houtcome

theorem follows_expect (done : Token → Progress) {kind : Kind} {c : Complaint}
    (hw : w.Orderly start)
    (hstep : ∀ t ∈ w.now.next?, t.kind = kind → Step start.depth p t (done t))
    (hstop : (∀ t ∈ w.now.next?, t.kind ≠ kind) →
      (w.refuse c).Follows start p done fun _ after => after = w.advance) :
    (w.expect kind c).Follows start p done fun _ after => after = w.advance := by
  rw [expect]
  split
  · rename_i t ht
    split
    · rename_i hkind
      refine .read t _ ⟨rfl, rfl⟩ (hw.advance ht) rfl ?_
      rw [rest_advance ht, (hstep t ht hkind).run_eq]
    · rename_i hkind
      refine hstop fun u hu => ?_
      obtain rfl : t = u := Option.some.inj (ht.symm.trans hu)
      exact hkind
  · rename_i hnone
    exact hstop fun u hu => by simp [hnone] at hu

theorem follows_connective? {tree : Tree} {groups : List OpenGroup} (hw : w.Orderly start) :
    w.connective?.Follows start (operandDone tree groups)
      (fun joined => match joined with
        | some (op, t) => operandDue ⟨some (tree, op, t), []⟩ groups
        | none => operandDone tree groups)
      fun joined after => match joined with
        | some _ => after = w.advance
        | none => after = w ∧ ∀ t ∈ w.now.next?, Connective.ofKind? t.kind = none := by
  rw [connective?]
  split
  · rename_i t ht
    split
    · rename_i op hop
      refine .read (some (op, t)) _ ⟨rfl, rfl⟩ (hw.advance ht) rfl ?_
      have hstep : Step start.depth (operandDone tree groups) t _ :=
        .connective (Connective.ofKind?_eq_some_iff.1 hop)
      rw [rest_advance ht, hstep.run_eq]
    · rename_i hop
      refine follows_found hw ⟨rfl, fun u hu => ?_⟩ rfl
      obtain rfl : t = u := Option.some.inj (ht.symm.trans hu)
      exact hop
  · rename_i hnone
    exact follows_found hw ⟨rfl, fun u hu => by simp [hnone] at hu⟩ rfl

/-- What was entered can be left, and then the operand is complete. -/
theorem follows_leave {operand : Operand} {done : Operand → Progress} {depth : Nat}
    (hw : w.Orderly start) (hstart : start.depth ≤ depth) (hdepth : w.now.depth = depth + 1)
    (hdone : done operand = p) :
    (w.leave.andThen fun _ after _ => after.found operand).Follows start p done
      fun _ after => after.now.depth = depth := by
  have hleave : w.leave.Gives (.ok ()) (w.count (w.now.depth - 1)) := by
    rw [leave, if_neg (by omega)]
    exact ⟨rfl, rfl⟩
  have hback : w.now.depth - 1 = depth := by omega
  have hread : w.leave.Follows start p (fun _ => p) fun _ after => after.now.depth = depth :=
    .read () _ hleave (hw.leave (by omega)) hback rfl
  exact hread.andThen fun _ after _ horder hafter => follows_found horder hafter hdone

/-! ## Phrases -/

section Due

variable {slot : Slot} {groups : List OpenGroup} (hw : w.Orderly start)
  (hdepth : w.now.depth = start.depth + (operandDue slot groups).depth)

include hw hdepth

/-- A token that starts no operand stops the reading where one is due. -/
theorem follows_refuse_operand {done : α → Progress} {post : α → Walk → Prop}
    (hnone : ∀ kind ∈ w.now.next?.map Token.kind,
      kind ≠ .not ∧ kind ≠ .lparen ∧ kind ≠ .quoted ∧ kind ≠ .word ∧ kind ≠ .key) :
    (w.refuse ⟨.primary, .operand⟩).Follows start (operandDue slot groups) done post := by
  refine follows_refuse hw hdepth (fun t ht q hstep => ?_) ?_
  · obtain ⟨hnot, hlparen, hquoted, hword, hkey⟩ := hnone t.kind (Option.mem_map_of_mem _ ht)
    cases hstep with
    | not hkind _ => exact hnot hkind
    | lparen hkind _ => exact hlparen hkind
    | block htokens hb => exact (Block.kind_eq htokens hb).elim hquoted hword
    | key hkind => exact hkey hkind
  · cases hnext : w.now.next?.map Token.kind with
    | none => rfl
    | some kind =>
        obtain ⟨hnot, hlparen, -⟩ := hnone kind hnext
        cases kind <;> first | rfl | contradiction

/-- At the limit, a NOT or a group stops the reading where it could start. -/
theorem follows_refuse_deep {done : α → Progress} {post : α → Walk → Prop} {kind : Kind}
    {rule : GrammarRule} (hlimit : maxNesting ≤ w.now.depth)
    (hnext : w.now.next?.map Token.kind = some kind)
    (hrule : kind = .not ∧ rule = .negation ∨ kind = .lparen ∧ rule = .group) :
    (w.refuse ⟨rule, .shallowerNesting⟩).Follows start
      (operandDue slot groups) done post := by
  obtain ⟨t, ht, rfl⟩ := Option.map_eq_some_iff.1 hnext
  refine follows_refuse hw hdepth (fun u hu q hstep => ?_) ?_
  · obtain rfl : t = u := Option.some.inj (ht.symm.trans hu)
    cases hstep with
    | not _ hless | lparen _ hless => omega
    | key hkind => simp [hkind] at hrule
    | block htokens hb => rcases Block.kind_eq htokens hb with hkind | hkind <;>
        simp [hkind] at hrule
  · rw [hnext]
    rcases hrule with ⟨hkind, rfl⟩ | ⟨hkind, rfl⟩ <;> rw [hkind] <;> rfl

theorem follows_enter {kind : Kind} {rule : GrammarRule}
    (hnext : w.now.next?.map Token.kind = some kind)
    (hrule : kind = .not ∧ rule = .negation ∨ kind = .lparen ∧ rule = .group) :
    (w.enter rule).Follows start (operandDue slot groups) (fun _ => operandDue slot groups)
      fun _ after => after = w.count (w.now.depth + 1) := by
  rw [enter]
  split
  · rename_i hlimit
    exact follows_refuse_deep hw hdepth hlimit hnext hrule
  · rename_i hlimit
    exact .read () _ ⟨rfl, rfl⟩ (hw.enter (Nat.lt_of_not_le hlimit)) rfl rfl

theorem follows_block {kind : Kind} (hnext : w.now.next?.map Token.kind = some kind)
    (hkind : kind = .quoted ∨ kind = .word ∨ kind = .key) :
    (w.block.andThen fun b w₁ _ => w₁.found (.block b)).Follows start
      (operandDue slot groups) (fun operand => operandDone (slot.fill operand) groups)
      fun _ after => after.now.depth = w.now.depth := by
  suffices hblock : w.block.Follows start (operandDue slot groups)
      (fun b => operandDone (slot.fill (.block b)) groups)
      fun _ after => after.now.depth = w.now.depth from
    hblock.andThen fun b after _ horder hafter => follows_found horder hafter rfl
  obtain ⟨t, ht, rfl⟩ := Option.map_eq_some_iff.1 hnext
  rw [block, hnext]
  rcases hkind with hkind | hkind | hkind
  · rw [hkind]
    refine (follows_expect (fun t => operandDone (slot.fill (.block (.quoted t))) groups) hw
      (fun u _ hu => .block rfl hu) fun hno => absurd hkind (hno t ht)).andThen ?_
    rintro u after - horder rfl
    exact follows_found horder rfl rfl
  · rw [hkind]
    refine (follows_expect (fun t => operandDone (slot.fill (.block (.word t))) groups) hw
      (fun u _ hu => .block rfl hu) fun hno => absurd hkind (hno t ht)).andThen ?_
    rintro u after - horder rfl
    exact follows_found horder rfl rfl
  · rw [hkind]
    refine (follows_expect (fun key => valueDue key slot groups) hw
      (fun u _ hu => .key hu) fun hno => absurd hkind (hno t ht)).andThen ?_
    rintro key after - horder rfl
    refine (follows_expect
      (fun t => operandDone (slot.fill (.block (.keyValue key t))) groups) horder
      (fun u _ hu => .value hu) fun hno => ?_).andThen ?_
    · refine follows_refuse horder hdepth (fun u hu q hstep => ?_) rfl
      cases hstep with
      | value hvalue => exact hno u hu hvalue
    · rintro value last - horder' rfl
      exact follows_found horder' rfl rfl

end Due

mutual

/-- An operand is read in the place where it is due. -/
theorem follows_operand {w : Walk} (hw : w.Orderly start) {slot : Slot}
    {groups : List OpenGroup}
    (hdepth : w.now.depth = start.depth + (operandDue slot groups).depth) :
    w.operand.Follows start (operandDue slot groups)
      (fun operand => operandDone (slot.fill operand) groups)
      fun _ after => after.now.depth = w.now.depth := by
  rw [operand]
  split
  · exact follows_negation hw hdepth ‹_›
  · exact follows_group hw hdepth ‹_›
  · exact follows_block hw hdepth ‹_› (.inl rfl)
  · exact follows_block hw hdepth ‹_› (.inr (.inl rfl))
  · exact follows_block hw hdepth ‹_› (.inr (.inr rfl))
  · rename_i hnot hlparen hquoted hword hkey
    refine follows_refuse_operand hw hdepth fun kind hkind => ?_
    exact ⟨fun h => hnot (h ▸ hkind), fun h => hlparen (h ▸ hkind),
      fun h => hquoted (h ▸ hkind), fun h => hword (h ▸ hkind), fun h => hkey (h ▸ hkind)⟩
termination_by (w.left, 1)

theorem follows_negation {w : Walk} (hw : w.Orderly start) {slot : Slot}
    {groups : List OpenGroup}
    (hdepth : w.now.depth = start.depth + (operandDue slot groups).depth)
    (hnext : w.now.next?.map Token.kind = some .not) :
    w.negation.Follows start (operandDue slot groups)
      (fun operand => operandDone (slot.fill operand) groups)
      fun _ after => after.now.depth = w.now.depth := by
  obtain ⟨t, ht, hkind⟩ := Option.map_eq_some_iff.1 hnext
  rw [negation]
  refine (follows_enter hw hdepth hnext (.inl ⟨rfl, rfl⟩)).andThen ?_
  rintro - w₁ - horder₁ rfl
  have hless : w.now.depth + 1 ≤ maxNesting := horder₁.now.depth.2
  refine (follows_expect (fun u => operandDue ⟨slot.joined, u :: slot.nots⟩ groups) horder₁
    (fun u _ hu => .not hu (by omega)) fun hno => absurd hkind (hno t ht)).andThen ?_
  rintro not w₂ hnot horder₂ rfl
  have hinside : w.now.depth + 1 =
      start.depth + (operandDue ⟨slot.joined, not :: slot.nots⟩ groups).depth := by
    simp only [depth_operandDue, List.length_cons] at hdepth ⊢
    omega
  refine (follows_operand horder₂ hinside).andThen ?_
  intro child w₃ _ horder₃ hafter
  exact follows_leave horder₃ hw.now.depth.1 hafter (by rw [Slot.fill_not])
termination_by (w.left, 0)
decreasing_by
  have hlt : _ < (w.count (w.now.depth + 1)).left := left_lt_of_expect hnot
  exact .left _ _ hlt

theorem follows_group {w : Walk} (hw : w.Orderly start) {slot : Slot}
    {groups : List OpenGroup}
    (hdepth : w.now.depth = start.depth + (operandDue slot groups).depth)
    (hnext : w.now.next?.map Token.kind = some .lparen) :
    w.group.Follows start (operandDue slot groups)
      (fun operand => operandDone (slot.fill operand) groups)
      fun _ after => after.now.depth = w.now.depth := by
  obtain ⟨t, ht, hkind⟩ := Option.map_eq_some_iff.1 hnext
  rw [group]
  refine (follows_enter hw hdepth hnext (.inr ⟨rfl, rfl⟩)).andThen ?_
  rintro - w₁ - horder₁ rfl
  have hless : w.now.depth + 1 ≤ maxNesting := horder₁.now.depth.2
  refine (follows_expect (fun u => operandDue .first (⟨slot, u⟩ :: groups)) horder₁
    (fun u _ hu => .lparen hu (by omega)) fun hno => absurd hkind (hno t ht)).andThen ?_
  rintro lparen w₂ hlparen horder₂ rfl
  have hinside : w.now.depth + 1 = start.depth +
      depthOfGroups (⟨slot, lparen⟩ :: groups) := by
    simp only [depth_operandDue, depthOfGroups_cons] at hdepth ⊢
    omega
  refine (follows_tree horder₂ _ hinside).andThen ?_
  rintro inside w₃ - horder₃ ⟨hafter, hconnective⟩
  refine (follows_expect (fun u => operandDone (slot.fill (.group lparen inside u)) groups)
    horder₃ (fun u _ hu => .rparen hu) fun hno => ?_).andThen ?_
  · refine follows_refuse horder₃ (hafter.trans hinside) (fun u hu q hstep => ?_) rfl
    cases hstep with
    | connective hop =>
        have hnone := hconnective u hu
        rw [Connective.ofKind?_eq_some_iff.2 hop] at hnone
        cases hnone
    | rparen hrparen => exact hno u hu hrparen
  · rintro rparen w₄ - horder₄ rfl
    exact follows_leave horder₄ hw.now.depth.1 hafter rfl
termination_by (w.left, 0)
decreasing_by
  have hlt : _ < (w.count (w.now.depth + 1)).left := left_lt_of_expect hlparen
  exact .left _ _ hlt

/-- A tree is read where its first operand is due. -/
theorem follows_tree {w : Walk} (hw : w.Orderly start) (groups : List OpenGroup)
    (hdepth : w.now.depth = start.depth + depthOfGroups groups) :
    w.tree.Follows start (operandDue .first groups) (fun tree => operandDone tree groups)
      fun _ after => after.now.depth = w.now.depth ∧
        ∀ t ∈ after.now.next?, Connective.ofKind? t.kind = none := by
  rw [tree]
  have hfirst : w.now.depth = start.depth + (operandDue .first groups).depth := by
    rw [hdepth, depth_operandDue, Slot.first, List.length_nil, Nat.zero_add]
  refine (follows_operand hw hfirst).andThen ?_
  intro first w₁ hread horder hafter
  rw [← hafter] at hdepth ⊢
  exact follows_joinedTo horder (.single first) hdepth
termination_by (w.left, 2)
decreasing_by
  · exact .right _ (by decide)
  · rcases Nat.lt_or_eq_of_le hread.le with hlt | heq
    · exact .left _ _ hlt
    · exact heq ▸ .right _ (by decide)

theorem follows_joinedTo {w : Walk} (hw : w.Orderly start) (tree : Tree)
    {groups : List OpenGroup} (hdepth : w.now.depth = start.depth + depthOfGroups groups) :
    (w.joinedTo tree).Follows start (operandDone tree groups)
      (fun tree => operandDone tree groups)
      fun _ after => after.now.depth = w.now.depth ∧
        ∀ t ∈ after.now.next?, Connective.ofKind? t.kind = none := by
  rw [joinedTo]
  refine (follows_connective? hw).andThen ?_
  intro joined w₁ hjoined horder hafter
  cases joined with
  | none =>
      obtain ⟨rfl, hconnective⟩ := hafter
      exact follows_found horder ⟨rfl, hconnective⟩ rfl
  | some joined =>
      obtain ⟨op, t⟩ := joined
      obtain rfl := hafter
      have hslot : w.advance.now.depth =
          start.depth + (operandDue ⟨some (tree, op, t), []⟩ groups).depth := by
        rw [depth_operandDue, List.length_nil, Nat.zero_add]
        exact hdepth
      refine (follows_operand horder hslot).andThen ?_
      intro right w₂ hright horder₂ hafter
      have hsame : w₂.now.depth = w.now.depth := hafter
      rw [← hsame] at hdepth ⊢
      exact follows_joinedTo horder₂ (.join tree op t right) hdepth
termination_by (w.left, 0)
decreasing_by
  · exact .left _ _ (left_lt_of_connective? hjoined)
  · exact .left _ _ (Nat.lt_of_le_of_lt hright.le (left_lt_of_connective? hjoined))

end

end Walk

/-! ## Whole calls -/

namespace Cursor

variable {c after : Cursor}

theorem readAll_of_error {e : SyntaxError} (h : c.readTree = (.error e, after)) :
    c.readAll = (.error e, after) := by
  rw [readAll, h]

theorem readAll_of_ok {tree : Tree} (h : c.readTree = (.ok tree, after)) :
    c.readAll =
      (if after.rest.head?.isSome then .error (after.refuse ⟨.expression, .operatorOrEnd⟩)
        else .ok tree, after) := by
  rw [readAll, h]
  simp only
  cases after.rest <;> rfl

end Cursor

/-- Whether a stretch keeps order and comes to what a cursor answers. -/
structure Stretch.Agrees (start : Reader) {w : Walk} (stretch : Stretch w Tree)
    (answer : Except SyntaxError Tree × Cursor) : Prop where
  orderly : stretch.after.Orderly start
  result : stretch.result = answer.1.mapError Fault.refused
  cursor : stretch.after.now.cursor = answer.2

theorem Stretch.Gives.agrees {start : Reader} {w after : Walk} {stretch : Stretch w Tree}
    {answer : Except SyntaxError Tree × Cursor}
    (h : stretch.Gives (answer.1.mapError Fault.refused) after)
    (horder : after.Orderly start) (hcursor : after.now.cursor = answer.2) :
    stretch.Agrees start answer := by
  obtain ⟨hresult, rfl⟩ := h
  exact ⟨horder, hresult, hcursor⟩

namespace Reader

variable {r : Reader}

theorem Follows.orderly (h : r.Follows r) : Walk.Orderly r ⟨r, []⟩ :=
  ⟨rfl, .singleton _, by simpa [Walk.states] using h⟩

theorem agrees_of_run {reading : Stretch ⟨r, []⟩ Tree} (result : Except Complaint Tree)
    (depth : Nat) {after : Walk}
    (hgives : reading.Gives (result.mapError fun c => .refused (after.now.refuse c)) after)
    (horder : after.Orderly r) (hdepth : after.now.depth = r.depth + depth)
    (hrun : Progress.start.run r.depth r.rest = ⟨result, depth, after.now.rest⟩) :
    reading.Agrees r r.cursor.readTree := by
  obtain ⟨hresult, rfl⟩ := hgives
  have hcursor : reading.after.now.cursor =
      ⟨reading.after.now.rest, r.depth + depth, r.sourceLength⟩ := by
    rw [cursor, hdepth, horder.now.sourceLength]
  have hread : r.cursor.readTree =
      (result.mapError reading.after.now.cursor.refuse, reading.after.now.cursor) := by
    rw [hcursor, Cursor.readTree]
    simp only [cursor, hrun]
  rw [hread]
  refine ⟨horder, ?_, rfl⟩
  rw [hresult]
  cases result with
  | ok tree => rfl
  | error c => simp only [Except.mapError, refuse_cursor]

/-- A tree is read by descent as it is read by states. -/
theorem tree_agrees (h : r.Follows r) :
    (Walk.tree ⟨r, []⟩).Agrees r r.cursor.readTree := by
  cases Walk.follows_tree h.orderly [] rfl with
  | read tree after hgives horder hpost hrun =>
      obtain ⟨hdepth, hconnective⟩ := hpost
      have hstops : StopsBefore r.depth (operandDone tree []) after.now.rest := by
        intro t ht
        rw [after.now.head?_rest] at ht
        exact ⟨.ok tree, by simp only [take, hconnective t ht, halt]⟩
      rw [run_of_stopsBefore hstops] at hrun
      exact agrees_of_run (.ok tree) 0 hgives horder hdepth hrun
  | refused c depth after hgives horder hdepth hrun =>
      exact agrees_of_run (.error c) depth hgives horder hdepth hrun

theorem wholeTree_agrees (h : r.Follows r) :
    (Walk.wholeTree ⟨r, []⟩).Agrees r r.cursor.readAll := by
  obtain ⟨horder, hresult, hcursor⟩ := tree_agrees h
  generalize hlast : (Walk.tree ⟨r, []⟩).after = last at horder hcursor
  cases hread : r.cursor.readTree with
  | mk answer after =>
      rw [hread] at hresult hcursor
      obtain rfl := hcursor
      cases answer with
      | error e =>
          rw [Cursor.readAll_of_error hread]
          exact (Stretch.Gives.andThen_error ⟨hresult, hlast⟩).agrees horder rfl
      | ok tree =>
          rw [Cursor.readAll_of_ok hread,
            show last.now.cursor.rest.head? = _ from head?_rest _]
          have hgives : (Walk.tree ⟨r, []⟩).Gives (.ok tree) last := ⟨hresult, hlast⟩
          refine (hgives.andThen (?_ : Stretch.Gives _ _ last)).agrees horder rfl
          split
          · rw [refuse_cursor]
            exact ⟨rfl, rfl⟩
          · exact ⟨rfl, rfl⟩

theorem follows_ofStream (s : TokenStream) : (ofStream s).Follows (ofStream s) :=
  ⟨rfl, rfl, ⟨Nat.le_refl _, Nat.zero_le _⟩, ⟨Nat.le_refl _, Nat.zero_le _⟩⟩

/-- The tree of a query may as well be read by descent. -/
theorem wholeTree_ofStream (s : TokenStream) :
    (Walk.wholeTree ⟨ofStream s, []⟩).result = (Tree.ofStream s).mapError Fault.refused :=
  (wholeTree_agrees (follows_ofStream s)).result

end Reader

end BoolQuery
