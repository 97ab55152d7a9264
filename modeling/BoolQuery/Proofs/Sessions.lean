import BoolQuery.Proofs.Descent
import BoolQuery.Proofs.FirstFault

/-!
# A reader that is asked several times

A reader may be asked for one tree after another, and nothing is undone when one of them
cannot be read: the tokens taken stay taken, and the NOTs and groups that were open stay
open. A `Turn` is one such call with the walk that the reader takes in it, and what is said
here holds of every turn of every session, whatever failed before.

The walk is orderly at each of its moments (`Walk.Orderly`). The rest is read off the state
that a reading with the same tokens reaches (`Cursor.Reads`). That state knows the tokens
taken, so turns take slices of the stream, one behind the other; and it knows what is open,
so the count of the reader goes up by as much.
-/

namespace BoolQuery

open BoolQuery.Tree BoolQuery.Tree.Progress

namespace Tree.Progress

theorem rule_of_halt {p : Progress} {c : Complaint} (h : p.halt = .error c) :
    c.rule ≠ .expression := by
  cases p with
  | operandDue slot groups | valueDue key slot groups =>
      obtain rfl := Except.error.inj h
      simp
  | operandDone tree groups =>
      cases groups with
      | nil => cases h
      | cons group groups =>
          obtain rfl := Except.error.inj h
          simp

theorem rule_of_outcome {p : Progress} {next : Option Kind} {c : Complaint}
    (h : p.outcome next = .error c) : c.rule ≠ .expression := by
  unfold outcome at h
  split at h
  · obtain rfl := Except.error.inj h
    simp
  · obtain rfl := Except.error.inj h
    simp
  · exact rule_of_halt h

end Tree.Progress

/-! ## One reading -/

/-- What happens when a reader reads a tree: the tokens that it takes, the state it stops in
and the reader that is left. -/
structure Cursor.Reads (c : Cursor) (taken : List Token) (p : Progress) (after : Cursor) :
    Prop where
  rest : c.rest = taken ++ after.rest
  reached : Reached c.depth taken p
  stops : StopsBefore c.depth p after.rest
  depth : after.depth = c.depth + p.depth
  answer : c.readTree =
    ((p.outcome (after.rest.head?.map fun t => t.kind)).mapError after.refuse, after)

theorem Cursor.exists_reads (c : Cursor) : ∃ taken p after, c.Reads taken p after := by
  obtain ⟨taken, rest, p, hrest, hp, hstop⟩ :=
    exists_reached (Reached.start : Reached c.depth [] .start) c.rest
  rw [List.nil_append] at hp
  refine ⟨taken, p, ⟨rest, c.depth + p.depth, c.sourceLength⟩, hrest, hp, hstop, rfl, ?_⟩
  rw [readTree, hrest, run_of_reached hp, run_of_stopsBefore hstop]

/-- What a reader is asked for: one tree, or one that goes up to the end. -/
inductive Call where
  | tree
  | all
deriving DecidableEq, Repr

def Cursor.answer (c : Cursor) : Call → Except SyntaxError Tree × Cursor
  | .tree => c.readTree
  | .all => c.readAll

theorem Cursor.answer_snd (c : Cursor) (call : Call) : (c.answer call).2 = c.readTree.2 := by
  cases call with
  | tree => rfl
  | all =>
      cases hread : c.readTree with
      | mk result after =>
          cases result with
          | ok tree => rw [answer, readAll_of_ok hread]
          | error e => rw [answer, readAll_of_error hread]

theorem Cursor.readTree_of_answer {c : Cursor} {call : Call} {tree : Tree}
    (h : (c.answer call).1 = .ok tree) : c.readTree.1 = .ok tree := by
  cases call with
  | tree => exact h
  | all =>
      cases hread : c.readTree with
      | mk result after =>
          cases result with
          | ok tree' =>
              rw [answer, readAll_of_ok hread] at h
              dsimp only at h
              split at h
              · cases h
              · exact h
          | error e =>
              rw [answer, readAll_of_error hread] at h
              cases h

namespace Cursor.Reads

variable {c after : Cursor} {taken : List Token} {p : Progress} {tree : Tree}

theorem answer_snd (h : c.Reads taken p after) (call : Call) :
    (c.answer call).2 = after := by
  rw [Cursor.answer_snd, h.answer]

theorem eq_operandDone (h : c.Reads taken p after) (hok : c.readTree.1 = .ok tree) :
    p = operandDone tree [] := by
  rw [h.answer] at hok
  cases hout : p.outcome (after.rest.head?.map fun t => t.kind) with
  | error complaint =>
      rw [hout] at hok
      cases hok
  | ok tree' =>
      rw [hout] at hok
      obtain rfl := Except.ok.inj hok
      exact eq_operandDone_of_outcome hout

theorem taken_ne_nil (h : c.Reads taken (operandDone tree []) after) : taken ≠ [] := by
  rintro rfl
  have hlast := h.reached.lastKind
  simp [operandDueAfter] at hlast

theorem not_connective (h : c.Reads taken (operandDone tree []) after) :
    ∀ t ∈ after.rest.head?, Connective.ofKind? t.kind = none := by
  intro t ht
  cases hop : Connective.ofKind? t.kind with
  | none => rfl
  | some op =>
      obtain ⟨result, hstop⟩ := h.stops t ht
      have hstep : Step c.depth (operandDone tree []) t _ :=
        .connective (Connective.ofKind?_eq_some_iff.1 hop)
      rw [hstep.take_eq] at hstop
      cases hstop

theorem accepted (h : c.Reads taken p after) (hdepth : c.depth ≤ maxNesting)
    (hok : c.readTree.1 = .ok tree) :
    after.depth = c.depth ∧ taken ≠ [] ∧ tree.tokens = taken ∧ tree.WellKinded ∧
      tree.nesting ≤ maxNesting - c.depth ∧
      ∀ t ∈ after.rest.head?, t.kind ≠ .and ∧ t.kind ≠ .or := by
  obtain rfl := h.eq_operandDone hok
  obtain ⟨hkind, hnesting⟩ := (h.reached.fits hdepth).1
  refine ⟨h.depth, h.taken_ne_nil, h.reached.tokens_eq, hkind, ?_, fun t ht => ?_⟩
  · rw [depthOfGroups_nil] at hnesting
    omega
  · have hnone := h.not_connective t ht
    constructor <;> intro hkind <;> simp [hkind, Connective.ofKind?] at hnone

theorem depth_eq (h : c.Reads taken p after) : after.depth = c.depth + enclosing taken := by
  rw [h.depth, h.reached.enclosing_eq]

theorem deepest (h : c.Reads taken p after) (hdepth : c.depth ≤ maxNesting) {ts : List Token}
    (hts : ts <+: taken) : c.depth + enclosing ts ≤ maxNesting := by
  obtain ⟨us, rfl⟩ := hts
  obtain ⟨q, hq⟩ := h.reached.of_append
  rw [hq.enclosing_eq]
  exact hq.depth_le hdepth

/-- A reader that is asked for all complains of what is left exactly if something is left
behind a tree. -/
theorem leftover_iff (h : c.Reads taken p after) :
    (∃ e, c.readAll.1 = .error e ∧ e.rule = .expression ∧ e.expected = .operatorOrEnd) ↔
      (∃ tree, c.readTree.1 = .ok tree) ∧ after.rest ≠ [] := by
  rw [readAll, h.answer]
  cases hout : p.outcome (after.rest.head?.map fun t => t.kind) with
  | error complaint =>
      constructor
      · rintro ⟨e, he, hrule, -⟩
        obtain rfl := Except.error.inj he
        exact absurd hrule (rule_of_outcome hout)
      · rintro ⟨⟨tree, htree⟩, -⟩
        cases htree
  | ok tree =>
      simp only [Except.mapError]
      cases after.rest with
      | nil => simp
      | cons t rest => simp [refuse]

end Cursor.Reads

/-! ## Sessions -/

/-- How a call goes, from a state of the reader. -/
def Reader.asked (r : Reader) : Call → Stretch ⟨r, []⟩ Tree
  | .tree => Walk.tree _
  | .all => Walk.wholeTree _

/-- A call, with the state of the reader before it and all of its states up to the end. -/
structure Turn where
  call : Call
  before : Reader
  result : Except Fault Tree
  walk : Walk

def Reader.turn (r : Reader) (call : Call) : Turn :=
  ⟨call, r, (r.asked call).result, (r.asked call).after⟩

def Turn.after (turn : Turn) : Reader := turn.walk.now

/-- The turns of a session, in which a reader is asked several times. -/
def Reader.turns (r : Reader) : List Call → List Turn
  | [] => []
  | call :: calls => r.turn call :: (r.turn call).after.turns calls

/-- What a cursor answers in a session, and where it is left each time. -/
def Cursor.answers (c : Cursor) : List Call → List (Except SyntaxError Tree × Cursor)
  | [] => []
  | call :: calls => c.answer call :: (c.answer call).2.answers calls

def Turn.taken (s : TokenStream) (turn : Turn) : List Token :=
  (s.tokens.drop turn.before.position).take (turn.after.position - turn.before.position)

/-- What every turn of a session keeps to. -/
structure Turn.Lawful (s : TokenStream) (turn : Turn) : Prop where
  /-- The reader goes by its moves from before to after, and at every moment it is in the
  stream, and at a depth between the one before and the limit. -/
  orderly : turn.walk.Orderly turn.before
  before : (Reader.ofStream s).Follows turn.before
  after : turn.before.Follows turn.after
  /-- Nothing is left that was not entered. -/
  balanced : turn.result ≠ .error .leftNothing
  /-- The limit holds behind each of the tokens taken. -/
  deepest : ∀ ts, ts <+: turn.taken s → turn.before.depth + enclosing ts ≤ maxNesting
  /-- What was entered and not completed, with success or without, counts from now on. -/
  entered : turn.after.depth = turn.before.depth + enclosing (turn.taken s)
  accepted : ∀ tree, turn.result = .ok tree →
    turn.after.depth = turn.before.depth ∧
    turn.before.position < turn.after.position ∧
    tree.tokens = turn.taken s ∧ tree.WellKinded ∧
    tree.nesting ≤ maxNesting - turn.before.depth ∧
    ∀ t, s.tokens[turn.after.position]? = some t → t.kind ≠ .and ∧ t.kind ≠ .or
  leftover : turn.call = .all →
    ((∃ e, turn.result = .error (.refused e) ∧
        e.rule = .expression ∧ e.expected = .operatorOrEnd) ↔
      (∃ tree, (turn.before.turn .tree).result = .ok tree) ∧
        (turn.before.turn .tree).after.position < s.tokens.length)
  left : ∀ tree, (turn.before.turn .tree).result = .ok tree →
    turn.after = (turn.before.turn .tree).after ∧ turn.after.depth = turn.before.depth

namespace Reader

variable {s : TokenStream} {start r after : Reader}

theorem Follows.self (h : start.Follows r) : r.Follows r :=
  ⟨rfl, rfl, ⟨Nat.le_refl _, h.tokens ▸ h.position.2⟩, ⟨Nat.le_refl _, h.depth.2⟩⟩

theorem Follows.trans (h : start.Follows r) (hafter : r.Follows after) :
    start.Follows after :=
  ⟨hafter.tokens.trans h.tokens, hafter.sourceLength.trans h.sourceLength,
    ⟨Nat.le_trans h.position.1 hafter.position.1, h.tokens ▸ hafter.position.2⟩,
    ⟨Nat.le_trans h.depth.1 hafter.depth.1, hafter.depth.2⟩⟩

theorem Follows.length_rest (h : start.Follows r) :
    r.position + r.rest.length = start.tokens.length := by
  rw [rest, List.length_drop, h.tokens]
  exact Nat.add_sub_cancel' h.position.2

/-- A reader that is known to be in the tokens is known by its cursor. -/
theorem Follows.eq_of_cursor {r' : Reader} (h : start.Follows r) (h' : start.Follows r')
    (hcursor : r.cursor = r'.cursor) : r = r' := by
  obtain ⟨hrest, hdepth, hlength⟩ := Cursor.mk.inj hcursor
  have hposition : r.position = r'.position := by
    have := h.length_rest
    have := h'.length_rest
    rw [hrest] at *
    omega
  obtain ⟨tokens, position, depth, sourceLength⟩ := r
  cases hposition
  cases hdepth
  cases hlength
  cases h.tokens.trans h'.tokens.symm
  rfl

theorem asked_agrees (h : r.Follows r) (call : Call) :
    (r.asked call).Agrees r (r.cursor.answer call) := by
  cases call with
  | tree => exact tree_agrees h
  | all => exact wholeTree_agrees h

@[simp] theorem before_turn (r : Reader) (call : Call) : (r.turn call).before = r := rfl

theorem agrees_turn (h : r.Follows r) (call : Call) :
    (r.turn call).result = (r.cursor.answer call).1.mapError Fault.refused ∧
      (r.turn call).after.cursor = (r.cursor.answer call).2 :=
  ⟨(asked_agrees h call).result, (asked_agrees h call).cursor⟩

theorem result_turn_eq_ok_iff (h : r.Follows r) (call : Call) (tree : Tree) :
    (r.turn call).result = .ok tree ↔ (r.cursor.answer call).1 = .ok tree := by
  rw [(agrees_turn h call).1]
  cases (r.cursor.answer call).1 <;> simp [Except.mapError]

theorem result_turn_eq_error_iff (h : r.Follows r) (call : Call) (e : SyntaxError) :
    (r.turn call).result = .error (.refused e) ↔ (r.cursor.answer call).1 = .error e := by
  rw [(agrees_turn h call).1]
  cases (r.cursor.answer call).1 <;> simp [Except.mapError]

theorem follows_turn (h : r.Follows r) (call : Call) : r.Follows (r.turn call).after :=
  (asked_agrees h call).orderly.now

/-- A turn is one reading, which takes the tokens of the turn. -/
theorem Follows.exists_reads (h : (ofStream s).Follows r) (call : Call) :
    ∃ p, r.cursor.Reads ((r.turn call).taken s) p (r.turn call).after.cursor ∧
      (r.turn call).after.position = r.position + ((r.turn call).taken s).length := by
  obtain ⟨taken, p, after, hreads⟩ := r.cursor.exists_reads
  have hcursor := (agrees_turn h.self call).2
  rw [hreads.answer_snd call] at hcursor
  subst hcursor
  have hrest : r.rest = taken ++ (r.turn call).after.rest := hreads.rest
  have hposition : (r.turn call).after.position = r.position + taken.length := by
    have hbefore := h.length_rest
    have hend := (h.trans (follows_turn h.self call)).length_rest
    rw [hrest, List.length_append] at hbefore
    omega
  have htaken : (r.turn call).taken s = taken := by
    rw [Turn.taken, hposition, before_turn, Nat.add_sub_cancel_left]
    rw [rest, h.tokens] at hrest
    exact (congrArg (List.take _) hrest).trans List.take_left
  rw [htaken]
  exact ⟨p, hreads, hposition⟩

theorem after_turn_eq (h : r.Follows r) (call call' : Call) :
    (r.turn call).after = (r.turn call').after := by
  refine (follows_turn h call).eq_of_cursor (follows_turn h call') ?_
  rw [(agrees_turn h call).2, (agrees_turn h call').2, Cursor.answer_snd, Cursor.answer_snd]

theorem Follows.rest_ne_nil_iff (h : start.Follows r) :
    r.rest ≠ [] ↔ r.position < start.tokens.length := by
  have hlength := h.length_rest
  rw [← List.length_pos_iff]
  omega

theorem Follows.head?_rest_eq (h : (ofStream s).Follows r) :
    r.rest.head? = s.tokens[r.position]? := by
  rw [rest, List.head?_drop, h.tokens]
  rfl

theorem Follows.lawful (h : (ofStream s).Follows r) (call : Call) :
    (r.turn call).Lawful s := by
  obtain ⟨p, hreads, hposition⟩ := h.exists_reads call
  have hafter := follows_turn h.self call
  have hlater := h.trans hafter
  have haccepted : ∀ tree, r.cursor.readTree.1 = .ok tree → _ :=
    fun tree => hreads.accepted h.depth.2
  refine ⟨(asked_agrees h.self call).orderly, h, hafter, ?_, ?_, hreads.depth_eq, ?_, ?_, ?_⟩
  · rw [(agrees_turn h.self call).1]
    cases (r.cursor.answer call).1 <;> simp [Except.mapError]
  · exact fun ts => hreads.deepest h.depth.2
  · intro tree hok
    rw [result_turn_eq_ok_iff h.self] at hok
    obtain ⟨hdepth, hne, htokens, hkind, hnesting, hnext⟩ :=
      haccepted tree (Cursor.readTree_of_answer hok)
    have hlength := List.length_pos_iff.2 hne
    refine ⟨hdepth, ?_, htokens, hkind, hnesting, fun t ht => hnext t ?_⟩
    · rw [before_turn]
      omega
    · exact hlater.head?_rest_eq.trans ht
  · rintro rfl
    rw [before_turn, after_turn_eq h.self .tree .all]
    simp only [result_turn_eq_ok_iff h.self, result_turn_eq_error_iff h.self]
    exact hreads.leftover_iff.trans (and_congr_right' hlater.rest_ne_nil_iff)
  · intro tree hok
    rw [before_turn, result_turn_eq_ok_iff h.self] at hok
    exact ⟨after_turn_eq h.self call .tree, (haccepted tree hok).1⟩

theorem Follows.turns (h : (ofStream s).Follows r) (calls : List Call) :
    (∀ turn ∈ r.turns calls, turn.Lawful s ∧ r.Follows turn.before) ∧
    (r.turns calls).Pairwise (fun a b => a.after.Follows b.before) ∧
    (r.turns calls).map (fun turn => (turn.result, turn.after.cursor)) =
      (r.cursor.answers calls).map fun answer =>
        (answer.1.mapError Fault.refused, answer.2) := by
  induction calls generalizing r with
  | nil => exact ⟨List.forall_mem_nil _, .nil, rfl⟩
  | cons call calls ih =>
      have hafter := follows_turn h.self call
      obtain ⟨hlawful, hpairwise, hanswers⟩ := ih (h.trans hafter)
      obtain ⟨hresult, hcursor⟩ := agrees_turn h.self call
      refine ⟨List.forall_mem_cons.2 ⟨⟨h.lawful call, h.self⟩, fun turn hturn => ?_⟩,
        .cons (fun turn hturn => (hlawful turn hturn).2) hpairwise, ?_⟩
      · exact ⟨(hlawful turn hturn).1, hafter.trans (hlawful turn hturn).2⟩
      · rw [Reader.turns, Cursor.answers, List.map_cons, List.map_cons, hanswers, hresult,
          hcursor]

end Reader

/-- In every session with the reader of a stream all turns are lawful, and each starts where
those before it have stopped or behind, no less deep. -/
theorem session_lawful (s : TokenStream) (calls : List Call) :
    (∀ turn ∈ (Reader.ofStream s).turns calls, turn.Lawful s) ∧
    ((Reader.ofStream s).turns calls).Pairwise (fun a b => a.after.Follows b.before) ∧
    ((Reader.ofStream s).turns calls).map (fun turn => (turn.result, turn.after.cursor)) =
      ((Cursor.ofStream s).answers calls).map fun answer =>
        (answer.1.mapError Fault.refused, answer.2) := by
  obtain ⟨hturns, hpairwise, hanswers⟩ := (Reader.follows_ofStream s).turns calls
  exact ⟨fun turn hturn => (hturns turn hturn).1, hpairwise, hanswers⟩

/-- A key without its value is passed over, and the word behind it is read as deep as that
key would have been. -/
theorem session_past_key :
    let key : Token := ⟨.key, "K=", ⟨4, 6⟩⟩
    let a : Token := ⟨.word, "a", ⟨7, 8⟩⟩
    let s : TokenStream := ⟨[⟨.not, "NOT", ⟨0, 3⟩⟩, key, a], [], 8⟩
    let turns := (Reader.ofStream s).turns [.tree, .all, .all]
    turns.map (fun turn => (turn.result, turn.after.cursor)) =
      [(.error (.refused ⟨.block, .quotedValue, some a, ⟨7, 8⟩⟩), ⟨[a], 1, 8⟩),
        (.ok (.single (.block (.word a))), ⟨[], 1, 8⟩),
        (.error (.refused ⟨.primary, .operand, none, ⟨8, 8⟩⟩), ⟨[], 1, 8⟩)] ∧
    (∀ turn ∈ turns, turn.Lawful s) ∧
    ∃ turn ∈ turns, turn.before.depth = 1 ∧ turn.after.depth = 1 ∧ turn.taken s = [a] := by
  intro key a s turns
  obtain ⟨hlawful, -, hanswers⟩ := session_lawful s [.tree, .all, .all]
  have hanswer : (Cursor.ofStream s).answers [.tree, .all, .all] =
      [(.error ⟨.block, .quotedValue, some a, ⟨7, 8⟩⟩, ⟨[a], 1, 8⟩),
        (.ok (.single (.block (.word a))), ⟨[], 1, 8⟩),
        (.error ⟨.primary, .operand, none, ⟨8, 8⟩⟩, ⟨[], 1, 8⟩)] := by
    decide
  rw [hanswer] at hanswers
  have hfirst := Option.some.inj (congrArg (fun answers => answers[0]?) hanswers)
  have hsecond := Option.some.inj (congrArg (fun answers => answers[1]?) hanswers)
  generalize hturn : ((Reader.ofStream s).turn .tree).after.turn .all = turn at hsecond
  have hmem : turn ∈ turns := hturn ▸ List.mem_cons_of_mem _ List.mem_cons_self
  obtain ⟨hdepth, -, htaken, -⟩ := (hlawful turn hmem).accepted _ (congrArg Prod.fst hsecond)
  have hbefore : turn.before.depth = 1 := by
    rw [← hturn, Reader.before_turn]
    exact congrArg (fun answer => answer.2.depth) hfirst
  exact ⟨hanswers, hlawful, turn, hmem, hbefore, hdepth.trans hbefore, htaken.symm⟩

end BoolQuery
