import BoolQuery.Tree.Read

/-!
# Reading trees by descent

The same trees, read the way the grammar is written: one function for each kind of phrase,
and where the grammar has a phrase inside of another, one function calls the other.

A `Reader` counts what it is inside of. It enters a NOT or a group before it takes the first
token of it and leaves it behind the last one. What cannot be read to its end is not left,
so the count stays up. To leave where nothing was entered is a `Fault` of the reader, and no
complaint about a query.

A `Walk` keeps all states the reader was in. What is read on a `Stretch` of it never leaves
more tokens to come than there were, which is why the functions come to an end: they call
each other behind a token, or in the order in which the grammar goes down.
-/

namespace BoolQuery

/-- A reader of the tokens of a query: how many of them it has taken, and how many NOTs and
groups it has entered and not left. -/
structure Reader where
  tokens : List Token
  position : Nat
  depth : Nat
  sourceLength : Nat
deriving DecidableEq, Repr

namespace Reader

def ofStream (s : TokenStream) : Reader := ⟨s.tokens, 0, 0, s.sourceLength⟩

def next? (r : Reader) : Option Token := r.tokens[r.position]?

/-- A complaint about the token that is next. -/
def refuse (r : Reader) (complaint : Complaint) : SyntaxError :=
  ⟨complaint.rule, complaint.expected, r.next?,
    (r.next?.map Token.span).getD (.point r.sourceLength)⟩

end Reader

/-- A reader on its way, and what it was before, the latest first. -/
structure Walk where
  now : Reader
  past : List Reader

namespace Walk

/-- The number of tokens still to come. -/
def left (w : Walk) : Nat := w.now.tokens.length - w.now.position

def move (w : Walk) (r : Reader) : Walk := ⟨r, w.now :: w.past⟩

/-- The walk behind the token that is next. -/
def advance (w : Walk) : Walk := w.move { w.now with position := w.now.position + 1 }

def count (w : Walk) (depth : Nat) : Walk := w.move { w.now with depth }

theorem left_advance_le (w : Walk) : w.advance.left ≤ w.left :=
  Nat.sub_le_sub_left (Nat.le_succ _) _

theorem left_advance_lt {w : Walk} {t : Token} (h : w.now.next? = some t) :
    w.advance.left < w.left := by
  obtain ⟨hlt, -⟩ := List.getElem?_eq_some_iff.1 h
  exact Nat.sub_lt_sub_left hlt (Nat.lt_succ_self _)

end Walk

/-- Why a reading ends without a result. -/
inductive Fault where
  | refused (e : SyntaxError)
  /-- A NOT or a group is left, and none was entered. -/
  | leftNothing
deriving DecidableEq, Repr

/-- What is read from some point of a walk on, and the walk behind it. -/
structure Stretch (w : Walk) (α : Type) where
  result : Except Fault α
  after : Walk
  le : after.left ≤ w.left

namespace Stretch

variable {w : Walk} {α β : Type}

/-- Whether a stretch has some result, and some walk behind it. -/
def Gives (stretch : Stretch w α) (result : Except Fault α) (after : Walk) : Prop :=
  stretch.result = result ∧ stretch.after = after

/-- Goes on if something was read. -/
def andThen (first : Stretch w α)
    (next : (a : α) → (after : Walk) → first.Gives (.ok a) after → Stretch after β) :
    Stretch w β :=
  match h : first.result with
  | .ok a =>
      let second := next a first.after ⟨h, rfl⟩
      ⟨second.result, second.after, Nat.le_trans second.le first.le⟩
  | .error fault => ⟨.error fault, first.after, first.le⟩

theorem Gives.le {stretch : Stretch w α} {result : Except Fault α} {after : Walk}
    (h : stretch.Gives result after) : after.left ≤ w.left := h.2 ▸ stretch.le

end Stretch

namespace Walk

variable {α : Type}

def found (w : Walk) (a : α) : Stretch w α := ⟨.ok a, w, Nat.le_refl _⟩

def refuse (w : Walk) (complaint : Complaint) : Stretch w α :=
  ⟨.error (.refused (w.now.refuse complaint)), w, Nat.le_refl _⟩

/-- Takes a token of a kind. -/
def expect (w : Walk) (kind : Kind) (complaint : Complaint) : Stretch w Token :=
  match w.now.next? with
  | some t =>
      if t.kind = kind then ⟨.ok t, w.advance, w.left_advance_le⟩ else w.refuse complaint
  | none => w.refuse complaint

/-- Takes a connective, if one is next. -/
def connective? (w : Walk) : Stretch w (Option (Connective × Token)) :=
  match w.now.next? with
  | some t =>
      match Connective.ofKind? t.kind with
      | some op => ⟨.ok (some (op, t)), w.advance, w.left_advance_le⟩
      | none => w.found none
  | none => w.found none

/-- Goes into a NOT or a group, which has the given rule. -/
def enter (w : Walk) (rule : GrammarRule) : Stretch w Unit :=
  if maxNesting ≤ w.now.depth then
    w.refuse ⟨rule, .shallowerNesting⟩
  else
    ⟨.ok (), w.count (w.now.depth + 1), Nat.le_refl _⟩

def leave (w : Walk) : Stretch w Unit :=
  if w.now.depth = 0 then
    ⟨.error .leftNothing, w, Nat.le_refl _⟩
  else
    ⟨.ok (), w.count (w.now.depth - 1), Nat.le_refl _⟩

theorem left_lt_of_expect {w after : Walk} {kind : Kind} {complaint : Complaint} {t : Token}
    (h : (w.expect kind complaint).Gives (.ok t) after) : after.left < w.left := by
  obtain ⟨hresult, rfl⟩ := h
  rw [expect] at hresult ⊢
  split at hresult
  · split at hresult
    · rw [if_pos ‹_›]
      exact left_advance_lt ‹_›
    · cases hresult
  · cases hresult

theorem left_lt_of_connective? {w after : Walk} {joined : Connective × Token}
    (h : w.connective?.Gives (.ok (some joined)) after) : after.left < w.left := by
  obtain ⟨hresult, rfl⟩ := h
  rw [connective?] at hresult ⊢
  split at hresult
  · split at hresult
    · exact left_advance_lt ‹_›
    · cases hresult
  · cases hresult

def block (w : Walk) : Stretch w Block :=
  match w.now.next?.map Token.kind with
  | some .quoted =>
      (w.expect .quoted ⟨.block, .operand⟩).andThen fun t w₁ _ => w₁.found (.quoted t)
  | some .word =>
      (w.expect .word ⟨.block, .operand⟩).andThen fun t w₁ _ => w₁.found (.word t)
  | some .key =>
      (w.expect .key ⟨.block, .operand⟩).andThen fun key w₁ _ =>
      (w₁.expect .quoted ⟨.block, .quotedValue⟩).andThen fun value w₂ _ =>
      w₂.found (.keyValue key value)
  | _ => w.refuse ⟨.block, .operand⟩

mutual

def operand (w : Walk) : Stretch w Operand :=
  match w.now.next?.map Token.kind with
  | some .not => w.negation
  | some .lparen => w.group
  | some .quoted | some .word | some .key =>
      w.block.andThen fun b w₁ _ => w₁.found (.block b)
  | _ => w.refuse ⟨.primary, .operand⟩
termination_by (w.left, 1)

def negation (w : Walk) : Stretch w Operand :=
  (w.enter .negation).andThen fun _ w₁ _ =>
  (w₁.expect .not ⟨.negation, .operand⟩).andThen fun not w₂ _ =>
  w₂.operand.andThen fun child w₃ _ =>
  w₃.leave.andThen fun _ w₄ _ =>
  w₄.found (.negated not child)
termination_by (w.left, 0)
decreasing_by
  rename_i hentered hnot
  exact .left _ _ (Nat.lt_of_lt_of_le (left_lt_of_expect hnot) hentered.le)

def group (w : Walk) : Stretch w Operand :=
  (w.enter .group).andThen fun _ w₁ _ =>
  (w₁.expect .lparen ⟨.group, .operand⟩).andThen fun lparen w₂ _ =>
  w₂.tree.andThen fun inside w₃ _ =>
  (w₃.expect .rparen ⟨.group, .closingParen⟩).andThen fun rparen w₄ _ =>
  w₄.leave.andThen fun _ w₅ _ =>
  w₅.found (.group lparen inside rparen)
termination_by (w.left, 0)
decreasing_by
  rename_i hentered hlparen
  exact .left _ _ (Nat.lt_of_lt_of_le (left_lt_of_expect hlparen) hentered.le)

/-- Reads a tree, up to the first token that cannot belong to it. -/
def tree (w : Walk) : Stretch w Tree :=
  w.operand.andThen fun first w₁ _ => w₁.joinedTo (.single first)
termination_by (w.left, 2)
decreasing_by
  · exact .right _ (by decide)
  · rename_i hfirst
    rcases Nat.lt_or_eq_of_le hfirst.le with hlt | heq
    · exact .left _ _ hlt
    · exact heq ▸ .right _ (by decide)

/-- Reads what is joined to a tree. -/
def joinedTo (w : Walk) (tree : Tree) : Stretch w Tree :=
  w.connective?.andThen fun joined w₁ hjoined =>
    match joined, hjoined with
    | some (op, t), _ =>
        w₁.operand.andThen fun right w₂ _ => w₂.joinedTo (.join tree op t right)
    | none, _ => w₁.found tree
termination_by (w.left, 0)
decreasing_by
  · rename_i hjoined
    exact .left _ _ (left_lt_of_connective? hjoined)
  · rename_i hjoined hright
    exact .left _ _ (Nat.lt_of_le_of_lt hright.le (left_lt_of_connective? hjoined))

end

/-- Reads a tree that must go up to the end of the query. -/
def wholeTree (w : Walk) : Stretch w Tree :=
  w.tree.andThen fun tree w₁ _ =>
    if w₁.now.next?.isSome then w₁.refuse ⟨.expression, .operatorOrEnd⟩ else w₁.found tree

end Walk

end BoolQuery
