import BoolQuery.Token.Rule

/-!
# Cutting a query into tokens

`scan` cuts a text from the front, one token at a time, until nothing is left or
no rule applies. It does not skip: blanks come out as tokens like the others, so
the tokens of a successful scan, joined, are the text.

A place where no rule applies is an error at its first character. If that
character is a quote, the only rules that could have applied want it closed, so
the error is that the phrase never ends; any other character belongs to no token
at all.
-/

namespace BoolQuery

/-- Why a text cannot be cut into tokens. -/
inductive LexError where
  /-- A character that starts no token. -/
  | unexpected (ch : Char) (position : Nat)
  | unterminated (quote : Char) (position : Nat)
deriving DecidableEq, Repr

namespace LexError

/-- The error at a place where no rule applies, from the character that stands there. -/
def atChar (ch : Char) (position : Nat) : LexError :=
  if ch = '"' ∨ ch = '\'' then unterminated ch position else unexpected ch position

def char : LexError → Char
  | unexpected ch _ => ch
  | unterminated quote _ => quote

def position : LexError → Nat
  | unexpected _ position => position
  | unterminated _ position => position

def span (e : LexError) : Span := ⟨e.position, e.position + e.char.utf8Size⟩

/-- The range of the character at fault, if its end is still a position. Errors
of a scan always have one; an error made by hand may not. -/
def span? (e : LexError) : Option Span :=
  if e.span.stop ≤ Span.maxPosition then some e.span else none

def message : LexError → String
  | unexpected ch position => s!"Unexpected character '{ch}' at position {position}"
  | unterminated quote position =>
      s!"Unterminated string: missing closing {quote} for quote at position {position}"

end LexError

namespace Token

/-- The token that a lexeme makes of the start of a text at some position. -/
def ofLexeme (lexeme : Lexeme) (position : Nat) (cs : List Char) : Token :=
  let chars := cs.take lexeme.length
  ⟨lexeme.kind, String.ofList chars, ⟨position, position + Text.byteLength chars⟩⟩

/-- Cuts the rest of a text, which starts at `position`, after the tokens `done`,
the last of which comes first. -/
def scanFrom (position : Nat) (rest : List Char) (done : List Token) :
    Except LexError (List Token) :=
  match rest with
  | [] => .ok done.reverse
  | c :: cs =>
      match lexeme? (c :: cs) with
      | none => .error (.atChar c position)
      | some lexeme =>
          let token := ofLexeme lexeme position (c :: cs)
          scanFrom token.span.stop ((c :: cs).drop lexeme.length) (token :: done)
termination_by rest.length
decreasing_by
  have := lexeme.length_pos
  simp only [List.length_drop, List.length_cons]
  omega

/-- The tokens of a text, blanks included, in the order of the text. -/
def scan (cs : List Char) : Except LexError (List Token) := scanFrom 0 cs []

@[simp] theorem scanFrom_nil (position : Nat) (done : List Token) :
    scanFrom position [] done = .ok done.reverse := by
  rw [scanFrom]

/-- The tokens already found only stand before those of the rest. -/
theorem scanFrom_done (position : Nat) (rest : List Char) (done : List Token) :
    scanFrom position rest done = (scanFrom position rest []).map (done.reverse ++ ·) := by
  induction hlen : rest.length using Nat.strongRecOn generalizing position rest done with
  | ind n ih =>
      cases rest with
      | nil => simp [Except.map]
      | cons c cs =>
          rw [scanFrom.eq_def position _ done, scanFrom.eq_def position _ []]
          cases h : lexeme? (c :: cs) with
          | none => simp only [h, Except.map]
          | some lexeme =>
              have hlt : ((c :: cs).drop lexeme.length).length < n := by
                have := lexeme.length_pos
                simp only [List.length_drop, List.length_cons] at hlen ⊢
                omega
              simp only [h]
              rw [ih _ hlt _ _ _ rfl, ih _ hlt _ _ [_] rfl]
              cases scanFrom _ ((c :: cs).drop lexeme.length) [] <;> simp [Except.map]

/-- A scan of a text that is not empty cuts one token and goes on behind it. -/
theorem scanFrom_cons (position : Nat) (c : Char) (cs : List Char) :
    scanFrom position (c :: cs) [] =
      match lexeme? (c :: cs) with
      | none => .error (.atChar c position)
      | some lexeme =>
          (scanFrom (ofLexeme lexeme position (c :: cs)).span.stop
            ((c :: cs).drop lexeme.length) []).map
              (ofLexeme lexeme position (c :: cs) :: ·) := by
  rw [scanFrom.eq_def]
  cases h : lexeme? (c :: cs) with
  | none => simp only [h]
  | some lexeme =>
      simp only [h]
      rw [scanFrom_done]
      rfl

end Token

end BoolQuery
