import BoolQuery.Text.Bytes

/-!
# Spans

A span is a range of byte positions in a query, from `start` up to and without
`stop`. Spans that come from reading a text run forwards and fall between
characters. A span may also be written by hand, so nothing here takes that for
granted: a reversed span has no length, and `slice?` gives the text of a span
only where there is one.
-/

namespace BoolQuery

/-- A range of byte positions. -/
structure Span where
  start : Nat
  stop : Nat
deriving DecidableEq, Repr

namespace Span

/-- The largest position: positions are 64-bit numbers. -/
def maxPosition : Nat := 18446744073709551615

def point (position : Nat) : Span := ⟨position, position⟩

/-- The range from the lower start to the higher end of two ranges. -/
def join (a b : Span) : Span := ⟨min a.start b.start, max a.stop b.stop⟩

/-- The number of bytes in a range, unless the range is reversed. -/
def length? (s : Span) : Option Nat :=
  if s.start ≤ s.stop then some (s.stop - s.start) else none

/-- Whether a range ends where it starts. A reversed range does not. -/
def isEmpty (s : Span) : Bool := s.start == s.stop

/-- The range as text, for instance `3..7`. -/
def text (s : Span) : String := s!"{s.start}..{s.stop}"

/-- The part of a text that a range covers, if both its ends are places between
characters of the text and it runs forwards. -/
def slice? (s : Span) (source : List Char) : Option (List Char) :=
  if s.start ≤ s.stop then do
    let (_, rest) ← Text.split? s.start source
    let (part, _) ← Text.split? (s.stop - s.start) rest
    return part
  else
    none

@[simp] theorem start_point (n : Nat) : (point n).start = n := rfl

@[simp] theorem stop_point (n : Nat) : (point n).stop = n := rfl

/-- A range covers `part` of a text exactly when the text is made of `part` with
something before it and something after it, and the range names that place. -/
theorem slice?_eq_some_iff {s : Span} {source part : List Char} :
    s.slice? source = some part ↔
      ∃ before after, source = before ++ part ++ after ∧
        s = ⟨Text.byteLength before, Text.byteLength before + Text.byteLength part⟩ := by
  obtain ⟨start, stop⟩ := s
  simp only [slice?, mk.injEq]
  constructor
  · intro h
    split at h
    · rename_i hle
      simp only [Option.bind_eq_bind, Option.pure_def, Option.bind_eq_some_iff, Prod.exists,
        Option.some.injEq, Text.split?_eq_some_iff] at h
      obtain ⟨before, rest, ⟨hsource, hstart⟩, part', after, ⟨hrest, hpart⟩, rfl⟩ := h
      refine ⟨before, after, ?_, hstart.symm, by omega⟩
      rw [← hsource, ← hrest, List.append_assoc]
    · exact absurd h (by simp)
  · rintro ⟨before, after, rfl, rfl, rfl⟩
    rw [if_pos (by omega)]
    have hfirst : Text.split? (Text.byteLength before) (before ++ (part ++ after)) =
        some (before, part ++ after) :=
      Text.split?_eq_some_iff.2 ⟨rfl, rfl⟩
    have hsecond : Text.split? (Text.byteLength part) (part ++ after) = some (part, after) :=
      Text.split?_eq_some_iff.2 ⟨rfl, rfl⟩
    simp [hfirst, hsecond]

end Span

end BoolQuery
