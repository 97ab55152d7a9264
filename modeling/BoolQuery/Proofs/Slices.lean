import BoolQuery.Proofs.ScanCover

/-!
# Slices between tokens

A text may be cut between two of its tokens, and the parts are then made of the tokens
on either side: looking ahead, a token only ever asks whether the next character makes
it longer, and none does at the end of a text (`EndsBefore.append`, `Cuts.split`). What
changes is where the tokens stand, and `Cuts.of_moved` takes that back.

The reader of trees sees the significant tokens alone. Given some of them in a row,
`Cuts.exists_slice` finds the part of the text from the start of the first to the end of
the last, and the blanks between them with it.
-/

namespace BoolQuery

open Text

/-- A token moved on by a number of bytes. -/
def Token.moved (offset : Nat) (t : Token) : Token :=
  ⟨t.kind, t.text, ⟨t.span.start + offset, t.span.stop + offset⟩⟩

theorem Token.moved_placed (kind : Kind) (text : List Char) (position offset : Nat) :
    (Token.placed kind text position).moved offset =
      .placed kind text (position + offset) := by
  simp only [Token.moved, Token.placed, Token.mk.injEq, Span.mk.injEq, true_and]
  omega

/-- What is behind a token can be cut off anywhere. -/
theorem Kind.EndsBefore.append {kind : Kind} {text cs ds : List Char}
    (h : kind.EndsBefore text (cs ++ ds).head?) : kind.EndsBefore text cs.head? := by
  cases cs with
  | nil => cases kind <;> simp [Kind.EndsBefore]
  | cons c cs => exact h

namespace Cuts

variable {position : Nat} {cs : List Char} {ts us : List Token}

theorem single {kind : Kind} {text : List Char} (h : kind.Spells text) (position : Nat) :
    Cuts position text [.placed kind text position] := by
  have hend : kind.EndsBefore text ([] : List Char).head? := by
    cases kind <;> simp [Kind.EndsBefore]
  have hcuts : Cuts position (text ++ []) [.placed kind text position] := .cons h hend .nil
  rwa [List.append_nil] at hcuts

theorem split (h : Cuts position cs (ts ++ us)) :
    ∃ front back, cs = front ++ back ∧ Cuts position front ts ∧
      Cuts (position + byteLength front) back us := by
  induction ts generalizing position cs with
  | nil => exact ⟨[], cs, rfl, .nil, h⟩
  | cons t ts ih =>
      cases h with
      | cons hspells hends hrest =>
          obtain ⟨front, back, rfl, hfront, hback⟩ := ih hrest
          refine ⟨_ ++ front, back, (List.append_assoc ..).symm,
            .cons hspells hends.append hfront, ?_⟩
          rwa [byteLength_append, ← Nat.add_assoc]

/-- Tokens that stand further on are the same tokens, moved. -/
theorem of_moved {offset : Nat} (h : Cuts (position + offset) cs ts) :
    ∃ us, Cuts position cs us ∧ us.map (Token.moved offset) = ts := by
  generalize hstart : position + offset = start at h
  induction h generalizing position with
  | nil => exact ⟨[], .nil, rfl⟩
  | @cons start kind text rest ts hspells hends _ ih =>
      obtain ⟨us, hus, rfl⟩ := @ih (position + byteLength text) (by omega)
      refine ⟨_, .cons hspells hends hus, ?_⟩
      rw [List.map_cons, Token.moved_placed, hstart]

theorem start_eq (h : Cuts position cs ts) {t : Token} (ht : ts.head? = some t) :
    t.span.start = position := by
  cases h with
  | nil => simp at ht
  | cons =>
      obtain rfl := Option.some.inj ht
      rfl

theorem stop_eq (h : Cuts position cs ts) {t : Token} (ht : ts.getLast? = some t) :
    t.span.stop = position + byteLength cs := by
  obtain ⟨us, rfl⟩ := List.getLast?_eq_some_iff.1 ht
  obtain ⟨front, back, rfl, -, hback⟩ := h.split
  cases hback with
  | cons _ _ hnil =>
      cases hnil
      simp [Token.placed, Nat.add_assoc]

end Cuts

/-! ## Trimming

Of the tokens between two significant ones some may be blanks. A part of the tokens with
the same significant ones can be chosen that starts and ends with one of them. -/

section Trim

variable {α : Type} {p : α → Bool} {l mid : List α}

theorem exists_trim_front (h : l.filter p = mid) (hne : mid ≠ []) :
    ∃ front back, l = front ++ back ∧ back.filter p = mid ∧ back.head? = mid.head? := by
  obtain ⟨a, mid, rfl⟩ := List.exists_cons_of_ne_nil hne
  obtain ⟨front, back, rfl, -, ha, rfl⟩ := List.filter_eq_cons_iff.1 h
  exact ⟨front, a :: back, rfl, by simp [ha], rfl⟩

theorem exists_trim_back (h : l.filter p = mid) (hne : mid ≠ []) :
    ∃ front back, l = front ++ back ∧ front.filter p = mid ∧
      front.getLast? = mid.getLast? := by
  have hreverse : l.reverse.filter p = mid.reverse := by rw [List.filter_reverse, h]
  obtain ⟨back, front, hl, hfilter, hhead⟩ := exists_trim_front hreverse (by simpa using hne)
  refine ⟨front.reverse, back.reverse, ?_, ?_, ?_⟩
  · rw [← List.reverse_append, ← hl, List.reverse_reverse]
  · rw [List.filter_reverse, hfilter, List.reverse_reverse]
  · rw [List.getLast?_reverse, hhead, List.head?_reverse]

/-- Members in a row that pass a test are all those of a part of the list, and its first
and its last. -/
theorem exists_trim {before after : List α} (h : l.filter p = before ++ mid ++ after)
    (hne : mid ≠ []) :
    ∃ front part back, l = front ++ part ++ back ∧ part.filter p = mid ∧
      part.head? = mid.head? ∧ part.getLast? = mid.getLast? := by
  obtain ⟨l, back, rfl, hl, -⟩ := List.filter_eq_append_iff.1 h
  obtain ⟨front, l, rfl, -, hl⟩ := List.filter_eq_append_iff.1 hl
  obtain ⟨front', l, rfl, hl, hhead⟩ := exists_trim_front hl hne
  obtain ⟨part, back', rfl, hl, hlast⟩ := exists_trim_back hl hne
  refine ⟨front ++ front', part, back' ++ back, by simp, hl, ?_, hlast⟩
  cases part with
  | nil => exact absurd hl.symm hne
  | cons a part => exact hhead

end Trim

/-- Significant tokens in a row are those of the part of the text that they span. -/
theorem Cuts.exists_slice {position : Nat} {cs : List Char}
    {ts before mid after : List Token} (h : Cuts position cs ts)
    (htokens : ts.filter (fun t => !t.isWhitespace) = before ++ mid ++ after)
    {first last : Token} (hfirst : mid.head? = some first)
    (hlast : mid.getLast? = some last) :
    ∃ front part back us, cs = front ++ part ++ back ∧ Cuts 0 part us ∧
      (us.filter fun t => !t.isWhitespace).map (Token.moved first.span.start) = mid ∧
      first.span.start = position + byteLength front ∧
      last.span.stop = position + byteLength front + byteLength part := by
  have hne : mid ≠ [] := by
    rintro rfl
    simp at hfirst
  obtain ⟨tfront, tpart, tback, rfl, rfl, hhead, hend⟩ := exists_trim htokens hne
  obtain ⟨cs, back, rfl, hcs, -⟩ := h.split
  obtain ⟨front, part, rfl, -, hpart⟩ := hcs.split
  have hstart := hpart.start_eq (hhead.trans hfirst)
  rw [← Nat.zero_add (position + byteLength front)] at hpart
  obtain ⟨us, hus, rfl⟩ := hpart.of_moved
  rw [Nat.zero_add] at hpart
  refine ⟨front, part, back, us, rfl, hus, ?_, hstart, hpart.stop_eq (hend.trans hlast)⟩
  rw [hstart, List.filter_map]
  rfl

end BoolQuery
