import BoolQuery.Markup
import BoolQuery.Proofs.ScanCover
import Mathlib.Data.List.Chain

/-!
# Markup gives the text back

Markup is safe if nothing in it can be taken for a tag or an entity that rendering has not
put there. So the characters that make up tags have to stand inside of tags around a
highlight (`Wraps`), and an ampersand has to be the start of an entity.

That nothing is lost is said of the markup alone. `replace` goes over a text and puts
something else in the place of the patterns of a table; with the tags for patterns it
deletes them, and with the entities it decodes them (`plainText`). Two things make it undo
what rendering does. All patterns of a table start with the same character, `<` or `&`, so
text without it is kept as it is. And no pattern starts another one, so the pattern that
was put at a place is the one that is found there, whatever follows. It does not matter
that a query can hold a tag or an entity itself: it is escaped before it stands in markup.

The text does not show where one highlight ends and the next one starts, but the markup
does, as long as plain highlights, which have no tags, are not empty and not side by side.
-/

namespace BoolQuery.Markup

/-! ## Replacing patterns -/

/-- A pattern that can stand in a text, and what is put in its place. -/
structure Substitution where
  pattern : List Char
  replacement : List Char
deriving DecidableEq

/-- Replaces each pattern of a table, from left to right, by what the table has for it.
A character at which no pattern starts is kept. -/
def replace (table : List Substitution) (cs : List Char) : List Char :=
  match cs with
  | [] => []
  | c :: cs =>
      match table.find? fun entry => entry.pattern.isPrefixOf (c :: cs) with
      | some entry => entry.replacement ++ replace table (cs.drop (entry.pattern.length - 1))
      | none => c :: replace table cs
termination_by cs.length
decreasing_by all_goals simp only [List.length_drop, List.length_cons]; omega

/-- Whether each pattern of a table starts with a mark, and none of them starts another. -/
structure Legible (mark : Char) (table : List Substitution) : Prop where
  marked : ∀ entry ∈ table, entry.pattern.head? = some mark
  prefixFree : ∀ entry ∈ table, ∀ other ∈ table, entry.pattern <+: other.pattern →
    entry = other

namespace Legible

variable {mark : Char} {table : List Substitution}

theorem find?_append (h : Legible mark table) {entry : Substitution} (hentry : entry ∈ table)
    (rest : List Char) :
    table.find? (fun other => other.pattern.isPrefixOf (entry.pattern ++ rest)) =
      some entry := by
  have hstart : entry.pattern <+: entry.pattern ++ rest := List.prefix_append _ _
  cases hfind : table.find? fun other =>
    other.pattern.isPrefixOf (entry.pattern ++ rest) with
  | none =>
      have hnone := List.find?_eq_none.1 hfind entry hentry
      exact absurd (List.isPrefixOf_iff_prefix.2 hstart) hnone
  | some other =>
      have hother := List.mem_of_find?_eq_some hfind
      obtain ⟨hfound, -⟩ := List.find?_eq_some_iff_append.1 hfind
      have hother' := List.isPrefixOf_iff_prefix.1 hfound
      rcases List.prefix_or_prefix_of_prefix hother' hstart with hle | hge
      · rw [h.prefixFree other hother entry hentry hle]
      · rw [h.prefixFree entry hentry other hother hge]

theorem replace_pattern (h : Legible mark table) {entry : Substitution}
    (hentry : entry ∈ table) (rest : List Char) :
    replace table (entry.pattern ++ rest) = entry.replacement ++ replace table rest := by
  have hfind := h.find?_append hentry rest
  have hmark := h.marked entry hentry
  obtain ⟨pattern, replacement⟩ := entry
  cases pattern with
  | nil => simp at hmark
  | cons c pattern =>
      simp only [List.cons_append] at hfind ⊢
      rw [replace, hfind]
      simp

theorem replace_append (h : Legible mark table) {text : List Char} (htext : mark ∉ text)
    (rest : List Char) : replace table (text ++ rest) = text ++ replace table rest := by
  induction text with
  | nil => rfl
  | cons c text ih =>
      rw [List.mem_cons, not_or] at htext
      obtain ⟨hc, htext⟩ := htext
      have hnone : table.find? (fun entry =>
          entry.pattern.isPrefixOf (c :: (text ++ rest))) =
          none := by
        refine List.find?_eq_none.2 fun entry hentry hprefix => ?_
        obtain ⟨more, hmore⟩ := List.isPrefixOf_iff_prefix.1 hprefix
        have hhead := congrArg List.head? hmore
        rw [List.head?_append, h.marked entry hentry, Option.some_or] at hhead
        exact hc (Option.some.inj hhead)
      rw [List.cons_append, replace, hnone]
      simp only [ih htext, List.cons_append]

end Legible

/-! ## Entities -/

/-- The entities of markup, each with the character it stands for. -/
def entities : List Substitution := [
  ⟨"&amp;".toList, ['&']⟩,
  ⟨"&lt;".toList, ['<']⟩,
  ⟨"&gt;".toList, ['>']⟩,
  ⟨"&quot;".toList, ['"']⟩,
  ⟨"&#39;".toList, ['\'']⟩]

/-- The characters that tags are made with. -/
def specials : List Char := ['<', '>', '"', '\'']

theorem legible_entities : Legible '&' entities := ⟨by decide, by decide⟩

theorem not_mem_entity : ∀ entity ∈ entities, ∀ c ∈ specials, c ∉ entity.pattern := by
  simp [entities, specials]

theorem not_mem_tail_entity : ∀ entity ∈ entities, '&' ∉ entity.pattern.tail := by
  simp [entities]

theorem escapeChar_cases (c : Char) :
    ⟨escapeChar c, [c]⟩ ∈ entities ∨ escapeChar c = [c] ∧ c ≠ '&' ∧ c ∉ specials := by
  by_cases hspecial : c ∈ '&' :: specials
  · have hall : ∀ d ∈ '&' :: specials, ⟨escapeChar d, [d]⟩ ∈ entities := by
      simp [entities, specials, escapeChar]
    exact .inl (hall c hspecial)
  · rw [List.mem_cons, not_or] at hspecial
    obtain ⟨hamp, hspecial⟩ := hspecial
    refine .inr ⟨?_, hamp, hspecial⟩
    simp only [specials, List.mem_cons, List.not_mem_nil, or_false, not_or] at hspecial
    obtain ⟨hlt, hgt, hdouble, hsingle⟩ := hspecial
    rw [escapeChar, if_neg hamp, if_neg hlt, if_neg hgt, if_neg hdouble, if_neg hsingle]

theorem toList_escape (text : String) :
    (escape text).toList = text.toList.flatMap escapeChar := String.toList_ofList

theorem not_mem_escapeChar {special : Char} (hspecial : special ∈ specials) (c : Char) :
    special ∉ escapeChar c := by
  rcases escapeChar_cases c with hentity | ⟨hsame, -, hc⟩
  · exact not_mem_entity _ hentity special hspecial
  · rw [hsame, List.mem_singleton]
    rintro rfl
    exact hc hspecial

theorem not_mem_escape {special : Char} (hspecial : special ∈ specials) (cs : List Char) :
    special ∉ cs.flatMap escapeChar := by
  intro hmem
  obtain ⟨c, -, hc⟩ := List.mem_flatMap.1 hmem
  exact not_mem_escapeChar hspecial c hc

/-- Decoding the entities of escaped text gives the text. -/
theorem replace_entities_escape (cs : List Char) :
    replace entities (cs.flatMap escapeChar) = cs := by
  induction cs with
  | nil => rw [List.flatMap_nil, replace]
  | cons c cs ih =>
      rw [List.flatMap_cons]
      rcases escapeChar_cases c with hentity | ⟨hsame, hamp, -⟩
      · rw [legible_entities.replace_pattern hentity, ih]
        rfl
      · have hmark : '&' ∉ [c] := by simpa using hamp.symm
        rw [hsame, legible_entities.replace_append hmark, ih]
        rfl

theorem escape_injective {cs ds : List Char}
    (h : cs.flatMap escapeChar = ds.flatMap escapeChar) : cs = ds := by
  rw [← replace_entities_escape cs, h, replace_entities_escape]

/-! ## Tags -/

/-- The categories whose highlights are put in an element. -/
def wrapped : List Category := [.operator, .key, .string, .word, .paren]

/-- The tags of markup, to be deleted. -/
def tags : List Substitution :=
  (closeTag :: wrapped.map openTag).map fun tag => ⟨tag.toList, []⟩

/-- The text that markup shows: it has no tags, and its entities are decoded. -/
def plainText (markup : String) : String :=
  String.ofList (replace entities (replace tags markup.toList))

theorem mem_wrapped_iff {category : Category} : category ∈ wrapped ↔ category ≠ .plain := by
  cases category <;> decide

theorem legible_tags : Legible '<' tags := ⟨by decide +kernel, by decide +kernel⟩

theorem closeTag_mem_tags : ⟨closeTag.toList, []⟩ ∈ tags := List.mem_cons_self

theorem openTag_mem_tags {category : Category} (h : category ≠ .plain) :
    ⟨(openTag category).toList, []⟩ ∈ tags := by
  have hmem := List.mem_map_of_mem (f := openTag) (mem_wrapped_iff.2 h)
  exact List.mem_map_of_mem (List.mem_cons_of_mem _ hmem)

theorem ampersand_not_mem_tag : ∀ tag ∈ tags, '&' ∉ tag.pattern := by decide +kernel

/-! ## What is rendered -/

theorem toList_renderOne_plain {h : Highlight} (hplain : h.category = .plain) :
    (renderOne h).toList = h.text.toList.flatMap escapeChar := by
  rw [renderOne, hplain]
  exact toList_escape h.text

theorem renderOne_wrapped {h : Highlight} (hwrapped : h.category ≠ .plain) :
    renderOne h = openTag h.category ++ escape h.text ++ closeTag := by
  rw [renderOne]
  split
  · rename_i hplain
    exact absurd hplain hwrapped
  · rfl

theorem toList_renderOne_wrapped {h : Highlight} (hwrapped : h.category ≠ .plain) :
    (renderOne h).toList =
      (openTag h.category).toList ++ h.text.toList.flatMap escapeChar ++
        closeTag.toList := by
  rw [renderOne_wrapped hwrapped, String.toList_append, String.toList_append, toList_escape]

theorem toList_render (hs : List Highlight) :
    (render hs).toList = hs.flatMap fun h => (renderOne h).toList := by
  rw [render, String.toList_join, List.flatMap_map]

theorem toList_render_cons (h : Highlight) (hs : List Highlight) :
    (render (h :: hs)).toList = (renderOne h).toList ++ (render hs).toList := by
  simp only [toList_render, List.flatMap_cons]

theorem render_cons (h : Highlight) (hs : List Highlight) :
    render (h :: hs) = renderOne h ++ render hs := by
  rw [← String.toList_inj, String.toList_append, toList_render_cons]

theorem replace_tags_renderOne (h : Highlight) (rest : List Char) :
    replace tags ((renderOne h).toList ++ rest) =
      h.text.toList.flatMap escapeChar ++ replace tags rest := by
  have htext : '<' ∉ h.text.toList.flatMap escapeChar := not_mem_escape (by decide) _
  by_cases hplain : h.category = .plain
  · rw [toList_renderOne_plain hplain, legible_tags.replace_append htext]
  · rw [toList_renderOne_wrapped hplain, List.append_assoc, List.append_assoc,
      legible_tags.replace_pattern (openTag_mem_tags hplain),
      legible_tags.replace_append htext,
      legible_tags.replace_pattern closeTag_mem_tags]
    rfl

theorem replace_tags_render (hs : List Highlight) :
    replace tags (render hs).toList =
      (Highlight.reconstruct hs).toList.flatMap escapeChar := by
  rw [Highlight.reconstruct, String.toList_join, List.flatMap_map, List.flatMap_assoc]
  induction hs with
  | nil =>
      have hempty : (render []).toList = [] := rfl
      rw [hempty, replace, List.flatMap_nil]
  | cons h hs ih => rw [toList_render_cons, replace_tags_renderOne, ih, List.flatMap_cons]

theorem plainText_render (hs : List Highlight) :
    plainText (render hs) = Highlight.reconstruct hs := by
  rw [plainText, replace_tags_render, replace_entities_escape, String.ofList_toList]

/-! ## Nothing but tags and entities -/

/-- Whether the markup of some highlights is `before`, a tag that stands there around one
of them, and `after`. -/
inductive Wraps : List Highlight → (before tag after : String) → Prop where
  | opening (front back : List Highlight) {h : Highlight} : h.category ≠ .plain →
      Wraps (front ++ h :: back) (render front) (openTag h.category)
        (escape h.text ++ closeTag ++ render back)
  | closing (front back : List Highlight) {h : Highlight} : h.category ≠ .plain →
      Wraps (front ++ h :: back) (render front ++ openTag h.category ++ escape h.text)
        closeTag
        (render back)

theorem Wraps.cons {hs : List Highlight} {before tag after : String}
    (hwraps : Wraps hs before tag after) (h : Highlight) :
    Wraps (h :: hs) (renderOne h ++ before) tag after := by
  cases hwraps with
  | @opening front back inner hwrapped =>
      have hopening := Wraps.opening (h :: front) back hwrapped
      rwa [render_cons] at hopening
  | @closing front back inner hwrapped =>
      have hclosing := Wraps.closing (h :: front) back hwrapped
      have hbefore : render (h :: front) ++ openTag inner.category ++ escape inner.text =
          renderOne h ++ (render front ++ openTag inner.category ++ escape inner.text) := by
        rw [render_cons]
        simp only [String.append_assoc]
      rwa [hbefore] at hclosing

theorem append_eq_append_cons {α : Type} {as bs before after : List α} {a : α}
    (h : as ++ bs = before ++ a :: after) :
    (∃ mid, as = before ++ a :: mid ∧ after = mid ++ bs) ∨
      ∃ mid, before = as ++ mid ∧ bs = mid ++ a :: after := by
  rcases List.append_eq_append_iff.1 h with ⟨mid, hbefore, hbs⟩ | ⟨mid, has, hafter⟩
  · exact .inr ⟨mid, hbefore, hbs⟩
  · cases mid with
    | nil => exact .inr ⟨[], by simpa using has.symm, by simpa using hafter.symm⟩
    | cons x mid =>
        obtain ⟨rfl, rfl⟩ := List.cons_eq_cons.1 hafter
        exact .inl ⟨mid, has, rfl⟩

theorem exists_wraps_first {h : Highlight} (hs : List Highlight) {before after : List Char}
    {c : Char} (hc : c ∈ specials) (heq : (renderOne h).toList = before ++ c :: after) :
    ∃ front tag back left right, Wraps (h :: hs) front tag back ∧
      tag.toList = left ++ c :: right ∧ before = front.toList ++ left ∧
      after ++ (render hs).toList = right ++ back.toList := by
  have htext : ∀ front back, h.text.toList.flatMap escapeChar ≠ front ++ c :: back := by
    intro front back hsplit
    have hmem : c ∈ front ++ c :: back := by simp
    exact not_mem_escape hc h.text.toList (hsplit ▸ hmem)
  by_cases hplain : h.category = .plain
  · rw [toList_renderOne_plain hplain] at heq
    exact absurd heq (htext before after)
  · rw [toList_renderOne_wrapped hplain] at heq
    rcases append_eq_append_cons heq with ⟨mid, hstart, rfl⟩ | ⟨mid, rfl, hclose⟩
    · rcases append_eq_append_cons hstart with ⟨right, hopen, rfl⟩ | ⟨left, -, hinside⟩
      · refine ⟨_, _, _, before, right, Wraps.opening [] hs hplain, hopen, rfl, ?_⟩
        simp [toList_escape]
      · exact absurd hinside (htext left mid)
    · refine ⟨_, _, _, mid, after, Wraps.closing [] hs hplain, hclose, ?_, rfl⟩
      simp [toList_escape, render]

/-- The characters of tags stand inside of the tags around highlights. -/
theorem exists_wraps {hs : List Highlight} {before after : List Char} {c : Char}
    (hc : c ∈ specials) (h : (render hs).toList = before ++ c :: after) :
    ∃ front tag back left right, Wraps hs front tag back ∧ tag.toList = left ++ c :: right ∧
      before = front.toList ++ left ∧ after = right ++ back.toList := by
  induction hs generalizing before with
  | nil => simp [render] at h
  | cons first hs ih =>
      rw [toList_render_cons] at h
      rcases append_eq_append_cons h with ⟨mid, hfirst, hafter⟩ | ⟨mid, hbefore, hrest⟩
      · rw [hafter]
        exact exists_wraps_first hs hc hfirst
      · obtain ⟨front, tag, back, left, right, hwraps, htag, hmid, hback⟩ := ih hrest
        refine ⟨_, tag, back, left, right, hwraps.cons first, htag, ?_, hback⟩
        rw [hbefore, hmid, String.toList_append, List.append_assoc]

/-- Whether each ampersand of a text is the start of an entity. -/
def AmpersandsStartEntities (cs : List Char) : Prop :=
  ∀ before after, cs = before ++ '&' :: after →
    ∃ entity ∈ entities, entity.pattern <+: '&' :: after

namespace AmpersandsStartEntities

variable {cs ds : List Char}

theorem of_not_mem (h : '&' ∉ cs) : AmpersandsStartEntities cs := by
  rintro before after rfl
  exact absurd (List.mem_append_right before List.mem_cons_self) h

theorem append (hcs : AmpersandsStartEntities cs) (hds : AmpersandsStartEntities ds) :
    AmpersandsStartEntities (cs ++ ds) := by
  intro before after h
  rcases append_eq_append_cons h with ⟨mid, hfirst, rfl⟩ | ⟨mid, -, hsecond⟩
  · obtain ⟨entity, hentity, hprefix⟩ := hcs before mid hfirst
    exact ⟨entity, hentity, hprefix.trans (List.prefix_append ('&' :: mid) ds)⟩
  · exact hds mid after hsecond

theorem flatMap {α : Type} {f : α → List Char} (h : ∀ a, AmpersandsStartEntities (f a))
    (as : List α) : AmpersandsStartEntities (as.flatMap f) := by
  induction as with
  | nil => exact of_not_mem (by simp)
  | cons a as ih =>
      rw [List.flatMap_cons]
      exact (h a).append ih

theorem of_entity {entity : Substitution} (h : entity ∈ entities) :
    AmpersandsStartEntities entity.pattern := by
  intro before after heq
  cases before with
  | nil => exact ⟨entity, h, by rw [heq]; exact List.prefix_refl _⟩
  | cons c before =>
      have hmem : '&' ∈ entity.pattern.tail := by simp [heq]
      exact absurd hmem (not_mem_tail_entity entity h)

theorem of_escapeChar (c : Char) : AmpersandsStartEntities (escapeChar c) := by
  rcases escapeChar_cases c with hentity | ⟨hsame, hamp, -⟩
  · exact of_entity hentity
  · rw [hsame]
    exact of_not_mem (by simpa using hamp.symm)

theorem of_renderOne (h : Highlight) : AmpersandsStartEntities (renderOne h).toList := by
  have htext : AmpersandsStartEntities (h.text.toList.flatMap escapeChar) :=
    flatMap of_escapeChar h.text.toList
  by_cases hplain : h.category = .plain
  · rwa [toList_renderOne_plain hplain]
  · rw [toList_renderOne_wrapped hplain]
    have hopen := of_not_mem (ampersand_not_mem_tag _ (openTag_mem_tags hplain))
    have hclose := of_not_mem (ampersand_not_mem_tag _ closeTag_mem_tags)
    exact (hopen.append htext).append hclose

theorem of_render (hs : List Highlight) : AmpersandsStartEntities (render hs).toList := by
  rw [toList_render]
  exact flatMap of_renderOne hs

end AmpersandsStartEntities

/-! ## Telling highlights apart -/

/-- What markup shows of a highlight, its place apart. -/
def labelled (h : Highlight) : Category × String := (h.category, h.text)

/-- Whether plain highlights are not empty and no two of them are side by side. -/
structure Tidy (hs : List Highlight) : Prop where
  nonempty : ∀ h ∈ hs, h.category = .plain → h.text ≠ ""
  apart : hs.IsChain fun a b => ¬ (a.category = .plain ∧ b.category = .plain)

theorem Tidy.tail {h : Highlight} {hs : List Highlight} (htidy : Tidy (h :: hs)) : Tidy hs :=
  ⟨fun other hother => htidy.nonempty other (List.mem_cons_of_mem h hother),
    htidy.apart.tail⟩

theorem name_injective {category other : Category} (h : category.name = other.name) :
    category = other := by
  revert h
  cases category <;> cases other <;> decide

theorem openTag_injective {category other : Category}
    (h : openTag category = openTag other) :
    category = other := by
  unfold openTag at h
  have hstart := (String.append_left_inj _).1 h
  exact name_injective ((String.append_right_inj _).1 hstart)

/-- Of two tags at the same place one starts the other, so they are the same. -/
theorem category_eq_of_prefix {category other : Category} {cs : List Char}
    (hwrapped : category ≠ .plain) (hwrapped' : other ≠ .plain)
    (h : (openTag category).toList <+: cs) (h' : (openTag other).toList <+: cs) :
    category = other := by
  have hopen := openTag_mem_tags hwrapped
  have hopen' := openTag_mem_tags hwrapped'
  have htag : (openTag category).toList = (openTag other).toList := by
    rcases List.prefix_or_prefix_of_prefix h h' with hle | hge
    · exact congrArg Substitution.pattern (legible_tags.prefixFree _ hopen _ hopen' hle)
    · exact congrArg Substitution.pattern (legible_tags.prefixFree _ hopen' _ hopen hge).symm
  exact openTag_injective (String.toList_inj.1 htag)

theorem head?_closeTag_append (rest : List Char) :
    ∀ c ∈ (closeTag.toList ++ rest).head?, c = '<' := by
  intro c hc
  rw [List.head?_append, legible_tags.marked _ closeTag_mem_tags, Option.some_or] at hc
  exact (Option.some.inj hc).symm

theorem head?_renderOne_wrapped {h : Highlight} (hwrapped : h.category ≠ .plain)
    (rest : List Char) : ((renderOne h).toList ++ rest).head? = some '<' := by
  have hopen := legible_tags.marked _ (openTag_mem_tags hwrapped)
  rw [toList_renderOne_wrapped hwrapped, List.append_assoc, List.append_assoc,
    List.head?_append, hopen, Option.some_or]

theorem exists_escapeChar_cons (c : Char) : ∃ d ds, escapeChar c = d :: ds ∧ d ≠ '<' := by
  have hlt : '<' ∉ escapeChar c := not_mem_escapeChar (by decide) c
  cases hescape : escapeChar c with
  | nil =>
      rcases escapeChar_cases c with hentity | ⟨hsame, -⟩
      · have hmark := legible_entities.marked _ hentity
        simp [hescape] at hmark
      · simp [hescape] at hsame
  | cons d ds =>
      rw [hescape, List.mem_cons, not_or] at hlt
      exact ⟨d, ds, rfl, Ne.symm hlt.1⟩

theorem exists_renderOne_plain {h : Highlight} (hplain : h.category = .plain)
    (hnonempty : h.text ≠ "") : ∃ d ds, (renderOne h).toList = d :: ds ∧ d ≠ '<' := by
  have hne : h.text.toList ≠ [] := by
    rw [← String.toList_empty, Ne, String.toList_inj]
    exact hnonempty
  obtain ⟨c, cs, htext⟩ := List.exists_cons_of_ne_nil hne
  obtain ⟨d, ds, hescape, hd⟩ := exists_escapeChar_cons c
  refine ⟨d, ds ++ cs.flatMap escapeChar, ?_, hd⟩
  rw [toList_renderOne_plain hplain, htext, List.flatMap_cons, hescape, List.cons_append]

theorem head?_renderOne_iff {h : Highlight} (hnonempty : h.category = .plain → h.text ≠ "")
    (rest : List Char) :
    ((renderOne h).toList ++ rest).head? = some '<' ↔ h.category ≠ .plain := by
  constructor
  · intro hhead hplain
    obtain ⟨d, ds, hrender, hd⟩ := exists_renderOne_plain hplain (hnonempty hplain)
    rw [hrender] at hhead
    exact hd (Option.some.inj hhead)
  · intro hwrapped
    exact head?_renderOne_wrapped hwrapped rest

/-- Escaped text ends where a tag starts. -/
theorem escape_append_inj {cs ds rest rest' : List Char} (hrest : ∀ c ∈ rest.head?, c = '<')
    (hrest' : ∀ c ∈ rest'.head?, c = '<')
    (h : cs.flatMap escapeChar ++ rest = ds.flatMap escapeChar ++ rest') :
    cs = ds ∧ rest = rest' := by
  have htake : ∀ text after : List Char, (∀ c ∈ after.head?, c = '<') →
      (text.flatMap escapeChar ++ after).takeWhile (· ≠ '<') = text.flatMap escapeChar := by
    intro text after hafter
    refine takeWhile_append_eq (fun c hc => ?_) (fun c hc => by simpa using hafter c hc)
    have hne : c ≠ '<' := by
      rintro rfl
      exact not_mem_escape (by decide) text hc
    simpa using hne
  have hescaped : cs.flatMap escapeChar = ds.flatMap escapeChar := by
    rw [← htake cs rest hrest, h, htake ds rest' hrest']
  refine ⟨escape_injective hescaped, ?_⟩
  rw [hescaped] at h
  exact List.append_cancel_left h

/-- The markup of a first highlight tells the highlight, and where its markup ends. -/
theorem renderOne_append_inj {h h' : Highlight} {rest rest' : List Char}
    (hplain : h.category = .plain → h.text ≠ "" ∧ ∀ c ∈ rest.head?, c = '<')
    (hplain' : h'.category = .plain → h'.text ≠ "" ∧ ∀ c ∈ rest'.head?, c = '<')
    (heq : (renderOne h).toList ++ rest = (renderOne h').toList ++ rest') :
    labelled h = labelled h' ∧ rest = rest' := by
  have hsame : h.category ≠ .plain ↔ h'.category ≠ .plain := by
    rw [← head?_renderOne_iff (fun hp => (hplain hp).1) rest, heq,
      head?_renderOne_iff (fun hp => (hplain' hp).1) rest']
  by_cases hwrapped : h.category = .plain
  · have hwrapped' : h'.category = .plain := (not_iff_not.1 hsame).1 hwrapped
    rw [toList_renderOne_plain hwrapped, toList_renderOne_plain hwrapped'] at heq
    obtain ⟨htext, hrest⟩ := escape_append_inj (hplain hwrapped).2 (hplain' hwrapped').2 heq
    refine ⟨?_, hrest⟩
    rw [labelled, labelled, hwrapped, hwrapped', String.toList_inj.1 htext]
  · have hwrapped' := hsame.1 hwrapped
    simp only [toList_renderOne_wrapped hwrapped, toList_renderOne_wrapped hwrapped',
      List.append_assoc] at heq
    have hprefix := List.prefix_append (openTag h.category).toList
      (h.text.toList.flatMap escapeChar ++ (closeTag.toList ++ rest))
    rw [heq] at hprefix
    have hcategory := category_eq_of_prefix hwrapped hwrapped' hprefix
      (List.prefix_append _ _)
    rw [hcategory] at heq
    obtain ⟨htext, hrest⟩ := escape_append_inj (head?_closeTag_append rest)
      (head?_closeTag_append rest') (List.append_cancel_left heq)
    refine ⟨?_, List.append_cancel_left hrest⟩
    rw [labelled, labelled, hcategory, String.toList_inj.1 htext]

/-- Behind a plain highlight a tag follows, or nothing. -/
theorem Tidy.head?_render {h : Highlight} {hs : List Highlight} (htidy : Tidy (h :: hs))
    (hplain : h.category = .plain) :
    h.text ≠ "" ∧ ∀ c ∈ (render hs).toList.head?, c = '<' := by
  refine ⟨htidy.nonempty h List.mem_cons_self hplain, ?_⟩
  cases hs with
  | nil => simp [render]
  | cons next hs =>
      have hnext : next.category ≠ .plain := fun hnext =>
        (List.isChain_cons_cons.1 htidy.apart).1 ⟨hplain, hnext⟩
      intro c hc
      rw [toList_render_cons, head?_renderOne_wrapped hnext] at hc
      exact (Option.some.inj hc).symm

theorem Tidy.render_ne_nil {h : Highlight} {hs : List Highlight} (htidy : Tidy (h :: hs)) :
    (render (h :: hs)).toList ≠ [] := by
  rw [toList_render_cons]
  by_cases hplain : h.category = .plain
  · obtain ⟨d, ds, hrender, -⟩ :=
      exists_renderOne_plain hplain (htidy.nonempty h List.mem_cons_self hplain)
    simp [hrender]
  · have hhead := head?_renderOne_wrapped hplain (render hs).toList
    intro hempty
    simp [hempty] at hhead

/-- Tidy highlights can be told from their markup, but for their places. -/
theorem Tidy.labelled_eq {hs hs' : List Highlight} (htidy : Tidy hs) (htidy' : Tidy hs')
    (heq : (render hs).toList = (render hs').toList) :
    hs.map labelled = hs'.map labelled := by
  induction hs generalizing hs' with
  | nil =>
      cases hs' with
      | nil => rfl
      | cons h' hs' => exact absurd heq.symm htidy'.render_ne_nil
  | cons h hs ih =>
      cases hs' with
      | nil => exact absurd heq htidy.render_ne_nil
      | cons h' hs' =>
          rw [toList_render_cons, toList_render_cons] at heq
          obtain ⟨hfirst, hrest⟩ :=
            renderOne_append_inj htidy.head?_render htidy'.head?_render heq
          rw [List.map_cons, List.map_cons, hfirst, ih htidy.tail htidy'.tail hrest]

/-! ## Highlights of queries -/

theorem ofQuery_cases (query : String) :
    Highlight.ofQuery query = Highlight.unclassified query ∨
      ∃ ts, Cuts 0 query.toList ts ∧ Highlight.ofQuery query = ts.map Highlight.ofToken := by
  rw [Highlight.ofQuery]
  cases hs : TokenStream.ofQuery query with
  | error e => exact .inl rfl
  | ok s =>
      obtain ⟨ts, hcuts, rfl⟩ := TokenStream.ofQuery_eq_ok_iff.1 hs
      refine .inr ⟨ts, hcuts, ?_⟩
      rw [Highlight.ofTokens, Highlight.ofStream,
        TokenStream.merged_ofTokens _ hcuts.ascending]

theorem reconstruct_ofQuery (query : String) :
    Highlight.reconstruct (Highlight.ofQuery query) = query := by
  rcases ofQuery_cases query with hwhole | ⟨ts, hcuts, htokens⟩
  · rw [hwhole, reconstruct_unclassified]
  · rw [htokens, hcuts.reconstruct_eq]

theorem tidy_unclassified (query : String) : Tidy (Highlight.unclassified query) := by
  rw [Highlight.unclassified]
  split
  · exact ⟨by simp, .nil⟩
  · rename_i hempty
    exact ⟨by simpa using hempty, .singleton _⟩

theorem ofKind_eq_plain_iff {kind : Kind} :
    Category.ofKind kind = .plain ↔ kind.isWhitespace = true := by
  cases kind <;> decide

theorem tidy_of_cuts {cs : List Char} {ts : List Token} (hcuts : Cuts 0 cs ts) :
    Tidy (ts.map Highlight.ofToken) := by
  refine ⟨fun h hh _ hempty => ?_, ?_⟩
  · obtain ⟨t, ht, rfl⟩ := List.mem_map.1 hh
    have htext : t.text = "" := hempty
    exact (hcuts.spells t ht).ne_nil (by rw [htext, String.toList_empty])
  · rw [List.isChain_map, List.isChain_iff_forall_rel_of_append_cons_cons]
    rintro a b front back hts ⟨ha, hb⟩
    have hpair : [a, b] <:+: ts := ⟨front, back, by rw [hts, List.append_assoc]; rfl⟩
    exact hcuts.apart a b hpair ⟨ofKind_eq_plain_iff.1 ha, ofKind_eq_plain_iff.1 hb⟩

/-- The highlights of a query are tidy, whatever becomes of it. -/
theorem tidy_ofQuery (query : String) : Tidy (Highlight.ofQuery query) := by
  rcases ofQuery_cases query with hwhole | ⟨ts, hcuts, htokens⟩
  · rw [hwhole]
    exact tidy_unclassified query
  · rw [htokens]
    exact tidy_of_cuts hcuts

/-- Markup is safe and loses nothing. The characters of tags stand in it only inside of the
tags around highlights, each ampersand starts an entity, and the text it shows is that of
the highlights, which is the query if they are those of a query. Tidy highlights, as those
of queries are, can be told from it. -/
theorem render_lossless :
    (∀ hs : List Highlight,
      (∀ before c after, c ∈ specials → (render hs).toList = before ++ c :: after →
        ∃ front tag back left right, Wraps hs front tag back ∧
          tag.toList = left ++ c :: right ∧ before = front.toList ++ left ∧
          after = right ++ back.toList) ∧
      AmpersandsStartEntities (render hs).toList ∧
      plainText (render hs) = Highlight.reconstruct hs) ∧
    (∀ query : String, Tidy (analyze query).highlights ∧
      plainText (render (analyze query).highlights) = query) ∧
    ∀ hs hs' : List Highlight, Tidy hs → Tidy hs' → render hs = render hs' →
      hs.map labelled = hs'.map labelled := by
  refine ⟨fun hs => ⟨fun before c after hc heq => exists_wraps hc heq,
    AmpersandsStartEntities.of_render hs, plainText_render hs⟩, fun query => ?_,
    fun hs hs' htidy htidy' heq => htidy.labelled_eq htidy' (congrArg String.toList heq)⟩
  rw [highlights_analyze]
  exact ⟨tidy_ofQuery query, by rw [plainText_render, reconstruct_ofQuery]⟩

/-- Texts that look like a tag and an entity, once at other places. -/
theorem render_lossless_lookalikes :
    let hs : List Highlight :=
      [⟨.string, "'</span>'", ⟨0, 9⟩⟩, ⟨.plain, "&lt;", ⟨9, 13⟩⟩, ⟨.word, "", ⟨13, 13⟩⟩]
    let hs' : List Highlight :=
      [⟨.string, "'</span>'", ⟨5, 1⟩⟩, ⟨.plain, "&lt;", .point 3⟩, ⟨.word, "", .point 0⟩]
    (Tidy hs ∧ Tidy hs' ∧ render hs = render hs') ∧ hs.map labelled = hs'.map labelled ∧
      plainText (render hs) = "'</span>'&lt;" ∧
      plainText (render (analyze "a &amp; '</span>").highlights) = "a &amp; '</span>" := by
  intro hs hs'
  have htidy : Tidy hs := ⟨by decide, by decide⟩
  have htidy' : Tidy hs' := ⟨by decide, by decide⟩
  obtain ⟨hshown, hquery, htold⟩ := render_lossless
  exact ⟨⟨htidy, htidy', rfl⟩, htold hs hs' htidy htidy' rfl, (hshown hs).2.2.trans rfl,
    (hquery _).2⟩

end BoolQuery.Markup
