import BoolQuery.Command.Run
import BoolQuery.Proofs.Carets
import BoolQuery.Proofs.Gluing

/-!
# Blanks behind a query

A query from standard input loses its line break, which for the tokens is a run of blanks.
Blanks behind a query change nothing that the grammar sees, so it is read as before. They
change nothing at a fault either. A character that starts no token starts none whatever
follows, and a phrase without an end stays without one: blanks are no quotes, and if there
was a backslash left over, the first of them is what it escapes. What can change is where a
query ends that ends too early. No message names this place, only the carets show it.
-/

namespace BoolQuery

open Text

/-! ## Tokens -/

section Blanks

variable {blanks : List Char} (hblanks : ∀ c ∈ blanks, isBlank c = true)

include hblanks

theorem exists_cuts_blanks (position : Nat) :
    ∃ ts, Cuts position blanks ts ∧ significantTokens ts = [] := by
  by_cases hne : blanks = []
  · exact ⟨[], hne ▸ .nil, rfl⟩
  · have hspells : Kind.whitespace.Spells blanks := ⟨hne, hblanks⟩
    exact ⟨_, .single hspells position, significantTokens_cons_of_blank rfl⟩

theorem delimits_blanks : Delimits blanks := by
  intro c hc
  have hblank := hblanks c (List.mem_of_mem_head? hc)
  exact ⟨isWord_of_isBlank hblank, classes.ne_mark_of_blank hblank (by decide)⟩

theorem Cuts.append_blanks {position : Nat} {cs : List Char} {ts : List Token}
    (h : Cuts position cs ts) :
    ∃ us, Cuts position (cs ++ blanks) us ∧ significantTokens us = significantTokens ts := by
  obtain ⟨vs, hvs, hnone⟩ := exists_cuts_blanks hblanks (position + byteLength cs)
  obtain ⟨us, hus, hsignificant⟩ := h.glue_of_delimits hvs (delimits_blanks hblanks)
  exact ⟨us, hus, by rw [hsignificant, hnone, List.append_nil]⟩

theorem phrase_blanks {quote : Char} (hquote : quote = '"' ∨ quote = '\'') :
    Phrase quote blanks := by
  induction blanks with
  | nil => exact .nil
  | cons c cs ih =>
      have hblank := hblanks c (.head _)
      exact .plain (classes.ne_mark_of_blank hblank (mem_marks_of_quote hquote))
        (classes.ne_mark_of_blank hblank (by decide)) (ih fun d hd => hblanks d (.tail _ hd))

theorem closing?_append_blanks {quote : Char} (hquote : quote = '"' ∨ quote = '\'')
    {cs : List Char} {passed : Nat} (h : closing? quote cs passed = none) :
    closing? quote (cs ++ blanks) passed = none := by
  have hback : quote ≠ '\\' := by rcases hquote with rfl | rfl <;> decide
  rcases (closing?_eq_none_iff hback).1 h with hphrase | ⟨body, hbody, rfl⟩
  · exact (closing?_eq_none_iff hback).2
      (.inl (hphrase.append (phrase_blanks hblanks hquote)))
  · cases blanks with
    | nil => rwa [List.append_nil]
    | cons c cs =>
        -- The first blank is escaped, and the others are plain.
        have hcs : Phrase quote cs :=
          phrase_blanks (fun d hd => hblanks d (.tail _ hd)) hquote
        have hall : Phrase quote (body ++ '\\' :: c :: cs) := hbody.append (.escaped hcs)
        refine (closing?_eq_none_iff hback).2 (.inl ?_)
        rwa [List.append_assoc, List.singleton_append]

theorem lexeme?_append_blanks {c : Char} {cs : List Char} (h : lexeme? (c :: cs) = none) :
    lexeme? (c :: (cs ++ blanks)) = none := by
  obtain ⟨hfirst, hclose⟩ := lexeme?_eq_none_iff.1 h
  exact lexeme?_eq_none_iff.2 ⟨hfirst, fun hquote =>
    closing?_append_blanks hblanks hquote (hclose hquote)⟩

variable {query other : String} (hother : other.toList = query.toList ++ blanks)

include hother

theorem ofQuery_error_append_blanks {e : LexError}
    (h : TokenStream.ofQuery query = .error e) :
    TokenStream.ofQuery other = .error e := by
  rw [TokenStream.ofQuery_eq_error_iff] at h ⊢
  obtain ⟨front, c, back, ts, hquery, hcuts, hlast, hnone, rfl⟩ := scanFrom_eq_error_iff.1 h
  have htext : other.toList = front ++ c :: (back ++ blanks) := by
    rw [hother, hquery, List.append_assoc, List.cons_append]
  rw [htext]
  exact scanFrom_of_stuck hcuts hlast (lexeme?_append_blanks hblanks hnone)

theorem ofQuery_append_blanks {s : TokenStream} (h : TokenStream.ofQuery query = .ok s) :
    ∃ c, TokenStream.ofQuery other = .ok c ∧ c.tokens = s.tokens ∧
      s.sourceLength = query.utf8ByteSize ∧ c.sourceLength = other.utf8ByteSize := by
  obtain ⟨ts, hcuts, rfl⟩ := TokenStream.ofQuery_eq_ok_iff.1 h
  obtain ⟨us, hus, hsignificant⟩ := hcuts.append_blanks hblanks
  rw [← hother] at hus
  exact ⟨_, hus.ofQuery_eq, hsignificant, rfl, rfl⟩

end Blanks

/-! ## Verdicts -/

/-- Whether errors are the same, or both are that a query ends where the same was wanted, the
one at `stop` and the other at `stop'`. -/
inductive QueryError.SameFault (stop stop' : Nat) : QueryError → QueryError → Prop where
  | same (e : QueryError) : SameFault stop stop' e e
  | atEnd (rule : GrammarRule) (expected : Expectation) :
      SameFault stop stop' (.syntactic ⟨rule, expected, none, .point stop⟩)
        (.syntactic ⟨rule, expected, none, .point stop'⟩)

/-- Whether two queries, which end at `stop` and `stop'`, have the same expression, or are
refused at the same stage, with the same message, for the same fault. -/
inductive SameVerdict (stop stop' : Nat) :
    Except QueryError Expr → Except QueryError Expr → Prop where
  | accepted (e : Expr) : SameVerdict stop stop' (.ok e) (.ok e)
  | refused {e e' : QueryError} : e.stage = e'.stage → e.message = e'.message →
      e.SameFault stop stop' e' → SameVerdict stop stop' (.error e) (.error e')

/-- No message says where a query ends. -/
theorem QueryError.SameFault.verdict {stop stop' : Nat} {e e' : QueryError}
    (h : e.SameFault stop stop' e') : SameVerdict stop stop' (.error e) (.error e') := by
  refine .refused ?_ ?_ h
  · cases h <;> rfl
  · cases h <;> rfl

theorem SameVerdict.refl (stop stop' : Nat) (result : Except QueryError Expr) :
    SameVerdict stop stop' result result := by
  cases result with
  | ok e => exact .accepted e
  | error e => exact (QueryError.SameFault.same e).verdict

theorem compile_of_tokens_eq {s c : TokenStream} (h : c.tokens = s.tokens) :
    SameVerdict s.sourceLength c.sourceLength (compile s) (compile c) := by
  cases htree : Tree.ofStream s with
  | ok tree =>
      obtain ⟨hfits, htokens⟩ := Tree.fits_of_ofStream htree
      have htree' : Tree.ofStream c = .ok tree :=
        Tree.ofStream_of_fits hfits (htokens.trans h.symm)
      rw [compile_of_tree htree, compile_of_tree htree']
      exact .refl _ _ _
  | error e =>
      obtain ⟨complaint, hcomplaint, rfl⟩ := Tree.ofStream_eq_error_iff.1 htree
      have htree' := (Tree.ofStream_eq_error_iff (s := c)).2 ⟨complaint, h ▸ hcomplaint, rfl⟩
      rw [compile_of_error htree, compile_of_error htree']
      refine QueryError.SameFault.verdict ?_
      simp only [Cursor.readAll_snd, Cursor.ofStream, h, Cursor.refuse]
      cases (Tree.Progress.start.run 0 s.tokens).rest with
      | nil => exact .atEnd complaint.rule complaint.expected
      | cons t rest => exact .same _

/-- Blanks behind a query change nothing but the place of its end. -/
theorem parse_append_blanks {query other : String} {blanks : List Char}
    (hblanks : ∀ c ∈ blanks, isBlank c = true)
    (hother : other.toList = query.toList ++ blanks) :
    SameVerdict query.utf8ByteSize other.utf8ByteSize (parse query) (parse other) := by
  cases hs : TokenStream.ofQuery query with
  | error e =>
      rw [parse, parse, hs, ofQuery_error_append_blanks hblanks hother hs]
      exact .refl _ _ _
  | ok s =>
      obtain ⟨c, hc, htokens, hlength, hlength'⟩ := ofQuery_append_blanks hblanks hother hs
      rw [parse_of_ofQuery hs, parse_of_ofQuery hc, ← hlength, ← hlength']
      exact compile_of_tokens_eq htokens

/-! ## Queries from standard input -/

namespace Command

theorem exists_dropLast (c : Char) (text : List Char) :
    ∃ dropped, text = dropLast c text ++ dropped ∧ ∀ d ∈ dropped, d = c := by
  rw [dropLast]
  split
  · rename_i hlast
    obtain ⟨front, rfl⟩ := List.getLast?_eq_some_iff.1 hlast
    exact ⟨[c], by simp, by simp⟩
  · exact ⟨[], by simp, by simp⟩

theorem exists_trimInput (input : String) :
    ∃ blanks, input.toList = (trimInput input).toList ++ blanks ∧
      ∀ c ∈ blanks, isBlank c = true := by
  obtain ⟨feed, hfeed, hfeeds⟩ := exists_dropLast '\n' input.toList
  obtain ⟨returned, hreturn, hreturns⟩ := exists_dropLast '\r' (dropLast '\n' input.toList)
  refine ⟨returned ++ feed, ?_, fun c hc => ?_⟩
  · rw [trimInput, String.toList_ofList, ← List.append_assoc, ← hreturn, ← hfeed]
  · rcases List.mem_append.1 hc with hc | hc
    · rw [hreturns c hc]
      exact classes.breaks _ (by decide)
    · rw [hfeeds c hc]
      exact classes.breaks _ (by decide)

theorem fromUTF8?_toUTF8 (s : String) : String.fromUTF8? s.toUTF8 = some s := by
  have hvalid : s.toUTF8.IsValidUTF8 := s.isValidUTF8
  rw [String.fromUTF8?, dif_pos hvalid]
  rfl

section Check

variable {stdin : StandardInput} {given : Option String} {query : String}
variable {pretty syntaxOnly : Bool}

theorem output_check_of_ok (hquery : readQuery stdin given = .ok query) {e : Expr}
    (h : parse query = .ok e) : (Request.check given pretty syntaxOnly).output stdin =
      .ok (line (if syntaxOnly then "Query is valid" else write pretty e.toJson)) := by
  have hcheck : check query syntaxOnly =
      .ok (if syntaxOnly then .valid else .tree e.toJson) := by
    rw [check, result_analyze, h]
  rw [Request.output, hquery]
  show (check query syntaxOnly >>= _) = _
  rw [hcheck]
  cases syntaxOnly <;> rfl

theorem output_check_of_error (hquery : readQuery stdin given = .ok query) {e : QueryError}
    (h : parse query = .error e) : (Request.check given pretty syntaxOnly).output stdin =
      .error (.unreadable query e) := by
  have hcheck : check query syntaxOnly = .error (.unreadable query e) := by
    rw [check, result_analyze, h]
  rw [Request.output, hquery]
  show (check query syntaxOnly >>= _) = _
  rw [hcheck]
  rfl

theorem outcome_of_output {request : Request} {text : String}
    (h : request.output stdin = .ok text) : request.outcome stdin = ⟨0, text, ""⟩ := by
  rw [Request.outcome, h]

theorem outcome_of_failure {request : Request} {failure : Failure}
    (h : request.output stdin = .error failure) :
    request.outcome stdin = ⟨1, "", line failure.message⟩ := by
  rw [Request.outcome, h]

end Check

/-- Whatever is drawn below a query is one line. -/
theorem exists_carets {query : String} {s : Span} {before rest : List Char}
    (h : split? s.start query.toList = some (before, rest)) :
    ∃ carets, '\n' ∉ carets.toList ∧
      caretAt? query s = some ("  " ++ query.map flatChar ++ "\n" ++ carets) := by
  simp only [caretAt?, h, Option.bind_eq_bind, Option.bind_some, Option.pure_def]
  exact ⟨_, by simp, rfl⟩

theorem message_of_caret {query : String} {e : QueryError} {lines : String}
    (h : caret? query e = some lines) : (Failure.unreadable query e).message =
      e.stage.title ++ " error: " ++ e.message ++ "\n" ++ lines := by
  rw [Failure.message.eq_def]
  dsimp only
  rw [h]

/-- A query that cannot be read is shown on one line between the message and a line with
carets. -/
theorem exists_message {query : String} {e : QueryError} (h : parse query = .error e) :
    ∃ carets, '\n' ∉ carets.toList ∧ (Failure.unreadable query e).message =
      e.stage.title ++ " error: " ++ e.message ++ "\n" ++
        ("  " ++ query.map flatChar ++ "\n" ++ carets) := by
  have hplace : ∃ before rest, split? e.span.start query.toList = some (before, rest) := by
    rcases QueryError.exists_slice h with ⟨-, hspan⟩ | ⟨-, part, -, hslice⟩
    · refine ⟨query.toList, [], split?_eq_some_iff.2 ⟨List.append_nil _, ?_⟩⟩
      rw [hspan, byteLength_toList]
      rfl
    · obtain ⟨before, after, htext, hspan⟩ := Span.slice?_eq_some_iff.1 hslice
      refine ⟨before, part ++ after, split?_eq_some_iff.2 ⟨?_, by rw [hspan]⟩⟩
      rw [htext, List.append_assoc]
  obtain ⟨before, rest, hsplit⟩ := hplace
  obtain ⟨carets, hline, hcarets⟩ := exists_carets hsplit
  exact ⟨carets, hline, message_of_caret hcarets⟩

/-- Whether a check of a query and a check of another one end alike. If the queries can be
read, both print the same and nothing else. If not, both fail and print the same message,
down to the line that shows the query, which then is followed by one line with carets. -/
inductive SameReport (pretty syntaxOnly : Bool) (query other : String) (o o' : Outcome) :
    Prop
  | accepted (e : Expr) : parse query = .ok e → parse other = .ok e →
      o = ⟨0, line (if syntaxOnly then "Query is valid" else write pretty e.toJson), ""⟩ →
      o' = o → SameReport pretty syntaxOnly query other o o'
  | refused (e e' : QueryError) (above carets carets' : String) :
      parse query = .error e → parse other = .error e' →
      above = e.stage.title ++ " error: " ++ e.message →
      above = e'.stage.title ++ " error: " ++ e'.message →
      '\n' ∉ carets.toList → '\n' ∉ carets'.toList →
      o = ⟨1, "", line (above ++ "\n" ++ ("  " ++ query.map flatChar ++ "\n" ++ carets))⟩ →
      o' = ⟨1, "", line (above ++ "\n" ++ ("  " ++ other.map flatChar ++ "\n" ++ carets'))⟩ →
      SameReport pretty syntaxOnly query other o o'

/-- Queries of the same verdict are reported on alike. -/
theorem sameReport_of_verdict {query other : String} {stop stop' : Nat}
    (h : SameVerdict stop stop' (parse query) (parse other)) (pretty syntaxOnly : Bool)
    {stdin stdin' : StandardInput} {given given' : Option String}
    (hquery : readQuery stdin given = .ok query)
    (hother : readQuery stdin' given' = .ok other) :
    SameReport pretty syntaxOnly query other
      ((Request.check given pretty syntaxOnly).outcome stdin)
      ((Request.check given' pretty syntaxOnly).outcome stdin') := by
  generalize hresult : parse query = result at h
  generalize hresult' : parse other = result' at h
  cases h with
  | accepted e =>
      have houtcome : (Request.check given pretty syntaxOnly).outcome stdin = _ :=
        outcome_of_output (output_check_of_ok hquery hresult)
      refine .accepted e hresult hresult' houtcome ?_
      rw [houtcome, outcome_of_output (output_check_of_ok hother hresult')]
  | @refused e e' hstage hmessage _ =>
      obtain ⟨carets, hline, hshown⟩ := exists_message hresult
      obtain ⟨carets', hline', hshown'⟩ := exists_message hresult'
      refine .refused e e' _ carets carets' hresult hresult' rfl ?_ hline hline' ?_ ?_
      · rw [hstage, hmessage]
      · rw [outcome_of_failure (output_check_of_error hquery hresult), hshown]
      · rw [outcome_of_failure (output_check_of_error hother hresult'), hshown', hstage,
          hmessage]

/-- A query is read in the same way whether it comes from standard input, without its line
break, or as it is; and a check of it reports the same, whether it is piped or given. -/
theorem trimInput_verdict (input : String) :
    SameVerdict (trimInput input).utf8ByteSize input.utf8ByteSize (parse (trimInput input))
        (parse input) ∧
      ∀ (pretty syntaxOnly : Bool) (stdin : StandardInput),
        SameReport pretty syntaxOnly (trimInput input) input
          ((Request.check none pretty syntaxOnly).outcome (.piped input.toUTF8))
          ((Request.check (some input) pretty syntaxOnly).outcome stdin) := by
  obtain ⟨blanks, htext, hblanks⟩ := exists_trimInput input
  have hverdict := parse_append_blanks hblanks htext
  refine ⟨hverdict, fun pretty syntaxOnly stdin => ?_⟩
  have hread : readQuery (.piped input.toUTF8) none = .ok (trimInput input) := by
    simp only [readQuery, fromUTF8?_toUTF8]
  exact sameReport_of_verdict hverdict pretty syntaxOnly hread rfl

/-- A query that ends too early, two bytes further on with its line break than without. -/
theorem trimInput_verdict_unfinished :
    let input := "NOT (é OR\r\n"
    let unfinished (stop : Nat) : QueryError :=
      .syntactic ⟨.primary, .operand, none, .point stop⟩
    let above := "Syntax error: Expected a term, quoted phrase, KEY=, NOT or '(' " ++
      "in primary, got end of input"
    (parse (trimInput input) = .error (unfinished 10) ∧
      parse input = .error (unfinished 12)) ∧
      ∃ carets carets', '\n' ∉ carets.toList ∧ '\n' ∉ carets'.toList ∧
        (Request.check none true false).outcome (.piped input.toUTF8) =
          ⟨1, "", line (above ++ "\n" ++ ("  " ++ "NOT (é OR" ++ "\n" ++ carets))⟩ ∧
        (Request.check (some input) true false).outcome .terminal =
          ⟨1, "", line (above ++ "\n" ++ ("  " ++ "NOT (é OR  " ++ "\n" ++ carets'))⟩ := by
  intro input unfinished above
  have htrimmed : parse (trimInput input) = .error (unfinished 10) :=
    eq_error_of_match (by decide +kernel)
  have hinput : parse input = .error (unfinished 12) := eq_error_of_match (by decide +kernel)
  refine ⟨⟨htrimmed, hinput⟩, ?_⟩
  have hshown : (trimInput input).map flatChar = "NOT (é OR" := by decide +kernel
  have hshown' : input.map flatChar = "NOT (é OR  " := by decide +kernel
  cases (trimInput_verdict input).2 true false .terminal with
  | accepted e hok => cases htrimmed.symm.trans hok
  | refused e e' above' carets carets' he _ habove _ hline hline' hpiped hgiven =>
      obtain rfl : unfinished 10 = e := Except.error.inj (htrimmed.symm.trans he)
      obtain rfl : above' = above := habove.trans (by decide +kernel)
      rw [hshown] at hpiped
      rw [hshown'] at hgiven
      exact ⟨carets, carets', hline, hline', hpiped, hgiven⟩

end Command

end BoolQuery
