import Scriptlet.Proofs.Grammar.Continuation

/-! Where texts go wrong that are no programs. Main statement: what is reported is the first point
at which a text cannot be continued, be it a token, a character or its end, and nothing of the kind
is reported of a text that the grammar derives. -/

namespace Scriptlet

open Lexeme

namespace Program

/-- The grammar derives the text. -/
def Derivable (source : String) : Prop :=
  (Scan.ofText source.toList).rest = [] ∧
    ∃ d : Derivation .statements, d.tokens = (Scan.ofText source.toList).tokens

/-- The first point at which a text goes wrong, with what is to be said about it. At a token, the
tokens before it can be continued but not together with it. At a character that starts no lexeme,
the tokens before it can be continued. And where the text ends although it can be continued, the
point is its last token. -/
inductive Stuck (source : String) : String → Position → Prop where
  | token {xs ys : List Lexeme} {l : Lexeme} {s : Symbol}
      (hscan : (Scan.ofText source.toList).lexemes = xs ++ l :: ys) (hl : l.symbol = some s)
      (hbefore : Continues (tokensOf xs)) (hnot : ¬ Continues (tokensOf (xs ++ [l]))) :
      Stuck source ("Unexpected token " ++ Text.quoted (String.ofList l.text))
        (.behind (textOf xs))
  | character {before rest : List Char} {c : Char}
      (htext : source.toList = before ++ c :: rest)
      (hrest : (Scan.ofText source.toList).rest = c :: rest)
      (hbefore : Continues (Scan.ofText source.toList).tokens) :
      Stuck source ("Unexpected character " ++ Text.quoted c.toString) (.behind before)
  | ending {xs ys : List Lexeme} {l : Lexeme} {s : Symbol}
      (hscan : (Scan.ofText source.toList).lexemes = xs ++ l :: ys) (hl : l.symbol = some s)
      (hlast : ∀ y ∈ ys, y.symbol = none) (hrest : (Scan.ofText source.toList).rest = [])
      (hwhole : Continues (Scan.ofText source.toList).tokens) (hnot : ¬ Derivable source) :
      Stuck source "Unexpected end of input" (.behind (textOf xs))

/-- An error in the text is reported at a position. -/
def Reports (source : String) (message : String) (p : Position) : Prop :=
  ∃ e : Error, parse source = .error (.error e) ∧ e.kind = .malformed ∧
    e.cause.message = message ∧ e.place = some (.ofPosition p)

variable {source message : String} {p : Position}

theorem reports_of_read {what : Malformed}
    (h : read (Scan.ofText source.toList) = malformed what p) : Reports source what.message p := by
  refine ⟨.ofMalformed what (.ofPosition p), ?_, rfl, rfl, rfl⟩
  rw [parse, h]
  rfl

theorem Reports.unique {message' : String} {p' : Position} (h : Reports source message p)
    (h' : Reports source message' p') : message = message' ∧ p = p' := by
  obtain ⟨e, he, -, rfl, hplace⟩ := h
  obtain ⟨e', he', -, rfl, hplace'⟩ := h'
  obtain rfl : e = e' := by
    rw [he] at he'
    simpa using he'
  rw [hplace] at hplace'
  refine ⟨rfl, ?_⟩
  obtain ⟨line, column⟩ := p
  obtain ⟨line', column'⟩ := p'
  simpa [Place.ofPosition] using hplace'

theorem read_of_readAll_error {scan : Scan} {t : Token}
    (h : Reading.start.readAll scan.tokens = .error t) :
    read scan = malformed (.unexpectedToken t.symbol.text) t.position := by
  rw [read, h]

theorem read_of_rest {scan : Scan} {c : Char} {rest : List Char} (hrest : scan.rest = c :: rest)
    (h : Continues scan.tokens) : read scan = malformed (.unexpectedCharacter c) scan.stop := by
  obtain ⟨r, hr⟩ := continues_iff.mp h
  simp only [read, hr, hrest]

theorem read_of_unfinished {scan : Scan} {t : Token} (hrest : scan.rest = [])
    (h : Continues scan.tokens) (hlast : scan.tokens.getLast? = some t)
    (hnot : ¬ ∃ d : Derivation .statements, d.tokens = scan.tokens) :
    read scan = malformed .unexpectedEnd t.position := by
  obtain ⟨r, hr⟩ := continues_iff.mp h
  have hfinish : r.finish? = none := by
    cases hdone : r.finish? with
    | none => rfl
    | some done =>
      have hrun : Reading.start.run? scan.tokens = some done :=
        Reading.run?_eq_some_iff.mpr ⟨r, hr, hdone⟩
      obtain ⟨d, hd, -⟩ := Reading.run?_start_iff.mp hrun
      exact absurd ⟨d, hd⟩ hnot
  simp [read, hr, hrest, hfinish, hlast]

/-- The point at which a text goes wrong is the one that is reported. -/
theorem Stuck.reports (h : Stuck source message p) : Reports source message p := by
  cases h with
  | @token xs ys l s hscan hl hbefore hnot =>
    have htext : String.ofList l.text = s.text := by
      rw [(Scan.symbol_of_lexemes hscan hl).2.1, String.ofList_toList]
    have hpos := Scan.position_of_lexemes hscan
    have htokens : (Scan.ofText source.toList).tokens =
        tokensOf xs ++ ⟨s, l.position⟩ :: tokensOf ys := by
      rw [Scan.tokens_eq, hscan, tokensOf_append, tokensOf_cons, token?, hl]
      rfl
    rw [tokensOf_append, tokensOf_singleton_of_symbol hl] at hnot
    have herror := readAll_eq_error_iff.mpr ⟨_, _, htokens, hbefore, hnot⟩
    rw [← hpos, htext]
    exact reports_of_read (read_of_readAll_error herror)
  | @character before rest c htext hrest hbefore =>
    have hlexemes : textOf (Scan.ofText source.toList).lexemes = before := by
      have hsource := Scan.text_run .start source.toList
      rw [← Scan.ofText, hrest] at hsource
      exact List.append_cancel_right (hsource.trans htext)
    rw [← hlexemes, ← Scan.stop_ofText]
    exact reports_of_read (read_of_rest hrest hbefore)
  | @ending xs ys l s hscan hl hlast hrest hwhole hnot =>
    have hpos := Scan.position_of_lexemes hscan
    have hend : (Scan.ofText source.toList).tokens.getLast? = some ⟨s, l.position⟩ := by
      rw [Scan.tokens_eq, hscan, ← List.singleton_append, tokensOf_append, tokensOf_append,
        tokensOf_singleton_of_symbol hl, tokensOf_eq_nil hlast]
      simp
    rw [← hpos]
    exact reports_of_read (read_of_unfinished hrest hwhole hend fun hd => hnot ⟨hrest, hd⟩)

/-- A text that the grammar does not derive goes wrong somewhere. -/
theorem exists_stuck (h : ¬ Derivable source) : ∃ message p, Stuck source message p := by
  cases hread : Reading.start.readAll (Scan.ofText source.toList).tokens with
  | error t =>
    obtain ⟨before, after, htokens, hbefore, hnot⟩ := readAll_eq_error_iff.mp hread
    obtain ⟨xs, l, ys, hscan, hl, hpos, rfl, -⟩ := exists_of_tokensOf_eq htokens
    refine ⟨_, _, .token hscan hl hbefore ?_⟩
    rwa [tokensOf_append, tokensOf_singleton_of_symbol hl, hpos]
  | ok r =>
    have hwhole : Continues (Scan.ofText source.toList).tokens := continues_iff.mpr ⟨r, hread⟩
    cases hrest : (Scan.ofText source.toList).rest with
    | cons c rest =>
      have hsource := Scan.text_run .start source.toList
      rw [← Scan.ofText, hrest] at hsource
      exact ⟨_, _, .character hsource.symm hrest hwhole⟩
    | nil =>
      cases htokens : (Scan.ofText source.toList).tokens.getLast? with
      | none =>
        -- no token at all is a program
        rw [List.getLast?_eq_none_iff] at htokens
        exact absurd ⟨hrest, .statements [] .noRow, htokens.symm⟩ h
      | some t =>
        obtain ⟨before, hbefore⟩ := List.getLast?_eq_some_iff.mp htokens
        obtain ⟨xs, l, ys, hscan, hl, -, -, hys⟩ := exists_of_tokensOf_eq hbefore
        refine ⟨_, _, .ending hscan hl ?_ hrest hwhole h⟩
        intro y hy
        simpa [token?] using List.filterMap_eq_nil_iff.mp hys y hy

theorem continues_of_derivation {text : List Char} {ts us : List Token}
    (hts : (Scan.ofText text).tokens = ts ++ us) {d : Derivation .statements}
    (hd : d.tokens = (Scan.ofText text).tokens) : Continues ts := by
  refine ⟨us, fun t ht => ?_, d, hd.trans hts⟩
  exact Scan.proper_of_mem_tokens (hts ▸ List.mem_append_right ts ht)

/-- Nothing goes wrong in a text that the grammar derives. -/
theorem Derivable.not_stuck (h : Derivable source) : ¬ Stuck source message p := by
  obtain ⟨hnil, d, hd⟩ := h
  intro hstuck
  cases hstuck with
  | @token xs ys l s hscan hl hbefore hnot =>
    have htokens : (Scan.ofText source.toList).tokens = tokensOf (xs ++ [l]) ++ tokensOf ys := by
      rw [Scan.tokens_eq, hscan, ← tokensOf_append, List.append_assoc, List.singleton_append]
    exact hnot (continues_of_derivation htokens hd)
  | character htext hrest hbefore => simp [hnil] at hrest
  | ending hscan hl hlast hrest hwhole hnot => exact hnot ⟨hnil, d, hd⟩

theorem firstRepeated_eq_some_iff {seen names : List String} {name : String} :
    firstRepeated seen names = some name ↔
      ∃ before after, names = before ++ name :: after ∧ before.Nodup ∧
        (∀ x ∈ before, x ∉ seen) ∧ (name ∈ before ∨ name ∈ seen) := by
  induction names generalizing seen with
  | nil => simp [firstRepeated]
  | cons first rest ih =>
    rw [firstRepeated]
    by_cases hseen : first ∈ seen
    · simp only [List.contains_eq_mem, hseen, decide_true, if_true, Option.some.injEq]
      constructor
      · rintro rfl
        exact ⟨[], rest, rfl, List.nodup_nil, by simp, .inr hseen⟩
      · rintro ⟨before, after, hnames, -, hnew, -⟩
        cases before with
        | nil => exact (List.cons.inj hnames).1
        | cons x before =>
          obtain ⟨rfl, -⟩ := List.cons.inj hnames
          exact absurd hseen (hnew _ List.mem_cons_self)
    · simp only [List.contains_eq_mem, hseen, decide_false, Bool.false_eq_true, if_false, ih]
      constructor
      · rintro ⟨before, after, rfl, hnodup, hnew, hname⟩
        exact ⟨first :: before, after, rfl, by grind, by grind, by grind⟩
      · rintro ⟨before, after, hnames, hnodup, hnew, hname⟩
        cases before with
        | nil =>
          obtain ⟨rfl, -⟩ := List.cons.inj hnames
          simp [hseen] at hname
        | cons x before =>
          obtain ⟨rfl, rfl⟩ := List.cons.inj hnames
          exact ⟨before, after, rfl, by grind, by grind, by grind⟩

theorem mem_of_mem_parameters {ts : List Token} {param : String × Position}
    (h : param ∈ parameters ts) : ⟨.name param.1, param.2⟩ ∈ ts := by
  obtain ⟨t, ht, hparam⟩ := List.mem_filterMap.mp h
  have hmem : t ∈ ts := (List.dropWhile_sublist _).mem ((List.takeWhile_sublist _).mem ht)
  split at hparam <;> cases hparam
  case h_1 hsymbol => rwa [← hsymbol]

theorem parameterFault?_eq_error {ts : List Token} {e : Error}
    (h : parameterFault? (parameters ts) = some (.error e)) :
    ∃ name, e.cause = .malformed (.duplicateParameter name) ∧
      .name name ∈ ts.map Token.symbol := by
  unfold parameterFault? at h
  split at h <;> cases h
  case h_1 name _ hrepeated =>
    obtain ⟨before, after, hnames, -⟩ := firstRepeated_eq_some_iff.mp hrepeated
    have hname : name ∈ (parameters ts).map Prod.fst := by simp [hnames]
    obtain ⟨param, hparam, rfl⟩ := List.mem_map.mp hname
    exact ⟨_, rfl, List.mem_map.mpr ⟨_, mem_of_mem_parameters hparam, rfl⟩⟩

/-- A text that is read to its end can only have parameters that repeat. -/
theorem firstFault?_eq_error {ts : List Token} {e : Error}
    (h : firstFault? ts = some (.error e)) :
    ∃ name, e.cause = .malformed (.duplicateParameter name) ∧
      .name name ∈ ts.map Token.symbol := by
  induction ts with
  | nil => cases h
  | cons t ts ih =>
    rw [firstFault?] at h
    have hbehind : ∃ name, e.cause = .malformed (.duplicateParameter name) ∧
        .name name ∈ ts.map Token.symbol := by
      rcases Option.or_eq_some_iff.mp h with hfault | ⟨-, hrest⟩
      · split at hfault
        · split at hfault <;> cases hfault
        · exact parameterFault?_eq_error hfault
        · cases hfault
      · exact ih hrest
    obtain ⟨name, hcause, hmem⟩ := hbehind
    exact ⟨name, hcause, List.mem_cons_of_mem _ hmem⟩

theorem Derivable.firstFault?_of_parse {fault : Fault} (h : Derivable source)
    (hparse : parse source = .error fault) :
    firstFault? (Scan.ofText source.toList).tokens = some fault := by
  obtain ⟨hrest, d, hd⟩ := h
  have hread := read_eq_ok_iff.mpr ⟨hrest, d, hd, rfl⟩
  cases hfault : firstFault? (Scan.ofText source.toList).tokens with
  | none =>
    rw [parse_eq_ok_iff.mpr ⟨hread, hfault⟩] at hparse
    cases hparse
  | some fault =>
    simp only [parse, hread, hfault, bind, Except.bind, Except.error.injEq] at hparse
    rw [hparse]

theorem Derivable.cause_of_parse {e : Error} (h : Derivable source)
    (hparse : parse source = .error (.error e)) :
    ∃ name, e.cause = .malformed (.duplicateParameter name) := by
  obtain ⟨name, hcause, -⟩ := firstFault?_eq_error (h.firstFault?_of_parse hparse)
  exact ⟨name, hcause⟩

/-- A text that the grammar does not derive is reported at the one point where it goes wrong, and no
other text is. -/
theorem reports_where_stuck (source : String) :
    (¬ Derivable source → ∃! report : String × Position, Stuck source report.1 report.2) ∧
    (∀ message p, Stuck source message p → Reports source message p) ∧
    (Derivable source → (∀ message p, ¬ Stuck source message p) ∧
      ∀ e, parse source = .error (.error e) →
        ∃ name, e.cause = .malformed (.duplicateParameter name)) := by
  refine ⟨fun h => ?_, fun _ _ h => h.reports,
    fun h => ⟨fun _ _ => h.not_stuck, fun _ => h.cause_of_parse⟩⟩
  obtain ⟨message, p, hstuck⟩ := exists_stuck h
  refine ⟨(message, p), hstuck, fun report hreport => ?_⟩
  obtain ⟨hmessage, hp⟩ := hreport.reports.unique hstuck.reports
  exact Prod.ext hmessage hp

/-- In `f(1 2)` the bracket may be closed behind the first number, or go on behind a comma. -/
theorem second_number_reported :
    Stuck "f(1 2)" ("Unexpected token " ++ Text.quoted "2") ⟨1, 5⟩ ∧
      Reports "f(1 2)" ("Unexpected token " ++ Text.quoted "2") ⟨1, 5⟩ := by
  let before : List Lexeme := [⟨some (.name "f"), ['f'], ⟨1, 1⟩⟩,
    ⟨some .openParen, ['('], ⟨1, 2⟩⟩, ⟨some (.number "1"), ['1'], ⟨1, 3⟩⟩, ⟨none, [' '], ⟨1, 4⟩⟩]
  let second : Lexeme := ⟨some (.number "2"), ['2'], ⟨1, 5⟩⟩
  have hscan : (Scan.ofText "f(1 2)".toList).lexemes =
      before ++ second :: [⟨some .closeParen, [')'], ⟨1, 6⟩⟩] := by
    with_unfolding_all rfl
  have hnot : ¬ Continues (tokensOf (before ++ [second])) := by
    rw [continues_iff]
    rintro ⟨r, hr⟩
    cases hr
  have htext : String.ofList second.text = "2" := by decide +kernel
  have hstuck := Stuck.token hscan rfl (continues_iff.mpr ⟨_, rfl⟩) hnot
  rw [htext] at hstuck
  exact ⟨hstuck, (reports_where_stuck "f(1 2)").2.1 _ _ hstuck⟩

end Program

end Scriptlet
