import Scriptlet.Proofs.Concatenation.Parse
import Scriptlet.Proofs.Positions.Erasure
import Scriptlet.Proofs.Surface.Trees

/-! Writing programs. An expression is written as the symbols of a text, with brackets around
operands that have an operator themselves, and all symbols apart. Main statement: what can be
written is read back as it was up to positions, and nothing else is ever read. -/

namespace Scriptlet

/-! ### The printer -/

def Value.symbol : Value → Symbol
  | .number n => .number n.natAbs.repr
  | .bool true => .keyword .trueWord
  | .bool false => .keyword .falseWord
  | .null | .closure _ => .keyword .null

def Parameters.symbols : List String → List Symbol
  | [] => []
  | first :: others => .name first :: others.flatMap fun name => [.comma, .name name]

namespace Expr

/-- The symbols of an operand. -/
def bracketed : Expr → List Symbol → List Symbol
  | .binary .., ss => .openParen :: ss ++ [.closeParen]
  | _, ss => ss

mutual

/-- The symbols that an expression is written with. As an expression, the declaration of a function
has its name behind the `function`. -/
def symbols : Form → Expr → List Symbol
  | _, .const _ v => [v.symbol]
  | _, .var _ x => [.name x]
  | _, .print _ a => .keyword .print :: .openParen :: a.symbols .expr ++ [.closeParen]
  | _, .binary _ op a b =>
    a.bracketed (a.symbols .expr) ++ .operator op :: b.bracketed (b.symbols .expr)
  | _, .cond _ a b c =>
    .keyword .ifWord :: .openParen :: a.symbols .expr ++
      .closeParen :: .openBrace :: b.symbols .block ++
      .closeBrace :: .keyword .elseWord :: .openBrace :: c.symbols .block ++ [.closeBrace]
  | _, .loop _ a b =>
    .keyword .whileWord :: .openParen :: a.symbols .expr ++
      .closeParen :: .openBrace :: b.symbols .block ++ [.closeBrace]
  | _, .seq _ a b => a.symbols .statement ++ .separator :: b.symbols .block
  | .expr, .declare _ x a =>
    .keyword .function :: .name x :: (a.symbols .expr).tail
  | _, .declare _ x a => .keyword .var :: .name x :: .assign :: a.symbols .expr
  | _, .assign _ x a => .name x :: .assign :: a.symbols .expr
  | _, .func _ xs a =>
    .keyword .function :: .openParen :: Parameters.symbols xs ++
      .closeParen :: .openBrace :: a.symbols .block ++ [.closeBrace]
  | _, .call _ a as =>
    a.bracketed (a.symbols .expr) ++ .openParen :: argumentSymbols as ++ [.closeParen]
  | _, .foreign _ => []

def argumentSymbols : List Expr → List Symbol
  | [] => []
  | [e] => e.symbols .expr
  | e :: e' :: es => e.symbols .expr ++ .comma :: argumentSymbols (e' :: es)

end

/-- The text of a program, with a blank behind each symbol. -/
def write (e : Expr) : String :=
  String.ofList ((e.symbols .block).flatMap fun s => s.text.toList ++ [' '])

end Expr

/-! ### What is written is derived -/

open Scriptlet.Expr

/-- An operator between operands of calls binds as loosely as it may. -/
theorem Derivation.exists_binary (left right : Derivation .call) (op : Operator) :
    ∃ d : Derivation .expr, d.tokens = left.tokens ++ ⟨.operator op, .start⟩ :: right.tokens ∧
      d.checks = left.checks ++ right.checks ∧
      d.meaning = binary left.meaning op right.meaning := by
  cases hop : op.level with
  | comparison =>
    exact ⟨.comparison (.ofProduct (.ofUnary (.ofCall left))) op hop .start
      (.ofProduct (.ofUnary (.ofCall right))), rfl, rfl, rfl⟩
  | sum =>
    exact ⟨.ofSum (.addition (.ofProduct (.ofUnary (.ofCall left))) op hop .start
      (.ofUnary (.ofCall right))), rfl, rfl, rfl⟩
  | product =>
    exact ⟨.ofSum (.ofProduct (.multiplication (.ofUnary (.ofCall left)) op hop .start
      (.ofCall right))), rfl, rfl, rfl⟩

namespace Parameters

/-- A list of parameters, if there are any. -/
def ofNames? : List String → Option Parameters
  | [] => none
  | first :: others => some ⟨(first, .start), others.map fun name => (.start, name, .start)⟩

theorem tokens_ofNames? (names : List String) :
    (((ofNames? names).map tokens).getD []).map Token.symbol = symbols names := by
  cases names with
  | nil => rfl
  | cons first others =>
    simp [ofNames?, tokens, symbols, nameToken, List.map_flatMap, List.flatMap_map]

theorem names_ofNames? (params : List String) :
    ((ofNames? params).map names).getD [] = params := by
  cases params with
  | nil => rfl
  | cons first others => simp [ofNames?, names, named, Function.comp_def]

theorem ok_ofNames? {params : List String} (h : params.Nodup) :
    ∀ check ∈ (ofNames? params).map Check.parameters, check.Ok := by
  rw [← names_ofNames? params] at h
  cases hps : ofNames? params with
  | none => simp
  | some ps => simpa [Check.Ok, hps] using h

theorem isProper_symbols {names : List String} (h : ∀ name ∈ names, Symbol.isName name = true) :
    ∀ s ∈ symbols names, s.isProper = true := by
  cases names with
  | nil => simp [symbols]
  | cons first others => simp_all [symbols, or_imp, forall_and, Symbol.isProper]

end Parameters

namespace Number

theorem isNumeral_repr (n : Nat) : Symbol.isNumeral n.repr = true := by
  have hdigits : ∀ c ∈ Nat.toDigits 10 n, c.isDigit = true := fun c hc =>
    Nat.isDigit_of_mem_toDigits (by decide) (by decide) hc
  simpa [Symbol.isNumeral, Nat.toDigits_ne_nil] using hdigits

theorem length_repr_le {n : Nat} (h : n < bound) : n.repr.length ≤ digitLimit := by
  rw [← String.length_toList, Nat.toList_repr]
  exact length_toDigits_le_iff.mpr h

end Number

/-- The symbols can be written, and are derived as what stands for the expressions up to
positions. -/
def Writes (c : Nonterminal) (ss : List Symbol) (es : List Expr) : Prop :=
  (∀ s ∈ ss, s.isProper = true) ∧ ∃ d : Derivation c, d.symbols = ss ∧
    (∀ check ∈ d.checks, check.Ok) ∧ (c.exprs d.meaning).map erase = es.map erase

namespace Writes

variable {ss ss' ss'' : List Symbol} {a b c : Expr} {es : List Expr} (pos : Option Position)

theorem number {n : Nat} (h : n < Number.bound) :
    Writes .atom [.number n.repr] [.const pos (.number n)] := by
  refine ⟨?_, .number n.repr .start, rfl, ?_, ?_⟩
  · simpa [Symbol.isProper] using Number.isNumeral_repr n
  · simpa [Check.Ok] using Number.length_repr_le h
  · simp [erase, Number.ofDigits_toDigits]

theorem bool (b : Bool) : Writes .atom [Value.symbol (.bool b)] [.const pos (.bool b)] := by
  cases b with
  | true => exact ⟨by decide, .trueWord .start, rfl, by simp, by simp [erase]⟩
  | false => exact ⟨by decide, .falseWord .start, rfl, by simp, by simp [erase]⟩

theorem null : Writes .atom [.keyword .null] [.const pos .null] :=
  ⟨by decide, .null .start, rfl, by simp, by simp [erase]⟩

theorem var {name : String} (hname : Symbol.isName name = true) :
    Writes .atom [.name name] [.var pos name] :=
  ⟨by simpa [Symbol.isProper] using hname, .var name .start, rfl, by simp, by simp [erase]⟩

theorem operand (h : Writes .atom ss [a]) : Writes .call ss [a] := by
  obtain ⟨hss, d, rfl, hd, he⟩ := h
  exact ⟨hss, .ofAtom d, rfl, hd, he⟩

theorem expr (h : Writes .call ss [a]) : Writes .expr ss [a] := by
  obtain ⟨hss, d, rfl, hd, he⟩ := h
  exact ⟨hss, .ofSum (.ofProduct (.ofUnary (.ofCall d))), rfl, hd, he⟩

theorem statement (h : Writes .expr ss [a]) : Writes .statement ss [a] := by
  obtain ⟨hss, d, rfl, hd, he⟩ := h
  exact ⟨hss, .bare d, rfl, hd, he⟩

theorem bracket (h : Writes .expr ss [a]) :
    Writes .atom (.openParen :: ss ++ [.closeParen]) [a] := by
  obtain ⟨hss, d, rfl, hd, he⟩ := h
  refine ⟨?_, .bracket .start d .start, by simp [Derivation.symbols], hd, he⟩
  simpa [or_imp, forall_and, Symbol.isProper] using hss

theorem print (h : Writes .expr ss [a]) :
    Writes .atom (.keyword .print :: .openParen :: ss ++ [.closeParen]) [.print pos a] := by
  obtain ⟨hss, d, rfl, hd, he⟩ := h
  refine ⟨?_, .print .start .start d .start, by simp [Derivation.symbols], hd, ?_⟩
  · simpa [or_imp, forall_and, Symbol.isProper] using hss
  · simpa [erase] using he

theorem binary (op : Operator) (ha : Writes .call ss [a]) (hb : Writes .call ss' [b]) :
    Writes .expr (ss ++ .operator op :: ss') [.binary pos op a b] := by
  obtain ⟨hss, left, rfl, hl, he⟩ := ha
  obtain ⟨hss', right, rfl, hr, he'⟩ := hb
  obtain ⟨d, htokens, hchecks, hmeaning⟩ := left.exists_binary right op
  refine ⟨?_, d, by simp [Derivation.symbols, htokens], ?_, ?_⟩
  · simpa [or_imp, forall_and, Symbol.isProper] using And.intro hss hss'
  · rw [hchecks]
    exact List.forall_mem_append.mpr ⟨hl, hr⟩
  · simp_all [erase, Derivation.binary]

theorem declare {name : String} (hname : Symbol.isName name = true) (h : Writes .expr ss [a]) :
    Writes .statement (.keyword .var :: .name name :: .assign :: ss) [.declare pos name a] := by
  obtain ⟨hss, d, rfl, hd, he⟩ := h
  refine ⟨?_, .declaration .start name .start .start d, by simp [Derivation.symbols], hd, ?_⟩
  · simpa [Symbol.isProper, hname] using hss
  · simpa [erase] using he

theorem assign {name : String} (hname : Symbol.isName name = true) (h : Writes .expr ss [a]) :
    Writes .statement (.name name :: .assign :: ss) [.assign pos name a] := by
  obtain ⟨hss, d, rfl, hd, he⟩ := h
  refine ⟨?_, .assignment name .start .start d, by simp [Derivation.symbols], hd, ?_⟩
  · simpa [Symbol.isProper, hname] using hss
  · simpa [erase] using he

/-! #### Rows of statements -/

theorem last (h : Writes .statement ss [a]) : Writes .statements ss [a] := by
  obtain ⟨hss, d, rfl, hd, he⟩ := h
  refine ⟨hss, .statementsAnd [] .noRow d, ?_, by simpa using hd, by simpa using he⟩
  simp [Derivation.symbols, Derivation.separatorTokens]

theorem row (h : Writes .statement ss [a]) (h' : Writes .statements ss' es) :
    Writes .statements (ss ++ .separator :: ss') (a :: es) := by
  obtain ⟨hss, d, rfl, hd, he⟩ := h.last
  obtain ⟨hss', d', rfl, hd', he'⟩ := h'
  obtain ⟨d'', htokens, hmeaning⟩ := d.derives_joined d' .start
  refine ⟨?_, d'', by simp [Derivation.symbols, htokens], ?_, ?_⟩
  · simpa [or_imp, forall_and, Symbol.isProper] using And.intro hss hss'
  · rw [← d''.firstFault?_eq_none_iff, htokens]
    exact Derivation.firstFault?_joined hd hd' .start
  · rw [Nonterminal.exprs, hmeaning, List.map_append]
    exact congrArg₂ (· ++ ·) he he'

/-- Statements in braces. -/
theorem block {first : Expr} {rest : List Expr} (h : Writes .statements ss (first :: rest))
    (he : (sequence first rest).erase = a.erase) :
    Writes .block (.openBrace :: ss ++ [.closeBrace]) [a] := by
  obtain ⟨hss, d, rfl, hd, hes⟩ := h
  refine ⟨?_, .block .start d .start, by simp [Derivation.symbols], hd, ?_⟩
  · simpa [or_imp, forall_and, Symbol.isProper] using hss
  · have herase : ((sequence? d.meaning).getD (.const (some .start) .null)).erase = a.erase := by
      rw [Nonterminal.exprs] at hes
      rw [erase_sequence?, hes, ← erase_sequence? _ none]
      exact he
    exact congrArg (fun e => [e]) herase

theorem cond (ha : Writes .expr ss [a]) (hb : Writes .block ss' [b]) (hc : Writes .block ss'' [c]) :
    Writes .atom (.keyword .ifWord :: .openParen :: ss ++ .closeParen :: ss' ++
      .keyword .elseWord :: ss'') [.cond pos a b c] := by
  obtain ⟨hss, test, rfl, hchecks, he⟩ := ha
  obtain ⟨hss', yes, rfl, hchecks', he'⟩ := hb
  obtain ⟨hss'', no, rfl, hchecks'', he''⟩ := hc
  refine ⟨?_, .ofConditional (.conditional .start .start test .start yes (.elseBlock .start no)),
    by simp [Derivation.symbols], ?_, ?_⟩
  · simpa [or_imp, forall_and, Symbol.isProper] using And.intro hss (And.intro hss' hss'')
  · simpa [or_imp, forall_and] using And.intro hchecks (And.intro hchecks' hchecks'')
  · simp_all [erase]

theorem loop (ha : Writes .expr ss [a]) (hb : Writes .block ss' [b]) :
    Writes .atom (.keyword .whileWord :: .openParen :: ss ++ .closeParen :: ss')
      [.loop pos a b] := by
  obtain ⟨hss, test, rfl, hchecks, he⟩ := ha
  obtain ⟨hss', body, rfl, hchecks', he'⟩ := hb
  refine ⟨?_, .loop .start .start test .start body, by simp [Derivation.symbols], ?_, ?_⟩
  · simpa [or_imp, forall_and, Symbol.isProper] using And.intro hss hss'
  · simpa [or_imp, forall_and] using And.intro hchecks hchecks'
  · simp_all [erase]

theorem func {params : List String} (hdistinct : params.Nodup)
    (hnames : ∀ name ∈ params, Symbol.isName name = true) (ha : Writes .block ss [a]) :
    Writes .atom (.keyword .function :: .openParen :: Parameters.symbols params ++
      .closeParen :: ss) [.func pos params a] := by
  obtain ⟨hss, body, rfl, hchecks, he⟩ := ha
  refine ⟨?_, .function .start none .start (Parameters.ofNames? params) .start body, ?_, ?_, ?_⟩
  · simpa [or_imp, forall_and, Symbol.isProper] using
      And.intro (Parameters.isProper_symbols hnames) hss
  · simp [Derivation.symbols, Parameters.tokens_ofNames?]
  · simpa [or_imp, forall_and] using And.intro (Parameters.ok_ofNames? hdistinct) hchecks
  · simp_all [erase, Parameters.names_ofNames?]

theorem named {name : String} {params : List String} (pos' : Option Position)
    (hname : Symbol.isName name = true) (hdistinct : params.Nodup)
    (hnames : ∀ name ∈ params, Symbol.isName name = true) (ha : Writes .block ss [a]) :
    Writes .atom (.keyword .function :: .name name :: .openParen :: Parameters.symbols params ++
      .closeParen :: ss) [.declare pos name (.func pos' params a)] := by
  obtain ⟨hss, body, rfl, hchecks, he⟩ := ha
  refine ⟨?_, .function .start (some (name, .start)) .start (Parameters.ofNames? params) .start
    body, ?_, ?_, ?_⟩
  · simpa [or_imp, forall_and, Symbol.isProper, hname] using
      And.intro (Parameters.isProper_symbols hnames) hss
  · simp [Derivation.symbols, Parameters.nameToken, Parameters.tokens_ofNames?]
  · simpa [or_imp, forall_and] using And.intro (Parameters.ok_ofNames? hdistinct) hchecks
  · simp_all [erase, Parameters.names_ofNames?]

theorem arguments {args : List Expr} (hne : args ≠ [])
    (h : ∀ arg ∈ args, Writes .expr (arg.symbols .expr) [arg]) :
    Writes .arguments (argumentSymbols args) args := by
  induction args with
  | nil => exact absurd rfl hne
  | cons e es ih =>
    obtain ⟨hss, d, hsymbols, hchecks, he⟩ := h e List.mem_cons_self
    cases es with
    | nil => exact ⟨hss, .argument d, hsymbols, hchecks, he⟩
    | cons e' es =>
      obtain ⟨hss', d', hsymbols', hchecks', he'⟩ :=
        ih (by simp) fun arg ha => h arg (List.mem_cons_of_mem e ha)
      refine ⟨?_, .argumentAnd d .start d', ?_, ?_, ?_⟩
      · simpa [argumentSymbols, or_imp, forall_and, Symbol.isProper] using And.intro hss hss'
      · rw [argumentSymbols, ← hsymbols, ← hsymbols']
        simp [Derivation.symbols]
      · exact List.forall_mem_append.mpr ⟨hchecks, hchecks'⟩
      · simp_all

theorem call {args : List Expr} (ha : Writes .call ss [a])
    (hargs : ∀ arg ∈ args, Writes .expr (arg.symbols .expr) [arg]) :
    Writes .call (ss ++ .openParen :: argumentSymbols args ++ [.closeParen])
      [.call pos a args] := by
  obtain ⟨hss, d, rfl, hchecks, he⟩ := ha
  cases args with
  | nil =>
    refine ⟨?_, .application d .start .start, by simp [Derivation.symbols, argumentSymbols],
      hchecks, ?_⟩
    · simpa [argumentSymbols, or_imp, forall_and, Symbol.isProper] using hss
    · simpa [erase, Derivation.apply] using he
  | cons arg args =>
    obtain ⟨hss', d', hsymbols, hchecks', he'⟩ := arguments (by simp) hargs
    rw [← hsymbols]
    rw [← hsymbols] at hss'
    refine ⟨?_, .applicationTo d .start d' .start, by simp [Derivation.symbols], ?_, ?_⟩
    · simpa [or_imp, forall_and, Symbol.isProper] using And.intro hss hss'
    · exact List.forall_mem_append.mpr ⟨hchecks, hchecks'⟩
    · have hcallee : d.meaning.expr.relocate .drop = a.relocate .drop := List.head_eq_of_cons_eq he
      have hargs : d'.meaning.map (relocate .drop) = (arg :: args).map (relocate .drop) := he'
      simp [erase, Derivation.apply, relocateAll_eq_map, hcallee, hargs]

end Writes

/-! ### Reading back -/

theorem symbols_block (e : Expr) : e.symbols .block = e.symbols .statement := by
  cases e <;> rfl

/-- The expression is derived from the symbols that it is written with, as what it is in a text. -/
def Spelled : Form → Expr → Prop
  | .block, e => ∃ first rest, Writes .statements (e.symbols .block) (first :: rest) ∧
      (sequence first rest).erase = e.erase
  | .statement, e => Writes .statement (e.symbols .statement) [e]
  | .expr, e => Writes .call (e.bracketed (e.symbols .expr)) [e] ∧
      Writes .expr (e.symbols .expr) [e] ∧ Writes .statement (e.symbols .statement) [e]

/-- Only operators need brackets, and only declarations differ as statements. -/
theorem Writes.spelled {e : Expr} (h : Writes .call (e.symbols .expr) [e])
    (hbracketed : ∀ ss, e.bracketed ss = ss)
    (hstatement : e.symbols .statement = e.symbols .expr) : Spelled .expr e := by
  refine ⟨?_, h.expr, ?_⟩
  · rw [hbracketed]
    exact h
  · rw [hstatement]
    exact h.expr.statement

theorem Spelled.braced {e : Expr} (h : Spelled .block e) :
    Writes .block (.openBrace :: e.symbols .block ++ [.closeBrace]) [e] := by
  obtain ⟨first, rest, hwrites, he⟩ := h
  exact hwrites.block he

/-- All that can be written is derived from what it is written with. -/
theorem Surface.spelled {form : Form} {e : Expr} (h : Surface form e) : Spelled form e := by
  induction h with
  | @empty pos => exact ⟨.const pos .null, [], (Writes.null pos).operand.expr.statement.last, rfl⟩
  | @one e h ih =>
    refine ⟨e, [], ?_, rfl⟩
    rw [symbols_block]
    exact Writes.last ih
  | @row pos first rest hfirst hrest ihfirst ihrest =>
    obtain ⟨second, others, hwrites, he⟩ := ihrest
    refine ⟨first, second :: others, Writes.row ihfirst hwrites, ?_⟩
    simp_all [erase, Expr.sequence]
  | declare hname hinit ih => exact ih.2.1.declare _ hname
  | assign hname hrhs ih => exact ih.2.1.assign _ hname
  | bare h ih => exact ih.2.2
  | number hn => exact Writes.spelled (Writes.number _ hn).operand (fun _ => rfl) rfl
  | bool => exact Writes.spelled (Writes.bool _ _).operand (fun _ => rfl) rfl
  | null => exact Writes.spelled (Writes.null _).operand (fun _ => rfl) rfl
  | var hname => exact Writes.spelled (Writes.var _ hname).operand (fun _ => rfl) rfl
  | print harg ih => exact Writes.spelled (ih.2.1.print _).operand (fun _ => rfl) rfl
  | @binary pos op left right hleft hright ihleft ihright =>
    have hwrites := ihleft.1.binary pos op ihright.1
    exact ⟨hwrites.bracket.operand, hwrites, hwrites.statement⟩
  | @cond pos _ _ _ htest hyes hno ihtest ihyes ihno =>
    have hwrites := ihtest.2.1.cond pos ihyes.braced ihno.braced
    refine Writes.spelled ?_ (fun _ => rfl) rfl
    simpa [symbols] using hwrites.operand
  | @loop pos _ _ htest hbody ihtest ihbody =>
    have hwrites := ihtest.2.1.loop pos ihbody.braced
    refine Writes.spelled ?_ (fun _ => rfl) rfl
    simpa [symbols] using hwrites.operand
  | @func pos _ _ hdistinct hnames hbody ih =>
    have hwrites := ih.braced.func pos hdistinct hnames
    refine Writes.spelled ?_ (fun _ => rfl) rfl
    simpa [symbols] using hwrites.operand
  | @named pos pos' _ _ _ hname hdistinct hnames hbody ih =>
    have hwrites := ih.braced.named pos pos' hname hdistinct hnames
    have hfunc := ih.braced.func pos' hdistinct hnames
    refine ⟨?_, ?_, ?_⟩
    · simpa [symbols, bracketed] using hwrites.operand
    · simpa [symbols] using hwrites.operand.expr
    · simpa [symbols] using hfunc.operand.expr.declare _ hname
  | @call pos _ _ hcallee hargs ihcallee ihargs =>
    have hwrites := ihcallee.1.call pos fun arg harg => (ihargs arg harg).2.1
    exact Writes.spelled hwrites (fun _ => rfl) rfl

/-- Symbols with blanks behind them are scanned as they are. -/
theorem Scan.reads_spaced {ss : List Symbol} (hss : ∀ s ∈ ss, s.isProper = true) (p : Position) :
    ∃ ts : List Token, Reads p (ss.flatMap fun s => s.text.toList ++ [' ']) ts ∧
      ts.map Token.symbol = ss := by
  induction ss generalizing p with
  | nil => exact ⟨[], .nil, rfl⟩
  | cons s ss ih =>
    obtain ⟨hs, hss⟩ := List.forall_mem_cons.mp hss
    obtain ⟨ts, hts, hsymbols⟩ := ih hss ((p.after s.text.toList).next ' ')
    have hends : s.extendedBy ' ' = false := by
      cases s with
      | operator op => cases op <;> rfl
      | _ => rfl
    refine ⟨⟨s, p⟩ :: ts, ?_, by simp [hsymbols]⟩
    rw [List.flatMap_cons, List.append_assoc]
    exact .token hs (Symbol.ends_cons.mpr hends) (.blank rfl hts)

namespace Program

/-- What can be written is read back as it was, up to positions, and nothing else is ever read. -/
theorem parse_write_surface :
    (∀ t : Expr, Surface .block t → ∃ e, parse t.write = .ok e ∧ e.alike t = true) ∧
      ∀ (source : String) (e : Expr), parse source = .ok e → Surface .block e := by
  refine ⟨fun t ht => ?_, fun source e => surface_of_parse⟩
  obtain ⟨first, rest, ⟨hproper, d, hsymbols, hchecks, hes⟩, he⟩ := ht.spelled
  obtain ⟨ts, hreads, hts⟩ := Scan.reads_spaced hproper .start
  obtain ⟨htokens, hrest⟩ := Scan.reads_iff.mp hreads
  have hprogram : d.program.erase = t.erase := by
    rw [Nonterminal.exprs] at hes
    rw [Derivation.program, erase_sequence?, hes, ← erase_sequence? _ none]
    exact he
  have hsaid : Says t.write t.erase := by
    refine (says_iff_of_symbols d ?_ ?_).mpr ⟨hchecks, hprogram⟩
    · rw [write, String.toList_ofList]
      exact hrest
    · rw [write, String.toList_ofList]
      calc (Scan.run .start ((t.symbols .block).flatMap fun s => s.text.toList ++ [' '])).symbols
        _ = ts.map Token.symbol := congrArg (List.map Token.symbol) htokens
        _ = t.symbols .block := hts
        _ = d.symbols := hsymbols.symm
  obtain ⟨e, hparse, herase⟩ := hsaid
  exact ⟨e, hparse, alike_iff.mpr herase⟩

/-- The operand with an operator is in brackets, the function that is called is not. -/
theorem operand_and_callee_written :
    ∃ t : Expr, Surface .block t ∧
      t.write = "var f = function ( x ) \x7b ( 2 - x ) * 2 \x7d ; " ++
        "function g ( ) \x7b null \x7d ( f ) " ∧
      ∃ e, parse t.write = .ok e ∧ e.alike t = true := by
  have htwo : 2 < Number.bound := by
    have hten := Number.pow_le_bound (n := 1) (by decide)
    omega
  have hname : ∀ name ∈ ["f", "g", "x"], Symbol.isName name = true := by decide +kernel
  have hbody : Surface .block (.binary none .mul
      (.binary none .sub (.const none (.number 2)) (.var none "x")) (.const none (.number 2))) :=
    .one (.bare (.binary (.binary (.number htwo) (.var (hname "x" (by simp)))) (.number htwo)))
  have hfunc : Surface .statement (.declare none "f" (.func none ["x"] (.binary none .mul
      (.binary none .sub (.const none (.number 2)) (.var none "x"))
      (.const none (.number 2))))) :=
    .declare (hname "f" (by simp)) (.func (by simp) (by simpa using hname "x" (by simp)) hbody)
  have hcall : Surface .block
      (.call none (.declare none "g" (.func none [] (.const none .null))) [.var none "f"]) := by
    refine .one (.bare (.call (.named (hname "g" (by simp)) .nil (by simp) .empty) ?_))
    simpa using .var (hname "f" (by simp))
  have ht : Surface .block (.seq none _ _) := .row hfunc hcall
  exact ⟨_, ht, by decide +kernel, parse_write_surface.1 _ ht⟩

end Program

end Scriptlet
