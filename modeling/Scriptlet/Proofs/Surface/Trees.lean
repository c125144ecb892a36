import Mathlib.Algebra.Group.Nat.Defs
import Scriptlet.Proofs.Grammar.Occurrence
import Scriptlet.Proofs.Grammar.Written
import Scriptlet.Proofs.Scanning.Lexemes

/-! Which expressions texts stand for. A program is a row of statements, and so is each block in it;
only declarations and assignments are statements and no expressions, and a declaration of a function
is both. -/

namespace Scriptlet

/-- What an expression is in a text. -/
inductive Form where
  | block
  | statement
  | expr

/-- The expressions that can be written, as what they are in a text. -/
inductive Surface : Form → Expr → Prop where
  | empty {pos : Option Position} : Surface .block (.const pos .null)
  | one {e : Expr} (h : Surface .statement e) : Surface .block e
  | row {pos : Option Position} {first rest : Expr} (hfirst : Surface .statement first)
      (hrest : Surface .block rest) : Surface .block (.seq pos first rest)
  | declare {pos : Option Position} {name : String} {init : Expr}
      (hname : Symbol.isName name = true) (hinit : Surface .expr init) :
      Surface .statement (.declare pos name init)
  | assign {pos : Option Position} {name : String} {rhs : Expr}
      (hname : Symbol.isName name = true) (hrhs : Surface .expr rhs) :
      Surface .statement (.assign pos name rhs)
  | bare {e : Expr} (h : Surface .expr e) : Surface .statement e
  | number {pos : Option Position} {n : Nat} (hn : n < Number.bound) :
      Surface .expr (.const pos (.number n))
  | bool {pos : Option Position} {b : Bool} : Surface .expr (.const pos (.bool b))
  | null {pos : Option Position} : Surface .expr (.const pos .null)
  | var {pos : Option Position} {name : String} (hname : Symbol.isName name = true) :
      Surface .expr (.var pos name)
  | print {pos : Option Position} {arg : Expr} (harg : Surface .expr arg) :
      Surface .expr (.print pos arg)
  | binary {pos : Option Position} {op : Operator} {left right : Expr}
      (hleft : Surface .expr left) (hright : Surface .expr right) :
      Surface .expr (.binary pos op left right)
  | cond {pos : Option Position} {test yes no : Expr} (htest : Surface .expr test)
      (hyes : Surface .block yes) (hno : Surface .block no) : Surface .expr (.cond pos test yes no)
  | loop {pos : Option Position} {test body : Expr} (htest : Surface .expr test)
      (hbody : Surface .block body) : Surface .expr (.loop pos test body)
  | func {pos : Option Position} {params : List String} {body : Expr} (hdistinct : params.Nodup)
      (hnames : ∀ name ∈ params, Symbol.isName name = true) (hbody : Surface .block body) :
      Surface .expr (.func pos params body)
  | named {pos pos' : Option Position} {name : String} {params : List String} {body : Expr}
      (hname : Symbol.isName name = true) (hdistinct : params.Nodup)
      (hnames : ∀ name ∈ params, Symbol.isName name = true) (hbody : Surface .block body) :
      Surface .expr (.declare pos name (.func pos' params body))
  | call {pos : Option Position} {callee : Expr} {args : List Expr}
      (hcallee : Surface .expr callee) (hargs : ∀ arg ∈ args, Surface .expr arg) :
      Surface .expr (.call pos callee args)

/-- A closure cannot be written. -/
theorem Surface.not_embeds {form : Form} {e : Expr} (h : Surface form e) (id : Nat) :
    ¬ e.Embeds id := by
  rintro ⟨pos, hmem⟩
  induction h with
  | call _ _ ihcallee ihargs =>
    simp only [Expr.all, List.mem_cons, List.mem_append, Expr.mem_allOf_iff] at hmem
    obtain hself | hcallee | ⟨arg, harg, hmem⟩ := hmem
    · cases hself
    · exact ihcallee hcallee
    · exact ihargs arg harg hmem
  | _ => simp_all [Expr.all]

theorem Surface.sequence {first : Expr} {rest : List Expr} (hfirst : Surface .statement first)
    (hrest : ∀ e ∈ rest, Surface .statement e) : Surface .block (.sequence first rest) := by
  induction rest generalizing first with
  | nil => exact .one hfirst
  | cons second rest ih =>
    obtain ⟨hsecond, hrest⟩ := List.forall_mem_cons.mp hrest
    exact .row hfirst (ih hsecond hrest)

theorem Surface.sequence? {es : List Expr} (hes : ∀ e ∈ es, Surface .statement e)
    (pos : Option Position) : Surface .block ((Expr.sequence? es).getD (.const pos .null)) := by
  cases es with
  | nil => exact .empty
  | cons first rest =>
    obtain ⟨hfirst, hrest⟩ := List.forall_mem_cons.mp hes
    exact .sequence hfirst hrest

/-! ### What derivations stand for -/

namespace Number

theorem ofDigitChars_lt {digits : List Char} (h : ∀ c ∈ digits, c.isDigit = true) (n : Nat) :
    Nat.ofDigitChars 10 digits n < (n + 1) * 10 ^ digits.length := by
  induction digits generalizing n with
  | nil => simp
  | cons c digits ih =>
    obtain ⟨hc, hdigits⟩ := List.forall_mem_cons.mp h
    have hdigit : c.toNat - '0'.toNat < 10 := by
      have hle : 48 ≤ c.toNat ∧ c.toNat ≤ 57 := by
        simpa [Char.isDigit, UInt32.le_iff_toNat_le, ← Char.toNat_val] using hc
      have hzero : '0'.toNat = 48 := rfl
      omega
    calc Nat.ofDigitChars 10 (c :: digits) n
      _ = Nat.ofDigitChars 10 digits (10 * n + (c.toNat - '0'.toNat)) := Nat.ofDigitChars_cons
      _ < (10 * n + (c.toNat - '0'.toNat) + 1) * 10 ^ digits.length := ih hdigits _
      _ ≤ (n + 1) * 10 * 10 ^ digits.length := Nat.mul_le_mul_right _ (by omega)
      _ = (n + 1) * 10 ^ (c :: digits).length := by
        rw [List.length_cons, Nat.pow_succ', Nat.mul_assoc]

theorem pow_le_bound {n : Nat} (h : n ≤ digitLimit) : 10 ^ n ≤ bound := by
  unfold bound
  generalize digitLimit = limit at h
  exact Nat.pow_le_pow_right (by decide) h

/-- Digits within the limit stand for numbers below the bound. -/
theorem ofDigits_lt_bound {digits : String} (h : Symbol.isNumeral digits = true)
    (hlength : digits.length ≤ digitLimit) : ofDigits digits.toList < bound := by
  simp only [Symbol.isNumeral, Bool.and_eq_true, List.all_eq_true] at h
  have hlt := ofDigitChars_lt h.2 0
  rw [Nat.zero_add, Nat.one_mul, String.length_toList] at hlt
  exact hlt.trans_le (pow_le_bound hlength)

end Number

/-- What the expressions of a derivation are. -/
@[simp] def Nonterminal.form : Nonterminal → Form
  | .block | .alternative => .block
  | .statements | .rows | .statement => .statement
  | .expr | .sum | .product | .unary | .call | .arguments | .atom | .conditional => .expr

theorem Parameters.isName_of_mem_names {ps : Parameters}
    (h : ∀ t ∈ ps.tokens, t.symbol.isProper = true) :
    ∀ name ∈ ps.names, Symbol.isName name = true := by
  intro name hname
  simp only [names, named, List.map_cons, List.map_map, List.mem_cons, List.mem_map] at hname
  obtain rfl | ⟨param, hparam, rfl⟩ := hname
  · exact h (nameToken ps.first) List.mem_cons_self
  · exact h (nameToken param.2)
      (List.mem_cons_of_mem _ (List.mem_flatMap.mpr ⟨param, hparam, by simp⟩))

namespace Derivation

/-- What a derivation stands for can be written, if its tokens can and the checks hold. -/
theorem surface {c : Nonterminal} (d : Derivation c) (hchecks : ∀ check ∈ d.checks, check.Ok)
    (hproper : ∀ t ∈ d.tokens, t.symbol.isProper = true) :
    ∀ e ∈ c.exprs d.meaning, Surface c.form e := by
  induction d using ofParts with
  | h d ih =>
    have hparts : ∀ part ∈ d.parts, ∀ e ∈ part.kind.exprs part.self.meaning,
        Surface part.kind.form e := fun part hp =>
      ih part hp (fun check hc => hchecks check (checks_subset hp hc))
        fun t ht => hproper t (tokens_subset hp ht)
    clear ih
    cases d with
    | noRow | noElse => simp
    | statements | argument | ofSum | ofProduct | ofUnary | ofCall | ofAtom | bracket
    | ofConditional | elseBlock => simpa using hparts
    | statementsAnd | row | argumentAnd => simpa [or_imp, forall_and] using hparts
    | block opening body =>
      have hbody : ∀ e ∈ body.meaning, Surface .statement e := by simpa using hparts
      exact List.forall_mem_singleton.mpr (.sequence? hbody (some opening))
    | declaration word name namePos sign init =>
      have hname := hproper ⟨.name name, namePos⟩ (by simp)
      have hinit : Surface .expr init.meaning.expr := by simpa using hparts
      exact List.forall_mem_singleton.mpr (.declare hname hinit)
    | assignment name namePos sign rhs =>
      have hname := hproper ⟨.name name, namePos⟩ (by simp)
      have hrhs : Surface .expr rhs.meaning.expr := by simpa using hparts
      exact List.forall_mem_singleton.mpr (.assign hname hrhs)
    | bare e =>
      have he : Surface .expr e.meaning.expr := by simpa using hparts
      exact List.forall_mem_singleton.mpr (.bare he)
    | comparison left op _ _ right | addition left op _ _ right
    | multiplication left op _ _ right =>
      obtain ⟨hleft, hright⟩ :
          Surface .expr left.meaning.expr ∧ Surface .expr right.meaning.expr := by
        simpa using hparts
      exact List.forall_mem_singleton.mpr (.binary hleft hright)
    | negation sign e =>
      have hzero : Surface .expr (.const (some sign) (.number 0)) :=
        .number (Number.pow_le_bound (Nat.zero_le _))
      have he : Surface .expr e.meaning.expr := by simpa using hparts
      exact List.forall_mem_singleton.mpr (.binary hzero he)
    | application callee =>
      have hcallee : Surface .expr callee.meaning.expr := by simpa using hparts
      exact List.forall_mem_singleton.mpr (.call hcallee (List.forall_mem_nil _))
    | applicationTo callee opening args =>
      obtain ⟨hcallee, hargs⟩ :
          Surface .expr callee.meaning.expr ∧ ∀ arg ∈ args.meaning, Surface .expr arg := by
        simpa using hparts
      exact List.forall_mem_singleton.mpr (.call hcallee hargs)
    | number digits pos =>
      have hnumeral := hproper ⟨.number digits, pos⟩ (by simp)
      have hlength := hchecks (.literal digits) (by simp)
      exact List.forall_mem_singleton.mpr (.number (Number.ofDigits_lt_bound hnumeral hlength))
    | trueWord | falseWord => exact List.forall_mem_singleton.mpr .bool
    | null => exact List.forall_mem_singleton.mpr .null
    | var name pos =>
      have hname := hproper ⟨.name name, pos⟩ (by simp)
      exact List.forall_mem_singleton.mpr (.var hname)
    | print word opening e =>
      have he : Surface .expr e.meaning.expr := by simpa using hparts
      exact List.forall_mem_singleton.mpr (.print he)
    | loop word opening test closing body =>
      obtain ⟨htest, hbody⟩ : Surface .expr test.meaning.expr ∧ Surface .block body.meaning := by
        simpa using hparts
      exact List.forall_mem_singleton.mpr (.loop htest hbody)
    | function word name opening params closing body =>
      have hbody : Surface .block body.meaning := by simpa using hparts
      obtain ⟨hdistinct, hnames⟩ : ((params.map Parameters.names).getD []).Nodup ∧
          ∀ name ∈ (params.map Parameters.names).getD [], Symbol.isName name = true := by
        cases params with
        | none => exact ⟨List.nodup_nil, List.forall_mem_nil _⟩
        | some ps =>
          have hps : ∀ t ∈ ps.tokens, t.symbol.isProper = true := fun t ht =>
            hproper t (by simp [ht])
          exact ⟨hchecks (.parameters ps) (by simp), ps.isName_of_mem_names hps⟩
      cases name with
      | none => exact List.forall_mem_singleton.mpr (.func hdistinct hnames hbody)
      | some name =>
        have hname := hproper (Parameters.nameToken name) (by simp)
        exact List.forall_mem_singleton.mpr (.named hname hdistinct hnames hbody)
    | conditional word opening test closing yes no =>
      obtain ⟨htest, hyes, hno⟩ : Surface .expr test.meaning.expr ∧ Surface .block yes.meaning ∧
          ∀ e, no.meaning = some e → Surface .block e := by
        simpa using hparts
      have helse : Surface .block (no.meaning.getD (.const (some word) .null)) := by
        cases hm : no.meaning with
        | none => exact .empty
        | some e => exact hno e hm
      exact List.forall_mem_singleton.mpr (.cond htest hyes helse)
    | elseIf word no =>
      have hconditional : Surface .expr no.meaning.expr := by simpa using hparts
      exact List.forall_mem_singleton.mpr (.one (.bare hconditional))

end Derivation

/-- Whatever is read can be written. -/
theorem Program.surface_of_parse {source : String} {e : Expr} (h : Program.parse source = .ok e) :
    Surface .block e := by
  obtain ⟨hread, hfault⟩ := Program.parse_eq_ok_iff.mp h
  obtain ⟨-, d, hd, rfl⟩ := Program.read_eq_ok_iff.mp hread
  rw [← hd, d.firstFault?_eq_none_iff] at hfault
  refine .sequence? (d.surface hfault fun t ht => ?_) _
  rw [hd] at ht
  exact Scan.proper_of_mem_tokens ht

end Scriptlet
