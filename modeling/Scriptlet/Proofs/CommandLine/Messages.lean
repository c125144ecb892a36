import Scriptlet.Proofs.Blame.Nodes
import Scriptlet.Proofs.Grammar.Malformed
import Scriptlet.Proofs.Surface.Trees

/-! Messages keep to one line. What they quote is escaped, and the names in them are names of the
program text, which hold no line feed; so the error of a program is a single line. -/

namespace Scriptlet

open EvalM Evaluator

/-- A text that holds no line feed. -/
def OneLine (text : String) : Prop := '\n' ∉ text.toList

namespace OneLine

instance (text : String) : Decidable (OneLine text) :=
  inferInstanceAs (Decidable ('\n' ∉ text.toList))

@[simp] theorem append_iff {s t : String} : OneLine (s ++ t) ↔ OneLine s ∧ OneLine t := by
  simp [OneLine, String.toList_append]

theorem append {s t : String} (hs : OneLine s) (ht : OneLine t) : OneLine (s ++ t) :=
  append_iff.mpr ⟨hs, ht⟩

@[simp] theorem ofList_iff {cs : List Char} : OneLine (String.ofList cs) ↔ '\n' ∉ cs := by
  simp [OneLine]

theorem intercalate {sep : String} {texts : List String} (hsep : OneLine sep)
    (htexts : ∀ text ∈ texts, OneLine text) : OneLine (sep.intercalate texts) := by
  rw [OneLine, String.toList_intercalate]
  induction texts with
  | nil => simp [List.intercalate]
  | cons text rest ih =>
    obtain ⟨htext, hrest⟩ := List.forall_mem_cons.mp htexts
    cases rest with
    | nil => simpa [List.intercalate, OneLine] using htext
    | cons next rest =>
      simp only [List.map_cons, List.intercalate_cons_cons, List.mem_append, not_or]
      exact ⟨⟨htext, hsep⟩, ih hrest⟩

/-! ### Numbers and quoted texts -/

theorem not_mem_toDigits (base n : Nat) (hbase : 1 < base) : '\n' ∉ Nat.toDigits base n := by
  induction n using Nat.strongRecOn with
  | ind n ih =>
    rw [Nat.toDigits_eq_if hbase]
    split
    case isTrue => simp
    case isFalse hn => simpa using ih _ (Nat.div_lt_self (by omega) hbase)

theorem natural (n : Nat) : OneLine n.repr := by
  rw [OneLine, Nat.toList_repr]
  exact not_mem_toDigits 10 n (by decide)

theorem number (n : Int) : OneLine (Number.text n) := by
  rw [Number.text]
  split
  · exact append_iff.mpr ⟨by decide, natural _⟩
  · exact natural _

theorem quoteOf_ne (text : List Char) : Text.quoteOf text ≠ '\n' := by
  rw [Text.quoteOf]
  split <;> decide

theorem not_mem_hex (width n : Nat) : '\n' ∉ Text.hex width n := by
  simp [Text.hex, not_mem_toDigits 16 n (by decide)]

theorem not_mem_escape {quote : Char} (hq : quote ≠ '\n') (c : Char) :
    '\n' ∉ Text.escape quote c := by
  have hcode : '\n' ∉ Text.escapeCode c.toNat := by
    rw [Text.escapeCode]
    split
    · simp [not_mem_hex]
    · split <;> simp [not_mem_hex]
  grind [Text.escape]

theorem quoted (text : String) : OneLine (Text.quoted text) := by
  have hq := quoteOf_ne text.toList
  simp only [Text.quoted, ofList_iff, List.mem_append, List.mem_cons, List.mem_flatMap,
    List.not_mem_nil, or_false, not_or, not_exists, not_and]
  exact ⟨⟨hq.symm, fun c _ => not_mem_escape hq c⟩, hq.symm⟩

/-! ### Names and values -/

theorem name {text : String} (h : Symbol.isName text = true) : OneLine text := by
  intro hmem
  have hblank := Lexeme.isBlank_eq_false_of_mem_text (s := .name text) h _ hmem
  exact absurd hblank (by decide)

end OneLine

/-- All names in an expression are names of program texts. -/
def Expr.WellNamed (e : Expr) : Prop := ∀ x ∈ e.names, Symbol.isName x = true

theorem Expr.wellNamed_iff {e : Expr} : e.WellNamed ↔
    (∀ x ∈ e.ownNames, Symbol.isName x = true) ∧ ∀ part ∈ e.parts, part.WellNamed := by
  simp only [WellNamed, names, List.mem_flatMap, mem_all_iff (e := e)]
  grind

theorem Expr.WellNamed.part {e part : Expr} (he : e.WellNamed) (hp : part ∈ e.parts) :
    part.WellNamed :=
  (wellNamed_iff.mp he).2 part hp

theorem Surface.wellNamed {form : Form} {e : Expr} (h : Surface form e) : e.WellNamed := by
  induction h with
  | one | bare => assumption
  | named hname _ hnames _ ih =>
    rw [Expr.wellNamed_iff]
    simpa [Expr.ownNames, Expr.parts, hname, Expr.wellNamed_iff (e := .func _ _ _)] using
      ⟨hnames, ih⟩
  | _ =>
    rw [Expr.wellNamed_iff]
    simp_all [Expr.ownNames, Expr.parts]

/-- Closures show their parameters only. -/
theorem Heap.MadeFrom.oneLine_text {h : Heap} (hh : h.MadeFrom Expr.WellNamed) (v : Value) :
    OneLine (h.text v) := by
  cases v with
  | number n => exact OneLine.number n
  | bool b => cases b <;> simp [Heap.text, OneLine]
  | null => simp [Heap.text, OneLine]
  | closure id =>
    rw [Heap.text]
    cases hc : h.closures[id]? with
    | none => decide
    | some c =>
      obtain ⟨pos, hnamed⟩ := hh hc
      have hparams : ∀ x ∈ c.params, OneLine x := fun x hx =>
        .name (hnamed x (Expr.ownNames_subset_names _ hx))
      simpa [Closure.text] using ⟨⟨by decide, .intercalate (by decide) hparams⟩, by decide⟩

theorem Heap.MadeFrom.oneLine_describe {h : Heap} (hh : h.MadeFrom Expr.WellNamed) (v : Value) :
    OneLine (h.describe v) := by
  have hname : OneLine v.typeName := by cases v <;> simp [Value.typeName, OneLine]
  simpa [Heap.describe] using ⟨⟨hname, by decide⟩, hh.oneLine_text v⟩

/-! ### Errors -/

theorem Place.oneLine_suffix (place : Place) : OneLine place.suffix := by
  obtain ⟨line, column⟩ := place
  cases line <;> cases column <;> simp [Place.suffix, OneLine.natural] <;> decide

theorem Error.oneLine_text {e : Error} (h : OneLine e.cause.message) : OneLine e.text := by
  rw [Error.text, OneLine.append_iff]
  refine ⟨h, ?_⟩
  cases e.place with
  | none => decide
  | some place => exact place.oneLine_suffix

/-- The texts that the message of an error is made with. -/
def Cause.texts : Cause → List String
  | .described text | .unknownNode text | .duplicateDeclaration text | .invalidCondition _ text
  | .notCallable text | .unboundVariable text | .typeMismatch _ text => [text]
  | .malformed what => [what.message]
  | .arityMismatch .. | .divisionByZero | .moduloByZero | .depthExceeded => []

/-- What the messages add to these texts has no line feed. -/
theorem Cause.oneLine_message {cause : Cause} (h : ∀ text ∈ cause.texts, OneLine text) :
    OneLine cause.message := by
  cases cause with
  | described | malformed => exact h _ List.mem_cons_self
  | unknownNode type => exact .append (by decide) (h type List.mem_cons_self)
  | duplicateDeclaration name | unboundVariable name =>
    exact .append (.append (by decide) (h name List.mem_cons_self)) (by decide)
  | notCallable got => exact .append (h got List.mem_cons_self) (by decide)
  | invalidCondition construct got =>
    have hkeyword : OneLine construct.keyword := by cases construct <;> decide
    exact .append (.append hkeyword (by decide)) (h got List.mem_cons_self)
  | typeMismatch op got =>
    have hsymbol : OneLine op.symbol := by cases op <;> decide
    exact .append (.append (.append (by decide) hsymbol) (by decide)) (h got List.mem_cons_self)
  | arityMismatch expected got =>
    have hexpected : OneLine (toString expected) := .natural expected
    exact .append (.append (.append (by decide) hexpected) (by decide)) (.natural got)
  | divisionByZero | moduloByZero | depthExceeded => decide

/-- An evaluation that fails by itself says so in one line. -/
theorem Evaluator.Raises.oneLine {ev : Evaluator} {limit : Nat} {a : Activation} {cause : Cause}
    {s : State} (hr : ev.Raises limit a (.ofCause cause) s) (he : a.expr.WellNamed)
    (hplaced : a.expr.Placed) (hheap : s.heap.MadeFrom Expr.WellNamed)
    (hc : ∀ {c vs s}, ev.Applies a c vs s → c.params.Nodup) : OneLine cause.message := by
  have hown : ∀ x ∈ a.expr.ownNames, OneLine x := fun x hx =>
    .name ((Expr.wellNamed_iff.mp he).1 x hx)
  have hdescribed : ∀ v, ∀ text ∈ [s.heap.describe v], OneLine text := by
    simpa using hheap.oneLine_describe
  refine Cause.oneLine_message ?_
  generalize hf : Fault.ofCause cause = fault at hr
  cases hr with
  | unbound | duplicate =>
    cases hf
    exact hown
  | unwritable | unfinished => cases hf
  | refused _ _ hrefuses =>
    cases hf
    cases hrefuses with
    | left | right => exact hdescribed _
    | division | modulo => simp [Cause.texts]
  | condition | loopCondition | notCallable =>
    unfold Fault.about at hf
    split at hf <;> cases hf
    exact hdescribed _
  | entry ha henter =>
    rw [enter_error_of_nodup (hc ha) henter] at hf
    cases hf
    simp [Cause.texts]
  | foreign => cases hplaced

namespace Program

variable {source : String}

theorem Stuck.oneLine {message : String} {p : Position} (h : Stuck source message p) :
    OneLine message := by
  cases h with
  | token | character => exact .append (by decide) (.quoted _)
  | ending => decide

theorem oneLine_of_parse {e : Error} (h : parse source = .error (.error e)) : OneLine e.text := by
  refine e.oneLine_text ?_
  by_cases hd : Derivable source
  · obtain ⟨name, hcause, hmem⟩ := firstFault?_eq_error (hd.firstFault?_of_parse h)
    obtain ⟨t, ht, hname⟩ := List.mem_map.mp hmem
    have hproper := Scan.proper_of_mem_tokens ht
    rw [hname] at hproper
    rw [hcause]
    exact .append (.append (by decide) (.name hproper)) (by decide)
  · obtain ⟨message, p, hstuck⟩ := exists_stuck hd
    obtain ⟨e', he', -, rfl, -⟩ := hstuck.reports
    cases h.symm.trans he'
    exact hstuck.oneLine

theorem runFresh_of_error {fault : Fault} (h : parse source = .error fault) (limits : Limits)
    (strict : Bool) (s : State) : runFresh limits strict source s = .error fault s := by
  rw [runFresh, parseM, h]
  rfl

/-- The error of a program is said in one line. -/
theorem oneLine_of_runFresh {limits : Limits} {strict : Bool} {e : Error} {s : State}
    (h : runFresh limits strict source .empty = .error (.error e) s) : OneLine e.text := by
  cases hparse : parse source with
  | error fault =>
    rw [runFresh_of_error hparse] at h
    cases h
    exact oneLine_of_parse hparse
  | ok program =>
    rw [runFresh_eq_result hparse] at h
    refine e.oneLine_text ?_
    obtain hdepth | ⟨d, a, ha, hraise⟩ := Activation.exists_raises h
    · have hkind : e.cause.kind = .recursionDepth := Option.some.inj hdepth
      refine Cause.oneLine_message ?_
      cases hcause : e.cause <;> simp [hcause, Cause.kind, Cause.texts] at hkind ⊢
    · have hnamed : program.WellNamed := (surface_of_parse hparse).wellNamed
      have hheap : s.heap.MadeFrom Expr.WellNamed := by
        have hfinal : (finalState (Activation.result ⟨program, 0, .fresh strict⟩ limits.rounds
            limits.depth)).heap.MadeFrom Expr.WellNamed :=
          Activation.madeFrom_result Expr.WellNamed.part hnamed fun hc => by cases hc
        rwa [h] at hfinal
      have hcode : a.expr.WellNamed := ha.code Expr.WellNamed.part hnamed fun hc => by cases hc
      exact Raises.oneLine hraise hcode (ha.placed hparse) hheap (ha.params_nodup hparse)

end Program

end Scriptlet
