import Scriptlet.CommandLine
import Scriptlet.Proofs.Blame.Endings
import Scriptlet.Proofs.CommandLine.Messages

/-! How a call of the command line ends. Main statement: options count once and wherever they stand,
a second argument ends the call at once, and otherwise the run of the program text decides about
exit code, output and error output. -/

namespace Scriptlet.CommandLine

/-- Settings under which only results and errors are reported: errors without a trace, a log level
that shows no notices, and no recursion limit. -/
structure Quiet (vars : Settings.Variables) : Prop where
  trace : Settings.traceErrors vars = false
  level : 10 < Settings.logLevel vars
  limit : Settings.recursionLimit? vars = none

/-- What is left of the arguments without the options. -/
def others (args : List String) : List String := args.filter (· ≠ strictOption)

/-- Whether the program is run strictly: an option forces it, and else the variable says. -/
def strictness (vars : Settings.Variables) (args : List String) : Bool :=
  if strictOption ∈ args then true else Settings.strictUnbound vars

/-- The line that is written about an error. -/
def errorLine (e : Error) : String := "error[" ++ e.kind.name ++ "]: " ++ e.text

/-! ### The program text -/

section Source

variable {s : Surroundings} {arg : String}

theorem source_of_ne_dash (h : arg ≠ "-") : source s (some arg) = argumentSource s arg := by
  unfold source
  split
  case h_1 hnone => cases hnone
  case h_2 hdash => exact absurd (Option.some.inj hdash) h
  case h_3 hsome => rw [Option.some.inj hsome]

/-- An argument is the program text itself if it leads nowhere as a path, or is none. -/
theorem source_of_missing (h : arg ≠ "-")
    (hmissing : ∀ path, Path.ofText? arg = some path → s.lookup path = .missing) :
    source s (some arg) = .ok arg := by
  rw [source_of_ne_dash h, argumentSource]
  cases hpath : Path.ofText? arg with
  | none => rfl
  | some path => simp only [hmissing path hpath]

end Source

/-! ### Arguments -/

section Arguments

variable {args : List String}

theorem argument?_of_others {arg : Option String} (h : others args = arg.toList) :
    argument? args = .ok arg := by
  rw [argument?, ← others, h]
  cases arg <;> rfl

theorem argument?_of_extra {first second : String} {rest : List String}
    (h : others args = first :: second :: rest) :
    argument? args = .error (.unexpectedArgument second) := by
  rw [argument?, ← others, h]

variable (limits : Limits) (s : Surroundings)

/-- With a second argument nothing is looked at. -/
theorem run_of_extra {first second : String} {rest : List String}
    (h : others args = first :: second :: rest) :
    run limits s args = ⟨.abort (.unexpectedArgument second), "", "", none⟩ := by
  rw [run, argument?_of_extra h]

/-- A recursion limit that is not taken ends the call before the program text is looked for. -/
theorem run_of_refused {arg : Option String} {fault : Settings.LimitFault}
    (harg : others args = arg.toList) (hlimit : s.limitFault? = some fault) :
    run limits s args =
      ⟨.abort (.limitRefused fault), "", "", Settings.recursionLimit? s.vars⟩ := by
  simp only [run, argument?_of_others harg, hlimit]

theorem run_of_source {arg : Option String} {text : String} (harg : others args = arg.toList)
    (hlimit : s.limitFault? = none) (hsource : source s arg = .ok text) :
    run limits s args = ofRun s.vars (s.trace text) (Settings.recursionLimit? s.vars)
      (Program.runFresh limits (strictness s.vars args) text .empty) := by
  have hstrict : Settings.strictFor s.vars (strictness? args) = strictness s.vars args := by
    by_cases h : strictOption ∈ args <;> simp [Settings.strictFor, strictness?, strictness, h]
  simp only [run, argument?_of_others harg, hlimit, hsource, hstrict]

/-- Options count only by being there. -/
theorem run_congr {args' : List String} (hothers : others args' = others args)
    (hstrict : strictOption ∈ args' ↔ strictOption ∈ args) :
    run limits s args' = run limits s args := by
  have hargument : argument? args' = argument? args := by
    rw [argument?, argument?, ← others, ← others, hothers]
  have hasked : strictness? args' = strictness? args := by
    simp [strictness?, hstrict]
  rw [run, run, hargument, hasked]

end Arguments

/-! ### Reports -/

namespace Quiet

variable {vars : Settings.Variables} (hquiet : Quiet vars)
include hquiet

theorem logText_eq (lines : List String) : logText vars lines = "" := by
  have hlevel : Settings.showsNotices vars = false := by
    simpa [Settings.showsNotices] using hquiet.level
  rw [logText, hlevel]
  rfl

theorem ofRun_ok {v : Value} (hv : v.writable = true) (trace : Error → String) (st : State) :
    ofRun vars trace (Settings.recursionLimit? vars) (.ok v st) =
      ⟨.exit 0, st.output ++ st.heap.text v ++ "\n", "", none⟩ := by
  rw [ofRun, if_pos hv, noticeText, hquiet.logText_eq, hquiet.limit]

theorem ofRun_error (trace : Error → String) (e : Error) (st : State) :
    ofRun vars trace (Settings.recursionLimit? vars) (.error (.error e) st) =
      ⟨.exit 1, st.output, errorLine e ++ "\n", none⟩ := by
  rw [ofRun, noticeText, errorText, hquiet.logText_eq, hquiet.logText_eq, hquiet.limit,
    hquiet.trace, errorLine]
  simp [String.append_assoc]

end Quiet

/-- Without a recursion limit there is nothing to be refused. -/
theorem Quiet.limitFault?_eq {s : Surroundings} (hquiet : Quiet s.vars) : s.limitFault? = none := by
  rw [Surroundings.limitFault?, hquiet.limit]
  cases s.openCalls <;> rfl

theorem oneLine_errorLine {e : Error} (h : OneLine e.text) : OneLine (errorLine e) := by
  have hkind : OneLine e.kind.name := by cases e.kind <;> decide
  exact .append (.append (.append (by decide) hkind) (by decide)) h

/-- Only whether an option is there counts. A second argument ends the call, whatever there is to be
looked at. Otherwise the run of the program text decides: its value is written behind what it
printed, or its error on a line of the error output. -/
theorem run_decides (limits : Limits) {s : Surroundings} (hquiet : Quiet s.vars)
    (args : List String) :
    (∀ args', others args' = others args → (strictOption ∈ args' ↔ strictOption ∈ args) →
      run limits s args' = run limits s args) ∧
    (∀ first second rest, others args = first :: second :: rest →
      (Abort.unexpectedArgument second).message = "Unexpected argument: " ++ second ∧
      ∀ limits' s', run limits' s' args = ⟨.abort (.unexpectedArgument second), "", "", none⟩) ∧
    ∀ arg text, others args = arg.toList → source s arg = .ok text →
      let outcome := Program.runFresh limits (strictness s.vars args) text .empty
      (∀ v st, outcome = .ok v st →
        (∀ n, v = .number n → (Nat.toDigits 10 n.natAbs).length ≤ Number.digitLimit) →
        run limits s args = ⟨.exit 0, st.output ++ st.heap.text v ++ "\n", "", none⟩) ∧
      ∀ e st, outcome = .error (.error e) st →
        run limits s args = ⟨.exit 1, st.output, errorLine e ++ "\n", none⟩ ∧
          OneLine (errorLine e) := by
  refine ⟨fun _ => run_congr limits s,
    fun _ _ _ hextra => ⟨rfl, fun limits' s' => run_of_extra limits' s' hextra⟩,
    fun arg text harg hsource => ?_⟩
  rw [run_of_source limits s harg hquiet.limitFault?_eq hsource]
  refine ⟨fun v st hok hlong => ?_, fun e st herror => ?_⟩
  · have hv : v.writable = true := by
      rw [← Bool.not_eq_false, Value.writable_eq_false_iff]
      rintro ⟨n, hn, hdigits⟩
      exact absurd (hlong n hn) (Nat.not_le.mpr hdigits)
    rw [hok, hquiet.ofRun_ok hv]
  · rw [herror, hquiet.ofRun_error]
    exact ⟨rfl, oneLine_errorLine (Program.oneLine_of_runFresh herror)⟩

/-- A program prints a line and divides by zero; the option stands on both sides of it. -/
theorem printed_before_division :
    let s : Surroundings := ⟨fun _ => none, "", fun _ => .missing, some 2, fun text _ => text⟩
    let text := "print(true);1/0"
    let args := [strictOption, text, strictOption]
    Quiet s.vars ∧ others args = [text] ∧ source s (some text) = .ok text ∧
      run ⟨3, 0⟩ s args = ⟨.exit 1, "true\n",
        "error[division-by-zero]: Division by zero (line 1, col 13)\n", none⟩ := by
  have hquiet : Quiet fun _ => none := ⟨by decide +kernel, by decide +kernel, by decide +kernel⟩
  have hparse : Program.parse "print(true);1/0" = .ok (.seq none
      (.print (some ⟨1, 1⟩) (.const (some ⟨1, 7⟩) (.bool true)))
      (.binary (some ⟨1, 13⟩) .div (.const (some ⟨1, 13⟩) (.number 1))
        (.const (some ⟨1, 15⟩) (.number 0)))) := by
    set_option maxRecDepth 2000 in with_unfolding_all rfl
  have hrun := (Program.runFresh_eq_result hparse ⟨3, 0⟩ true).trans
    (show _ = .error (.error ⟨.divisionByZero, some (.ofPosition ⟨1, 13⟩)⟩) _ by
      with_unfolding_all rfl)
  intro s text args
  have hothers : others args = [text] := by decide +kernel
  have hsource : source s (some text) = .ok text := source_of_missing (by decide) fun _ _ => rfl
  refine ⟨hquiet, hothers, hsource, ?_⟩
  obtain ⟨hreport, -⟩ := ((run_decides ⟨3, 0⟩ hquiet args).2.2 (some text) text hothers hsource).2
    _ _ hrun
  rw [hreport]
  decide +kernel

end Scriptlet.CommandLine
