import Scriptlet.Proofs.CommandLine.Outcome
import Scriptlet.Proofs.Scanning.Returns
import Scriptlet.Proofs.Text.Encoding

/-! Programs in files. Main statement: a file is run as the text it stores with its line ends
unified, which makes no difference to a text whose carriage returns all stand before line feeds. -/

namespace Scriptlet

open Text

/-- Text is run by what it is read as. -/
theorem Program.runFresh_congr {source source' : String} (h : parse source' = parse source)
    (limits : Limits) (strict : Bool) :
    runFresh limits strict source' = runFresh limits strict source := by
  simp only [runFresh, parseM, h]

namespace CommandLine

/-- The report on a program text that is given without options. -/
def report (limits : Limits) (s : Surroundings) (text : String) : Report :=
  ofRun s.vars (s.trace text) (Settings.recursionLimit? s.vars)
    (Program.runFresh limits (Settings.strictUnbound s.vars) text .empty)

/-- The report on a recursion limit that is not taken. -/
def refusal (s : Surroundings) (fault : Settings.LimitFault) : Report :=
  ⟨.abort (.limitRefused fault), "", "", Settings.recursionLimit? s.vars⟩

/-! ### Traces -/

section Traces

variable (vars : Settings.Variables) (trace trace' : Error → String) (limit : Option Int)
  (r : EStateM.Result Fault State Value)

/-- A trace is seen in the error output only. -/
theorem ofRun_trace : ofRun vars trace limit r =
    { ofRun vars trace' limit r with errors := (ofRun vars trace limit r).errors } := by
  cases r with
  | ok v st =>
    by_cases hv : v.writable = true
    · simp only [ofRun, if_pos hv]
    · simp only [ofRun, if_neg hv]
  | error fault st => cases fault <;> rfl

theorem ofRun_of_not_traced (h : Settings.traceErrors vars = false) :
    ofRun vars trace limit r = ofRun vars trace' limit r := by
  cases r with
  | ok v st => rfl
  | error fault st =>
    cases fault with
    | error e => simp [ofRun, errorText, h]
    | _ => rfl

/-- Only an error of the program has a trace. -/
theorem ofRun_of_ending_ne (h : (ofRun vars trace' limit r).ending ≠ .exit 1) :
    ofRun vars trace limit r = ofRun vars trace' limit r := by
  cases r with
  | ok v st => rfl
  | error fault st =>
    cases fault with
    | error e => exact absurd rfl h
    | _ => rfl

end Traces

/-! ### Texts and files -/

variable {limits : Limits} {s : Surroundings} {arg text file : String} {path : Path}

theorem others_singleton (hoption : arg ≠ strictOption) : others [arg] = (some arg).toList := by
  simp [others, hoption]

theorem run_argument (hoption : arg ≠ strictOption) (hlimit : s.limitFault? = none)
    (hsource : source s (some arg) = .ok text) : run limits s [arg] = report limits s text := by
  have hstrict : strictness s.vars [arg] = Settings.strictUnbound s.vars := by
    simp [strictness, hoption.symm]
  rw [run_of_source limits s (others_singleton hoption) hlimit hsource, hstrict, report]

/-- A file is read as the text it was stored from, but for the line ends. -/
theorem source_of_file (h : file ≠ "-") (hpath : Path.ofText? file = some path)
    (hbytes : s.lookup path = .file (encode text)) :
    source s (some file) = .ok (storedText text.toList) := by
  simp only [source_of_ne_dash h, argumentSource, hpath, hbytes, decode_encode]

theorem storedText_of_not_mem (h : '\r' ∉ text.toList) : storedText text.toList = text := by
  have hpaired : Paired text.toList := fun before after heq => by simp [heq] at h
  rw [storedText, hpaired.unifyNewlines_eq, withoutReturns_eq_self h, String.ofList_toList]

theorem runFresh_storedText (h : Paired text.toList) (limits : Limits) (strict : Bool) :
    Program.runFresh limits strict (storedText text.toList) =
      Program.runFresh limits strict text := by
  refine Program.runFresh_congr ?_ limits strict
  rw [storedText, h.unifyNewlines_eq, Program.parse_withoutReturns h]

/-- Without carriage returns that stand alone, a stored text and the text itself are reported on
alike, but for the traces of errors. -/
theorem report_storedText (limits : Limits) (s : Surroundings) (h : Paired text.toList) :
    report limits s (storedText text.toList) = { report limits s text with
        errors := (report limits s (storedText text.toList)).errors } ∧
      (Settings.traceErrors s.vars = false ∨ '\r' ∉ text.toList ∨
          (report limits s text).ending ≠ .exit 1 →
        report limits s (storedText text.toList) = report limits s text) := by
  have hreport : report limits s (storedText text.toList) =
      ofRun s.vars (s.trace (storedText text.toList)) (Settings.recursionLimit? s.vars)
        (Program.runFresh limits (Settings.strictUnbound s.vars) text .empty) := by
    rw [report, runFresh_storedText h]
  constructor
  · rw [hreport]
    exact ofRun_trace ..
  · rintro (htrace | hreturn | hending)
    · rw [hreport]
      exact ofRun_of_not_traced _ _ _ _ _ htrace
    · rw [storedText_of_not_mem hreturn]
    · rw [hreport]
      exact ofRun_of_ending_ne _ _ _ _ _ hending

/-- Nothing is set, the working directory holds a file `f` that stores a text, and traces show the
text that is run. -/
def besideFile (text : String) : Surroundings :=
  ⟨fun _ => none, "", Directory.lookup [(["f"], encode text)], some 2, fun text _ => text⟩

theorem ofText?_f : Path.ofText? "f" = some ⟨0, ["f"]⟩ := by
  have hsplit : "f".splitOn "/" = ["f"] := by
    rw [String.splitOn, if_neg (by decide)]
    rw [String.splitOnAux, if_neg (by decide), if_neg (by decide)]
    rw [String.splitOnAux, if_pos (by decide)]
    decide +kernel
  rw [Path.ofText?, Path.partsOf, hsplit]
  decide +kernel

theorem lookup_f (text : String) : (besideFile text).lookup ⟨0, ["f"]⟩ = .file (encode text) := by
  have hshort : ¬ Directory.pathLimit < (Path.mk 0 ["f"]).text.utf8ByteSize := by decide +kernel
  simp only [besideFile, Directory.lookup, if_neg hshort]
  rfl

/-- Errors of a text that is stored in `f` are traced. -/
def tracedBesideFile (text : String) : Surroundings :=
  { besideFile text with vars := fun name => if name = Settings.traceName then some "1" else none }

theorem ofText?_lines : Path.ofText? "(\r\n" = some ⟨0, ["(\r\n"]⟩ := by
  have hsplit : "(\r\n".splitOn "/" = ["(\r\n"] := by
    rw [String.splitOn, if_neg (by decide)]
    iterate 3 rw [String.splitOnAux, if_neg (by decide), if_neg (by decide)]
    rw [String.splitOnAux, if_pos (by decide)]
    decide +kernel
  rw [Path.ofText?, Path.partsOf, hsplit]
  decide +kernel

/-- A trace that shows the text shows its carriage returns too, which a file has lost. -/
theorem errors_traced :
    (run ⟨3, 0⟩ (tracedBesideFile "(\r\n") ["(\r\n"]).errors =
        "(\r\nerror[syntax]: Unexpected end of input (line 1, col 1)\n" ∧
      (run ⟨3, 0⟩ (tracedBesideFile "(\r\n") ["f"]).errors =
        "(\nerror[syntax]: Unexpected end of input (line 1, col 1)\n" := by
  have hlimit : (tracedBesideFile "(\r\n").limitFault? = none := by decide +kernel
  have hmissing : (tracedBesideFile "(\r\n").lookup ⟨0, ["(\r\n"]⟩ = .missing := by
    decide +kernel
  have hsource : source (tracedBesideFile "(\r\n") (some "(\r\n") = .ok "(\r\n" :=
    source_of_missing (by decide) fun path h => by
      rw [← Option.some.inj (ofText?_lines.symm.trans h), hmissing]
  have hfile : source (tracedBesideFile "(\r\n") (some "f") = .ok (storedText "(\r\n".toList) :=
    source_of_file (by decide) ofText?_f (lookup_f "(\r\n")
  rw [run_argument (by decide) hlimit hsource, run_argument (by decide) hlimit hfile]
  decide +kernel

end CommandLine

end Scriptlet
