import Scriptlet.Proofs.Concatenation.Parse
import Scriptlet.Proofs.Evaluation.Rows

/-! How texts run that are put together. Main statement: two texts with a separator on a line
between them are one program that runs as the first and then the second, which is further down. -/

namespace Scriptlet

/-! ### Endings with positions elsewhere -/

theorem finished_relocateResult_iff {g : Relocation} {r : EStateM.Result Fault State Value} :
    Finished (relocateResult g r) ↔ Finished r := by
  cases r with
  | ok v s => simp [relocateResult, finished_ok]
  | error fault s => simp only [relocateResult, finished_error_iff, Fault.gaveUp_relocate]

/-- An evaluation with positions elsewhere ends as it would, with positions elsewhere. -/
theorem Expr.ends_relocate_iff {g : Relocation} {e : Expr} {f : Nat} {s : State}
    {r : EStateM.Result Fault State Value} :
    (e.relocate g).Ends f (s.relocate g) r ↔ ∃ r₀, e.Ends f s r₀ ∧ r = relocateResult g r₀ := by
  constructor
  · rintro ⟨hfinished, rounds, depth, rfl⟩
    rw [evalWithin_relocate] at hfinished ⊢
    exact ⟨_, ⟨finished_relocateResult_iff.mp hfinished, rounds, depth, rfl⟩, rfl⟩
  · rintro ⟨r₀, ⟨hfinished, rounds, depth, rfl⟩, rfl⟩
    exact ⟨finished_relocateResult_iff.mpr hfinished, rounds, depth,
      evalWithin_relocate g rounds depth e f s⟩

/-! ### Positions of two texts -/

namespace Position

/-- The positions of two texts, told apart. Every position is either one with a mark, on an odd
line, or one without, on an even line. -/
def mark (own : Bool) (p : Position) : Position := ⟨2 * p.line + own.toNat, p.column⟩

/-- The position without its mark. If it had one it is some lines further down. -/
def settle (n : Nat) (p : Position) : Position := ⟨p.line / 2 + p.line % 2 * n, p.column⟩

theorem settle_comp_mark_true (n : Nat) : settle n ∘ mark true = down n := by
  funext p
  simp only [Function.comp_apply, settle, mark, down, Bool.toNat_true]
  congr 1
  have hmod : (2 * p.line + 1) % 2 = 1 := by omega
  rw [hmod]
  omega

theorem settle_comp_mark_false (n : Nat) : settle n ∘ mark false = id := by
  funext p
  simp [settle, mark]

end Position

namespace Expr

/-- How an expression ends if its positions bear marks and those of closures from before do not. -/
def EndsMarked (e : Expr) (f : Nat) (s : State) (r : EStateM.Result Fault State Value) : Prop :=
  (e.relocate (.ofMap (Position.mark true))).Ends f (s.relocate (.ofMap (Position.mark false))) r

/-- `r` and `r'` are one ending of an expression, but that in `r'` what is placed at a position of
the expression is some lines further down. What is placed in a closure from before is not. -/
def EndsLowered (e : Expr) (n f : Nat) (s : State)
    (r r' : EStateM.Result Fault State Value) : Prop :=
  ∃ marked, e.EndsMarked f s marked ∧
    r = relocateResult (.ofMap (Position.settle 0)) marked ∧
    r' = relocateResult (.ofMap (Position.settle n)) marked

variable {e : Expr} {f : Nat} {s : State} {r : EStateM.Result Fault State Value}

theorem ends_relocate_down_iff {n : Nat} :
    (e.relocate (.ofMap (Position.down n))).Ends f s r ↔
      ∃ marked, e.EndsMarked f s marked ∧
        r = relocateResult (.ofMap (Position.settle n)) marked := by
  unfold EndsMarked
  rw [← ends_relocate_iff, relocate_relocate, State.relocate_relocate,
    Position.settle_comp_mark_true, Position.settle_comp_mark_false, State.relocate_id]

theorem ends_iff_marked : e.Ends f s r ↔
    ∃ marked, e.EndsMarked f s marked ∧
      r = relocateResult (.ofMap (Position.settle 0)) marked := by
  have h := @ends_relocate_down_iff e f s r 0
  rwa [Position.down_zero, relocate_id] at h

theorem Ends.exists_lowered (he : e.Ends f s r) (n : Nat) :
    ∃ r', e.EndsLowered n f s r r' ∧ (e.relocate (.ofMap (Position.down n))).Ends f s r' := by
  obtain ⟨marked, hmarked, rfl⟩ := ends_iff_marked.mp he
  exact ⟨_, ⟨marked, hmarked, rfl, rfl⟩, ends_relocate_down_iff.mpr ⟨marked, hmarked, rfl⟩⟩

theorem Ends.of_lowered {n : Nat} (he : (e.relocate (.ofMap (Position.down n))).Ends f s r) :
    ∃ r₀, e.Ends f s r₀ := by
  obtain ⟨marked, hmarked, -⟩ := ends_relocate_down_iff.mp he
  exact ⟨_, ends_iff_marked.mpr ⟨marked, hmarked, rfl⟩⟩

theorem ends_const_iff {pos : Option Position} {v : Value} :
    (Expr.const pos v).Ends f s r ↔ r = .ok v s := by
  constructor
  · rintro ⟨hfinished, rounds, depth, rfl⟩
    cases depth with
    | zero => exact absurd (hfinished _ _ rfl) (by simp [Fault.gaveUp])
    | succ depth => rfl
  · rintro rfl
    exact ⟨finished_ok v s, 0, 1, rfl⟩

theorem isRow_relocate (g : Relocation) (e : Expr) : (e.relocate g).isRow = e.isRow := by
  cases e <;> rfl

end Expr

/-! ### Texts that are put together -/

namespace Program

/-- How the run of a text in a frame ends if the limits are high enough for it to end. -/
def Ends (source : String) (f : Nat) (s : State) (r : EStateM.Result Fault State Value) : Prop :=
  Finished r ∧ ∃ limits, runIn limits f none source s = r

variable {source source₁ source₂ : String} {e e₁ e₂ : Expr} {f : Nat} {s : State}
  {r : EStateM.Result Fault State Value}

theorem ends_iff_of_parse (hp : parse source = .ok e) : Ends source f s r ↔ e.Ends f s r := by
  have hrun (limits : Limits) :
      runIn limits f none source s = evalWithin limits.rounds limits.depth e f s := by
    rw [runIn_of_ok hp]
    rfl
  constructor
  · rintro ⟨hfinished, limits, h⟩
    exact ⟨hfinished, limits.rounds, limits.depth, by rw [← hrun, h]⟩
  · rintro ⟨hfinished, rounds, depth, h⟩
    exact ⟨hfinished, ⟨depth, rounds⟩, by rw [hrun, h]⟩

/-- Two texts are put together as one program, which ends as the first text and the second one
further down do. -/
theorem exists_parse_joined (h₁ : parse source₁ = .ok e₁) (h₂ : parse source₂ = .ok e₂)
    (hs : HasStatement source₂) :
    ∃ e, parse (joined source₁ source₂) = .ok e ∧ ∀ f s r, e.Ends f s r ↔
      Expr.Then (e₁.Ends f s)
        ((e₂.relocate (.ofMap (Position.down (source₁.toList.count '\n' + 2)))).Ends f) r := by
  obtain ⟨es₁, hes₁, rfl⟩ := parse_iff_statements.mp h₁
  obtain ⟨es₂, hes₂, rfl⟩ := parse_iff_statements.mp h₂
  refine ⟨_, parse_iff_statements.mpr ⟨_, hes₁.joined hes₂, rfl⟩, fun f s r => ?_⟩
  cases es₂ with
  | nil => exact absurd rfl (hes₂.ne_nil_iff.mpr hs)
  | cons second others =>
    have hsecond := hes₂.isRow_eq_false second List.mem_cons_self
    rw [← Expr.isRow_relocate] at hsecond
    cases es₁ with
    | nil => simp [Expr.Then, Expr.ends_const_iff, Expr.sequence?, Expr.relocate_sequence]
    | cons first rest =>
      have hrest := (List.forall_mem_cons.mp hes₁.isRow_eq_false).2
      simpa [Expr.sequence?, Expr.relocate_sequence] using Expr.ends_sequence_append hrest hsecond

/-- Two texts that are accepted, with a separator on a line between them, are one program if the
second has a statement. In any frame and state, where no limit is met, it runs as the first text and
then the second. It fails as the first text does, error, printed text and frames alike; where the
first text leaves a state, it ends as the second does from there, but that the positions of the
second text are further down by the lines of the first and one more. It ends in no other case and in
no other way. -/
theorem joined_runs_in_turn {source₁ source₂ : String} {e₁ e₂ : Expr}
    (h₁ : parse source₁ = .ok e₁) (h₂ : parse source₂ = .ok e₂) (hs : HasStatement source₂) :
    (∃ e, parse (joined source₁ source₂) = .ok e) ∧ ∀ f s,
      (∀ fault s', Ends source₁ f s (.error fault s') →
        Ends (joined source₁ source₂) f s (.error fault s')) ∧
      (∀ v s' r, Ends source₁ f s (.ok v s') → Ends source₂ f s' r →
        ∃ r', e₂.EndsLowered (source₁.toList.count '\n' + 2) f s' r r' ∧
          Ends (joined source₁ source₂) f s r') ∧
      (∀ r, Ends (joined source₁ source₂) f s r →
        (∃ fault s', Ends source₁ f s (.error fault s')) ∨
          ∃ v s' r₂, Ends source₁ f s (.ok v s') ∧ Ends source₂ f s' r₂) ∧
      ∀ r r', Ends (joined source₁ source₂) f s r →
        Ends (joined source₁ source₂) f s r' → r = r' := by
  obtain ⟨e, hparse, hends⟩ := exists_parse_joined h₁ h₂ hs
  refine ⟨⟨e, hparse⟩, fun f s => ?_⟩
  simp only [ends_iff_of_parse h₁, ends_iff_of_parse h₂, ends_iff_of_parse hparse]
  refine ⟨?_, ?_, ?_, ?_⟩
  · intro fault s' hfails
    exact (hends f s _).mpr (.inl ⟨fault, s', hfails, rfl⟩)
  · intro v s' r hfirst hsecond
    obtain ⟨r', hlowered, hends'⟩ := hsecond.exists_lowered (source₁.toList.count '\n' + 2)
    exact ⟨r', hlowered, (hends f s r').mpr (.inr ⟨v, s', hfirst, hends'⟩)⟩
  · intro r hr
    obtain ⟨fault, s', hfails, -⟩ | ⟨v, s', hfirst, hsecond⟩ := (hends f s r).mp hr
    · exact .inl ⟨fault, s', hfails⟩
    · obtain ⟨r₂, hr₂⟩ := hsecond.of_lowered
      exact .inr ⟨v, s', r₂, hfirst, hr₂⟩
  · intro r r' hr hr'
    exact hr.unique hr'

/-- A comment at the end of the first text does not reach into the second one, where the position
of this division goes down from the first line to the fourth. -/
theorem division_lowered_behind_comment :
    let source₁ := "var x=0\n//"
    let source₂ := "1/x"
    let e₁ : Expr := .declare (some ⟨1, 1⟩) "x" (.const (some ⟨1, 7⟩) (.number 0))
    let e₂ : Expr := .binary (some ⟨1, 1⟩) .div (.const (some ⟨1, 1⟩) (.number 1))
      (.var (some ⟨1, 3⟩) "x")
    let s : State := ⟨⟨#[⟨none, true, [("x", .number 0)]⟩], #[]⟩, #[], #[]⟩
    parse source₁ = .ok e₁ ∧ parse source₂ = .ok e₂ ∧ HasStatement source₂ ∧
      Ends source₁ 0 (.fresh true) (.ok (.number 0) s) ∧
      Ends source₂ 0 s (.error (.error ⟨.divisionByZero, some (.ofPosition ⟨1, 1⟩)⟩) s) ∧
      Ends (joined source₁ source₂) 0 (.fresh true)
        (.error (.error ⟨.divisionByZero, some (.ofPosition ⟨4, 1⟩)⟩) s) := by
  refine (fun h₁ h₂ hs => ⟨h₁, h₂, hs, ?run⟩) ?parse₁ ?parse₂ ?statement
  case parse₁ => set_option maxRecDepth 2000 in with_unfolding_all rfl
  case parse₂ => set_option maxRecDepth 2000 in with_unfolding_all rfl
  case statement =>
    have htokens : (Scan.ofText "1/x".toList).tokens =
        [⟨.number "1", ⟨1, 1⟩⟩, ⟨.operator .div, ⟨1, 2⟩⟩, ⟨.name "x", ⟨1, 3⟩⟩] := by
      with_unfolding_all rfl
    rw [HasStatement, htokens]
    exact ⟨_, List.mem_cons_self, by simp⟩
  refine (fun hfirst hsecond => ⟨hfirst, hsecond, ?joined⟩) ?first ?second
  case first => exact (ends_iff_of_parse h₁).mpr ⟨finished_ok _ _, 0, 2, by with_unfolding_all rfl⟩
  case second =>
    exact (ends_iff_of_parse h₂).mpr ⟨finished_error_iff.mpr rfl, 0, 2, by with_unfolding_all rfl⟩
  obtain ⟨r, ⟨marked, hmarked, -, rfl⟩, hr⟩ :=
    ((joined_runs_in_turn h₁ h₂ hs).2 0 _).2.1 _ _ _ hfirst hsecond
  -- the first line is the third one with a mark
  have hthird : marked = .error (.error ⟨.divisionByZero, some (.ofPosition ⟨3, 1⟩)⟩) _ :=
    hmarked.unique ⟨finished_error_iff.mpr rfl, 0, 2, by with_unfolding_all rfl⟩
  rw [hthird] at hr
  with_unfolding_all exact hr

end Program

end Scriptlet
