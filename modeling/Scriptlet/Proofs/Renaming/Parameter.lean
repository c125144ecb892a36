import Scriptlet.Proofs.Renaming.Regions

/-! Scoping is lexical: a parameter of a function can be renamed to a name that the program does
not use, and the program goes on to do the same. -/

namespace Scriptlet

open EvalM

namespace Renaming

variable {ρ : Renaming} {w : List Region}

/-! ### Expressions that belong together -/

/-- What an expression reads, declares or assigns to: a name other than the new one, in the form
that names have in the frame. -/
theorem CodesIn.subject {e e' : Expr} {f f' : Nat} (hc : ρ.CodesIn w e f e' f') {x x' : String}
    (hx : e.ownNames = [x]) (hx' : e'.ownNames = [x']) (hfunc : ∀ p xs body, e ≠ .func p xs body) :
    f = f' ∧ x ≠ ρ.new ∧ ∃ r, w[f]? = some r ∧ r ≠ .unsettled ∧ x' = ρ.nameIn r x := by
  obtain ⟨hf, hnew, hc⟩ := hc
  have hne : x ≠ ρ.new := by
    rintro rfl
    exact hnew (e.ownNames_subset_names (by simp [hx]))
  refine ⟨hf.symm, hne, ?_⟩
  rcases hc with ⟨hr, rfl | he⟩ | ⟨hr, rfl⟩
  · exact ⟨_, hr, by simp, by simpa [hx, nameIn] using hx'.symm⟩
  · refine ⟨_, hr, by simp, ?_⟩
    have hsame : e'.ownNames = e.ownNames := by
      cases he with
      | here | body => exact absurd rfl (hfunc _ _ _)
      | _ => rfl
    simpa [hsame, hx, nameIn] using hx'.symm
  · refine ⟨_, hr, by simp, ?_⟩
    have hmap : (ρ.expr e).ownNames = e.ownNames.map ρ.name := by
      cases e <;> simp [Expr.ownNames, expr]
    simpa [hmap, hx, nameIn] using hx'.symm

theorem CodesIn.pos_eq {e e' : Expr} {f f' : Nat} (hc : ρ.CodesIn w e f e' f') :
    e'.pos = e.pos := by
  obtain ⟨-, -, ⟨-, rfl | he⟩ | ⟨-, rfl⟩⟩ := hc
  · rfl
  · exact he.pos_eq
  · exact pos_expr e

theorem OfParameter.aligned {parts : Expr → Expr → Prop} {e e' : Expr}
    (he : ρ.OfParameter e e')
    (hparts : ∀ a ∈ e.parts, ∀ a', a' = a ∨ ρ.OfParameter a a' → parts a a') :
    Expr.Aligned (fun v v' => v' = v) parts e e' := by
  have hsame {a : Expr} (ha : a ∈ e.parts) : parts a a := hparts a ha a (.inl rfl)
  have hdiff {a a' : Expr} (h : ρ.OfParameter a a') (ha : a ∈ e.parts) : parts a a' :=
    hparts a ha a' (.inr h)
  cases he with
  | here => exact .func
  | body _ => exact .func
  | print h => exact .print (hdiff h (by simp [Expr.parts]))
  | left h => exact .binary _ (hdiff h (by simp [Expr.parts])) (hsame (by simp [Expr.parts]))
  | right h => exact .binary _ (hsame (by simp [Expr.parts])) (hdiff h (by simp [Expr.parts]))
  | test h =>
    exact .cond (hdiff h (by simp [Expr.parts])) (hsame (by simp [Expr.parts]))
      (hsame (by simp [Expr.parts]))
  | yes h =>
    exact .cond (hsame (by simp [Expr.parts])) (hdiff h (by simp [Expr.parts]))
      (hsame (by simp [Expr.parts]))
  | no h =>
    exact .cond (hsame (by simp [Expr.parts])) (hsame (by simp [Expr.parts]))
      (hdiff h (by simp [Expr.parts]))
  | loopTest h => exact .loop (hdiff h (by simp [Expr.parts])) (hsame (by simp [Expr.parts]))
  | loopBody h => exact .loop (hsame (by simp [Expr.parts])) (hdiff h (by simp [Expr.parts]))
  | first h => exact .seq (hdiff h (by simp [Expr.parts])) (hsame (by simp [Expr.parts]))
  | second h => exact .seq (hsame (by simp [Expr.parts])) (hdiff h (by simp [Expr.parts]))
  | init h => exact .declare (hdiff h (by simp [Expr.parts]))
  | rhs h => exact .assign (hdiff h (by simp [Expr.parts]))
  | callee h =>
    refine .call (hdiff h (by simp [Expr.parts])) (List.forall₂_same.mpr fun b hb => ?_)
    exact hsame (by simp [Expr.parts, hb])
  | arg h =>
    refine .call (hsame (by simp [Expr.parts])) (List.rel_append ?_ (.cons ?_ ?_))
    · exact List.forall₂_same.mpr fun c hc => hsame (by simp [Expr.parts, hc])
    · exact hdiff h (by simp [Expr.parts])
    · exact List.forall₂_same.mpr fun c hc => hsame (by simp [Expr.parts, hc])

theorem aligned_expr {parts : Expr → Expr → Prop} {e : Expr}
    (hparts : ∀ a ∈ e.parts, parts a (ρ.expr a)) :
    Expr.Aligned (fun v v' => v' = v) parts e (ρ.expr e) := by
  cases e with
  | call p a as =>
    rw [expr, exprs_eq_map]
    refine .call (hparts a (by simp [Expr.parts])) ?_
    refine List.forall₂_map_right_iff.mpr (List.forall₂_same.mpr fun b hb => ?_)
    exact hparts b (by simp [Expr.parts, hb])
  | const p v => exact .const rfl
  | _ =>
    rw [expr]
    constructor <;> exact hparts _ (by simp [Expr.parts])

theorem CodesIn.aligned {e e' : Expr} {f f' : Nat} (hc : ρ.CodesIn w e f e' f') :
    Expr.Aligned (fun v v' => v' = v) (fun a a' => ρ.CodesIn w a f a' f') e e' := by
  obtain ⟨rfl, hnew, hc⟩ := hc
  have hpart : ∀ a ∈ e.parts, ρ.new ∉ a.names :=
    fun a ha hx => hnew (Expr.names_subset_of_part ha hx)
  rcases hc with ⟨hr, rfl | he⟩ | ⟨hr, rfl⟩
  · exact Expr.aligned_self (fun _ _ _ => rfl) fun a ha => ⟨rfl, hpart a ha, .inl ⟨hr, .inl rfl⟩⟩
  · exact he.aligned fun a ha a' h => ⟨rfl, hpart a ha, .inl ⟨hr, h⟩⟩
  · exact aligned_expr fun a ha => ⟨rfl, hpart a ha, .inr ⟨hr, rfl⟩⟩

/-- What a pair of closures can be, and the region of the frames that their calls make: outside
the parameters are the same, and otherwise all is renamed. A frame directly under an outer one
binds the old name. -/
theorem ClosuresIn.call {c c' : Closure} (hc : ρ.ClosuresIn w c c') :
    c'.frame = c.frame ∧ ∃ q r, w[c.frame]? = some q ∧ c'.params = c.params.map (ρ.nameIn r) ∧
      (r = .outside ∧ q = .outside ∧ (c'.body = c.body ∨ ρ.OfParameter c.body c'.body) ∨
        r = .unsettled ∧ (q = .inside ∨ q = .outside ∧ ρ.old ∈ c.params) ∧
          c'.body = ρ.expr c.body) := by
  obtain ⟨xs, body, f⟩ := c
  obtain ⟨xs', body', f'⟩ := c'
  obtain ⟨hf, -, ⟨hq, he | he⟩ | ⟨hq, he⟩⟩ := hc
  · cases he
    exact ⟨hf, _, .outside, hq, by simp [nameIn], .inl ⟨rfl, rfl, .inl rfl⟩⟩
  · cases he with
    | here hx => exact ⟨hf, _, .unsettled, hq, rfl, .inr ⟨rfl, .inr ⟨rfl, hx⟩, rfl⟩⟩
    | body h => exact ⟨hf, _, .outside, hq, by simp [nameIn], .inl ⟨rfl, rfl, .inr h⟩⟩
  · cases he
    exact ⟨hf, _, .unsettled, hq, rfl, .inr ⟨rfl, .inl rfl, rfl⟩⟩

theorem ClosuresIn.closures {c c' : Closure} (hc : ρ.ClosuresIn w c c') : ρ.Closures c c' := by
  obtain ⟨hf, q, r, -, hxs, ⟨rfl, -, hb⟩ | ⟨rfl, -, hb⟩⟩ := hc.call
  · exact ⟨hf, .inl ⟨by simpa [nameIn] using hxs, hb⟩⟩
  · exact ⟨hf, .inr ⟨hxs, hb⟩⟩

theorem ClosuresIn.texts {c c' : Closure} (hc : ρ.ClosuresIn w c c') :
    ρ.Texts c.text c'.text := by
  obtain ⟨-, ⟨hxs, -⟩ | ⟨hxs, -⟩⟩ := hc.closures
  · rw [Closure.text, Closure.text, hxs]
    exact .same _
  · exact .closure hxs

theorem ClosuresIn.of_codes {p p' : Option Position} {xs xs' : List String} {b b' : Expr}
    {f f' : Nat} (hc : ρ.CodesIn w (.func p xs b) f (.func p' xs' b') f') :
    ρ.ClosuresIn w ⟨xs, b, f⟩ ⟨xs', b', f'⟩ := by
  obtain ⟨hf, hnew, ⟨hr, he | he⟩ | ⟨hr, he⟩⟩ := hc
  · cases he
    exact ⟨hf, hnew, .inl ⟨hr, .inl rfl⟩⟩
  · cases he with
    | here hx => exact ⟨hf, hnew, .inl ⟨hr, .inr (.here hx)⟩⟩
    | body h => exact ⟨hf, hnew, .inl ⟨hr, .inr (.body h)⟩⟩
  · cases he
    exact ⟨hf, hnew, .inr ⟨hr, rfl⟩⟩

/-! ### What is shown -/

theorem Heaps.texts {h k : Heap} (hh : ρ.Heaps w h k) (v : Value) :
    ρ.Texts (h.text v) (k.text v) := by
  cases v with
  | closure id =>
    have hrel := hh.closures id
    simp only [Heap.text]
    cases hc : h.closures[id]? with
    | none =>
      cases hc' : k.closures[id]? with
      | none => exact .same _
      | some c' => simp [hc, hc'] at hrel
    | some c =>
      cases hc' : k.closures[id]? with
      | none => simp [hc, hc'] at hrel
      | some c' =>
        rw [hc, hc', Option.rel_some_some] at hrel
        exact hrel.texts
  | _ => exact .same _

theorem Heaps.described {h k : Heap} (hh : ρ.Heaps w h k) (v : Value) {cause : String → Cause}
    (hc : Cause.Describing cause) :
    ρ.Faults (.ofCause (cause (h.describe v))) (.ofCause (cause (k.describe v))) := by
  cases v with
  | closure id => exact .error (.described hc (hh.texts (.closure id))) none
  | _ => exact .same _

theorem Faults.declaredAgain (x : String) (r : Region) :
    ρ.Faults (.ofCause (.duplicateDeclaration x))
      (.ofCause (.duplicateDeclaration (ρ.nameIn r x))) := by
  have hname : ρ.nameIn r x = x ∨ x = ρ.old ∧ ρ.nameIn r x = ρ.new := by
    by_cases hx : x = ρ.old <;> cases r <;> simp [nameIn, name, hx]
  rcases hname with hx | ⟨rfl, hx⟩
  · rw [hx]
    exact .same _
  · rw [hx]
    exact .error .declaredAgain none

/-! ### Evaluation -/

/-- Evaluation of a program beside that of the program with the parameter renamed. -/
def lockstep (ρ : Renaming) : Lockstep where
  Stage := List Region
  le := Region.Grows
  states w s t := ρ.Heaps w s.heap t.heap ∧
    List.Forall₂ ρ.Texts s.printed.toList t.printed.toList
  values _ v v' := v' = v
  codes := ρ.CodesIn
  closures := ρ.ClosuresIn
  faults := ρ.Faults

/-- Results at the stage where the computations began. -/
theorem lockstep_ok {α β : Type} {Q : List Region → α → β → Prop} {a : α} {b : β} {s t : State}
    (hh : ρ.Heaps w s.heap t.heap) (hp : List.Forall₂ ρ.Texts s.printed.toList t.printed.toList)
    (hQ : Q w a b) : ρ.lockstep.Results w Q (.ok a s) (.ok b t) :=
  ⟨w, Region.grows_refl w, ⟨hh, hp⟩, hQ⟩

theorem lockstep_error {α β : Type} {Q : List Region → α → β → Prop} {φ ψ : Fault} {s t : State}
    (hh : ρ.Heaps w s.heap t.heap) (hp : List.Forall₂ ρ.Texts s.printed.toList t.printed.toList)
    (hf : ρ.Faults φ ψ) : ρ.lockstep.Results w Q (.error φ s) (.error ψ t) :=
  ⟨w, Region.grows_refl w, ⟨hh, hp⟩, hf⟩

theorem lockstep_read {p p' : Option Position} {x x' : String} {f f' : Nat}
    (hc : ρ.CodesIn w (.var p x) f (.var p' x') f') :
    ρ.lockstep.Together w ρ.lockstep.values (read f x) (read f' x') := by
  intro s t ⟨hh, hp⟩
  obtain ⟨rfl, hx, r, hr, hs, rfl⟩ := hc.subject rfl rfl (by simp)
  rw [read_eq, read_eq, hh.resolve?_eq hx hr hs, hh.strict_eq]
  cases hres : s.heap.resolve? f x with
  | some v => exact lockstep_ok hh hp rfl
  | none =>
    rw [hh.nameIn_eq_of_unbound hx hr hs hres]
    cases s.heap.strict f with
    | true => exact lockstep_error hh hp (.same _)
    | false => exact lockstep_ok hh hp rfl

theorem lockstep_print (v : Value) :
    ρ.lockstep.Together w (fun _ _ _ => True) (print v) (print v) := by
  intro s t ⟨hh, hp⟩
  rw [print_eq, print_eq]
  cases v.writable with
  | true =>
    refine lockstep_ok hh ?_ trivial
    simpa using List.rel_append hp (.cons (hh.texts v) .nil)
  | false => exact lockstep_error hh hp (.same _)

theorem lockstep_declare {p p' : Option Position} {x x' : String} {e e' : Expr} {f f' : Nat}
    (hc : ρ.CodesIn w (.declare p x e) f (.declare p' x' e') f') (v : Value) :
    ρ.lockstep.Together w (fun _ _ _ => True) (declare f x v) (declare f' x' v) := by
  intro s t ⟨hh, hp⟩
  obtain ⟨rfl, hx, r, hr, hs, rfl⟩ := hc.subject rfl rfl (by simp)
  rw [declare_eq, declare_eq, hh.binds_eq hr hx]
  cases s.heap.binds f x with
  | true => exact lockstep_error hh hp (.declaredAgain x r)
  | false => exact lockstep_ok (hh.put hr hx v) hp trivial

theorem lockstep_assign {p p' : Option Position} {x x' : String} {e e' : Expr} {f f' : Nat}
    (hc : ρ.CodesIn w (.assign p x e) f (.assign p' x' e') f') (v : Value) :
    ρ.lockstep.Together w (fun _ _ _ => True) (assign f x v) (assign f' x' v) := by
  intro s t ⟨hh, hp⟩
  obtain ⟨rfl, hx, r, hr, hs, rfl⟩ := hc.subject rfl rfl (by simp)
  rw [assign_eq, assign_eq]
  exact lockstep_ok (hh.assign hr hs hx v) hp trivial

theorem lockstep_newClosure {c c' : Closure} (hc : ρ.ClosuresIn w c c') :
    ρ.lockstep.Together w ρ.lockstep.values (newClosure c) (newClosure c') := by
  intro s t ⟨hh, hp⟩
  rw [newClosure_eq, newClosure_eq, hh.closures_size]
  obtain ⟨-, q, r, hq, -⟩ := hc.call
  have hlt : c.frame < s.heap.frames.size := hh.length ▸ (List.getElem?_eq_some_iff.mp hq).1
  exact lockstep_ok (hh.pushClosure hc hlt) hp rfl

/-- Both calls make a frame under the same one, and binding the parameters fails for both or for
none. If all are bound then the frame is settled, and the bodies belong together in it. -/
theorem Heaps.enter {h k h' : Heap} (hh : ρ.Heaps w h k) {c c' : Closure}
    (hc : ρ.ClosuresIn w c c') {vs : List Value} (ha : vs.length = c.params.length)
    {repeated : Option String}
    (hd : Heap.Declares h.frames.size (c.params.zip vs) (h.pushFrame (some c.frame) none)
      repeated h') :
    ∃ r k', Heap.Declares k.frames.size (c'.params.zip vs) (k.pushFrame (some c'.frame) none)
        (repeated.map (ρ.nameIn r)) k' ∧ ρ.Heaps (w ++ [r]) h' k' ∧
      (repeated = none → ∃ r', ρ.Heaps (w ++ [r']) h' k' ∧
        ρ.CodesIn (w ++ [r']) c.body h.frames.size c'.body k.frames.size) := by
  obtain ⟨hframe, q, r, hq, hxs, hregion⟩ := hc.call
  have hpush : ρ.Heaps (w ++ [r]) (h.pushFrame (some c.frame) none)
      (k.pushFrame (some c.frame) none) := by
    refine hh.pushFrame hq ?_
    rcases hregion with ⟨rfl, rfl, -⟩ | ⟨rfl, -⟩
    · exact .inr ⟨rfl, rfl⟩
    · exact .inl rfl
  have hlast (r' : Region) : (w ++ [r'])[h.frames.size]? = some r' := by simp [← hh.length]
  have hnames : ρ.new ∉ c.params := fun hx => hc.2.1 (Expr.ownNames_subset_names _ hx)
  have hbody : ρ.new ∉ c.body.names :=
    fun hx => hc.2.1 (Expr.names_subset_of_part (by simp [Expr.parts]) hx)
  obtain ⟨k', hd', hh'⟩ := hpush.declares (hlast r) hd fun var hvar hx =>
    hnames (hx ▸ (List.of_mem_zip hvar).1)
  refine ⟨r, k', ?_, hh', ?_⟩
  · rw [hframe, hxs, hh.size, List.zip_map_left]
    exact hd'
  rintro rfl
  rw [hh.size]
  rcases hregion with ⟨rfl, rfl, hb⟩ | ⟨rfl, hin, hb⟩
  · exact ⟨.outside, hh', rfl, hbody, .inl ⟨hlast _, hb⟩⟩
  · have hparent : h'.parent? w.length = some c.frame := by
      rw [hd.parent?_eq, Heap.parent?_pushFrame, hh.length, if_pos rfl]
    have hbinds : ρ.old ∈ c.params → h'.binds w.length ρ.old = true := by
      intro hold
      rw [← List.map_fst_zip (Nat.le_of_eq ha.symm)] at hold
      obtain ⟨var, hvar, hx⟩ := List.mem_map.mp hold
      rw [← hx, hh.length]
      exact hd.binds_of_mem (by simp [Heap.pushFrame]) hvar
    refine ⟨.inside, hh'.settle hparent ?_, rfl, hbody, .inr ⟨hlast _, hb⟩⟩
    rcases hin with rfl | ⟨rfl, hold⟩
    · exact .inl hq
    · exact .inr ⟨hq, hbinds hold⟩

theorem lockstep_enter {c c' : Closure} (hc : ρ.ClosuresIn w c c') (vs : List Value) :
    ρ.lockstep.Together w (fun w' f f' => ρ.CodesIn w' c.body f c'.body f')
      (Evaluator.enter c vs) (Evaluator.enter c' vs) := by
  intro s t ⟨hh, hp⟩
  have hlen : c'.params.length = c.params.length := by
    obtain ⟨-, q, r, -, hxs, -⟩ := hc.call
    rw [hxs, List.length_map]
  by_cases ha : vs.length = c.params.length
  case neg =>
    rw [Evaluator.enter_of_arity ha, Evaluator.enter_of_arity (by rwa [hlen]), hlen]
    exact lockstep_error hh hp (.same _)
  obtain ⟨repeated, h', hd⟩ :=
    Heap.Declares.total s.heap.frames.size (c.params.zip vs) (s.heap.pushFrame (some c.frame) none)
  obtain ⟨r, k', hd', hh', hbody⟩ := hh.enter hc ha hd
  obtain ⟨notices, hrun⟩ := hd.enter ha
  obtain ⟨notices', hrun'⟩ := hd'.enter (by rwa [hlen])
  rw [hrun, hrun']
  cases repeated with
  | some x =>
    exact ⟨w ++ [r], Region.grows_append w r, ⟨hh', hp⟩, .declaredAgain x r⟩
  | none =>
    obtain ⟨r', hh', hcode⟩ := hbody rfl
    exact ⟨w ++ [r'], Region.grows_append w r', ⟨hh', hp⟩, hcode⟩

theorem lockstep_laws (ρ : Renaming) : ρ.lockstep.Laws where
  le_refl := Region.grows_refl
  le_trans h h' := h.trans h'
  values_mono _ hv := hv
  codes_mono hw hc := hc.mono hw
  closures_mono hw hc := CodesIn.mono hw hc
  faults_refl _ := .same _
  faults_stamp hc hf := hc.pos_eq ▸ hf.stamp _
  aligned hc := hc.aligned
  plain _ := rfl
  alike := by
    intro w v v' hv
    cases hv
    cases v <;> simp
  eq_iff := by
    rintro w a a' b b' rfl rfl
    rfl
  described := by
    rintro w s t v v' cause ⟨hh, -⟩ rfl hc
    exact hh.described _ hc
  closure := by
    intro w s t v v' hs hv
    cases hv
    cases v with
    | closure id => exact hs.1.closures id
    | _ => exact .none
  read hc := lockstep_read hc
  print := by
    rintro w v v' rfl
    exact lockstep_print _
  declare := by
    rintro w p x e f p' x' e' f' v v' hc rfl
    exact lockstep_declare hc _
  assign := by
    rintro w p x e f p' x' e' f' v v' hc rfl
    exact lockstep_assign hc _
  func hc := lockstep_newClosure (.of_codes hc)
  enter := by
    intro w c c' vs vs' hc hvs
    have heq : List.Forall₂ Eq vs' vs := hvs.flip
    rw [List.forall₂_eq_eq_eq] at heq
    subst heq
    exact lockstep_enter hc _

/-- The heap of a new global frame, beside itself. -/
theorem heaps_global (ρ : Renaming) (strict : Bool) :
    ρ.Heaps [.outside] (Heap.empty.pushFrame none (some strict))
      (Heap.empty.pushFrame none (some strict)) := by
  have hparent (f : Nat) : (Heap.empty.pushFrame none (some strict)).parent? f = none := by
    rw [Heap.parent?_pushFrame]
    split <;> simp [Heap.parent?, Heap.empty]
  constructor
  case ordered =>
    refine ⟨fun hp => ?_, fun hc => ?_⟩
    · simp [hparent] at hp
    · simp [Heap.pushFrame, Heap.empty] at hc
  case length => rfl
  case size => rfl
  case fresh => exact fun f => (Heap.binds_pushFrame ..).trans (by simp [Heap.binds, Heap.empty])
  case outer => exact fun _ hp => by simp [hparent] at hp
  case frames =>
    intro f r hr
    obtain ⟨rfl, rfl⟩ := Region.of_append (w := []) hr |>.resolve_left (by simp)
    simp [frameIn]
  case inner =>
    intro f hf
    simpa using Region.of_append (w := []) hf
  case closures => exact fun id => by simp [Heap.pushFrame, Heap.empty]

theorem forall₂_toList {α : Type} {R : α → α → Prop} {xs ys : Array α} (hsize : ys.size = xs.size)
    (h : ∀ {i : Nat} {x y}, xs[i]? = some x → ys[i]? = some y → R x y) :
    List.Forall₂ R xs.toList ys.toList := by
  refine List.forall₂_iff_get.mpr ⟨by simp [hsize], fun i hx hy => h (i := i) ?_ ?_⟩ <;> simp

/-- What belongs together at the end shows the same. -/
theorem states_of_lockstep {s t : State} (hw : w[0]? = some .outside)
    (hs : ρ.lockstep.states w s t) : ρ.States s t := by
  obtain ⟨hh, hp⟩ := hs
  constructor
  case printed => exact hp
  case global => simpa [frameIn] using hh.frames hw
  case frames =>
    refine forall₂_toList hh.size fun hf hf' => ?_
    obtain ⟨r, hr⟩ := hh.region hf
    rw [hh.frames hr, hf] at hf'
    cases hf'
    cases r with
    | outside => exact .inl rfl
    | inside | unsettled => exact .inr rfl
  case closures =>
    refine forall₂_toList hh.closures_size fun {id c c'} hc hc' => ?_
    have hrel := hh.closures id
    rw [hc, hc', Option.rel_some_some] at hrel
    exact hrel.closures

theorem results_of_lockstep {x y : EStateM.Result Fault State Value}
    (hw : w[0]? = some .outside) (hr : ρ.lockstep.Results w ρ.lockstep.values x y) :
    ρ.Results x y := by
  cases x with
  | ok v s =>
    cases y with
    | error ψ t => exact hr.elim
    | ok v' t =>
      obtain ⟨w', hgrows, hs, hv⟩ := hr
      cases hv
      exact .value v (states_of_lockstep (hgrows hw (by simp)) hs)
  | error φ s =>
    cases y with
    | ok v t => exact hr.elim
    | error ψ t =>
      obtain ⟨w', hgrows, hs, hf⟩ := hr
      exact .fault hf.kind?_eq hf (states_of_lockstep (hgrows hw (by simp)) hs)

end Renaming

/-- A program and the same program with a parameter of one of its functions renamed, to a name
that occurs nowhere, evaluate alike in new environments: to the same value, or to faults that say
the same. They print as many lines, and all frames, closures and texts are the same up to the
name. -/
theorem evalFresh_rename_parameter (ρ : Renaming) {e e' : Expr} (he : ρ.OfParameter e e')
    (hnew : ρ.new ∉ e.names) (limits : Limits) (strict : Bool) :
    ρ.Results (limits.evalFresh strict e .empty) (limits.evalFresh strict e' .empty) := by
  unfold Limits.evalFresh
  have hframe := newFrame_eq none (some strict) State.empty
  rw [bind_of_ok hframe, bind_of_ok hframe]
  have hcode : ρ.CodesIn [.outside] e 0 e' 0 := ⟨rfl, hnew, .inl ⟨rfl, .inr he⟩⟩
  have hstart : ρ.lockstep.states [.outside] ⟨Heap.empty.pushFrame none (some strict), #[], #[]⟩
      ⟨Heap.empty.pushFrame none (some strict), #[], #[]⟩ := ⟨ρ.heaps_global strict, .nil⟩
  exact Renaming.results_of_lockstep rfl
    (ρ.lockstep_laws.eval limits.rounds limits.depth hcode _ _ hstart)

/-- A function with a parameter `a` is itself called `a`. It returns one that counts up the
parameter, and all of it runs after the parameter is renamed. -/
theorem rename_parameter_of_counter :
    let ρ : Renaming := ⟨"a", "b"⟩
    let count (x : String) : Expr :=
      .func none ["n"] (.assign none x (.binary none .add (.var none x) (.var none "n")))
    let program (x : String) : Expr :=
      .seq none (.declare none "a" (.func none [x] (count x)))
        (.seq none (.print none (.var none "a"))
          (.call none (.call none (.var none "a") [.const none (.number 2)])
            [.const none (.number 3)]))
    ρ.OfParameter (program "a") (program "b") ∧ ρ.new ∉ (program "a").names ∧
      ∀ limits strict, ρ.Results (Limits.evalFresh limits strict (program "a") .empty)
        (Limits.evalFresh limits strict (program "b") .empty) := by
  intro ρ count program
  have he : ρ.OfParameter (program "a") (program "b") := .first (.init (.here (by decide)))
  have hnew : ρ.new ∉ (program "a").names := by decide
  exact ⟨he, hnew, evalFresh_rename_parameter ρ he hnew⟩

end Scriptlet
