import Scriptlet.Heap

/-! Single frames: what it takes for a frame to bind a name, and frames with their names and
values replaced. -/

namespace Scriptlet

namespace Frame

/-- A frame gives a value to exactly the names that it binds. -/
theorem get?_isSome (f : Frame) (name : String) : (f.get? name).isSome = f.binds name := by
  simp only [get?, binds, names]
  induction f.vars with
  | nil => rfl
  | cons var vars ih =>
    obtain ⟨x, v⟩ := var
    simp only [List.lookup_cons, List.map_cons, List.contains_cons]
    cases h : name == x <;> simp [ih]

@[simp] theorem put_parent (f : Frame) (name : String) (v : Value) :
    (f.put name v).parent = f.parent := by
  unfold put
  split <;> rfl

@[simp] theorem put_strict (f : Frame) (name : String) (v : Value) :
    (f.put name v).strict = f.strict := by
  unfold put
  split <;> rfl

/-- The names of a frame after one was given a value. A name that is new goes last. -/
theorem names_put (f : Frame) (name : String) (v : Value) :
    (f.put name v).names = if f.binds name then f.names else f.names ++ [name] := by
  unfold put
  split
  case isFalse => simp [names]
  case isTrue =>
    simp only [names, List.map_map]
    refine List.map_congr_left fun var _ => ?_
    by_cases hvar : var.1 = name <;> simp [hvar]

/-- Giving a name a value makes the frame bind it and takes no name away. -/
theorem binds_put (f : Frame) (name other : String) (v : Value) :
    (f.put name v).binds other = (other == name || f.binds other) := by
  rw [binds, names_put]
  split
  case isFalse =>
    rw [Bool.eq_iff_iff]
    simp [binds, or_comm]
  case isTrue h =>
    cases ho : other == name with
    | false => simp [binds]
    | true =>
      obtain rfl := eq_of_beq ho
      simpa [binds] using h

theorem mem_vars_put {f : Frame} {name : String} {v : Value} {var : String × Value}
    (h : var ∈ (f.put name v).vars) : var ∈ f.vars ∨ var = (name, v) := by
  unfold put at h
  split at h
  · obtain ⟨old, hold, rfl⟩ := List.mem_map.mp h
    split
    · exact .inr rfl
    · exact .inl hold
  · simpa using h

theorem mem_vars_of_get? {f : Frame} {name : String} {v : Value} (h : f.get? name = some v) :
    (name, v) ∈ f.vars := by
  obtain ⟨parent, strict, vars⟩ := f
  simp only [get?] at h ⊢
  induction vars with
  | nil => cases h
  | cons var vars ih =>
    rw [List.lookup_cons] at h
    split at h
    · next hx =>
      obtain rfl := eq_of_beq hx
      cases h
      exact List.mem_cons_self
    · exact List.mem_cons_of_mem _ (ih h)

/-- The frame with every name and every value replaced. -/
def map (name : String → String) (value : Value → Value) (f : Frame) : Frame :=
  { f with vars := f.vars.map (Prod.map name value) }

section Map

variable {name : String → String} {value : Value → Value} {f : Frame} {x : String}

@[simp] theorem map_parent : (f.map name value).parent = f.parent := rfl

@[simp] theorem map_strict : (f.map name value).strict = f.strict := rfl

@[simp] theorem map_no_vars {parent : Option Nat} {strict : Bool} :
    (⟨parent, strict, []⟩ : Frame).map name value = ⟨parent, strict, []⟩ := rfl

theorem map_eq_self (h : ∀ var ∈ f.vars, value var.2 = var.2) : f.map id value = f := by
  obtain ⟨parent, strict, vars⟩ := f
  have hvars : vars.map (Prod.map id value) = vars.map id :=
    List.map_congr_left fun var hvar => Prod.ext rfl (h var hvar)
  simp [map, hvars]

@[simp] theorem names_map : (f.map name value).names = f.names.map name := by
  simp [names, map]

/-- A name that is taken for no other name of the frame is bound as before. -/
theorem binds_map (hx : ∀ y ∈ f.names, name y = name x ↔ y = x) :
    (f.map name value).binds (name x) = f.binds x := by
  rw [Bool.eq_iff_iff]
  simp only [binds, names_map, List.contains_iff_mem, List.mem_map]
  constructor
  · rintro ⟨y, hy, h⟩
    rwa [← (hx y hy).mp h]
  · exact fun h => ⟨x, h, rfl⟩

theorem get?_map (hx : ∀ y ∈ f.names, name y = name x ↔ y = x) :
    (f.map name value).get? (name x) = (f.get? x).map value := by
  obtain ⟨parent, strict, vars⟩ := f
  simp only [names, map, get?] at hx ⊢
  induction vars with
  | nil => rfl
  | cons var vars ih =>
    simp only [List.map_cons, List.forall_mem_cons] at hx
    have hbeq : (name x == name var.1) = (x == var.1) := by
      rw [Bool.eq_iff_iff, beq_iff_eq, beq_iff_eq, eq_comm, hx.1, eq_comm]
    rw [List.map_cons, List.lookup_cons, List.lookup_cons, ih hx.2, Prod.map_fst, hbeq]
    cases x == var.1 <;> rfl

theorem put_map (hx : ∀ y ∈ f.names, name y = name x ↔ y = x) (v : Value) :
    (f.map name value).put (name x) (value v) = (f.put x v).map name value := by
  unfold put
  rw [binds_map hx]
  split
  · simp only [map, List.map_map, Frame.mk.injEq, true_and]
    refine List.map_congr_left fun var hvar => ?_
    have hiff := hx var.1 (List.mem_map_of_mem hvar)
    by_cases h : var.1 = x <;> simp [h, hiff]
  · simp [map]

end Map

end Frame

end Scriptlet
