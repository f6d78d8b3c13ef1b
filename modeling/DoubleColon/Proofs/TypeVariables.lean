import DoubleColon.Substitution

/-!
# The type variables of a type

What a substitution makes of a type depends on what it makes of the variables that occur in it,
and on nothing else.
-/

set_option autoImplicit false

namespace DoubleColon

namespace Ty

mutual

def vars : Ty → List TypeVar
  | .var v => [v]
  | .cls _ args => varsAll args
  | .array elem => vars elem
  | .wildUpper b | .wildLower b => vars b
  | .inter parts => varsAll parts
  | _ => []

def varsAll : List Ty → List TypeVar
  | [] => []
  | t :: rest => vars t ++ varsAll rest

end

@[simp] theorem mem_varsAll {v : TypeVar} {l : List Ty} : v ∈ varsAll l ↔ ∃ t ∈ l, v ∈ t.vars := by
  induction l with
  | nil => simp [varsAll]
  | cons t rest ih => simp [varsAll, ih]

end Ty

namespace Substitution

/-- Two substitutions make the same of a type exactly if they do of every variable in it. -/
theorem apply_eq_iff {s t : Substitution} {u : Ty} :
    s.apply u = t.apply u ↔ ∀ v ∈ u.vars, s.apply (.var v) = t.apply (.var v) := by
  induction u using Ty.inductionOn with
  | cls id args ih =>
    simp only [apply, applyAll_eq_map, Ty.cls.injEq, true_and, List.map_inj_left, Ty.vars,
      Ty.mem_varsAll, forall_exists_index, and_imp]
    exact ⟨fun h v a ha hv => (ih a ha).mp (h a ha) v hv,
      fun h a ha => (ih a ha).mpr fun v hv => h v a ha hv⟩
  | inter parts ih =>
    simp only [apply, applyAll_eq_map, Ty.inter.injEq, List.map_inj_left, Ty.vars,
      Ty.mem_varsAll, forall_exists_index, and_imp]
    exact ⟨fun h v a ha hv => (ih a ha).mp (h a ha) v hv,
      fun h a ha => (ih a ha).mpr fun v hv => h v a ha hv⟩
  | _ => simp_all [apply, Ty.vars]

theorem apply_of_unmapped {s : Substitution} {u : Ty} (h : ∀ v ∈ u.vars, s.get? v = none) :
    s.apply u = u := by
  have hid : s.apply u = apply {} u := apply_eq_iff.mpr fun v hv => by simp [apply, h v hv]
  exact hid.trans (apply_empty u)

theorem apply_apply {r s t : Substitution} {u : Ty}
    (h : ∀ v ∈ u.vars, r.apply (.var v) = s.apply (t.apply (.var v))) :
    r.apply u = s.apply (t.apply u) := by
  induction u using Ty.inductionOn with
  | cls id args ih =>
    simp only [apply, applyAll_eq_map, List.map_map, Ty.cls.injEq, true_and, List.map_inj_left]
    exact fun a ha => ih a ha fun v hv => h v (by simpa [Ty.vars] using ⟨a, ha, hv⟩)
  | inter parts ih =>
    simp only [apply, applyAll_eq_map, List.map_map, Ty.inter.injEq, List.map_inj_left]
    exact fun a ha => ih a ha fun v hv => h v (by simpa [Ty.vars] using ⟨a, ha, hv⟩)
  | _ => simp_all [apply, Ty.vars]

theorem apply_var_of_some {s : Substitution} {v : TypeVar} {t : Ty} (h : s.get? v = some t) :
    s.apply (.var v) = t := by
  simp [apply, h]

theorem apply_var_of_none {s : Substitution} {v : TypeVar} (h : s.get? v = none) :
    s.apply (.var v) = .var v := by
  simp [apply, h]

end Substitution

end DoubleColon
