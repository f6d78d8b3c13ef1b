import DoubleColon.Proofs.TypeVariables

/-!
# Substitutions one after the other

Two substitutions that are applied one after the other are one substitution. It maps a variable of
the first one to what the second one makes of its image, and any other variable as the second one
does. Images are not looked into again, so that the variables in them are those of the second
substitution only, though the first one may map them too.
-/

set_option autoImplicit false

namespace DoubleColon

namespace Substitution

variable {v : TypeVar} {f : Ty → Ty}

def mapTypes (f : Ty → Ty) (s : Substitution) : Substitution where
  entries := s.entries.map fun e => (e.1, f e.2)
  ascending := List.pairwise_map.mpr s.ascending

theorem find?_map_types (l : List (TypeVar × Ty)) :
    find? v (l.map fun e => (e.1, f e.2)) = (find? v l).map f := by
  induction l with
  | nil => rfl
  | cons e rest ih =>
    simp only [List.map_cons, find?, ih]
    split <;> rfl

@[simp] theorem get?_mapTypes (f : Ty → Ty) (s : Substitution) (v : TypeVar) :
    (s.mapTypes f).get? v = (s.get? v).map f :=
  find?_map_types s.entries

/-- The substitution that does what two others do one after the other. -/
def followedBy (s t : Substitution) : Substitution := t.updateWith (s.mapTypes t.apply)

theorem get?_followedBy (s t : Substitution) (v : TypeVar) :
    (s.followedBy t).get? v = ((s.get? v).map t.apply).or (t.get? v) := by
  rw [followedBy, get?_updateWith, get?_mapTypes]

theorem apply_followedBy (s t : Substitution) (u : Ty) :
    (s.followedBy t).apply u = t.apply (s.apply u) := by
  refine apply_apply fun v _ => ?_
  have hget := get?_followedBy s t v
  cases hs : s.get? v with
  | none =>
    rw [hs, Option.map_none, Option.none_or] at hget
    rw [apply_var_of_none hs, apply, apply, hget]
  | some image =>
    rw [hs, Option.map_some, Option.some_or] at hget
    rw [apply_var_of_some hs, apply_var_of_some hget]

/-- Whether a substitution is laid under another one or updated with it, the other one wins. -/
theorem under_eq_updateWith (s base : Substitution) : s.under base = s.updateWith base :=
  ext_get? fun v => by rw [get?_under, get?_updateWith]

/-- Applied one after the other, two substitutions do what the second one does, updated with the
variables of the first one, each mapped to what the second one makes of its image. -/
theorem applied_in_turn (s t : Substitution) :
    (∀ v, (s.mapTypes t.apply).get? v = (s.get? v).map t.apply) ∧
    (∀ u, t.apply (s.apply u) = (t.updateWith (s.mapTypes t.apply)).apply u) ∧
    s.under t = s.updateWith t :=
  ⟨get?_mapTypes t.apply s, fun u => (apply_followedBy s t u).symm, under_eq_updateWith s t⟩

/-- Two variables that change places become arrays of themselves, if one of them is made an array
in doing so and they change places twice. -/
example :
    let swap := ofList [(⟨0⟩, .var ⟨1⟩), (⟨1⟩, .array (.var ⟨0⟩))]
    swap.followedBy swap = ofList [(⟨0⟩, .array (.var ⟨0⟩)), (⟨1⟩, .array (.var ⟨1⟩))] := by
  decide

end Substitution

end DoubleColon
