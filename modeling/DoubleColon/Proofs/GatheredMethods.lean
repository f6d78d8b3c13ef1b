import DoubleColon.FunctionType

/-!
# Abstract methods gathered on the way

The abstract methods of an interface need not wait for the end of the walk that lists its
superinterfaces. They may be put together on the way, and the walk be given up as soon as two
declarations of one method do not go together. Such a walk has the same single abstract method to
show; but it may end where the list of superinterfaces has no end.
-/

set_option autoImplicit false

namespace DoubleColon

namespace Hierarchy

variable {α : Type} [DecidableEq α] {next : α → List α}

def firstVisits (next : α → List α) : Nat → List α → List α → List α
  | _, _, [] => []
  | 0, _, _ :: _ => []
  | n + 1, seen, a :: queue =>
      if a ∈ seen then firstVisits next n seen queue
      else a :: firstVisits next n (a :: seen) (queue ++ next a)

theorem firstVisits_of_visits {n : Nat} {seen queue out : List α}
    (h : visits id next n seen queue = some out) : firstVisits next n seen queue = out := by
  induction n generalizing seen queue out with
  | zero => cases queue <;> simp_all [visits, firstVisits]
  | succ n ih =>
    cases queue with
    | nil => simpa [visits, firstVisits] using h
    | cons a queue =>
      rw [firstVisits]
      simp only [visits, id] at h
      split
      · rename_i hs
        rw [if_pos hs] at h
        exact ih h
      · rename_i hs
        rw [if_neg hs] at h
        obtain ⟨rest, hrest, rfl⟩ := Option.map_eq_some_iff.mp h
        rw [ih hrest]

end Hierarchy

namespace Env

open Hierarchy

variable {env : Env}

theorem addSignatures_append (known ms rest : List Signature) :
    env.addSignatures known (ms ++ rest) =
      (env.addSignatures known ms).bind fun all => env.addSignatures all rest := by
  induction ms generalizing known with
  | nil => rfl
  | cons m ms ih =>
    simp only [List.cons_append, addSignatures, ih]
    rw [Option.bind_assoc]

theorem addSignature_of_new {m : Signature} {known : List Signature}
    (h : ∀ k ∈ known, k.params ≠ m.params) : env.addSignature m known = some (known ++ [m]) := by
  induction known with
  | nil => rfl
  | cons k known ih =>
    obtain ⟨hk, hknown⟩ := List.forall_mem_cons.mp h
    rw [addSignature, if_neg fun hsame => hk hsame.2, ih hknown]
    rfl

/-- What is gathered on the way is what the interfaces come to so far have together. -/
theorem gatherSignatures_eq (n : Nat) (seen queue : List ClassType) (known : List Signature) :
    env.gatherSignatures n seen queue known =
      match env.addSignatures known
        ((firstVisits env.superinterfaces n seen queue).flatMap env.abstractMethods) with
      | none => .absent
      | some all =>
          if (visits id env.superinterfaces n seen queue).isSome then .found all
          else .exhausted := by
  induction n generalizing seen queue known with
  | zero => cases queue <;> rfl
  | succ n ih =>
    cases queue with
    | nil => rfl
    | cons c queue =>
      rw [gatherSignatures, firstVisits, visits, id]
      by_cases hs : c ∈ seen
      · simp only [if_pos hs]
        exact ih seen queue known
      · simp only [if_neg hs, List.flatMap_cons, addSignatures_append, Option.isSome_map]
        cases env.addSignatures known (env.abstractMethods c) with
        | none => rfl
        | some all => exact ih (c :: seen) (queue ++ env.superinterfaces c) all

/-- The single abstract method of an interface type is what is left alone when the walk that
gathers on its way is over. -/
theorem singleAbstractMethod_eq_gatherSignatures (c : ClassType) :
    env.singleAbstractMethod c =
      match env.gatherSignatures env.searchLimit [] [c] [] with
      | .found [m] => some m
      | _ => none := by
  rw [gatherSignatures_eq, singleAbstractMethod]
  cases hv : visits id env.superinterfaces env.searchLimit [] [c] with
  | none =>
    cases env.addSignatures [] ((firstVisits env.superinterfaces env.searchLimit [] [c]).flatMap
      env.abstractMethods) <;> rfl
  | some out =>
    rw [firstVisits_of_visits hv]
    dsimp only
    cases env.addSignatures [] (out.flatMap env.abstractMethods) with
    | none => rfl
    | some all =>
      match all with
      | [] | [_] | _ :: _ :: _ => rfl

end Env

end DoubleColon
