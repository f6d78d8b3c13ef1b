import Mathlib.Algebra.GroupWithZero.Nat
import DoubleColon.Proofs.EndingSearches
import DoubleColon.Proofs.WalkViews

/-!
# Hierarchies without circles

In a hierarchy without circles there are finitely many ways up from each class, and how many there
are does not depend on type arguments. A walk through the supertypes of a class type goes each way
at most once. So it ends within as many steps, and so does every search for one of them.
-/

set_option autoImplicit false

namespace DoubleColon

/-- A walk ends if a node weighs more than all that comes next together, and the queue weighs no
more than the count of steps. -/
theorem Hierarchy.visits_ends_of_weights {α : Type} [DecidableEq α] {next : α → List α}
    {weight : α → Nat} (hw : ∀ a, ((next a).map weight).sum < weight a) {n : Nat}
    {seen queue : List α} (hn : (queue.map weight).sum ≤ n) :
    (visits id next n seen queue).isSome = true := by
  induction n generalizing seen queue with
  | zero =>
    cases queue with
    | nil => rfl
    | cons a queue =>
      have ha := hw a
      rw [List.map_cons, List.sum_cons] at hn
      omega
  | succ n ih =>
    cases queue with
    | nil => rfl
    | cons a queue =>
      have ha := hw a
      rw [List.map_cons, List.sum_cons] at hn
      rw [visits]
      split
      · exact ih (by omega)
      · rw [Option.isSome_map]
        refine ih ?_
        rw [List.map_append, List.sum_append]
        omega

namespace Env

open Hierarchy

variable {env : Env}

/-- How many ways of fewer steps than a number lead up from a class, that of no step among them. -/
def waysUp (env : Env) : Nat → ClassId → Nat
  | 0, _ => 0
  | n + 1, id => 1 + ((env.directSupertypes ⟨id, []⟩).map fun b => env.waysUp n b.id).sum

/-- All walks of supertypes end if no way up is longer than a number of steps, and no class has more
ways up than the limit allows for. -/
theorem endingWalks_of_waysUp (hs : env.SuitsSupertypes) {n : Nat}
    (hknown : ∀ i < env.classes.length, env.waysUp (n + 1) ⟨i⟩ = env.waysUp n ⟨i⟩ ∧
      env.waysUp n ⟨i⟩ ≤ env.searchLimit)
    (hn : 0 < n) (hlim : 0 < env.searchLimit) : env.EndingWalks := by
  have hunknown : ∀ m id, env.class? id = none → env.waysUp (m + 1) id = 1 := fun m id hd => by
    simp [waysUp, directSupertypes, hd]
  have hsame : ∀ id, env.waysUp (n + 1) id = env.waysUp n id ∧
      env.waysUp n id ≤ env.searchLimit := by
    intro id
    cases hd : env.class? id with
    | some d => exact hknown id.index (List.getElem?_eq_some_iff.mp hd).1
    | none =>
      obtain ⟨m, rfl⟩ := Nat.exists_eq_add_one_of_ne_zero hn.ne'
      rw [hunknown _ id hd, hunknown _ id hd]
      exact ⟨rfl, hlim⟩
  have hfalls : ∀ c : ClassType,
      ((env.directSupertypes c).map fun b => env.waysUp n b.id).sum < env.waysUp n c.id := by
    intro c
    -- Which classes come next does not depend on type arguments.
    have hids := congrArg (List.map (env.waysUp n))
      (ids_directSupertypes hs (show c.id = (ClassType.mk c.id []).id from rfl))
    rw [List.map_map, List.map_map] at hids
    have hall := (hsame c.id).1
    rw [waysUp] at hall
    have hnext : ((env.directSupertypes c).map fun b => env.waysUp n b.id).sum =
        ((env.directSupertypes ⟨c.id, []⟩).map fun b => env.waysUp n b.id).sum :=
      congrArg List.sum hids
    omega
  intro c
  exact visits_ends_of_weights hfalls (by simpa using (hsame c.id).2)

theorem EndingWalks.search_ends (h : env.EndingWalks) (c : ClassType) (target : ClassId) :
    env.search c target ≠ .exhausted := by
  obtain ⟨out, hout⟩ := Option.isSome_iff_exists.mp (h c)
  exact search_ends_of_visits hout

theorem standard_endingWalks : standard.EndingWalks := by
  have hs : standard.DeclaresClassTypes := declaresClassTypes_of_all (by decide +kernel)
  have hknown : ∀ i < 26, standard.waysUp 5 ⟨i⟩ = standard.waysUp 4 ⟨i⟩ ∧
      standard.waysUp 4 ⟨i⟩ ≤ 65536 := by decide +kernel
  exact endingWalks_of_waysUp hs.suits hknown (by decide) (by decide)

end Env

end DoubleColon
