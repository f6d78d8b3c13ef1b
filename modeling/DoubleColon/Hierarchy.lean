import DoubleColon.Env

/-!
# Walking the class hierarchy

Two breadth-first walks over a graph that is given by its successor function. `search` stops at
the first node that is looked for; `visits` lists all nodes it meets, each once. Both count their
steps, since malformed declarations may span an infinite graph, and both say when the count ran
out before the walk was over.

`Env.view` is the search for the first supertype of a class type that instantiates a given class.
-/

set_option autoImplicit false

namespace DoubleColon

inductive Search (α : Type) where
  | found (a : α)
  | absent
  /-- The count of steps ran out before the search was over. -/
  | exhausted
  deriving DecidableEq, Repr

namespace Search

def toOption {α : Type} : Search α → Option α
  | .found a => some a
  | .absent | .exhausted => none

end Search

namespace Hierarchy

variable {α κ : Type} [DecidableEq α] [DecidableEq κ]

/-- The first node of a queue, or of what is reached from it, that is wanted. A node already seen
is passed over, any other is replaced by its successors at the end of the queue. -/
def search (wanted : α → Bool) (next : α → List α) : Nat → List α → List α → Search α
  | _, _, [] => .absent
  | 0, _, _ :: _ => .exhausted
  | n + 1, seen, a :: queue =>
      if a ∈ seen then search wanted next n seen queue
      else if wanted a then .found a
      else search wanted next n (a :: seen) (queue ++ next a)

/-- The nodes of a queue and what is reached from it, in breadth-first order; of nodes with one
key only the first. Nothing, if the count of steps runs out. -/
def visits (key : α → κ) (next : α → List α) : Nat → List κ → List α → Option (List α)
  | _, _, [] => some []
  | 0, _, _ :: _ => none
  | n + 1, seen, a :: queue =>
      if key a ∈ seen then visits key next n seen queue
      else (visits key next n (key a :: seen) (queue ++ next a)).map (a :: ·)

theorem wanted_of_search_eq_found {wanted : α → Bool} {next : α → List α} {n : Nat}
    {seen queue : List α} {a : α} (h : search wanted next n seen queue = .found a) :
    wanted a = true := by
  induction n generalizing seen queue with
  | zero => cases queue <;> simp [search] at h
  | succ n ih =>
    cases queue with
    | nil => simp [search] at h
    | cons b queue =>
      simp only [search] at h
      split at h
      · exact ih h
      · split at h
        · cases h
          assumption
        · exact ih h

end Hierarchy

namespace Env

def search (env : Env) (c : ClassType) (target : ClassId) : Search ClassType :=
  Hierarchy.search (fun d => d.id = target) env.directSupertypes env.searchLimit [] [c]

def view (env : Env) (c : ClassType) (target : ClassId) : Option ClassType :=
  (env.search c target).toOption

theorem id_of_view_eq_some {env : Env} {c d : ClassType} {target : ClassId}
    (h : env.view c target = some d) : d.id = target := by
  unfold view search at h
  cases hs : Hierarchy.search (fun d => decide (d.id = target)) env.directSupertypes
      env.searchLimit [] [c] with
  | found a =>
    rw [hs] at h
    cases h
    simpa using Hierarchy.wanted_of_search_eq_found hs
  | absent => simp [hs, Search.toOption] at h
  | exhausted => simp [hs, Search.toOption] at h

end Env

end DoubleColon
