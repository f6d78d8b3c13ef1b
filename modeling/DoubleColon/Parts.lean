import DoubleColon.Env

/-!
# Reading a type through its parts

What holds of an intersection is read off its parts and what holds of a type variable off its
upper bounds. `Env.overParts` reads every other type by a given function, puts the results of
parts together two at a time, from the left, and gives up if two of them do not go together. Parts
that give nothing are passed over. A type variable met again among its own bounds gives nothing,
so that cyclic bounds do no harm.
-/

set_option autoImplicit false

namespace DoubleColon

def combine {α : Type} (merge : α → α → Option α) : Option α → List (Option α) → Option α
  | acc, [] => acc
  | acc, none :: rest => combine merge acc rest
  | none, some b :: rest => combine merge (some b) rest
  | some a, some b :: rest => match merge a b with
    | some c => combine merge (some c) rest
    | none => none

@[simp] theorem combine_nil {α : Type} (merge : α → α → Option α) (acc : Option α) :
    combine merge acc [] = acc := by
  cases acc <;> rfl

@[simp] theorem combine_none_cons {α : Type} (merge : α → α → Option α) (acc : Option α)
    (rest : List (Option α)) : combine merge acc (none :: rest) = combine merge acc rest := by
  cases acc <;> rfl

def Ty.isCompound : Ty → Bool
  | .inter _ | .var _ => true
  | _ => false

namespace Env

variable {α : Type}

mutual

def throughParts (merge : α → α → Option α) (leaf : Ty → Option α)
    (ofVar : TypeVar → Option α) : Ty → Option α
  | .inter parts => combine merge none (throughAll merge leaf ofVar parts)
  | .var v => ofVar v
  | t => leaf t

def throughAll (merge : α → α → Option α) (leaf : Ty → Option α)
    (ofVar : TypeVar → Option α) : List Ty → List (Option α)
  | [] => []
  | t :: rest => throughParts merge leaf ofVar t :: throughAll merge leaf ofVar rest

end

@[simp] theorem throughAll_eq_map (merge : α → α → Option α) (leaf : Ty → Option α)
    (ofVar : TypeVar → Option α) (l : List Ty) :
    throughAll merge leaf ofVar l = l.map (throughParts merge leaf ofVar) := by
  induction l with
  | nil => rfl
  | cons t rest ih => simp [throughAll, ih]

theorem throughParts_eq_leaf {merge : α → α → Option α} {leaf : Ty → Option α}
    {ofVar : TypeVar → Option α} {t : Ty} (h : t.isCompound = false) :
    throughParts merge leaf ofVar t = leaf t := by
  cases t with
  | inter | var => cases h
  | _ => rfl

/-- Read a type variable through its upper bounds, with a number of variables left to look
through. The variables looked through on the way here are `seen`. -/
def throughBounds (env : Env) (merge : α → α → Option α) (leaf : Ty → Option α) :
    Nat → List TypeVar → TypeVar → Option α
  | 0, _, _ => none
  | n + 1, seen, v =>
      if v ∈ seen then none
      else match env.typeParam? v with
        | none => none
        | some p => combine merge none <| p.upperBounds.map <|
            throughParts merge leaf (throughBounds env merge leaf n (v :: seen))

def overParts (env : Env) (merge : α → α → Option α) (leaf : Ty → Option α) (t : Ty) : Option α :=
  throughParts merge leaf (env.throughBounds merge leaf env.typeParams.length []) t

end Env

end DoubleColon
