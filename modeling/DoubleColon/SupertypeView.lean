import DoubleColon.Parts
import DoubleColon.Subtyping

/-!
# Viewing a type as an instance of a class

`Env.asSuper t target` is the supertype of `t` that instantiates the class `target`:
`ArrayList<String>` seen as `List` is `List<String>`. An array has the three supertypes of all
arrays. The parts of an intersection and the bounds of a type variable that have a view must
agree on it: equal views agree, otherwise one with fewer recovery types is kept, otherwise a
subtype of the other; if neither is one, there is no view.
-/

set_option autoImplicit false

namespace DoubleColon

namespace Ty

mutual

def placeholders : Ty → Nat
  | .unknown | .error => 1
  | .array elem => placeholders elem
  | .cls _ args => placeholdersAll args
  | .wildUpper b | .wildLower b => placeholders b
  | .inter parts => placeholdersAll parts
  | _ => 0

def placeholdersAll : List Ty → Nat
  | [] => 0
  | t :: rest => placeholders t + placeholdersAll rest

end

end Ty

namespace Env

/-- The subtype of two types, if one of them is; of equivalent ones the first. -/
def narrower (env : Env) (s t : Ty) : Option Ty :=
  if env.isSubtype s t then some s else if env.isSubtype t s then some t else none

def mergeViews (env : Env) (s t : Ty) : Option Ty :=
  if s = t then some s
  else if s.placeholders = t.placeholders then env.narrower s t
  else if s.placeholders < t.placeholders then some s else some t

def viewLeaf (env : Env) (target : ClassId) (t : Ty) : Option Ty :=
  match env.canonical t with
  | .array _ => if env.isArraySupertype target then some (.cls target []) else none
  | .cls id args => (env.view ⟨id, args⟩ target).map ClassType.toTy
  | _ => none

def asSuper (env : Env) (t : Ty) (target : ClassId) : Option Ty :=
  env.overParts env.mergeViews (env.viewLeaf target) t

theorem asSuper_eq_viewLeaf {env : Env} {t : Ty} {target : ClassId} (h : t.isCompound = false) :
    env.asSuper t target = env.viewLeaf target t :=
  throughParts_eq_leaf h

def inherits (env : Env) (sub sup : ClassId) : Bool :=
  sub = sup || (env.asSuper (.cls sub []) sup).isSome

end Env

end DoubleColon
