import DoubleColon.Env

/-!
# The class behind a type

`Env.classOf?` resolves a type to a class and what its arguments substitute for the class's type
parameters. Type variables resolve through their bounds and intersections through their parts, to
the first that resolves, to a bounded depth. Arrays, primitives and recovery types do not resolve.
-/

set_option autoImplicit false

namespace DoubleColon

structure ResolvedClass where
  id : ClassId
  subst : Substitution
  deriving DecidableEq

namespace Env

def classOfWithin (env : Env) : Nat → Ty → Option ResolvedClass
  | 0, _ => none
  | n + 1, t => match env.canonical t with
    | .cls id args => (env.class? id).map fun d => ⟨id, .ofArgs d args⟩
    | .var v => match env.typeParam? v with
      | none => none
      | some p => p.upperBounds.findSome? (env.classOfWithin n)
    | .inter parts => parts.findSome? (env.classOfWithin n)
    | _ => none

def classOf? (env : Env) (t : Ty) : Option ResolvedClass := env.classOfWithin 33 t

end Env

end DoubleColon
