import DoubleColon.Subtyping

/-!
# Conversions

Boxing and unboxing, assignment compatibility (JLS 5.2), and the widening of wildcards to their
bounds.
-/

set_option autoImplicit false

namespace DoubleColon

namespace Env

def box (env : Env) (p : Primitive) : Option Ty :=
  (env.lookup p.wrapperName).map fun id => .cls id []

def unbox (env : Env) (t : Ty) : Option Primitive :=
  match env.canonical t with
  | .cls id _ => Primitive.all.find? fun p => env.lookup p.wrapperName = some id
  | _ => none

/-- A value of type `source` may be assigned to a variable of type `target`: by identity, by a
widening conversion, by boxing and then widening the reference, or by unboxing and then widening
the primitive. -/
def isAssignable (env : Env) (target source : Ty) : Bool :=
  target.isRecovery || source.isRecovery ||
    match target, source with
    | .void, .void => true
    | .void, _ | _, .void => false
    | .prim p, .prim q => q.widensTo p
    | t, .prim q => match env.box q with
      | some boxed => env.isSubtype boxed t
      | none => false
    | .prim p, s => match env.unbox s with
      | some q => q.widensTo p
      | none => false
    | t, s => env.isSubtype s t

def argBound (env : Env) : Ty → Ty
  | .wild => env.objectTy
  | .wildUpper b | .wildLower b => b
  | t => t

def withoutWildcards (env : Env) : Ty → Ty
  | .cls id args => .cls id (args.map env.argBound)
  | t => env.argBound t

end Env

end DoubleColon
