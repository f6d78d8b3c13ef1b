import DoubleColon.Hierarchy

/-!
# Subtyping

The subtype relation of JLS 4.10 with the containment of type arguments of JLS 4.5.1, as a test.
The recovery types are related to every type both ways, so that one unresolved type does not
bring further mismatches with it, and raw types are related by unchecked conversion.

The test looks through bounds, parts and arguments to a bounded depth. `Env.subtypeStep` is one
level of it, over a test for the levels below.
-/

set_option autoImplicit false

namespace DoubleColon

namespace Env

def isObject (env : Env) : Ty → Bool
  | .cls id _ => id = env.wellKnown.object
  | _ => false

def isArraySupertype (env : Env) (id : ClassId) : Bool :=
  id = env.wellKnown.object || id = env.wellKnown.cloneable || id = env.wellKnown.serializable

def argUpper (env : Env) : Ty → Ty
  | .wildUpper b => b
  | .wild | .wildLower _ => env.objectTy
  | t => t

def containsArg (env : Env) (le : Ty → Ty → Bool) (arg formal : Ty) : Bool :=
  arg.isRecovery || formal.isRecovery ||
    match formal with
    | .wild => true
    | .wildUpper upper => le (env.argUpper arg) upper
    | .wildLower lower => match arg with
      | .wildLower b => le lower b
      | .wild | .wildUpper _ => false
      | t => le lower t
    | _ => env.canonical arg = env.canonical formal

/-- A class type is a subtype of another one: seen as an instance of the other's class, its
arguments are contained in the other's, unless one of them is raw. -/
def classStep (env : Env) (le : Ty → Ty → Bool) (sub sup : ClassType) : Bool :=
  sup.id = env.wellKnown.object ||
    match env.view sub sup.id with
    | none => false
    | some seen =>
        sup.args.isEmpty || seen.args.isEmpty || seen.args.length != sup.args.length ||
          (seen.args.zip sup.args).all fun (arg, formal) => env.containsArg le arg formal

def elementStep (le : Ty → Ty → Bool) : Ty → Ty → Bool
  | .prim p, .prim q => p = q
  | .prim _, _ | _, .prim _ => false
  | s, t => le s t

/-- One level of the subtype test between canonical types that differ. A supertype that is an
intersection is taken apart first, so that the order of parts does not matter. -/
def subtypeStep (env : Env) (le : Ty → Ty → Bool) : Ty → Ty → Bool
  | .void, _ | _, .void => false
  | .prim _, _ | _, .prim _ => false
  | .null, t => t.isReference
  | _, .null => false
  | s, .inter parts => parts.all fun p => le s p
  | .inter parts, t => parts.any fun p => le p t
  | .var v, t =>
      env.isObject t || match env.typeParam? v with
        | none => false
        | some p => p.upperBounds.any fun b => le b t
  | s, .var v => match env.typeParam? v with
      | none => false
      | some p => p.lowerBound.any fun b => le s b
  | .array s, .array t => elementStep le s t
  | .array _, .cls id _ => env.isArraySupertype id
  | .cls c as, .cls d bs => env.classStep le ⟨c, as⟩ ⟨d, bs⟩
  | .wildUpper b, t => le b t
  | .wild, t | .wildLower _, t => env.isObject t
  | _, _ => false

def isSubtypeWithin (env : Env) : Nat → Ty → Ty → Bool
  | 0, _, _ => false
  | n + 1, sub, sup =>
      sub = sup || sub.isRecovery || sup.isRecovery ||
        env.canonical sub = env.canonical sup ||
        env.subtypeStep (env.isSubtypeWithin n) (env.canonical sub) (env.canonical sup)

def subtypeLevels : Nat := 33

def isSubtype (env : Env) (sub sup : Ty) : Bool := env.isSubtypeWithin subtypeLevels sub sup

theorem isSubtype_refl (env : Env) (t : Ty) : env.isSubtype t t = true := by
  simp [isSubtype, subtypeLevels, isSubtypeWithin]

end Env

end DoubleColon
