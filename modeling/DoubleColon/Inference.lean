import DoubleColon.Conversion
import DoubleColon.SupertypeView

/-!
# Inference of type arguments

Formal types are matched against actual types, structurally and to a bounded depth. A type
variable to be inferred takes the actual type that it meets, a primitive boxed. When it meets
further types the binding widens: to the supertype of the two if they are related, otherwise to
the root class.

A formal may stand above the actual, as a parameter above its argument, or below it, as a return
type below the type that is expected. Class types are matched after the lower one has been seen as
an instance of the upper one's class.
-/

set_option autoImplicit false

namespace DoubleColon

inductive Flow where
  /-- The actual type flows into the formal type. -/
  | intoFormal
  /-- The formal type flows into the actual type. -/
  | outOfFormal
  deriving DecidableEq, Repr

namespace Ty

def insideWildcard : Ty → Ty
  | .wildUpper b | .wildLower b => b
  | t => t

end Ty

namespace Env

def bind (env : Env) (known : Substitution) (v : TypeVar) (actual : Ty) : Substitution :=
  let candidate := match actual with
    | .null | .void | .wild => none
    | .prim p => env.box p
    | t => some (env.canonical t)
  match candidate, known.get? v with
  | none, _ => known
  | some t, none => known.insert v t
  | some t, some s =>
      if s = t then known
      else if env.isSubtype s t then known.insert v t
      else if env.isSubtype t s then known
      else known.insert v env.objectTy

def classActual (env : Env) : Ty → Option Ty
  | .prim p => env.box p
  | .wildUpper b | .wildLower b => some b
  | t => some (env.canonical t)

/-- The type arguments of two class types of the same class: those of the formal class type and
those of the actual type, the lower one seen as an instance of the upper one's class. -/
def alignedArgs (env : Env) (dir : Flow) (formal : ClassType) (actual : Ty) :
    Option (List Ty × List Ty) :=
  match dir with
  | .intoFormal => match env.asSuper actual formal.id with
    | some (.cls _ args) => some (formal.args, args)
    | _ => none
  | .outOfFormal => match actual with
    | .cls id args => match env.asSuper formal.toTy id with
      | some (.cls _ formalArgs) => some (formalArgs, args)
      | _ => none
    | _ => none

def matchArgs (step : Ty → Ty → Substitution → Substitution) :
    List (Ty × Ty) → Substitution → Substitution
  | [], known => known
  | (_, .wild) :: rest, known => matchArgs step rest known
  | (formal, actual) :: rest, known =>
      matchArgs step rest (step formal actual.insideWildcard known)

def unify (env : Env) (isOpen : TypeVar → Bool) (dir : Flow) :
    Nat → Ty → Ty → Substitution → Substitution
  | 0, _, _, known => known
  | n + 1, formal, actual, known =>
      if actual.isRecovery then known
      else match formal with
        | .var v => if isOpen v then env.bind known v actual else known
        | .wildUpper b | .wildLower b => env.unify isOpen dir n b actual known
        | .array elem => match actual with
          | .array (.prim _) => known
          | .array e => env.unify isOpen dir n elem e known
          | _ => known
        | .cls id args =>
            if args.isEmpty then known
            else match (env.classActual actual).bind (env.alignedArgs dir ⟨id, args⟩) with
              | none => known
              | some (formals, actuals) =>
                  if formals.length = actuals.length then
                    matchArgs (env.unify isOpen dir n) (formals.zip actuals) known
                  else known
        | _ => known

def unifyLevels : Nat := 17

def unifyAll (env : Env) (isOpen : TypeVar → Bool) : List (Ty × Ty) → Substitution → Substitution
  | [], known => known
  | (formal, actual) :: rest, known =>
      env.unifyAll isOpen rest
        (env.unify isOpen .intoFormal unifyLevels formal actual known)

def inferArguments (env : Env) (typeParams : List TypeVar) (formals actuals : List Ty) :
    Substitution :=
  env.unifyAll (fun v => typeParams.contains v) (formals.zip actuals) {}

/-- Complete a substitution by what a declared return type tells when it flows into an expected
type. Only type parameters that are still unmapped are inferred. -/
def inferFromReturn (env : Env) (typeParams : List TypeVar) (declared : Ty)
    (expected : Option Ty) (subst : Substitution) : Substitution :=
  match expected with
  | none => subst
  | some target =>
      if typeParams.isEmpty || declared = .void || target = .void || target.isRecovery then subst
      else
        let isOpen := fun v => typeParams.contains v && !subst.contains v
        (env.unify isOpen .outOfFormal unifyLevels (subst.apply declared) target {}).under subst

end Env

end DoubleColon
