import DoubleColon.Conversion

/-!
# The most specific overload

Of several applicable overloads one is picked if it is more specific than every other one
(JLS 15.12.2.5). Overloads with equivalent parameters are all maximal; among these a single one
that is not abstract is preferred.
-/

set_option autoImplicit false

namespace DoubleColon

inductive Phase where
  | fixedArity
  /-- A trailing array parameter is expanded to its elements. -/
  | variableArity
  deriving DecidableEq, Repr

structure Overload where
  params : List Ty
  isVarargs : Bool
  isAbstract : Bool
  deriving DecidableEq

namespace Overload

def typeAt (m : Overload) (phase : Phase) (i : Nat) : Option Ty :=
  if phase = .variableArity && m.isVarargs && m.params.length ≤ i + 1 then
    m.params.getLast?.map fun t => t.component?.getD t
  else m.params[i]?

end Overload

namespace Env

def isMoreSpecificParam (env : Env) (s t : Ty) : Bool :=
  s.isRecovery || t.isRecovery ||
    if s.isPrimitive && t.isPrimitive then env.isAssignable t s else env.isSubtype s t

/-- The number of positions at which two overloads are compared, if they can be compared. An
overload of fixed arity cannot stand in for more arguments than it declares. -/
def comparedArity (phase : Phase) (m k : Overload) : Option Nat :=
  match phase with
  | .fixedArity => if m.params.length = k.params.length then some m.params.length else none
  | .variableArity =>
      let n := max m.params.length k.params.length
      if (m.params.length < n && !m.isVarargs) || (k.params.length < n && !k.isVarargs) then none
      else some n

def isMoreSpecific (env : Env) (phase : Phase) (m k : Overload) : Bool :=
  match comparedArity phase m k with
  | none => false
  | some n => (List.range n).all fun i =>
      match m.typeAt phase i, k.typeAt phase i with
      | some s, some t => env.isMoreSpecificParam s t
      | _, _ => false

def maximalOverloads (env : Env) (phase : Phase) (ms : List Overload) : List (Overload × Nat) :=
  ms.zipIdx.filter fun (m, i) => ms.zipIdx.all fun (k, j) => j = i || env.isMoreSpecific phase m k

def mostSpecific (env : Env) (ms : List Overload) (phase : Phase) : Option Nat :=
  match env.maximalOverloads phase ms with
  | [] => none
  | [(_, i)] => some i
  | several => match several.filter fun (m, _) => !m.isAbstract with
    | [(_, i)] => some i
    | _ => none

end Env

end DoubleColon
