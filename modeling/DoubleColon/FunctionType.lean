import DoubleColon.SupertypeView

/-!
# Functional interfaces

The function type of a functional interface is the signature of its single abstract method with
the interface's type arguments put in. The abstract methods are gathered from the interface and
all its superinterfaces, without those that merely repeat a public method of the root class.
Declarations of one method with different return types are settled as overriding is: the more
specific return type is kept.
-/

set_option autoImplicit false

namespace DoubleColon

structure Signature where
  name : String
  params : List Ty
  returnType : Ty
  deriving DecidableEq

structure FunctionType where
  interface : Ty
  method : Signature
  deriving DecidableEq

namespace FunctionType

def params (t : FunctionType) : List Ty := t.method.params

def returnType (t : FunctionType) : Ty := t.method.returnType

def arity (t : FunctionType) : Nat := t.method.params.length

end FunctionType

namespace Env

def superinterfaces (env : Env) (c : ClassType) : List ClassType :=
  match env.class? c.id with
  | none => []
  | some d =>
      if d.kind = .interface then
        d.interfaces.filterMap fun t =>
          match env.canonical ((Substitution.ofArgs d c.args).apply t) with
          | .cls id args => some ⟨id, args⟩
          | _ => none
      else []

def repeatsObjectMethod (env : Env) (m : Signature) : Bool :=
  match m.name with
  | "equals" => m.params = [env.objectTy] && m.returnType = .prim .boolean
  | "hashCode" => m.params = [] && m.returnType = .prim .int
  | "toString" => m.params = [] && m.returnType = env.stringTy
  | _ => false

def abstractMethods (env : Env) (c : ClassType) : List Signature :=
  match env.class? c.id with
  | none => []
  | some d =>
      if d.kind = .interface then
        let put := fun t => env.canonical ((Substitution.ofArgs d c.args).apply t)
        let declared := d.methods.filter fun m => m.isAbstract && !m.isStatic
        (declared.map fun m => ⟨m.name, m.params.map put, put m.returnType⟩).filter
          fun m => !env.repeatsObjectMethod m
      else []

def mergeReturns (env : Env) (s t : Ty) : Option Ty :=
  if s = t then some s
  else if s.isRecovery then some t
  else if t.isRecovery then some s
  else env.narrower s t

def addSignature (env : Env) (m : Signature) : List Signature → Option (List Signature)
  | [] => some [m]
  | k :: rest =>
      if k.name = m.name ∧ k.params = m.params then
        (env.mergeReturns k.returnType m.returnType).map fun t => { k with returnType := t } :: rest
      else (env.addSignature m rest).map (k :: ·)

def addSignatures (env : Env) : List Signature → List Signature → Option (List Signature)
  | known, [] => some known
  | known, m :: rest => (env.addSignature m known).bind fun k => env.addSignatures k rest

def singleAbstractMethod (env : Env) (c : ClassType) : Option Signature :=
  match Hierarchy.visits id env.superinterfaces env.searchLimit [] [c] with
  | none => none
  | some interfaces =>
      match env.addSignatures [] (interfaces.flatMap env.abstractMethods) with
      | some [m] => some m
      | _ => none

/-- Put the abstract methods of a queue of interface types, and of what is reached from it, to those
that are known. It is given up where two declarations of one method do not go together. -/
def gatherSignatures (env : Env) :
    Nat → List ClassType → List ClassType → List Signature → Search (List Signature)
  | _, _, [], known => .found known
  | 0, _, _ :: _, _ => .exhausted
  | n + 1, seen, c :: queue, known =>
      if c ∈ seen then env.gatherSignatures n seen queue known
      else match env.addSignatures known (env.abstractMethods c) with
        | none => .absent
        | some all => env.gatherSignatures n (c :: seen) (queue ++ env.superinterfaces c) all

def signatureLeaf (env : Env) (t : Ty) : Option Signature :=
  match env.canonical t with
  | .cls id args => match env.class? id with
    | some d => if d.kind = .interface then env.singleAbstractMethod ⟨id, args⟩ else none
    | none => none
  | _ => none

/-- The single abstract method of a type; the parts of an intersection and the bounds of a type
variable that are functional must have the same. -/
def functionSignature (env : Env) (t : Ty) : Option Signature :=
  env.overParts (fun a b => if a = b then some a else none) env.signatureLeaf t

def functionType (env : Env) (t : Ty) : Option FunctionType :=
  (env.functionSignature t).map fun m => ⟨t, m⟩

end Env

end DoubleColon
