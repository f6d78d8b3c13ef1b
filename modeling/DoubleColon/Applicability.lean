import DoubleColon.FunctionType
import DoubleColon.Inference
import DoubleColon.Member
import DoubleColon.Overload
import DoubleColon.Receiver

/-!
# Applicability of candidates

A candidate is tested in two readings. In the direct reading the parameters of the function type
are passed to the candidate. In the receiver reading, which takes a qualifier that denotes a type,
the first of them is the receiver and the others are passed. A candidate of variable arity may
absorb several of them in its last parameter.

A candidate of variable arity that declares no parameter has no last parameter either: its direct
reading has no answer as soon as anything is passed.
-/

set_option autoImplicit false

namespace DoubleColon

structure MatchInput where
  owner : ClassId
  ownerSubst : Substitution
  target : FunctionType
  isBareTypeName : Bool
  namesType : Bool

structure Reading where
  direct : Bool
  receiver : Bool
  /-- The declared parameter types with the type arguments of the qualifier put in. -/
  params : List Ty
  isVarargs : Bool
  isAbstract : Bool
  deriving DecidableEq

namespace Env

def takesArg (env : Env) (param arg : Ty) (absorb : Bool) : Bool :=
  env.isAssignable param arg ||
    (absorb && param.component?.any fun elem => env.isAssignable elem arg)

/-- The formal type that the `i`-th of `count` arguments is matched with in inference. -/
def formalAt (params : List Ty) (isVarargs : Bool) (count i : Nat) : Ty :=
  let last := params.length - 1
  match params[min i last]? with
  | none => .unknown
  | some param =>
      if isVarargs && last ≤ i && count != params.length then param.component?.getD param
      else param

def inferredParams (env : Env) (isOpen : List TypeVar) (params args : List Ty) (isVarargs : Bool) :
    List Ty :=
  if isOpen.isEmpty || params.isEmpty then params
  else
    let formals := (List.range args.length).map (formalAt params isVarargs args.length)
    params.map (env.inferArguments isOpen formals args).apply

def paramFor (params : List Ty) (isVarargs : Bool) (i : Nat) : Option (Ty × Bool) :=
  if isVarargs && 0 < params.length && params.length ≤ i + 1 then
    params.getLast?.map fun p => (p, true)
  else params[i]?.map fun p => (p, false)

def allAccepted (env : Env) (params : List Ty) (isVarargs : Bool) : Nat → List Ty → Option Bool
  | _, [] => some true
  | i, arg :: rest => match paramFor params isVarargs i with
    | none => none
    | some (param, absorb) =>
        if env.takesArg param arg absorb then env.allAccepted params isVarargs (i + 1) rest
        else some false

def restAccepted (env : Env) (params : List Ty) (isVarargs : Bool) (rest : List Ty) : Bool :=
  (params.zip rest).zipIdx.all fun ((param, arg), i) =>
    env.takesArg param arg (isVarargs && i + 1 = params.length)

/-- A constructor that needs no enclosing instance: of a top-level or a static nested class. -/
def isFreeConstructor (owner : ClassDecl) (c : Candidate) : Bool :=
  c.member.isConstructor && (owner.outer.isNone || owner.isStatic)

def isReachable (owner : ClassDecl) (m : MatchInput) (c : Candidate) : Bool :=
  !m.isBareTypeName || c.isStatic || isFreeConstructor owner c ||
    (c.member.isConstructor && c.inScope)

def hasReceiver (env : Env) (m : MatchInput) : Bool :=
  m.namesType && match m.target.params with
    | [] => false
    | t :: _ => env.isReceiver t m.owner m.ownerSubst

/-- The type parameters that are open in a candidate's parameter types: its own, and for a
constructor those of the class that the substitution leaves open. -/
def openParams (owner : ClassDecl) (c : Candidate) (shape : MemberShape) (subst : Substitution) :
    List TypeVar :=
  shape.typeParams ++
    if c.member.isConstructor then owner.typeParams.filter fun p => !subst.contains p else []

def readsDirectly (env : Env) (owner : ClassDecl) (m : MatchInput) (c : Candidate)
    (isOpen : List TypeVar) (params args : List Ty) : Option Bool :=
  let arityOk := args.length = params.length || (c.isVarargs && params.length ≤ args.length + 1)
  if arityOk && isReachable owner m c then
    env.allAccepted (env.inferredParams isOpen params args c.isVarargs) c.isVarargs 0 args
  else some false

def readsWithReceiver (env : Env) (owner : ClassDecl) (m : MatchInput) (c : Candidate)
    (isOpen : List TypeVar) (params args : List Ty) : Bool :=
  env.hasReceiver m && args.length = params.length + 1 &&
    !(c.isStatic || isFreeConstructor owner c) &&
    env.restAccepted (env.inferredParams isOpen params args.tail c.isVarargs) c.isVarargs args.tail

def reading (env : Env) (owner : ClassDecl) (m : MatchInput) (c : Candidate) : Option Reading :=
  match env.shapeOf? c.member with
  | none => some ⟨false, false, [], c.isVarargs, false⟩
  | some shape =>
      let subst := m.ownerSubst.updateWith c.subst
      let params := shape.params.map subst.apply
      let args := m.target.params.map fun t => subst.apply (env.withoutWildcards t)
      let isOpen := openParams owner c shape subst
      (env.readsDirectly owner m c isOpen params args).map fun direct =>
        ⟨direct, env.readsWithReceiver owner m c isOpen params args, params, c.isVarargs,
          shape.isAbstract⟩

def readings (env : Env) (owner : ClassDecl) (m : MatchInput) : List Candidate →
    Option (List Reading)
  | [] => some []
  | c :: rest => match env.reading owner m c with
    | none => none
    | some r => (env.readings owner m rest).map (r :: ·)

end Env

end DoubleColon
