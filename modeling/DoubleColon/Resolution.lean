import DoubleColon.Conflict
import DoubleColon.Display
import DoubleColon.Gathering

/-!
# Resolutions

The outcome of resolving a reference, and the inference of type arguments for the member that was
chosen.

If the member declares as many parameters as the function type has, its type parameters are
inferred from them and from the return type. Otherwise only the class of the first type in the
longer of the two lists contributes; this degenerate inference can be reported.
-/

set_option autoImplicit false

namespace DoubleColon

structure ResolvedMember where
  candidate : Candidate
  /-- The type arguments of the qualifier and what was inferred from the function type. -/
  subst : Substitution
  params : List Ty
  returnType : Ty
  deriving DecidableEq

inductive Resolution where
  | empty
  | unique (m : ResolvedMember)
  | ambiguous (candidates : List Candidate)
  deriving DecidableEq

namespace Resolution

def members : Resolution → List Member
  | .empty => []
  | .unique m => [m.candidate.member]
  | .ambiguous cs => cs.map (·.member)

end Resolution

structure DegenerateInference where
  params : Nat
  targetParams : Nat
  /-- The type that was inferred from, as text. -/
  first : String
  deriving DecidableEq, Repr

namespace Env

/-- A reference to a constructor of a generic class without type arguments takes them from the
return type of the function type. -/
def refineOwner (env : Env) (q : SearchedClass) (target : FunctionType) : Substitution :=
  match env.class? q.id with
  | none => q.subst
  | some d =>
      env.inferFromReturn d.typeParams (d.thisType q.id) (some target.returnType)
        (if q.subst.omits d.typeParams then {} else q.subst)

def ownerSubst (env : Env) (site : Site) (q : SearchedClass) (target : Option FunctionType) :
    Substitution :=
  match target with
  | some t => if site.isConstructor then env.refineOwner q t else q.subst
  | none => q.subst

def inferenceParams (owner : ClassDecl) (base : Substitution) (shape : MemberShape) : List Ty :=
  if base.omits owner.typeParams then shape.params else shape.params.map base.apply

def inferMatching (env : Env) (owner : ClassDecl) (m : Member) (shape : MemberShape)
    (base : Substitution) (params args : List Ty) (returnType : Ty) : Substitution :=
  let own := (env.inferArguments shape.typeParams params args).under base
  let inferred :=
    if m.isConstructor then own.updateWith (env.inferArguments owner.typeParams params args)
    else own
  match env.returnTypeOf? m with
  | none => inferred
  | some declared =>
      env.inferFromReturn
        (shape.typeParams ++ if m.isConstructor then owner.typeParams else [])
        (inferred.apply declared) (some returnType) inferred

def inferMember (env : Env) (m : Member) (base : Substitution) (target : FunctionType) :
    Substitution × Option DegenerateInference :=
  match env.shapeOf? m, env.class? m.owner with
  | some shape, some owner =>
      let params := inferenceParams owner base shape
      let args := target.params.map env.withoutWildcards
      if params.length = args.length then
        (env.inferMatching owner m shape base params args target.returnType, none)
      else
        let first := (if args.length < params.length then params else args).head?
        let inferred := (first.bind env.classOf?).map (·.subst)
        (inferred.getD {}, some ⟨params.length, args.length, (first.map env.display).getD ""⟩)
  | _, _ => ({}, none)

def resolveMember (env : Env) (owning : Substitution) (target : Option FunctionType)
    (c : Candidate) : ResolvedMember × Option DegenerateInference :=
  let base := owning.updateWith c.subst
  let (subst, degenerate) :=
    if c.member.isImplicit then (c.subst, none)
    else match target with
      | none => ({}, none)
      | some t => env.inferMember c.member base t
  let put := (base.updateWith subst).apply
  let params := match env.shapeOf? c.member with
    | none => []
    | some shape => shape.params.map put
  let returnType := match env.returnTypeOf? c.member with
    | none => .unknown
    | some t => put t
  (⟨c, subst, params, returnType⟩, degenerate)

def resolutionOf (env : Env) (owning : Substitution) (target : Option FunctionType)
    (cs : List Candidate) : Choice → Resolution × Option DegenerateInference
  | .none => (.empty, none)
  | .ambiguous positions => (.ambiguous (positions.filterMap fun i => cs[i]?), none)
  | .unique i => match cs[i]? with
    | none => (.empty, none)
    | some c =>
        let (m, degenerate) := env.resolveMember owning target c
        (.unique m, degenerate)

end Env

end DoubleColon
