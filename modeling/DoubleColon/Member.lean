import DoubleColon.Env

/-!
# Members and candidates

A member is named by its class and its position among the class's declarations. A candidate is a
member that a walk of a class reported, with what the tests for applicability need to know.
-/

set_option autoImplicit false

namespace DoubleColon

inductive Member where
  | method (cls : ClassId) (index : Nat)
  | constructor (cls : ClassId) (index : Nat)
  | implicitConstructor (cls : ClassId)
  deriving DecidableEq, Repr

structure MemberShape where
  typeParams : List TypeVar
  params : List Ty
  isAbstract : Bool
  deriving DecidableEq

namespace Member

def owner : Member → ClassId
  | .method c _ | .constructor c _ | .implicitConstructor c => c

def isConstructor : Member → Bool
  | .method _ _ => false
  | .constructor _ _ | .implicitConstructor _ => true

def isImplicit : Member → Bool
  | .implicitConstructor _ => true
  | _ => false

end Member

namespace Env

def methodOf? (env : Env) : Member → Option MethodDecl
  | .method c i => (env.class? c).bind fun d => d.methods[i]?
  | _ => none

def constructorOf? (env : Env) : Member → Option ConstructorDecl
  | .constructor c i => (env.class? c).bind fun d => d.constructors[i]?
  | _ => none

def memberName? (env : Env) (m : Member) : Option String :=
  match m with
  | .method _ _ => (env.methodOf? m).map (·.name)
  | .constructor c _ | .implicitConstructor c => (env.class? c).map (·.simpleName)

def shapeOf? (env : Env) (m : Member) : Option MemberShape :=
  match m with
  | .method _ _ => (env.methodOf? m).map fun d => ⟨d.typeParams, d.params, d.isAbstract⟩
  | .constructor _ _ => (env.constructorOf? m).map fun d => ⟨d.typeParams, d.params, false⟩
  | .implicitConstructor c => (env.class? c).map fun _ => ⟨[], [], false⟩

def returnTypeOf? (env : Env) (m : Member) : Option Ty :=
  match m with
  | .method _ _ => (env.methodOf? m).map (·.returnType)
  | .constructor c _ | .implicitConstructor c => (env.class? c).map fun d => d.thisType c

end Env

structure Candidate where
  member : Member
  subst : Substitution
  isStatic : Bool
  isAccessible : Bool
  isVarargs : Bool
  /-- Not an instance member that was found from a static context. -/
  inScope : Bool
  deriving DecidableEq

end DoubleColon
