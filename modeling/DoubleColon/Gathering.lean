import DoubleColon.FunctionType
import DoubleColon.MemberWalk
import DoubleColon.SearchedClass
import DoubleColon.Receiver
import DoubleColon.StaticContext

/-!
# Gathering candidates

What a site with a known class leads to: a walk of the class, or, for the constructor of a class
that declares none, an outcome that is already settled by the function type.
-/

set_option autoImplicit false

namespace DoubleColon

inductive Gathering where
  /-- The candidates are known and need no choice. -/
  | settled (candidates : List Candidate)
  | walk (request : WalkRequest)
  deriving DecidableEq

namespace Env

def allowsImplicit (d : ClassDecl) : Bool :=
  d.constructors.isEmpty && d.kind != .enum && !d.isAbstract

/-- The implicit constructor of a class suits a function type. It takes no parameter but, for an
inner class, the enclosing instance as a receiver or from around the site. -/
def suitsImplicit (env : Env) (site : Site) (owner : ClassId) (d : ClassDecl)
    (subst : Substitution) (target : FunctionType) : Except InvalidSite Bool :=
  let byArity := target.arity = 0 || (d.isInner && match target.params with
    | [t] => env.isReceiver t owner subst
    | _ => false)
  match d.outer with
  | some outer =>
      if d.isInner && target.arity = 0 then env.hasInstanceOf site outer
      else .ok byArity
  | none => .ok byArity

def siteFilter (site : Site) (d : ClassDecl) : Option MemberFilter :=
  match site.name with
  | .new => some (.ctors d.simpleName)
  | .ident text => some (.methods text)
  | .missing => none

def siteRequest (env : Env) (site : Site) (q : SearchedClass) (subst : Substitution)
    (filter : MemberFilter) : Except InvalidSite WalkRequest :=
  let request := fun staticOnly =>
    { cls := q.id, subst, filter, place := site.enclosingClass
      through := if q.isArray then none else some q.id
      staticOnly : WalkRequest }
  if q.isBareTypeName then (env.isStaticContext site q.id).map request else .ok (request false)

def gather (env : Env) (site : Site) (q : SearchedClass) (subst : Substitution)
    (target : Option FunctionType) : Except InvalidSite Gathering :=
  match env.class? q.id with
  | none => .error (.unknownOwner q.id)
  | some d =>
      let walk := match siteFilter site d with
        | none => .ok (.settled [])
        | some filter => (env.siteRequest site q subst filter).map .walk
      match target with
      | none => walk
      | some t =>
          if site.isConstructor && allowsImplicit d then
            (env.suitsImplicit site q.id d subst t).map fun suits =>
              .settled (if suits then
                [⟨.implicitConstructor q.id, subst, false, true, false, true⟩] else [])
          else walk

end Env

end DoubleColon
