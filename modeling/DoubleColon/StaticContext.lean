import DoubleColon.Env
import DoubleColon.Site

/-!
# Static contexts

Two questions about the declarations around a site: whether a bare type name stands in a static
context relative to the class it names, and whether an instance of a class is at hand. Both follow
the declarations outwards and fail at a class that the environment does not know.
-/

set_option autoImplicit false

namespace DoubleColon

inductive InvalidSite where
  | detached
  | unknownEnclosing (id : ClassId)
  | unknownOwner (id : ClassId)
  deriving DecidableEq, Repr

def ClassId.label (id : ClassId) : String := "ClassId(" ++ toString id.index ++ ")"

def SiteId.label (id : SiteId) : String := "SiteId(" ++ toString id.index ++ ")"

namespace InvalidSite

def reason : InvalidSite → String
  | .detached => "site is detached from its tree"
  | .unknownEnclosing id => "enclosing class " ++ id.label ++ " is missing from the environment"
  | .unknownOwner id => "owning class " ++ id.label ++ " is missing from the environment"

def message (site : SiteId) (e : InvalidSite) : String :=
  "invalid method reference site " ++ site.label ++ ": " ++ e.reason

end InvalidSite

namespace Env

def meetsStatic (env : Env) (stopAt : Option ClassId) : List Enclosing → Except InvalidSite Bool
  | [] => .ok false
  | .cls id :: rest =>
      if some id = stopAt then .ok false
      else match env.class? id with
        | none => .error (.unknownEnclosing id)
        | some d => if d.isStatic then .ok true else env.meetsStatic stopAt rest
  | .member isStatic :: rest => if isStatic then .ok true else env.meetsStatic stopAt rest

def isStaticContext (env : Env) (site : Site) (owner : ClassId) : Except InvalidSite Bool :=
  match env.class? owner with
  | none => .error (.unknownEnclosing owner)
  | some d =>
      if d.outer.isSome && d.isStatic then .ok false
      else
        let anchor := d.outer.getD owner
        env.meetsStatic (if site.isInside anchor then some anchor else none) site.enclosing

def reachesInstance (env : Env) (outer : ClassId) : List Enclosing → Except InvalidSite Bool
  | [] => .ok false
  | .cls id :: rest =>
      if id = outer then .ok true
      else match env.class? id with
        | none => .error (.unknownEnclosing id)
        | some d => if d.isStatic then .ok false else env.reachesInstance outer rest
  | .member isStatic :: rest => if isStatic then .ok false else env.reachesInstance outer rest

def hasInstanceOf (env : Env) (site : Site) (outer : ClassId) : Except InvalidSite Bool :=
  if site.isInside outer then env.reachesInstance outer site.enclosing else .ok false

end Env

end DoubleColon
