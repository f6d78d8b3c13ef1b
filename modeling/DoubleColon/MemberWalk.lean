import DoubleColon.Access
import DoubleColon.Member

/-!
# The declarations of a class

`Env.declarations` lists the declarations that a walk of a class examines, each with the candidate
that it gives, if it gives one. Methods are found in the class and breadth-first in its
supertypes, the superclass before the interfaces, with type arguments put in; a method that a
method found before it overrides gives nothing. Constructors are not inherited; a class that
declares none has an implicit one.
-/

set_option autoImplicit false

namespace DoubleColon

structure MemberFilter where
  /-- The name, which for constructors is that of their class; without one, all names. -/
  name : Option String
  constructors : Bool
  deriving DecidableEq, Repr

namespace MemberFilter

def methods (name : String) : MemberFilter := ⟨some name, false⟩

def allMethods : MemberFilter := ⟨none, false⟩

def ctors (className : String) : MemberFilter := ⟨some className, true⟩

def accepts (f : MemberFilter) (name : String) : Bool :=
  match f.name with
  | none => true
  | some n => n = name

end MemberFilter

structure WalkRequest where
  cls : ClassId
  subst : Substitution
  filter : MemberFilter
  /-- The class in which the reference stands, if it is known. -/
  place : Option ClassId
  /-- The class of the qualifier, against which access is checked, if it is to be checked. -/
  through : Option ClassId
  staticOnly : Bool
  deriving DecidableEq

namespace Env

def eraseWithin (env : Env) : Nat → Ty → Ty
  | 0, _ => env.objectTy
  | n + 1, t => match env.canonical t with
    | .cls id _ => .cls id []
    | .array elem => .array (env.eraseWithin n elem)
    | .var v => match (env.typeParam? v).bind fun p => p.upperBounds.head? with
      | some b => env.eraseWithin n b
      | none => env.objectTy
    | .wildUpper b => env.eraseWithin n b
    | .wild | .wildLower _ => env.objectTy
    | .inter [] => env.objectTy
    | .inter (p :: _) => env.eraseWithin n p
    | u => u

def erase (env : Env) (t : Ty) : Ty := env.eraseWithin 17 t

abbrev SeenClass := ClassId × Substitution

/-- The classes that a walk goes to next. The supertypes of a raw class are raw. -/
def superclasses (env : Env) (c : SeenClass) : List SeenClass :=
  match env.class? c.1 with
  | none => []
  | some d =>
      let raw := c.2.omits d.typeParams
      let declared := d.supertypes.filterMap fun t =>
        match env.canonical (c.2.apply t) with
        | .cls id args => match env.class? id with
          | some super => some (id, if raw then {} else .ofArgs super args)
          | none => some (id, {})
        | _ => none
      declared ++ if d.kind = .interface then [(env.wellKnown.object, {})] else []

/-- No walk by classes takes more steps than there are edges between classes, and one. -/
def walkLimit (env : Env) : Nat :=
  env.classes.foldr (fun d n => d.supertypes.length + 1 + n) 1

def seenClasses (env : Env) (c : SeenClass) : List SeenClass :=
  (Hierarchy.visits Prod.fst env.superclasses env.walkLimit [] [c]).getD []

structure SeenMethod where
  cls : ClassId
  index : Nat
  subst : Substitution
  decl : MethodDecl

def seenMethods (env : Env) (c : SeenClass) : List SeenMethod :=
  match env.class? c.1 with
  | none => []
  | some d => d.methods.zipIdx.map fun (m, i) => ⟨c.1, i, c.2, m⟩

def erasedSignature (env : Env) (m : SeenMethod) : String × List Ty :=
  (m.decl.name, m.decl.params.map fun t => env.erase (m.subst.apply t))

def methodCandidate (env : Env) (r : WalkRequest) (m : SeenMethod) : Candidate where
  member := .method m.cls m.index
  subst := m.subst
  isStatic := m.decl.isStatic
  isAccessible := env.isAccessible r.place r.through m.cls m.decl.visibility m.decl.isStatic
  isVarargs := m.decl.isVarargs
  inScope := !r.staticOnly || m.decl.isStatic

def methodCandidates (env : Env) (r : WalkRequest) :
    List (String × List Ty) → List SeenMethod → List (Option Candidate)
  | _, [] => []
  | known, m :: rest =>
      if !r.filter.accepts m.decl.name || known.contains (env.erasedSignature m) then
        none :: env.methodCandidates r known rest
      else
        some (env.methodCandidate r m) ::
          env.methodCandidates r (env.erasedSignature m :: known) rest

def hasImplicitConstructor (d : ClassDecl) : Bool :=
  d.constructors.isEmpty && d.kind = .cls && !d.isAbstract

def constructorCandidates (env : Env) (r : WalkRequest) (d : ClassDecl) : List Candidate :=
  let inScope := !(r.staticOnly && d.isInner)
  if hasImplicitConstructor d then
    [⟨.implicitConstructor r.cls, r.subst, false, true, false, inScope⟩]
  else
    d.constructors.zipIdx.map fun (c, i) =>
      ⟨.constructor r.cls i, r.subst, false,
        env.isAccessible r.place r.through r.cls c.visibility false, c.isVarargs, inScope⟩

def declarations (env : Env) (r : WalkRequest) : List (Option Candidate) :=
  match env.class? r.cls with
  | none => []
  | some d =>
      if r.filter.constructors then
        if r.filter.accepts d.simpleName then (env.constructorCandidates r d).map some else []
      else
        env.methodCandidates r [] ((env.seenClasses (r.cls, r.subst)).flatMap env.seenMethods)

end Env

end DoubleColon
