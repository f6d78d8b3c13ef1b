import DoubleColon.Declaration

/-!
# Environments

The classes and type parameters known to an analysis, with an index of class names. Identities
are positions: a class that is added under a known name takes the place of the old declaration,
every other addition goes to the end, and an edit changes a declaration without touching the
index.
-/

set_option autoImplicit false

namespace DoubleColon

structure WellKnown where
  object : ClassId
  string : ClassId
  integer : ClassId
  cloneable : ClassId
  serializable : ClassId
  deriving DecidableEq, Repr

structure Env where
  classes : List ClassDecl
  typeParams : List TypeParam
  /-- The index of class names; the first entry of a name counts. -/
  names : List (String × ClassId)
  wellKnown : WellKnown
  /-- How many class types a walk of the class hierarchy looks at before it gives up. Declarations
  in the midst of an edit may have infinitely many supertypes. -/
  searchLimit : Nat

namespace Env

def class? (env : Env) (id : ClassId) : Option ClassDecl := env.classes[id.index]?

def typeParam? (env : Env) (id : TypeVar) : Option TypeParam := env.typeParams[id.index]?

def lookup (env : Env) (name : String) : Option ClassId :=
  (env.names.find? fun e => e.1 = name).map (·.2)

def withoutNames (env : Env) (hidden : List String) : Env :=
  { env with names := env.names.filter fun e => !hidden.contains e.1 }

def objectTy (env : Env) : Ty := .cls env.wellKnown.object []

def stringTy (env : Env) : Ty := .cls env.wellKnown.string []

def canonical (env : Env) : Ty → Ty
  | .named n => match env.lookup n with
    | some id => .cls id []
    | none => .named n
  | t => t

theorem canonical_canonical (env : Env) (t : Ty) :
    env.canonical (env.canonical t) = env.canonical t := by
  cases t with
  | named n => cases h : env.lookup n <;> simp [canonical, h]
  | _ => rfl

def addClass (env : Env) (d : ClassDecl) : Env × ClassId :=
  match env.lookup d.name with
  | some id => ({ env with classes := env.classes.set id.index d }, id)
  | none =>
      let id : ClassId := ⟨env.classes.length⟩
      ({ env with classes := env.classes ++ [d], names := env.names ++ [(d.name, id)] }, id)

def addTypeParam (env : Env) (p : TypeParam) : Env × TypeVar :=
  ({ env with typeParams := env.typeParams ++ [p] }, ⟨env.typeParams.length⟩)

def editClass (env : Env) (id : ClassId) (f : ClassDecl → ClassDecl) : Env :=
  { env with classes := env.classes.modify id.index f }

def editTypeParam (env : Env) (id : TypeVar) (f : TypeParam → TypeParam) : Env :=
  { env with typeParams := env.typeParams.modify id.index f }

/-- The class types that a class type directly extends or implements: the declared ones with the
type arguments put in, without arguments if the class type is raw, and the root class for every
interface. Declared supertypes that are no class types do not count. -/
def directSupertypes (env : Env) (c : ClassType) : List ClassType :=
  match env.class? c.id with
  | none => []
  | some d =>
      let raw := c.args.isEmpty && !d.typeParams.isEmpty
      let subst := Substitution.ofArgs d c.args
      let declared := d.supertypes.filterMap fun t =>
        match env.canonical (subst.apply t) with
        | .cls id args => some ⟨id, if raw then [] else args⟩
        | _ => none
      declared ++ if d.kind = .interface then [⟨env.wellKnown.object, []⟩] else []

end Env

end DoubleColon
