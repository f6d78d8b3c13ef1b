import DoubleColon.SupertypeView

/-!
# Access control

Whether a member of one class may be named in another one (JLS 6.6).
-/

set_option autoImplicit false

namespace DoubleColon

namespace Env

def enclosingChain (env : Env) : Nat → ClassId → List ClassId
  | 0, _ => []
  | n + 1, c => c :: match (env.class? c).bind (·.outer) with
    | none => []
    | some o => env.enclosingChain n o

def nestingLimit : Nat := 64

def topLevel (env : Env) (c : ClassId) : ClassId :=
  (env.enclosingChain nestingLimit c).getLast?.getD c

def inSamePackage (env : Env) (c d : ClassId) : Bool :=
  match env.class? c, env.class? d with
  | some c, some d => c.package = d.package
  | _, _ => false

/-- A member of `declaring` may be named in `place` through a qualifier of class `through`. A
protected member is open to subclasses, to their nested classes, and, if it is not static, only
through a qualifier of the subclass (JLS 6.6.2). Without a place or a qualifier nothing is
restricted. -/
def isAccessible (env : Env) (place through : Option ClassId) (declaring : ClassId)
    (visibility : Visibility) (isStatic : Bool) : Bool :=
  match place, through with
  | some p, some q => match visibility with
    | .pub => true
    | .priv => env.topLevel p = env.topLevel declaring
    | .pkg => env.inSamePackage p declaring
    | .prot => env.inSamePackage p declaring ||
        (env.enclosingChain nestingLimit p).any fun c =>
          env.inherits c declaring && (isStatic || env.inherits q c)
  | _, _ => true

end Env

end DoubleColon
