import DoubleColon.ClassOf
import DoubleColon.Site

/-!
# The class a method reference searches

`Env.classify` determines from a qualifier the class whose members a reference may denote. A bare
name is an expression if its static type has a class, and only otherwise the name of a type.
-/

set_option autoImplicit false

namespace DoubleColon

structure SearchedClass where
  id : ClassId
  /-- The type arguments of the class; nothing for raw and for non-generic classes. -/
  subst : Substitution
  isBareTypeName : Bool
  /-- An expression of an array type; it has the members of the root class. -/
  isArray : Bool
  /-- The qualifier denotes a type, so that a reference may leave its receiver open. -/
  namesType : Bool
  deriving DecidableEq

namespace Env

def classifyExpr (env : Env) : Ty → Option SearchedClass
  | .array _ => some ⟨env.wellKnown.object, {}, false, true, false⟩
  | t => (env.classOf? t).map fun c => ⟨c.id, c.subst, false, false, false⟩

def classifyType (env : Env) (bareName : Bool) (t : Ty) : Option SearchedClass :=
  (env.classOf? t).map fun c => ⟨c.id, c.subst, bareName, false, true⟩

def classify (env : Env) : Qualifier → Option SearchedClass
  | .expr t => env.classifyExpr t
  | .name _ asValue asType => (env.classifyExpr asValue).or (asType.bind (env.classifyType true))
  | .type t => env.classifyType false t

end Env

end DoubleColon
