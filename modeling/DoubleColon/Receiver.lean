import DoubleColon.ClassOf
import DoubleColon.Conversion
import DoubleColon.SupertypeView

/-!
# Receivers of unbound references

Whether a value of a type may be the receiver of a reference that leaves its receiver open, as in
`String::length` for a function from strings.
-/

set_option autoImplicit false

namespace DoubleColon

namespace Env

def receiverLimit : Nat := 64

/-- The type is an instance of a class or of a class around it, at most so many classes away. For
the class itself, type arguments on both sides must agree. -/
def isReceiverWithin (env : Env) (t : Ty) (owner : ClassId) (subst : Substitution) :
    Nat → ClassId → Bool
  | 0, _ => false
  | n + 1, current => match env.asSuper t current with
    | some seen =>
        current != owner || subst.isEmpty || match seen, env.class? owner with
          | .cls _ args, some d => args.isEmpty || Substitution.ofArgs d args = subst
          | _, _ => true
    | none => match (env.class? current).bind (·.outer) with
      | some outer => env.isReceiverWithin t owner subst n outer
      | none => false

def isReceiver (env : Env) (t : Ty) (owner : ClassId) (subst : Substitution) : Bool :=
  let u := env.withoutWildcards t
  (env.classOf? u).isSome && env.isReceiverWithin u owner subst receiverLimit owner

end Env

end DoubleColon
