/-!
# Java types

The types that occur in declarations and in the qualifiers and targets of method references:
primitives, class types with their type arguments, arrays, type variables, wildcards,
intersections, spelled but unresolved names, and the recovery types of incomplete code.

Equality of types is decided structurally. `Ty.inductionOn` is the induction principle that
reaches the type arguments of a class type and the parts of an intersection.
-/

set_option autoImplicit false

namespace DoubleColon

structure ClassId where
  index : Nat
  deriving DecidableEq, Repr

structure TypeVar where
  index : Nat
  deriving DecidableEq, Repr

inductive Primitive where
  | boolean
  | byte
  | short
  | char
  | int
  | long
  | float
  | double
  deriving DecidableEq, Repr

namespace Primitive

def all : List Primitive := [boolean, byte, short, char, int, long, float, double]

theorem mem_all (p : Primitive) : p ∈ all := by
  cases p <;> simp [all]

def name : Primitive → String
  | boolean => "boolean"
  | byte => "byte"
  | short => "short"
  | char => "char"
  | int => "int"
  | long => "long"
  | float => "float"
  | double => "double"

def wrapperName : Primitive → String
  | boolean => "java.lang.Boolean"
  | byte => "java.lang.Byte"
  | short => "java.lang.Short"
  | char => "java.lang.Character"
  | int => "java.lang.Integer"
  | long => "java.lang.Long"
  | float => "java.lang.Float"
  | double => "java.lang.Double"

/-- Widening primitive conversion (JLS 5.1.2), identity included. -/
def widensTo : Primitive → Primitive → Bool
  | byte, q => q = byte || q = short || q = int || q = long || q = float || q = double
  | short, q => q = short || q = int || q = long || q = float || q = double
  | char, q => q = char || q = int || q = long || q = float || q = double
  | int, q => q = int || q = long || q = float || q = double
  | long, q => q = long || q = float || q = double
  | float, q => q = float || q = double
  | double, q => q = double
  | boolean, q => q = boolean

theorem widensTo_refl (p : Primitive) : p.widensTo p = true := by
  cases p <;> rfl

end Primitive

inductive Ty where
  | void
  | prim (p : Primitive)
  | cls (id : ClassId) (args : List Ty)
  | array (elem : Ty)
  | var (id : TypeVar)
  | wild
  | wildUpper (bound : Ty)
  | wildLower (bound : Ty)
  | inter (parts : List Ty)
  /-- A class spelled by its binary name and not yet looked up. -/
  | named (name : String)
  | null
  /-- Recovery: the type could not be determined. -/
  | unknown
  /-- Recovery: the type is known to be wrong. -/
  | error
  deriving Repr

namespace Ty

@[elab_as_elim]
theorem inductionOn {motive : Ty → Prop} (t : Ty)
    (void : motive void) (prim : ∀ p, motive (prim p))
    (cls : ∀ id args, (∀ a ∈ args, motive a) → motive (cls id args))
    (array : ∀ elem, motive elem → motive (array elem)) (var : ∀ id, motive (var id))
    (wild : motive wild) (wildUpper : ∀ b, motive b → motive (wildUpper b))
    (wildLower : ∀ b, motive b → motive (wildLower b))
    (inter : ∀ parts, (∀ p ∈ parts, motive p) → motive (inter parts))
    (named : ∀ n, motive (named n)) (null : motive null) (unknown : motive unknown)
    (error : motive error) : motive t :=
  Ty.rec (motive_1 := motive) (motive_2 := fun ts => ∀ t ∈ ts, motive t)
    void prim cls array var wild wildUpper wildLower inter named null unknown error
    (fun _ h => nomatch h)
    (fun _ _ hd tl t ht => by
      rcases List.mem_cons.1 ht with rfl | ht
      · exact hd
      · exact tl t ht) t

mutual

def same : Ty → Ty → Bool
  | .void, .void => true
  | .prim p, .prim q => p = q
  | .cls c as, .cls d bs => c = d && sameAll as bs
  | .array s, .array t => same s t
  | .var v, .var w => v = w
  | .wild, .wild => true
  | .wildUpper s, .wildUpper t => same s t
  | .wildLower s, .wildLower t => same s t
  | .inter as, .inter bs => sameAll as bs
  | .named m, .named n => m = n
  | .null, .null => true
  | .unknown, .unknown => true
  | .error, .error => true
  | _, _ => false

def sameAll : List Ty → List Ty → Bool
  | [], [] => true
  | a :: as, b :: bs => same a b && sameAll as bs
  | _, _ => false

end

mutual

theorem same_iff : (s t : Ty) → (same s t = true ↔ s = t)
  | .void, t | .wild, t | .null, t | .unknown, t | .error, t => by cases t <;> simp [same]
  | .prim _, t | .var _, t | .named _, t => by cases t <;> simp [same]
  | .cls _ as, t => by
      cases t with
      | cls _ bs => simp [same, sameAll_iff as bs]
      | _ => simp [same]
  | .array s, t => by
      cases t with
      | array t => simp [same, same_iff s t]
      | _ => simp [same]
  | .wildUpper s, t => by
      cases t with
      | wildUpper t => simp [same, same_iff s t]
      | _ => simp [same]
  | .wildLower s, t => by
      cases t with
      | wildLower t => simp [same, same_iff s t]
      | _ => simp [same]
  | .inter as, t => by
      cases t with
      | inter bs => simp [same, sameAll_iff as bs]
      | _ => simp [same]

theorem sameAll_iff : (as bs : List Ty) → (sameAll as bs = true ↔ as = bs)
  | [], bs => by cases bs <;> simp [sameAll]
  | a :: as, bs => by
      cases bs with
      | nil => simp [sameAll]
      | cons b bs => simp [sameAll, same_iff a b, sameAll_iff as bs]

end

instance : DecidableEq Ty := fun s t => decidable_of_iff _ (same_iff s t)

def isRecovery : Ty → Bool
  | .unknown | .error => true
  | _ => false

def isPrimitive : Ty → Bool
  | .prim _ => true
  | _ => false

def isReference : Ty → Bool
  | .cls _ _ | .array _ | .var _ | .inter _ | .named _ | .null => true
  | _ => false

def component? : Ty → Option Ty
  | .array elem => some elem
  | _ => none

end Ty

/-- A class together with type arguments: the node of the class hierarchy. No arguments stand
for a raw or a non-generic class. -/
structure ClassType where
  id : ClassId
  args : List Ty
  deriving DecidableEq, Repr

def ClassType.toTy (c : ClassType) : Ty := .cls c.id c.args

end DoubleColon
