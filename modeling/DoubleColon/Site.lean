import DoubleColon.Identifier
import DoubleColon.Ty

/-!
# Method reference sites

A site is a method reference expression as the resolver sees it: its qualifier, the name after the
double colon, and the declarations around it. Every edit of a site makes its version grow, so a
site and a version stand for one text.
-/

set_option autoImplicit false

namespace DoubleColon

structure SiteId where
  index : Nat
  deriving DecidableEq, Repr

inductive Qualifier where
  | type (t : Ty)
  | expr (t : Ty)
  /-- A bare name: the static type that it has as an expression, and the type that it denotes when
  it is read as the name of a type. -/
  | name (text : String) (asValue : Ty) (asType : Option Ty)
  deriving DecidableEq, Repr

inductive Selector where
  | ident (text : String)
  | new
  | missing
  deriving DecidableEq, Repr

inductive Enclosing where
  | cls (id : ClassId)
  /-- A method, a field's initial value or an initializer block. -/
  | member (isStatic : Bool)
  deriving DecidableEq, Repr

structure Site where
  id : SiteId
  version : Nat := 0
  qualifier : Qualifier
  name : Selector
  enclosing : List Enclosing := []
  attached : Bool := true
  deriving DecidableEq, Repr

inductive RenameError where
  | missingName
  | invalidIdentifier (name : String)
  deriving DecidableEq, Repr

def RenameError.message : RenameError → String
  | .missingName => "method reference has no name to rename"
  | .invalidIdentifier name => "`" ++ name ++ "` is not a valid Java identifier"

namespace Selector

def isKeyword : Selector → Bool
  | .ident text => text = "this" || text = "super"
  | .new => true
  | .missing => false

end Selector

namespace Site

def isConstructor (s : Site) : Bool := s.name = .new

def enclosingClass (s : Site) : Option ClassId :=
  s.enclosing.findSome? fun
    | .cls id => some id
    | .member _ => none

def isInside (s : Site) (id : ClassId) : Bool := s.enclosing.contains (.cls id)

def touch (s : Site) : Site := { s with version := s.version + 1 }

def setQualifier (s : Site) (q : Qualifier) : Site := { s with qualifier := q }.touch

def setName (s : Site) (n : Selector) : Site := { s with name := n }.touch

def detach (s : Site) : Site := { s with attached := false }.touch

theorem version_setName (s : Site) (n : Selector) : (s.setName n).version = s.version + 1 := rfl

section

variable [Identifier.XidProperties]

/-- Rename the member that is referred to, and tell whether the site changed. Keywords and the
present name are left alone, whatever the new name is. -/
def rename (s : Site) (newName : String) : Except RenameError (Site × Bool) :=
  if s.name = .missing then .error .missingName
  else if s.name.isKeyword || s.name = .ident newName then .ok (s, false)
  else if Identifier.isValid newName then .ok (s.setName (.ident newName), true)
  else .error (.invalidIdentifier newName)

end

end Site

end DoubleColon
