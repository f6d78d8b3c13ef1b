import DoubleColon.Substitution

/-!
# Declarations

Type parameters, methods, constructors and classes as they are declared, and the parts of a
binary class name.
-/

set_option autoImplicit false

namespace DoubleColon

structure TypeParam where
  name : String
  upperBounds : List Ty
  lowerBound : Option Ty
  deriving DecidableEq

inductive ClassKind where
  | cls
  | interface
  | enum
  deriving DecidableEq, Repr

inductive Visibility where
  | pub
  | prot
  | pkg
  | priv
  deriving DecidableEq, Repr

structure MethodDecl where
  name : String
  typeParams : List TypeVar := []
  params : List Ty := []
  returnType : Ty := .void
  isStatic : Bool := false
  isVarargs : Bool := false
  isAbstract : Bool := false
  visibility : Visibility := .pub
  deriving DecidableEq

structure ConstructorDecl where
  typeParams : List TypeVar := []
  params : List Ty := []
  isVarargs : Bool := false
  visibility : Visibility := .pub
  deriving DecidableEq

structure ClassDecl where
  /-- The binary name, `java.util.Map$Entry`. -/
  name : String
  kind : ClassKind := .cls
  typeParams : List TypeVar := []
  superclass : Option Ty := none
  interfaces : List Ty := []
  constructors : List ConstructorDecl := []
  methods : List MethodDecl := []
  outer : Option ClassId := none
  isStatic : Bool := false
  isAbstract : Bool := false
  deriving DecidableEq

def afterLast (p : Char → Bool) (text : List Char) : List Char :=
  (text.reverse.takeWhile fun c => !p c).reverse

def beforeLast (p : Char → Bool) (text : List Char) : List Char :=
  ((text.reverse.dropWhile fun c => !p c).drop 1).reverse

namespace ClassDecl

def simpleName (d : ClassDecl) : String :=
  String.ofList (afterLast (fun c => c = '.' || c = '$') d.name.toList)

def package (d : ClassDecl) : String :=
  String.ofList (beforeLast (· = '.') (d.name.toList.takeWhile fun c => c ≠ '$'))

def isInner (d : ClassDecl) : Bool :=
  d.outer.isSome && !d.isStatic && d.kind = .cls

def thisType (d : ClassDecl) (id : ClassId) : Ty := .cls id (d.typeParams.map .var)

def supertypes (d : ClassDecl) : List Ty := d.superclass.toList ++ d.interfaces

end ClassDecl

/-- What a class type with these arguments substitutes for the class's type parameters. Nothing,
if their numbers differ; in particular a raw type substitutes nothing. -/
def Substitution.ofArgs (d : ClassDecl) (args : List Ty) : Substitution :=
  if args.length = d.typeParams.length then .ofList (d.typeParams.zip args) else {}

end DoubleColon
