import DoubleColon.Env

/-!
# The standard environment

The classes of `java.lang`, `java.util` and `java.util.function` that every analysis starts with,
`Env.standard`: twenty-six classes and thirteen type parameters, in a fixed order.
-/

set_option autoImplicit false

namespace DoubleColon

namespace Standard

def object : ClassId := ⟨0⟩
def cloneable : ClassId := ⟨1⟩
def serializable : ClassId := ⟨2⟩
def string : ClassId := ⟨3⟩
def comparable : ClassId := ⟨4⟩
def charSequence : ClassId := ⟨5⟩
def number : ClassId := ⟨6⟩
def integer : ClassId := ⟨11⟩
def function : ClassId := ⟨16⟩
def collection : ClassId := ⟨23⟩
def list : ClassId := ⟨24⟩

def objectTy : Ty := .cls object []
def stringTy : Ty := .cls string []
def integerTy : Ty := .cls integer []
def int : Ty := .prim .int
def boolean : Ty := .prim .boolean

def param (n : Nat) : Ty := .var ⟨n⟩

def method (name : String) (params : List Ty) (returnType : Ty) : MethodDecl :=
  { name, params, returnType }

def staticMethod (name : String) (params : List Ty) (returnType : Ty) : MethodDecl :=
  { name, params, returnType, isStatic := true }

def abstractMethod (name : String) (params : List Ty) (returnType : Ty) : MethodDecl :=
  { name, params, returnType, isAbstract := true }

def interface (name : String) (typeParams : List Nat) (interfaces : List Ty)
    (methods : List MethodDecl) : ClassDecl :=
  { name, kind := .interface, typeParams := typeParams.map TypeVar.mk
    superclass := some objectTy, interfaces, methods, isAbstract := true }

def wrapper (p : Primitive) (superclass : Ty) : ClassDecl :=
  { name := p.wrapperName, superclass := some superclass }

def objectDecl : ClassDecl :=
  { name := "java.lang.Object"
    constructors := [{}]
    methods := [
      method "equals" [objectTy] boolean,
      method "hashCode" [] int,
      method "toString" [] stringTy] }

def stringDecl : ClassDecl :=
  { name := "java.lang.String"
    superclass := some objectTy
    interfaces := [.cls charSequence [], .cls comparable [stringTy], .cls serializable []]
    constructors := [{}, { params := [stringTy] }]
    methods := [
      method "length" [] int,
      method "isEmpty" [] boolean,
      method "compareTo" [stringTy] int,
      method "concat" [stringTy] stringTy,
      method "toUpperCase" [] stringTy,
      staticMethod "valueOf" [int] stringTy,
      staticMethod "valueOf" [objectTy] stringTy] }

def numberDecl : ClassDecl :=
  { name := "java.lang.Number"
    superclass := some objectTy
    constructors := [{}]
    methods := [abstractMethod "intValue" [] int]
    isAbstract := true }

def integerDecl : ClassDecl :=
  { wrapper .int (.cls number []) with
    interfaces := [.cls comparable [integerTy]]
    constructors := [{ params := [int] }]
    methods := [
      method "intValue" [] int,
      method "compareTo" [integerTy] int,
      staticMethod "parseInt" [stringTy] int,
      staticMethod "valueOf" [int] integerTy,
      staticMethod "toString" [int] stringTy,
      staticMethod "sum" [int, int] int] }

def arrayListDecl : ClassDecl :=
  { name := "java.util.ArrayList"
    typeParams := [⟨12⟩]
    superclass := some objectTy
    interfaces := [.cls list [param 12]]
    constructors := [{}, { params := [int] }]
    methods := [
      method "size" [] int,
      method "isEmpty" [] boolean,
      method "add" [param 12] boolean,
      method "get" [int] (param 12)] }

def classes : List ClassDecl := [
  objectDecl,
  interface "java.lang.Cloneable" [] [] [],
  interface "java.io.Serializable" [] [] [],
  stringDecl,
  interface "java.lang.Comparable" [0] [] [abstractMethod "compareTo" [param 0] int],
  interface "java.lang.CharSequence" [] [] [abstractMethod "length" [] int],
  numberDecl,
  wrapper .boolean objectTy,
  wrapper .byte (.cls number []),
  wrapper .short (.cls number []),
  wrapper .char objectTy,
  integerDecl,
  wrapper .long (.cls number []),
  wrapper .float (.cls number []),
  wrapper .double (.cls number []),
  interface "java.lang.Runnable" [] [] [abstractMethod "run" [] .void],
  interface "java.util.function.Function" [1, 2] []
    [abstractMethod "apply" [param 1] (param 2)],
  interface "java.util.function.UnaryOperator" [3] [.cls function [param 3, param 3]] [],
  interface "java.util.function.BiFunction" [4, 5, 6] []
    [abstractMethod "apply" [param 4, param 5] (param 6)],
  interface "java.util.function.Supplier" [7] [] [abstractMethod "get" [] (param 7)],
  interface "java.util.function.Consumer" [8] [] [abstractMethod "accept" [param 8] .void],
  interface "java.util.function.Predicate" [9] [] [abstractMethod "test" [param 9] boolean],
  interface "java.util.function.IntBinaryOperator" [] []
    [abstractMethod "applyAsInt" [int, int] int],
  interface "java.util.Collection" [10] []
    [abstractMethod "size" [] int,
      abstractMethod "isEmpty" [] boolean,
      abstractMethod "add" [param 10] boolean],
  interface "java.util.List" [11] [.cls collection [param 11]]
    [abstractMethod "get" [int] (param 11)],
  arrayListDecl]

def typeParamNames : List String :=
  ["T", "T", "R", "T", "T", "U", "R", "T", "T", "T", "E", "E", "E"]

end Standard

def Env.standard : Env where
  classes := Standard.classes
  typeParams := Standard.typeParamNames.map fun name =>
    { name, upperBounds := [Standard.objectTy], lowerBound := none }
  names := Standard.classes.zipIdx.map fun (d, i) => (d.name, ⟨i⟩)
  wellKnown :=
    { object := Standard.object
      string := Standard.string
      integer := Standard.integer
      cloneable := Standard.cloneable
      serializable := Standard.serializable }
  searchLimit := 65536

namespace Env

example : standard.lookup "java.lang.Object" = some standard.wellKnown.object := by decide

example : standard.lookup "java.io.Serializable" = some standard.wellKnown.serializable := by
  decide

example : standard.lookup (Primitive.wrapperName .int) = some standard.wellKnown.integer := by
  decide

example : (standard.class? Standard.list).map (·.name) = some "java.util.List" := by decide

example : (standard.class? Standard.function).map (·.name) =
    some "java.util.function.Function" := by decide

end Env

end DoubleColon
