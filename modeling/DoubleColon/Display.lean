import DoubleColon.Env

/-!
# Types as text

`Env.display` writes a type as in source text with simple class names. What the environment does
not know is written by its number.
-/

set_option autoImplicit false

namespace DoubleColon

namespace Env

def displayClass (env : Env) (id : ClassId) : String :=
  match env.class? id with
  | some d => d.simpleName
  | none => "<" ++ toString id.index ++ ">"

def displayVar (env : Env) (v : TypeVar) : String :=
  match env.typeParam? v with
  | some p => p.name
  | none => "T#" ++ toString v.index

def joinTexts (sep : String) : List String → String
  | [] => ""
  | [s] => s
  | s :: rest => s ++ sep ++ joinTexts sep rest

mutual

def display (env : Env) : Ty → String
  | .void => "void"
  | .prim p => p.name
  | .cls id [] => env.displayClass id
  | .cls id (a :: args) =>
      env.displayClass id ++ "<" ++ joinTexts ", " (display env a :: displayAll env args) ++ ">"
  | .array elem => display env elem ++ "[]"
  | .var v => env.displayVar v
  | .wild => "?"
  | .wildUpper b => "? extends " ++ display env b
  | .wildLower b => "? super " ++ display env b
  | .inter parts => joinTexts " & " (displayAll env parts)
  | .named n => n
  | .null => "null"
  | .unknown => "<unknown>"
  | .error => "<error>"

def displayAll (env : Env) : List Ty → List String
  | [] => []
  | t :: rest => display env t :: displayAll env rest

end

end Env

end DoubleColon
