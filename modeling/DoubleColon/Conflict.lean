import DoubleColon.Applicability

/-!
# Choosing among candidates

Of the applicable candidates a single one is chosen. Where there are several, or one that is
applicable in both readings, a picker compares them as overloads; if it gives no winner the
reference is ambiguous. Candidates are referred to by their positions.
-/

set_option autoImplicit false

namespace DoubleColon

inductive Choice where
  | none
  | unique (i : Nat)
  | ambiguous (positions : List Nat)
  deriving DecidableEq, Repr

abbrev Picker := Env → List Overload → Phase → Option Nat

namespace Choice

def ofCount : Nat → Choice
  | 0 => none
  | 1 => unique 0
  | n => ambiguous (List.range n)

end Choice

def applicable (rs : List Reading) : List (Reading × Nat) :=
  rs.zipIdx.filter fun (r, _) => r.direct || r.receiver

def countDirect (rs : List Reading) : Nat := rs.countP (·.direct)

def countReceiver (rs : List Reading) : Nat := rs.countP (·.receiver)

def needsComparison (rs : List Reading) : Bool := 1 < countDirect rs + countReceiver rs

def overloads (rs : List Reading) : List Overload :=
  (applicable rs).map fun (r, _) => ⟨r.params, r.isVarargs, r.isAbstract⟩

def phase (rs : List Reading) : Phase :=
  if (applicable rs).any fun (r, _) => r.isVarargs then .variableArity else .fixedArity

def choose (env : Env) (pick : Picker) (rs : List Reading) : Choice :=
  match applicable rs with
  | [] => .none
  | (r, i) :: rest =>
      if needsComparison rs then
        let positions := ((r, i) :: rest).map (·.2)
        match (pick env (overloads rs) (phase rs)).bind fun k => positions[k]? with
        | some winner => .unique winner
        | none => .ambiguous positions
      else .unique i

end DoubleColon
