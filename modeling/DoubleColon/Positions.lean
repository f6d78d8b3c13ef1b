import DoubleColon.Conflict

/-!
# Lists read by position

A choice among candidates reads lists by position: the parameter at the position of an argument,
the candidate at a position that passed a test, the position that the picker names.
`Env.choiceByPosition` carries the choice out in this way, with candidates that are put into two
buckets by their positions, and checks each access.
-/

set_option autoImplicit false

namespace DoubleColon

inductive ListRead where
  | receiver
  | param
  | lastParam
  | following
  | candidate
  | declared
  | winner
  deriving DecidableEq, Repr

section

variable {α : Type}

def readAt (a : ListRead) (l : List α) (i : Nat) : Except ListRead α :=
  match l[i]? with
  | some x => .ok x
  | none => .error a

def readFrom (a : ListRead) (l : List α) (i : Nat) : Except ListRead (List α) :=
  if i ≤ l.length then .ok (l.drop i) else .error a

end

structure Buckets where
  direct : List Nat := []
  receiver : List Nat := []
  declared : List (List Ty) := []

namespace Buckets

def enter (b : Buckets) (i : Nat) (direct receiver : Bool) (params : List Ty) : Buckets where
  direct := if direct then b.direct ++ [i] else b.direct
  receiver := if receiver then b.receiver ++ [i] else b.receiver
  declared := b.declared ++ [params]

end Buckets

namespace Env

def receiverByPosition (env : Env) (m : MatchInput) : Except ListRead Bool :=
  if m.namesType && !m.target.params.isEmpty then do
    let t ← readAt .receiver m.target.params 0
    return env.isReceiver t m.owner m.ownerSubst
  else return false

def acceptsAt (env : Env) (params : List Ty) (count : Nat) (isVarargs : Bool) (i : Nat)
    (arg : Ty) : Except ListRead Bool :=
  if isVarargs && 0 < count && count ≤ i + 1 then do
    let param ← readAt .lastParam params (count - 1)
    return env.takesArg param arg true
  else do
    let param ← readAt .param params i
    return env.takesArg param arg false

def acceptsFrom (env : Env) (params : List Ty) (count : Nat) (isVarargs : Bool) :
    Nat → List Ty → Except ListRead Bool
  | _, [] => return true
  | i, arg :: rest => do
    let accepted ← env.acceptsAt params count isVarargs i arg
    if accepted then env.acceptsFrom params count isVarargs (i + 1) rest else return false

def directByPosition (env : Env) (owner : ClassDecl) (m : MatchInput) (c : Candidate)
    (isOpen : List TypeVar) (params args : List Ty) : Except ListRead Bool :=
  let arityOk := args.length = params.length || (c.isVarargs && params.length ≤ args.length + 1)
  if arityOk && isReachable owner m c then
    env.acceptsFrom (env.inferredParams isOpen params args c.isVarargs) params.length c.isVarargs
      0 args
  else return false

def withReceiverByPosition (env : Env) (owner : ClassDecl) (hasReceiver : Bool) (c : Candidate)
    (isOpen : List TypeVar) (params args : List Ty) : Except ListRead Bool :=
  if hasReceiver && args.length = params.length + 1 &&
      !(c.isStatic || isFreeConstructor owner c) then do
    let rest ← readFrom .following args 1
    return env.restAccepted (env.inferredParams isOpen params rest c.isVarargs) c.isVarargs rest
  else return false

def testAt (env : Env) (owner : ClassDecl) (m : MatchInput) (hasReceiver : Bool) (i : Nat)
    (c : Candidate) (b : Buckets) : Except ListRead Buckets :=
  match env.shapeOf? c.member with
  | none => return b.enter i false false []
  | some shape => do
    let subst := m.ownerSubst.updateWith c.subst
    let params := shape.params.map subst.apply
    let args := m.target.params.map fun t => subst.apply (env.withoutWildcards t)
    let isOpen := openParams owner c shape subst
    let direct ← env.directByPosition owner m c isOpen params args
    let receiver ← env.withReceiverByPosition owner hasReceiver c isOpen params args
    return b.enter i direct receiver params

def testFrom (env : Env) (owner : ClassDecl) (m : MatchInput) (hasReceiver : Bool) :
    Nat → List Candidate → Buckets → Except ListRead Buckets
  | _, [], b => return b
  | i, c :: rest, b => do
    let b ← env.testAt owner m hasReceiver i c b
    env.testFrom owner m hasReceiver (i + 1) rest b

def isVarargsAt (cs : List Candidate) (i : Nat) : Except ListRead Bool := do
  let c ← readAt .candidate cs i
  return c.isVarargs

def overloadAt (env : Env) (cs : List Candidate) (b : Buckets) (i : Nat) :
    Except ListRead Overload := do
  let params ← readAt .declared b.declared i
  let c ← readAt .candidate cs i
  return ⟨params, c.isVarargs, (env.shapeOf? c.member).any (·.isAbstract)⟩

/-- What the buckets leave to choose from. What the picker answers is not trusted. -/
def decideByPosition (env : Env) (pick : Picker) (cs : List Candidate) (b : Buckets) :
    Except ListRead Choice :=
  match b.direct, b.receiver with
  | [], [] => return .none
  | [i], [] | [], [i] => return .unique i
  | _, _ => do
    let narrowed := (List.range cs.length).filter fun i =>
      b.direct.contains i || b.receiver.contains i
    let flags ← narrowed.mapM (isVarargsAt cs)
    let phase := if flags.any id then Phase.variableArity else .fixedArity
    let overloads ← narrowed.mapM (env.overloadAt cs b)
    match pick env overloads phase with
    | some k =>
      if k < narrowed.length then do
        let winner ← readAt .winner narrowed k
        return .unique winner
      else return .ambiguous narrowed
    | none => return .ambiguous narrowed

def choiceByPosition (env : Env) (owner : ClassDecl) (m : MatchInput) (pick : Picker)
    (cs : List Candidate) : Except ListRead Choice := do
  let hasReceiver ← env.receiverByPosition m
  let b ← env.testFrom owner m hasReceiver 0 cs {}
  env.decideByPosition pick cs b

end Env

end DoubleColon
