/-!
# Cancellation

A token says whether the request that it was handed to is to be abandoned; once cancelled it stays
so. Work that goes through many declarations polls its token at checkpoints only every so many
declarations.
-/

set_option autoImplicit false

namespace DoubleColon

structure TokenId where
  index : Nat
  deriving DecidableEq, Repr

structure Token where
  isCancelled : Bool := false
  /-- How many polls find the token live before it turns cancelled by itself. -/
  deadline : Option Nat := none
  deriving DecidableEq, Repr

namespace Token

def cancel (t : Token) : Token := { t with isCancelled := true }

def poll (t : Token) : Bool × Token :=
  if t.isCancelled then (true, t)
  else match t.deadline with
    | none => (false, t)
    | some 0 => (true, t.cancel)
    | some (n + 1) => (false, { t with deadline := some n })

theorem poll_of_isCancelled {t : Token} (h : t.isCancelled = true) : t.poll = (true, t) := by
  simp [poll, h]

end Token

abbrev Tokens := List Token

namespace Tokens

def create (ts : Tokens) : Tokens × TokenId := (ts ++ [⟨false, none⟩], ⟨ts.length⟩)

def cancel (ts : Tokens) (id : TokenId) : Tokens := ts.modify id.index Token.cancel

def poll (ts : Tokens) (id : TokenId) : Bool × Tokens :=
  match ts[id.index]? with
  | none => (false, ts)
  | some t => (t.poll.1, ts.set id.index t.poll.2)

end Tokens

def cancelledMessage : String := "method reference resolution was cancelled"

structure PollCounter where
  every : UInt32
  passed : UInt32 := 0
  deriving DecidableEq, Repr

namespace PollCounter

def ofInterval (every : UInt32) : PollCounter := ⟨if every = 0 then 1 else every, 0⟩

def isDue (c : PollCounter) : Bool := c.passed % c.every = 0

def advance (c : PollCounter) : PollCounter := { c with passed := c.passed + 1 }

end PollCounter

end DoubleColon
