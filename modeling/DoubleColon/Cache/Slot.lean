/-!
# Slots of the cache

A slot holds, for each of the two modes of a request, what is known of a site: nothing, a
computation that one thread has claimed, or a value. `Cell.admission` decides what a request may
do with a slot, and `Cell.finish` what the end of a claimed computation leaves in it; each is
one step that no other thread interrupts.
-/

set_option autoImplicit false

namespace DoubleColon

structure ThreadId where
  index : Nat
  deriving DecidableEq, Repr

inductive Cell (α : Type) where
  | vacant
  | claimed (version : Nat) (owner : ThreadId)
  | stored (version : Nat) (value : α)
  deriving DecidableEq, Repr

inductive Bypass where
  /-- The slot already belongs to a later version. -/
  | outdated
  /-- The same thread is computing the value further up. -/
  | ownClaim
  /-- Another thread is computing the value, and the request may not wait. -/
  | foreignClaim
  deriving DecidableEq, Repr

inductive Admission (α : Type) where
  | hit (value : α)
  | bypass (why : Bypass)
  /-- The request waits for another thread's computation. -/
  | wait
  /-- The request claims the slot and stores what it computes. -/
  | claim
  deriving DecidableEq, Repr

namespace Cell

variable {α : Type}

def isStored : Cell α → Bool
  | .stored _ _ => true
  | _ => false

def get? (s : Cell α) (version : Nat) : Option α :=
  match s with
  | .stored v value => if v = version then some value else none
  | _ => none

def invalidate (s : Cell α) : Cell α :=
  match s with
  | .stored _ _ => .vacant
  | s => s

def admission (s : Cell α) (version : Nat) (thread : ThreadId) (mayWait : Bool) : Admission α :=
  match s with
  | .vacant => .claim
  | .stored v value =>
      if v = version then .hit value
      else if version < v then .bypass .outdated
      else .claim
  | .claimed v owner =>
      if version < v then .bypass .outdated
      else if v = version then
        if owner = thread then .bypass .ownClaim
        else if mayWait then .wait
        else .bypass .foreignClaim
      else .claim

/-- End a computation; the slot changes only if its claim still stands. -/
def finish (s : Cell α) (version : Nat) (owner : ThreadId) (next : Cell α) :
    Cell α :=
  match s with
  | .claimed v o => if v = version ∧ o = owner then next else s
  | _ => s

theorem admission_stored (version : Nat) (value : α) (thread : ThreadId) (mayWait : Bool) :
    (stored version value).admission version thread mayWait = .hit value := by
  simp [admission]

theorem finish_claimed (version : Nat) (owner : ThreadId) (next : Cell α) :
    (claimed version owner).finish version owner next = next := by
  simp [finish]

end Cell

structure Slot (α : Type) where
  complete : Cell α := .vacant
  incomplete : Cell α := .vacant
  deriving DecidableEq, Repr

namespace Slot

variable {α : Type}

def state (s : Slot α) (lenient : Bool) : Cell α :=
  if lenient then s.incomplete else s.complete

def update (s : Slot α) (lenient : Bool) (f : Cell α → Cell α) : Slot α :=
  if lenient then { s with incomplete := f s.incomplete }
  else { s with complete := f s.complete }

def size (s : Slot α) : Nat := [s.complete, s.incomplete].countP Cell.isStored

@[simp] theorem state_update_self (s : Slot α) (flag : Bool) (f : Cell α → Cell α) :
    (s.update flag f).state flag = f (s.state flag) := by
  cases flag <;> rfl

theorem state_update_of_ne (s : Slot α) {flag other : Bool} (h : flag ≠ other)
    (f : Cell α → Cell α) : (s.update flag f).state other = s.state other := by
  cases flag <;> cases other <;> simp_all [update, state]

end Slot

end DoubleColon
