import Mathlib.Logic.Function.Basic
import Mathlib.Logic.Relation
import DoubleColon.Cache

/-!
# Threads that share a cache

Threads use one cache at a time. The index of the cache and the cells of a slot are each behind a
lock, and what a thread does under one lock is one step; between two of its steps the others may
do anything. A thread that computes may use the cache again before its computation ends, so each
has a stack of uses of which the topmost is under way.

`Step` has one constructor for each locked section, and one for each thing that a thread does
without a lock: it begins a use, wakes up, or comes to the end of a computation. What is computed,
and whether it may be stored, is left open.
-/

set_option autoImplicit false

namespace DoubleColon

structure Call where
  site : SiteId
  version : Nat
  lenient : Bool
  mayWait : Bool
  deriving DecidableEq, Repr

inductive Mode where
  | publish
  | bypass (why : Bypass)
  deriving DecidableEq, Repr

inductive Outcome (α : Type) where
  | done (value : α) (cacheable : Bool)
  | cancelled
  deriving DecidableEq, Repr

structure Computation (α : Type) where
  thread : ThreadId
  call : Call
  mode : Mode
  outcome : Option (Outcome α)
  deriving DecidableEq, Repr

inductive Operation where
  | request (call : Call)
  | get (site : SiteId) (version : Nat) (lenient : Bool)
  | invalidate (site : SiteId)
  deriving DecidableEq, Repr

inductive Point (α : Type) where
  | looking
  | inserting
  | entering (slot : SlotId)
  | waiting (slot : SlotId)
  | computing (slot : SlotId) (mode : Mode) (serial : Nat)
  /-- A claimed computation has ended and its claim has not yet. -/
  | finishing (slot : SlotId) (serial : Nat) (outcome : Outcome α)
  deriving DecidableEq, Repr

structure Frame (α : Type) where
  op : Operation
  point : Point α
  deriving DecidableEq, Repr

structure Reply (α : Type) where
  thread : ThreadId
  op : Operation
  value : Option α
  deriving DecidableEq, Repr

/-- The cache and the threads that use it, with everything that was computed and replied. The
serial number of a computation is its position. -/
structure Shared (α : Type) where
  cache : Cache α
  threads : ThreadId → List (Frame α)
  computations : List (Computation α)
  replies : List (Reply α)

variable {α : Type}

namespace Outcome

def value? : Outcome α → Option α
  | .done x _ => some x
  | .cancelled => none

def cell (version : Nat) : Outcome α → Cell α
  | .done x true => .stored version x
  | .done _ false | .cancelled => .vacant

end Outcome

namespace Operation

def site : Operation → SiteId
  | .request c => c.site
  | .get site _ _ => site
  | .invalidate site => site

end Operation

namespace Point

def slot? : Point α → Option SlotId
  | .looking | .inserting => none
  | .entering id | .waiting id | .computing id _ _ | .finishing id _ _ => some id

def serial? : Point α → Option Nat
  | .computing _ _ n => some n
  | _ => none

def wake (id : SlotId) : Point α → Point α
  | .waiting k => if k = id then .entering k else .waiting k
  | p => p

end Point

namespace Shared

def start : Shared α := ⟨{}, fun _ => [], [], []⟩

def IsFree (s : Shared α) (t : ThreadId) : Prop :=
  ∀ f ∈ (s.threads t).head?, f.point.serial?.isSome

def setStack (s : Shared α) (t : ThreadId) (frames : List (Frame α)) : Shared α :=
  { s with threads := Function.update s.threads t frames }

def answer (s : Shared α) (t : ThreadId) (op : Operation) (rest : List (Frame α))
    (value : Option α) : Shared α :=
  { s.setStack t rest with replies := s.replies ++ [⟨t, op, value⟩] }

def onCache (s : Shared α) (f : Cache α → Cache α) : Shared α := { s with cache := f s.cache }

/-- Wake all threads that wait at a slot. They are woken after the section that notifies them;
until then they may wake up by themselves, so that nothing is gained by a step in between. -/
def wake (s : Shared α) (id : SlotId) : Shared α :=
  { s with threads := fun t => (s.threads t).map fun f => { f with point := f.point.wake id } }

def compute (s : Shared α) (t : ThreadId) (c : Call) (id : SlotId) (mode : Mode)
    (rest : List (Frame α)) : Shared α :=
  { s.setStack t (⟨.request c, .computing id mode s.computations.length⟩ :: rest) with
    computations := s.computations ++ [⟨t, c, mode, none⟩] }

def look (s : Shared α) (t : ThreadId) (op : Operation) (rest : List (Frame α)) : Shared α :=
  match s.cache.slotOf? op.site, op with
  | some id, _ => s.setStack t (⟨op, .entering id⟩ :: rest)
  | none, .request _ => s.setStack t (⟨op, .inserting⟩ :: rest)
  | none, _ => s.answer t op rest none

def insert (s : Shared α) (t : ThreadId) (c : Call) (rest : List (Frame α)) : Shared α :=
  let (cache, id) := s.cache.slotFor c.site
  { s.setStack t (⟨.request c, .entering id⟩ :: rest) with cache }

def enter (s : Shared α) (t : ThreadId) (op : Operation) (id : SlotId) (rest : List (Frame α)) :
    Shared α :=
  match op with
  | .request c => match (s.cache.state id c.lenient).admission c.version t c.mayWait with
    | .hit x => s.answer t op rest (some x)
    | .wait => s.setStack t (⟨op, .waiting id⟩ :: rest)
    | .bypass why => s.compute t c id (.bypass why) rest
    | .claim => (s.compute t c id .publish rest).onCache
        (·.update id c.lenient fun _ => .claimed c.version t)
  | .get _ version lenient => s.answer t op rest ((s.cache.state id lenient).get? version)
  | .invalidate _ => (s.answer t op rest none).onCache
      (·.updateSlot id fun k => ⟨k.complete.invalidate, k.incomplete.invalidate⟩)

def leave (s : Shared α) (t : ThreadId) (c : Call) (id : SlotId) (mode : Mode) (n : Nat)
    (o : Outcome α) (rest : List (Frame α)) : Shared α :=
  let s := { s with computations := s.computations.modify n fun k => { k with outcome := some o } }
  match mode with
  | .publish => s.setStack t (⟨.request c, .finishing id n o⟩ :: rest)
  | .bypass _ => s.answer t (.request c) rest o.value?

def finish (s : Shared α) (t : ThreadId) (c : Call) (id : SlotId) (o : Outcome α)
    (rest : List (Frame α)) : Shared α :=
  ((s.answer t (.request c) rest o.value?).onCache
    (·.update id c.lenient fun k => k.finish c.version t (o.cell c.version))).wake id

def remove (s : Shared α) (site : SiteId) : Shared α :=
  match s.cache.slotOf? site with
  | some id => (s.onCache (·.remove site)).wake id
  | none => s.onCache (·.remove site)

inductive Step : Shared α → Shared α → Prop
  | begin {s : Shared α} {t : ThreadId} (h : s.IsFree t) (op : Operation) :
      Step s (s.setStack t (⟨op, .looking⟩ :: s.threads t))
  | look {s : Shared α} {t : ThreadId} {op : Operation} {rest : List (Frame α)}
      (h : s.threads t = ⟨op, .looking⟩ :: rest) : Step s (s.look t op rest)
  | insert {s : Shared α} {t : ThreadId} {c : Call} {rest : List (Frame α)}
      (h : s.threads t = ⟨.request c, .inserting⟩ :: rest) : Step s (s.insert t c rest)
  | enter {s : Shared α} {t : ThreadId} {op : Operation} {id : SlotId} {rest : List (Frame α)}
      (h : s.threads t = ⟨op, .entering id⟩ :: rest) : Step s (s.enter t op id rest)
  /-- A thread may wake up without having been notified. -/
  | wake {s : Shared α} {t : ThreadId} {op : Operation} {id : SlotId} {rest : List (Frame α)}
      (h : s.threads t = ⟨op, .waiting id⟩ :: rest) :
      Step s (s.setStack t (⟨op, .entering id⟩ :: rest))
  | leave {s : Shared α} {t : ThreadId} {c : Call} {id : SlotId} {mode : Mode} {n : Nat}
      {rest : List (Frame α)} (h : s.threads t = ⟨.request c, .computing id mode n⟩ :: rest)
      (o : Outcome α) : Step s (s.leave t c id mode n o rest)
  | finish {s : Shared α} {t : ThreadId} {c : Call} {id : SlotId} {n : Nat} {o : Outcome α}
      {rest : List (Frame α)} (h : s.threads t = ⟨.request c, .finishing id n o⟩ :: rest) :
      Step s (s.finish t c id o rest)
  | remove {s : Shared α} {t : ThreadId} (h : s.IsFree t) (site : SiteId) :
      Step s (s.remove site)
  | clear {s : Shared α} {t : ThreadId} (h : s.IsFree t) : Step s (s.onCache (·.clear))

def Reachable (s : Shared α) : Prop := Relation.ReflTransGen Step start s

/-! ## What the changes leave alone -/

variable {s : Shared α} {t u : ThreadId} {frames : List (Frame α)}

theorem isFree_of_idle (h : s.threads t = []) : s.IsFree t := by
  intro f hf
  rw [h] at hf
  cases hf

@[simp] theorem threads_setStack (s : Shared α) (t : ThreadId) (frames : List (Frame α)) :
    (s.setStack t frames).threads = Function.update s.threads t frames := rfl

@[simp] theorem cache_setStack (s : Shared α) (t : ThreadId) (frames : List (Frame α)) :
    (s.setStack t frames).cache = s.cache := rfl

@[simp] theorem computations_setStack (s : Shared α) (t : ThreadId) (frames : List (Frame α)) :
    (s.setStack t frames).computations = s.computations := rfl

/-! ## Sections that nothing comes between -/

/-- An operation other than a request, if no other thread takes a step before it ends. -/
def undisturbed (s : Shared α) (t : ThreadId) (op : Operation) (rest : List (Frame α)) :
    Shared α :=
  match s.cache.slotOf? op.site with
  | some id => (s.look t op rest).enter t op id rest
  | none => s.look t op rest

theorem undisturbed_get (s : Shared α) (t : ThreadId) (site : SiteId) (version : Nat)
    (lenient : Bool) (rest : List (Frame α)) :
    let out := s.undisturbed t (.get site version lenient) rest
    out.cache = s.cache ∧ out.replies =
      s.replies ++ [⟨t, .get site version lenient, s.cache.get? site version lenient⟩] := by
  unfold undisturbed look enter
  cases h : s.cache.slotOf? site with
  | none => simp [Operation.site, h, answer, Cache.get?]
  | some id => simp [Operation.site, h, answer, setStack, Cache.get?]

theorem undisturbed_invalidate (s : Shared α) (t : ThreadId) (site : SiteId)
    (rest : List (Frame α)) :
    (s.undisturbed t (.invalidate site) rest).cache = s.cache.invalidate site := by
  unfold undisturbed look enter
  cases h : s.cache.slotOf? site with
  | none => simp [Operation.site, h, answer, Cache.invalidate]
  | some id => simp [Operation.site, h, answer, onCache, Cache.invalidate]

end Shared

end DoubleColon
