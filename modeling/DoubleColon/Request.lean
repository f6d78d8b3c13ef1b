import DoubleColon.Cache
import DoubleColon.Cancellation
import DoubleColon.Env
import DoubleColon.Resolution

/-!
# Requests

What a request to resolve a site runs in. The world is what outlives a request: the cache, the
tokens, the number of results that were issued, and whatever the host of the resolver keeps. A
session adds what one request keeps while it runs: assumed targets, the sites whose expected
type is being derived, and the cycles that were broken on the way.

A request may be interrupted. It then leaves the state as it was at that moment, except for what
`Request.protect` restores.
-/

set_option autoImplicit false

namespace DoubleColon

structure Issued where
  serial : Nat
  resolution : Resolution
  deriving DecidableEq

inductive Interrupt where
  | cancelled
  | outOfRange
  /-- The request would have to wait for another thread. -/
  | wouldWait
  /-- Expected types were derived within one another to the limit. -/
  | outOfFuel
  deriving DecidableEq, Repr

structure World (ω : Type) where
  cache : Cache Issued
  tokens : Tokens
  issued : Nat
  host : ω

structure Session (ω : Type) where
  assumed : SiteId → Option Ty
  underway : List SiteId
  /-- The sites at which a cycle was broken, as long as it may matter. -/
  breaks : List SiteId
  world : World ω

structure Context where
  env : Env
  lenient : Bool
  token : TokenId
  thread : ThreadId

abbrev Request (ω α : Type) := ExceptT Interrupt (StateM (Session ω)) α

namespace Session

variable {ω : Type}

def start (w : World ω) : Session ω := ⟨fun _ => none, [], [], w⟩

def assume (s : Session ω) (site : SiteId) (target : Option Ty) : Session ω :=
  { s with assumed := fun id => if id = site then target else s.assumed id }

def noteBreak (s : Session ω) (site : SiteId) : Session ω :=
  { s with breaks := s.breaks ++ [site] }

/-- Close a computation of `site` that began when `mark` breaks had been noted. Breaks at the site
itself are settled by it. -/
def settle (s : Session ω) (mark : Nat) (site : SiteId) : Session ω :=
  { s with breaks := s.breaks.take mark ++ (s.breaks.drop mark).filter fun b => b != site }

def openBreaks (s : Session ω) (mark : Nat) (site : SiteId) : List SiteId :=
  (s.breaks.drop mark).filter fun b => b != site

def onWorld (f : World ω → World ω) (s : Session ω) : Session ω := { s with world := f s.world }

theorem assume_assume (s : Session ω) (site : SiteId) (target : Option Ty) :
    (s.assume site target).assume site (s.assumed site) = s := by
  cases s
  simp only [assume, Session.mk.injEq, and_true]
  funext id
  split <;> simp_all

end Session

namespace Request

variable {ω α : Type}

def run (body : Request ω α) (s : Session ω) : Except Interrupt α × Session ω := body s

def protect (body : Request ω α) (after : Session ω → Session ω) : Request ω α := fun s =>
  let out := body s
  (out.1, after out.2)

def onInterrupt (body : Request ω α) (after : Session ω → Session ω) : Request ω α := fun s =>
  match body s with
  | (.ok a, s) => (.ok a, s)
  | (.error e, s) => (.error e, after s)

def attempt (body : Request ω α) : Request ω (Option α) := fun s =>
  match body s with
  | (.ok a, s) => (.ok (some a), s)
  | (.error .cancelled, s) => (.ok none, s)
  | (.error e, s) => (.error e, s)

def onWorld (f : World ω → World ω) : Request ω Unit := modify (Session.onWorld f)

def poll (token : TokenId) : Request ω Unit := fun s =>
  let (cancelled, tokens) := s.world.tokens.poll token
  (if cancelled then .error .cancelled else .ok (),
    { s with world := { s.world with tokens } })

def issue (r : Resolution) : Request ω Issued := fun s =>
  (.ok ⟨s.world.issued, r⟩, { s with world := { s.world with issued := s.world.issued + 1 } })

def assuming (site : SiteId) (target : Ty) (body : Request ω α) : Request ω α := fun s =>
  body.protect (fun out => out.assume site (s.assumed site)) (s.assume site (some target))

def whileUnderway (site : SiteId) (body : Request ω α) : Request ω α := fun s =>
  if site ∈ s.underway then body s
  else
    body.protect (fun out => { out with underway := out.underway.erase site })
      { s with underway := site :: s.underway }

end Request

end DoubleColon
