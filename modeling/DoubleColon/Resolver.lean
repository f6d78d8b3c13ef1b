import DoubleColon.Script
import DoubleColon.Settings
import DoubleColon.WalkPlan

/-!
# The resolver

A resolver resolves sites: it classifies the qualifier, obtains the function type the reference is
converted to, gathers the members that the name may denote, chooses one of them and infers its
type arguments. Results are kept by site and version.

A provider may ask for other sites, or for the site itself, while it derives an expected type. A
site whose target is assumed is resolved with that target, and one whose expected type is
being derived without any; either breaks a cycle. What depends on a cycle that is still open when
it has been computed is not stored, since it depends on where the request began.
-/

set_option autoImplicit false

namespace DoubleColon

inductive Event where
  | walking (request : WalkRequest)
  | comparing (phase : Phase) (overloads : List Overload)
  | degenerate (site : SiteId) (inference : DegenerateInference)
  | invalid (site : SiteId) (error : InvalidSite)
  deriving DecidableEq

structure Resolver (ω : Type) where
  settings : Settings := {}
  provider : Site → Script ω (Option Ty) := fun _ => .pure none
  walker : Env → WalkRequest → WalkPlan := Env.memberPlan
  picker : Picker := Env.mostSpecific
  observe : Event → ω → ω := fun _ h => h

inductive TargetOrigin where
  | assumed (target : Ty)
  | fromProvider
  | untargeted
  deriving DecidableEq

namespace Resolver

variable {ω : Type}

instance : Inhabited (Resolver ω) := ⟨{}⟩

def emit (r : Resolver ω) (e : Event) : Request ω Unit :=
  Request.onWorld fun w => { w with host := r.observe e w.host }

def walk (r : Resolver ω) (cx : Context) (request : WalkRequest) : Request ω (List Candidate) := do
  r.emit (.walking request)
  let s ← get
  let out := (r.walker cx.env request).run cx.token (.ofInterval r.settings.checkpointInterval)
    s.world.tokens
  Request.onWorld fun w => { w with tokens := out.tokens }
  if out.isCancelled then throw .cancelled else return out.candidates

def chooseAmong (r : Resolver ω) (cx : Context) (q : SearchedClass) (subst : Substitution)
    (target : Option FunctionType) (cs : List Candidate) : Request ω Choice :=
  match target with
  | none => return .ofCount cs.length
  | some t => match cx.env.class? q.id with
    | none => return .none
    | some owner =>
        match cx.env.readings owner ⟨q.id, subst, t, q.isBareTypeName, q.namesType⟩ cs with
        | none => throw .outOfRange
        | some rs => do
            if needsComparison rs then r.emit (.comparing (phase rs) (overloads rs))
            return choose cx.env r.picker rs

def conclude (r : Resolver ω) (cx : Context) (site : SiteId) (subst : Substitution)
    (target : Option FunctionType) (cs : List Candidate) (c : Choice) : Request ω Resolution := do
  let (resolution, degenerate) := cx.env.resolutionOf subst target cs c
  match degenerate with
  | some d => if r.settings.logDegenerateInference then r.emit (.degenerate site d)
  | none => pure ()
  return resolution

def interfaceOf (derive : Site → Request ω (Option Ty)) (site : Site) :
    TargetOrigin → Request ω (Option Ty)
  | .assumed t => return some t
  | .untargeted => return none
  | .fromProvider => derive site

def resolveInClass (r : Resolver ω) (cx : Context) (site : Site) (q : SearchedClass)
    (target : Option FunctionType) : Request ω (Except InvalidSite Resolution) :=
  let subst := cx.env.ownerSubst site q target
  match cx.env.gather site q subst target with
  | .error e => return .error e
  | .ok (.settled cs) => .ok <$> r.conclude cx site.id subst target cs (.ofCount cs.length)
  | .ok (.walk request) => do
      let cs ← r.walk cx request
      let choice ← r.chooseAmong cx q subst target cs
      .ok <$> r.conclude cx site.id subst target cs choice

def resolveValid (r : Resolver ω) (cx : Context) (derive : Site → Request ω (Option Ty))
    (site : Site) (source : TargetOrigin) : Request ω (Except InvalidSite Resolution) :=
  if !site.attached then return .error .detached
  else match cx.env.classify site.qualifier with
    | none => return .ok .empty
    | some q =>
        if site.name = .missing then return .ok .empty
        else do
          let interface ← interfaceOf derive site source
          Request.poll cx.token
          r.resolveInClass cx site q (interface.bind cx.env.functionType)

def resolveOrReport (r : Resolver ω) (cx : Context) (derive : Site → Request ω (Option Ty))
    (site : Site) (source : TargetOrigin) : Request ω Resolution := do
  match ← r.resolveValid cx derive site source with
  | .ok resolution => return resolution
  | .error e =>
      r.emit (.invalid site.id e)
      return .empty

def noteBreak (site : SiteId) : Request ω Unit := modify fun s => s.noteBreak site

/-- Resolve a site as the computation that settles breaks at the site. The second part of the
result tells that no other break is left open. -/
def resolveKeyed (r : Resolver ω) (cx : Context) (derive : Site → Request ω (Option Ty))
    (site : Site) (source : TargetOrigin) : Request ω (Resolution × Bool) := do
  let mark := (← get).breaks.length
  let resolution ← r.resolveOrReport cx derive site source
  let s ← get
  set (s.settle mark site.id)
  return (resolution, (s.openBreaks mark site.id).isEmpty)

def endClaim (slot : SlotId) (flag : Bool) (version : Nat) (thread : ThreadId)
    (next : Cell Issued) (s : Session ω) : Session ω :=
  s.onWorld fun w =>
    { w with cache := w.cache.update slot flag fun st => st.finish version thread next }

/-- Compute under a claim on a slot, and store the result unless it depends on an open cycle. An
interrupted computation gives up its claim. -/
def resolveClaimed (r : Resolver ω) (cx : Context) (derive : Site → Request ω (Option Ty))
    (site : Site) (slot : SlotId) : Request ω Issued :=
  let finish := endClaim slot cx.lenient site.version cx.thread
  let body : Request ω Issued := do
    let (resolution, cacheable) ← r.resolveKeyed cx derive site .fromProvider
    let result ← Request.issue resolution
    modify (finish (if cacheable then .stored site.version result else .vacant))
    return result
  body.onInterrupt (finish .vacant)

/-- Resolve a site by way of the cache. A request that is deriving an expected type does not wait
for other threads. -/
def resolveCached (r : Resolver ω) (cx : Context) (derive : Site → Request ω (Option Ty))
    (site : Site) : Request ω Issued := do
  let s ← get
  let (cache, slot) := s.world.cache.slotFor site.id
  Request.onWorld fun w => { w with cache }
  let state := cache.state slot cx.lenient
  match state.admission site.version cx.thread s.underway.isEmpty with
  | .hit result => return result
  | .wait => throw .wouldWait
  | .bypass .ownClaim =>
      noteBreak site.id
      let (resolution, _) ← r.resolveKeyed cx derive site .untargeted
      Request.issue resolution
  | .bypass _ =>
      let (resolution, _) ← r.resolveKeyed cx derive site .fromProvider
      Request.issue resolution
  | .claim =>
      Request.onWorld fun w =>
        { w with cache := w.cache.update slot cx.lenient fun _ =>
            .claimed site.version cx.thread }
      r.resolveClaimed cx derive site slot

def resolveWith (r : Resolver ω) (cx : Context) (derive : Site → Request ω (Option Ty))
    (site : Site) : Request ω Issued := do
  Request.poll cx.token
  let s ← get
  match s.assumed site.id with
  | some target =>
      noteBreak site.id
      Request.issue (← r.resolveOrReport cx derive site (.assumed target))
  | none =>
      if site.id ∈ s.underway then
        noteBreak site.id
        Request.issue (← r.resolveOrReport cx derive site .untargeted)
      else if r.settings.cacheEnabled then r.resolveCached cx derive site
      else Request.issue (← r.resolveOrReport cx derive site .fromProvider)

def expectedType (r : Resolver ω) (cx : Context) : Nat → Site → Request ω (Option Ty)
  | 0, _ => throw .outOfFuel
  | n + 1, site => Request.whileUnderway site.id <|
      (r.provider site).run cx (r.resolveWith cx (r.expectedType cx n))

def resolveWithin (r : Resolver ω) (cx : Context) (depth : Nat) (site : Site) : Request ω Issued :=
  r.resolveWith cx (r.expectedType cx depth) site

def resolve (r : Resolver ω) (cx : Context) (depth : Nat) (site : Site) (w : World ω) :
    Except Interrupt Issued × World ω :=
  let (result, s) := (r.resolveWithin cx depth site).run (.start w)
  (result, s.world)

def completionsRequest (site : Site) (q : SearchedClass) : WalkRequest where
  cls := q.id
  subst := q.subst
  filter := .allMethods
  place := site.enclosingClass
  through := if q.isArray then none else some q.id
  staticOnly := false

def completions (r : Resolver ω) (cx : Context) (site : Site) (w : World ω) :
    Except Interrupt (List Candidate) × World ω :=
  match cx.env.classify site.qualifier with
  | none => (.ok [], w)
  | some q =>
      let (found, s) := (r.walk cx (completionsRequest site q)).run (.start w)
      (found.map fun cs => cs.filter (·.isAccessible), s.world)

def refersTo (resolution : Resolution) (m : Member) : Bool :=
  match resolution with
  | .unique found => found.candidate.member = m
  | _ => false

end Resolver

end DoubleColon
