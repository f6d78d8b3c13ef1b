import DoubleColon.Proofs.CacheCells
import DoubleColon.Proofs.Conclusions

/-!
# The routes of a request

What a request does first is decided by its session alone: it is refused, answered from the cache,
made to wait, or leads to one computation of the site. `Resolver.route` is that decision. For each
route there is one equation that reduces the request to the computation on its way, which asks the
provider or is given a target. Everything later is a case analysis over the routes.
-/

set_option autoImplicit false

namespace DoubleColon

inductive Route where
  | refused
  /-- The cycle is broken: the site has an assumed target, or it is being derived. -/
  | bypassed (source : TargetOrigin)
  /-- The thread has claimed the site further up, outside of this request. -/
  | reentrant
  | uncached
  | hit (result : Issued)
  | waiting
  /-- The computation settles breaks at the site, but stores nothing. -/
  | unstored
  | claiming
  deriving DecidableEq

namespace Session

variable {ω : Type}

def slotted (site : SiteId) (s : Session ω) : Session ω :=
  s.onWorld fun w => { w with cache := (w.cache.slotFor site).1 }

def claiming (cx : Context) (site : Site) (s : Session ω) : Session ω :=
  (s.slotted site.id).onWorld fun w => { w with
    cache := w.cache.update (s.world.cache.slotFor site.id).2 cx.lenient
      fun _ => .claimed site.version cx.thread }

def issuing (s : Session ω) : Session ω :=
  s.onWorld fun w => { w with issued := w.issued + 1 }

@[simp] theorem breaks_slotted (site : SiteId) (s : Session ω) :
    (s.slotted site).breaks = s.breaks := rfl

@[simp] theorem breaks_claiming (cx : Context) (site : Site) (s : Session ω) :
    (s.claiming cx site).breaks = s.breaks := rfl

theorem settle_length (s : Session ω) (site : SiteId) : s.settle s.breaks.length site = s := by
  simp [settle]

end Session

namespace Resolver

variable {ω : Type}

def route (r : Resolver ω) (cx : Context) (site : Site) (s : Session ω) : Route :=
  if (s.world.tokens.poll cx.token).1 then .refused
  else match s.assumed site.id with
    | some target => .bypassed (.assumed target)
    | none =>
        if site.id ∈ s.underway then .bypassed .untargeted
        else if r.settings.cacheEnabled then
          match (s.world.cache.cell site.id cx.lenient).admission site.version cx.thread
              s.underway.isEmpty with
          | .hit result => .hit result
          | .wait => .waiting
          | .bypass .ownClaim => .reentrant
          | .bypass _ => .unstored
          | .claim => .claiming
        else .uncached

def closed (done : Resolution → Session ω → Session ω) (stop : Session ω → Session ω) :
    Except Interrupt Resolution × Session ω → Except Interrupt Issued × Session ω
  | (.ok x, t) => (.ok ⟨t.world.issued, x⟩, done x t)
  | (.error e, t) => (.error e, stop t)

theorem closed_error {done : Resolution → Session ω → Session ω} {stop : Session ω → Session ω}
    {out : Except Interrupt Resolution × Session ω} {e : Interrupt}
    (h : (closed done stop out).1 = .error e) : (closed done stop out).2 = stop out.2 := by
  rcases out with ⟨e | x, t⟩
  · rfl
  · cases h

variable {r : Resolver ω} {cx : Context} {site : Site} {s : Session ω}

theorem bypass_source {source : TargetOrigin} (h : r.route cx site s = .bypassed source) :
    source ≠ .fromProvider := by
  rintro rfl
  unfold route at h
  split at h
  · cases h
  · split at h
    · cases h
    · split at h
      · cases h
      · split at h
        · split at h <;> cases h
        · cases h

theorem keyed_apply (derive : Site → Request ω (Option Ty)) (source : TargetOrigin) :
    (r.resolveKeyed cx derive site source >>= fun x => Request.issue x.1) s =
      closed (fun _ t => (t.settle s.breaks.length site.id).issuing) id
        (r.resolveOrReport cx derive site source s) := by
  rw [Request.bind_apply]
  unfold resolveKeyed
  rw [Request.get_bind, Request.bind_apply]
  rcases r.resolveOrReport cx derive site source s with ⟨e | x, t⟩ <;> rfl

/-- What a claim leaves in its cell when its computation ends. -/
def leftover (site : Site) (mark : Nat) (x : Resolution) (t : Session ω) : Cell Issued :=
  if (t.openBreaks mark site.id).isEmpty then .stored site.version ⟨t.world.issued, x⟩
  else .vacant

theorem claimed_apply (derive : Site → Request ω (Option Ty)) (slot : SlotId) :
    r.resolveClaimed cx derive site slot s =
      closed (fun x t => endClaim slot cx.lenient site.version cx.thread
          (leftover site s.breaks.length x t) (t.settle s.breaks.length site.id).issuing)
        (endClaim slot cx.lenient site.version cx.thread .vacant)
        (r.resolveOrReport cx derive site .fromProvider s) := by
  unfold resolveClaimed Request.onInterrupt resolveKeyed leftover
  simp only [Request.bind_apply]
  rcases hx : r.resolveOrReport cx derive site .fromProvider s with ⟨e | x, t⟩
  · have hg : (get : Request ω (Session ω)) s = (.ok s, s) := rfl
    simp only [hg, hx]
    rfl
  · have hg : ∀ u : Session ω, (get : Request ω (Session ω)) u = (.ok u, u) := fun _ => rfl
    simp only [hg, hx]
    rfl

theorem issue_apply (derive : Site → Request ω (Option Ty)) (source : TargetOrigin) :
    (r.resolveOrReport cx derive site source >>= Request.issue) s =
      closed (fun _ t => t.issuing) id (r.resolveOrReport cx derive site source s) := by
  rw [Request.bind_apply]
  rcases r.resolveOrReport cx derive site source s with ⟨e | x, t⟩ <;> rfl

/-- A request by its route. Where it computes, it starts from some session and closes what it has
computed. -/
theorem with_apply (derive : Site → Request ω (Option Ty)) :
    r.resolveWith cx derive site s = match r.route cx site s with
      | .refused => (.error .cancelled, s.polled cx.token)
      | .bypassed source => closed (fun _ t => t.issuing) id
          (r.resolveOrReport cx derive site source ((s.polled cx.token).noteBreak site.id))
      | .reentrant => closed
          (fun _ t => (t.settle (s.noteBreak site.id).breaks.length site.id).issuing) id
          (r.resolveOrReport cx derive site .untargeted
            (((s.polled cx.token).slotted site.id).noteBreak site.id))
      | .uncached => closed (fun _ t => t.issuing) id
          (r.resolveOrReport cx derive site .fromProvider (s.polled cx.token))
      | .hit result => (.ok result, (s.polled cx.token).slotted site.id)
      | .waiting => (.error .wouldWait, (s.polled cx.token).slotted site.id)
      | .unstored => closed (fun _ t => (t.settle s.breaks.length site.id).issuing) id
          (r.resolveOrReport cx derive site .fromProvider ((s.polled cx.token).slotted site.id))
      | .claiming => closed
          (fun x t => endClaim (s.world.cache.slotFor site.id).2 cx.lenient site.version cx.thread
            (leftover site s.breaks.length x t) (t.settle s.breaks.length site.id).issuing)
          (endClaim (s.world.cache.slotFor site.id).2 cx.lenient site.version cx.thread .vacant)
          (r.resolveOrReport cx derive site .fromProvider
            ((s.polled cx.token).claiming cx site)) := by
  unfold resolveWith route
  rw [Request.bind_apply, Request.poll_apply]
  cases (s.world.tokens.poll cx.token).1 with
  | true => rfl
  | false =>
    simp only [Bool.false_eq_true, if_false]
    rw [Request.get_bind]
    change (match s.assumed site.id with | some t => _ | none => _ : Request ω Issued) _ = _
    cases s.assumed site.id with
    | some t => exact issue_apply derive (.assumed t)
    | none =>
      change (if site.id ∈ s.underway then _ else _ : Request ω Issued) _ = _
      by_cases hu : site.id ∈ s.underway
      · simp only [if_pos hu]
        exact issue_apply derive .untargeted
      · simp only [if_neg hu]
        by_cases he : r.settings.cacheEnabled = true
        · simp only [if_pos he]
          unfold resolveCached
          rw [Request.get_bind]
          -- A slot that is made for the site is vacant, as is the cell of a site without one.
          have hcell : (s.world.cache.slotFor site.id).1.state (s.world.cache.slotFor site.id).2
              cx.lenient = s.world.cache.cell site.id cx.lenient :=
            Cache.state_slotFor _ site.id cx.lenient
          change (match ((s.world.cache.slotFor site.id).1.state
            (s.world.cache.slotFor site.id).2 cx.lenient).admission site.version cx.thread
              s.underway.isEmpty with
            | .hit _ => _ | .wait => _ | .bypass .ownClaim => _ | .bypass _ => _
            | .claim => _ : Request ω Issued) _ = _
          rw [hcell]
          rcases (s.world.cache.cell site.id cx.lenient).admission site.version cx.thread
            s.underway.isEmpty with x | (_ | _ | _) | _ | _
          · rfl
          · exact keyed_apply derive .fromProvider
          · exact keyed_apply derive .untargeted
          · exact keyed_apply derive .fromProvider
          · rfl
          · exact claimed_apply derive _
        · simp only [if_neg he]
          exact issue_apply derive .fromProvider

end Resolver

end DoubleColon
