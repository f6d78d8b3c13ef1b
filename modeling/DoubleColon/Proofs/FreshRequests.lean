import DoubleColon.Proofs.EditHistory

/-!
# Requests that nothing is known for

A request whose cell is vacant computes its site, whether it keeps the result or not. If the
provider has a fixed answer, the request ends with the value of the site under that answer. So
what holds of every value holds of every resolution that a site is seen to have under a target.
-/

set_option autoImplicit false

namespace DoubleColon

namespace Resolver

variable {ω : Type}

/-- The request finds its token live and a vacant cell, and expects a fixed type for its site. The
members of a class are found in the class and its supertypes. -/
structure IsFresh (r : Resolver ω) (cx : Context) (site : Site) (interface : Option Ty)
    (w : World ω) : Prop where
  walker : r.walker = Env.memberPlan
  provider : r.provider site = .pure interface
  live : w.tokens.IsLive cx.token
  wellFormed : w.cache.WellFormed
  vacant : w.cache.cell site.id cx.lenient = .vacant

variable {r : Resolver ω} {cx : Context} {site : Site} {t : Option Ty} {w : World ω}

theorem resolution_closed (done : Resolution → Session ω → Session ω)
    (stop : Session ω → Session ω) (out : Except Interrupt Resolution × Session ω) :
    (closed done stop out).1.map (·.resolution) = out.1 := by
  rcases out with ⟨e | x, s⟩ <;> rfl

theorem IsFresh.route (h : r.IsFresh cx site t w) :
    r.route cx site (.start w) = if r.settings.cacheEnabled then .claiming else .uncached := by
  unfold Resolver.route
  have hp : (Session.start w).world.tokens.poll cx.token = (false, w.tokens) :=
    Tokens.poll_live h.live
  have hv : (Session.start w).world.cache.cell site.id cx.lenient = .vacant := h.vacant
  rw [hp, hv]
  rfl

/-- A fresh request comes to the value of its site. -/
theorem IsFresh.answer (h : r.IsFresh cx site t w) (n : Nat) :
    (r.resolve cx (n + 1) site w).1.map (·.resolution) = r.value cx.env site t := by
  have hw : ∀ q, (r.walker cx.env q).IsPlain := fun q => by
    rw [h.walker]
    exact cx.env.plain_members q
  have hy := yields_fixed hw h.provider n
  have hl : (Session.start w).Live cx.token := h.live
  change ((r.resolveWith cx _ site (.start w)).1.map _) = _
  rw [with_apply, h.route, Session.polled_live hl]
  cases r.settings.cacheEnabled with
  | true =>
    obtain ⟨host, hv⟩ := hy.live (s := (Session.start w).claiming cx site) hl
    exact (resolution_closed _ _ _).trans (congrArg Prod.fst hv)
  | false =>
    obtain ⟨host, hv⟩ := hy.live (s := Session.start w) hl
    exact (resolution_closed _ _ _).trans (congrArg Prod.fst hv)

end Resolver

end DoubleColon
