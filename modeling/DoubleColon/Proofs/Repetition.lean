import DoubleColon.Proofs.CycleBreaks
import DoubleColon.Proofs.Lasting

/-!
# Asking for a site again

A result that is computed anew has a serial number of its own. So a site that has not changed has
the same result when it is asked for again exactly if the first request left its result in the
cache. It does so if every bypassed request on its way was within a keyed request of the bypassed
site: in particular if targets are assumed only for the sites whose expected type is being
derived. A target that a provider assumes for another site keeps the result out of the cache,
although the result does not depend on where the request began.
-/

set_option autoImplicit false

namespace DoubleColon

theorem Trail.enclosed_keyed {site : SiteId} {claim : Option Claim} {inner : Trail} :
    (∀ p ∈ (keyed site claim inner .done).bypasses, p.2 ∈ p.1) ↔
      ∀ p ∈ inner.bypasses, p.2 = site ∨ p.2 ∈ p.1 := by
  simp only [bypasses, List.append_nil, List.forall_mem_map, List.mem_cons]

namespace Resolver

variable {ω : Type} {r : Resolver ω} {cx : Context} {n : Nat} {site : Site} {w : World ω}
  {x y : Issued}

def AtRest (site : Site) (lenient : Bool) (c : Cache Issued) : Prop :=
  c.cell site.id lenient = .vacant ∨
    ∃ v x, c.cell site.id lenient = .stored v x ∧ v ≤ site.version

theorem route_rest (he : r.settings.cacheEnabled = true) (hr : AtRest site cx.lenient w.cache) :
    r.route cx site (.start w) = .refused ∨
    (∃ x, r.route cx site (.start w) = .hit x ∧
      w.cache.cell site.id cx.lenient = .stored site.version x) ∨
    r.route cx site (.start w) = .claiming := by
  unfold route
  cases ((Session.start w).world.tokens.poll cx.token).1 with
  | true => exact .inl rfl
  | false =>
    right
    rcases hr with hv | ⟨v, x, hv, hle⟩
    · right
      simp [Session.start, he, hv, Cell.admission]
    · by_cases heq : v = site.version
      · subst heq
        exact .inl ⟨x, by simp [Session.start, he, hv, Cell.admission_stored], hv⟩
      · right
        have hlt : ¬ site.version < v := by omega
        simp [Session.start, he, hv, Cell.admission, heq, hlt]

theorem leftover_eq (site : Site) (mark : Nat) (x : Resolution) (t : Session ω) :
    leftover site mark x t = .stored site.version ⟨t.world.issued, x⟩ ∨
      leftover site mark x t = .vacant := by
  unfold leftover
  split
  · exact .inl rfl
  · exact .inr rfl

theorem answer_of_claiming {s : Session ω} (hp : ∀ site, (r.provider site).IsConfined)
    (hc : s.world.cache.WellFormed) (hr : r.route cx site s = .claiming)
    (hx : (r.resolveWithin cx n site s).1 = .ok x) :
    ((r.resolveWithin cx n site s).2.world.cache.cell site.id cx.lenient =
        .stored site.version x ∨
      (r.resolveWithin cx n site s).2.world.cache.cell site.id cx.lenient = .vacant) ∧
    s.world.issued ≤ x.serial ∧ x.serial < (r.resolveWithin cx n site s).2.world.issued := by
  have hg := Session.grows_claiming (s := s.polled cx.token) hc cx site
  have hkeep : ((s.polled cx.token).claiming cx site).Keeps cx.lenient (site.id :: s.underway)
      (r.resolveOrReport cx (r.expectedType cx n) site .fromProvider _).2 :=
    computation_keeps (fun s hs => derived_keeps hp n site hs) hg.wellFormed .fromProvider
  have hissued := @computation_lasting ω r cx site _ Session.lasting_issued (r.expectedType cx n)
    (fun s => expected_issued hp n site s) .fromProvider ((s.polled cx.token).claiming cx site)
  unfold resolveWithin at hx ⊢
  rw [with_apply, hr] at hx ⊢
  dsimp only at hx ⊢
  generalize r.resolveOrReport cx (r.expectedType cx n) site .fromProvider _ = out
    at hx hkeep hissued ⊢
  rcases out with ⟨e | value, t⟩
  · cases hx
  · have hend := cell_end_own (s := s.polled cx.token) hc (hkeep.settled s.breaks.length site.id)
      (leftover site s.breaks.length value t)
    rw [← Except.ok.inj hx]
    exact ⟨(leftover_eq site s.breaks.length value t).imp hend.trans hend.trans, hissued,
      Nat.lt_succ_self _⟩

theorem answer_of_hit {s : Session ω} (hr : r.route cx site s = .hit x) :
    (r.resolveWithin cx n site s).1 = .ok x ∧
      (r.resolveWithin cx n site s).2 = (s.polled cx.token).slotted site.id := by
  unfold resolveWithin
  rw [with_apply, hr]
  exact ⟨rfl, rfl⟩

theorem answer_of_refused {s : Session ω} (hr : r.route cx site s = .refused) :
    (r.resolveWithin cx n site s).1 = .error .cancelled := by
  unfold resolveWithin
  rw [with_apply, hr]

/-- A request that is answered leaves its result in the cell of its site, or the cell vacant and
the result older than every later one. -/
theorem answer_left (he : r.settings.cacheEnabled = true)
    (hp : ∀ site, (r.provider site).IsConfined) (hc : w.cache.WellFormed)
    (hr : AtRest site cx.lenient w.cache) (hx : (r.resolve cx n site w).1 = .ok x) :
    (r.resolve cx n site w).2.cache.cell site.id cx.lenient = .stored site.version x ∨
      (r.resolve cx n site w).2.cache.cell site.id cx.lenient = .vacant ∧
        x.serial < (r.resolve cx n site w).2.issued := by
  change (r.resolveWithin cx n site (.start w)).1 = .ok x at hx
  change (r.resolveWithin cx n site (.start w)).2.world.cache.cell _ _ = _ ∨
    (r.resolveWithin cx n site (.start w)).2.world.cache.cell _ _ = _ ∧ _
  rcases route_rest (r := r) he hr with h | ⟨z, h, hz⟩ | h
  · rw [answer_of_refused h] at hx
    cases hx
  · obtain ⟨hv, hs⟩ := answer_of_hit (n := n) h
    rw [hv] at hx
    cases hx
    left
    rw [hs]
    exact (congrFun (congrFun (Cache.cell_slotFor hc site.id) site.id) cx.lenient).trans hz
  · obtain ⟨hcell, -, hlt⟩ := answer_of_claiming hp hc h hx
    exact hcell.imp_right fun hv => ⟨hv, hlt⟩

theorem answer_of_stored (he : r.settings.cacheEnabled = true)
    (hs : w.cache.cell site.id cx.lenient = .stored site.version x)
    (hy : (r.resolve cx n site w).1 = .ok y) : y = x := by
  change (r.resolveWithin cx n site (.start w)).1 = .ok y at hy
  have hroute : r.route cx site (.start w) = .refused ∨ r.route cx site (.start w) = .hit x := by
    unfold route
    cases ((Session.start w).world.tokens.poll cx.token).1 with
    | true => exact .inl rfl
    | false => exact .inr (by simp [Session.start, he, hs, Cell.admission_stored])
  rcases hroute with h | h
  · rw [answer_of_refused h] at hy
    cases hy
  · rw [(answer_of_hit h).1] at hy
    exact (Except.ok.inj hy).symm

theorem answer_of_vacant (he : r.settings.cacheEnabled = true)
    (hp : ∀ site, (r.provider site).IsConfined) (hc : w.cache.WellFormed)
    (hv : w.cache.cell site.id cx.lenient = .vacant) (hy : (r.resolve cx n site w).1 = .ok y) :
    w.issued ≤ y.serial := by
  change (r.resolveWithin cx n site (.start w)).1 = .ok y at hy
  rcases route_rest (r := r) he (.inl hv) with h | ⟨z, -, hz⟩ | h
  · rw [answer_of_refused h] at hy
    cases hy
  · rw [hv] at hz
    cases hz
  · exact (answer_of_claiming hp hc h hy).2.1

/-- What a request that is answered leaves in the cell of its site decides which result the next
one has. -/
theorem answer_again {w' : World ω} {cx' : Context} {m : Nat}
    (he : r.settings.cacheEnabled = true)
    (hp : ∀ site, (r.provider site).IsConfined) (hc : w.cache.WellFormed)
    (hr : AtRest site cx.lenient w.cache) (hx : (r.resolve cx n site w).1 = .ok x)
    (hl : cx'.lenient = cx.lenient)
    (hw : w'.cache = (r.resolve cx n site w).2.cache)
    (hi : w'.issued = (r.resolve cx n site w).2.issued)
    (hy : (r.resolve cx' m site w').1 = .ok y) :
    y = x ↔ (r.resolve cx n site w).2.cache.get? site.id site.version cx.lenient = some x := by
  rw [Cache.get?_eq_some_iff]
  rw [← hw, ← hl]
  rcases answer_left he hp hc hr hx with hs | ⟨hv, hlt⟩
  · rw [← hw, ← hl] at hs
    exact ⟨fun _ => hs, fun _ => answer_of_stored he hs hy⟩
  · rw [← hw, ← hl] at hv
    have hc' : w'.cache.WellFormed := by
      rw [hw]
      exact (within_keeps hp n site (s := .start w) hc).grows.wellFormed
    have hle := answer_of_vacant he hp hc' hv hy
    constructor
    · rintro rfl
      omega
    · intro hs
      rw [hv] at hs
      cases hs

theorem trail_apply (r : Resolver ω) (cx : Context) (n : Nat) :
    ∃ look, r.trail cx n = r.trailWith cx (r.expectedType cx n) look := by
  cases n with
  | zero => exact ⟨_, rfl⟩
  | succ n => exact ⟨_, rfl⟩

theorem trail_of_hit {s : Session ω} (hr : r.route cx site s = .hit x) (n : Nat) :
    r.trail cx n site s = .done := by
  obtain ⟨look, ht⟩ := trail_apply r cx n
  rw [ht, trailWith, hr]

theorem trail_of_claiming {s : Session ω} (hr : r.route cx site s = .claiming) (n : Nat) :
    ∃ inner, r.trail cx n site s = .keyed site.id
      (some ⟨site, (r.resolveWithin cx n site s).1,
        (r.resolveWithin cx n site s).2.world.cache.get? site.id site.version cx.lenient⟩)
      inner .done := by
  obtain ⟨look, ht⟩ := trail_apply r cx n
  rw [ht, trailWith, hr]
  exact ⟨_, rfl⟩

/-- A request that is not cancelled keeps its result exactly if every bypassed request on its way
was within a keyed request of the bypassed site. -/
theorem kept_iff (hw : ∀ q, (r.walker cx.env q).IsPlain) (he : r.settings.cacheEnabled = true)
    (hp : ∀ site, (r.provider site).IsConfined) (hc : w.cache.WellFormed)
    (hr : AtRest site cx.lenient w.cache) (hx : (r.resolve cx n site w).1 = .ok x)
    (hl : (r.resolve cx n site w).2.tokens.isCancelled cx.token = false) :
    (r.resolve cx n site w).2.cache.get? site.id site.version cx.lenient = some x ↔
      ∀ p ∈ (r.trail cx n site (.start w)).bypasses, p.2 ∈ p.1 := by
  have hexact := claims_exact hw hp hc (by rw [hx]; rfl) hl
  change (r.resolveWithin cx n site (.start w)).1 = .ok x at hx
  change (r.resolveWithin cx n site (.start w)).2.world.cache.get? _ _ _ = some x ↔ _
  rcases route_rest (r := r) he hr with h | ⟨z, h, hz⟩ | h
  · rw [answer_of_refused h] at hx
    cases hx
  · obtain ⟨hv, hs⟩ := answer_of_hit (n := n) h
    rw [hv] at hx
    cases hx
    have hkept := (congrFun (congrFun (Cache.cell_slotFor hc site.id) site.id) cx.lenient).trans hz
    rw [trail_of_hit h, hs, Cache.get?_eq_some_iff]
    exact ⟨fun _ _ hp => absurd hp List.not_mem_nil, fun _ => hkept⟩
  · obtain ⟨inner, ht⟩ := trail_of_claiming h n
    rw [ht] at hexact ⊢
    obtain ⟨z, hz, hkept⟩ := hexact (_, inner) List.mem_cons_self
    obtain rfl : x = z := Except.ok.inj (hx.symm.trans hz)
    exact hkept.trans Trail.enclosed_keyed.symm

/-- A site that is asked for twice has the same result exactly if every bypassed request on the way
to the first result was within a keyed request of the bypassed site. -/
theorem same_result_iff {w' : World ω} {cx' : Context} {m : Nat}
    (hw : ∀ q, (r.walker cx.env q).IsPlain) (he : r.settings.cacheEnabled = true)
    (hp : ∀ site, (r.provider site).IsConfined) (hc : w.cache.WellFormed)
    (hr : AtRest site cx.lenient w.cache) (hx : (r.resolve cx n site w).1 = .ok x)
    (hl : (r.resolve cx n site w).2.tokens.isCancelled cx.token = false)
    (hcache : w'.cache = (r.resolve cx n site w).2.cache)
    (hissued : w'.issued = (r.resolve cx n site w).2.issued)
    (hlenient : cx'.lenient = cx.lenient) (hy : (r.resolve cx' m site w').1 = .ok y) :
    y = x ↔ ∀ p ∈ (r.trail cx n site (.start w)).bypasses, p.2 ∈ p.1 :=
  (answer_again he hp hc hr hx hlenient hcache hissued hy).trans (kept_iff hw he hp hc hr hx hl)

end Resolver

namespace Toggle

def presuming : Resolver Unit where
  provider s :=
    if s.id.index = 0 then
      .assuming ⟨1⟩ sink (.resolve (site ⟨1⟩) fun _ => .pure ()) fun _ => .pure none
    else .pure none

theorem confined_presuming (s : Site) : (presuming.provider s).IsConfined := by
  unfold presuming
  dsimp only
  split
  · exact ⟨fun _ => trivial, fun _ => trivial⟩
  · trivial

end Toggle

namespace Resolver

/-- The request for the second site is bypassed, so the first one has another result each time. -/
theorem same_result_presuming :
    ∃ x y, (Toggle.presuming.resolve Toggle.context 2 (Toggle.site ⟨0⟩) Toggle.world).1 = .ok x ∧
      (Toggle.presuming.resolve Toggle.context 2 (Toggle.site ⟨0⟩)
        (Toggle.presuming.resolve Toggle.context 2 (Toggle.site ⟨0⟩) Toggle.world).2).1 = .ok y ∧
      y ≠ x := by
  have hx : ∃ x, (Toggle.presuming.resolve Toggle.context 2 (Toggle.site ⟨0⟩)
      Toggle.world).1 = .ok x := ⟨_, rfl⟩
  have hy : ∃ y, (Toggle.presuming.resolve Toggle.context 2 (Toggle.site ⟨0⟩)
      (Toggle.presuming.resolve Toggle.context 2 (Toggle.site ⟨0⟩) Toggle.world).2).1 = .ok y :=
    ⟨_, rfl⟩
  obtain ⟨⟨x, hx⟩, y, hy⟩ := And.intro hx hy
  refine ⟨x, y, hx, hy, fun he => ?_⟩
  have hbypassed := (same_result_iff (Env.plain_members _) rfl Toggle.confined_presuming
    Cache.well_formed_empty (.inl rfl) hx (by decide +kernel) rfl rfl rfl hy).mp he
  exact absurd hbypassed (by decide +kernel)

end Resolver

end DoubleColon
