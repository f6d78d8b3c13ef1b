import Mathlib.Data.Finset.Card
import DoubleColon.Proofs.Lasting
import DoubleColon.Proofs.Toggle

/-!
# Expected types that are derived within one another

While a provider answers for one site it may ask for others, and so calls of the provider nest. A
request asks the provider for its site at most once, and only if the site is not underway
(`Resolver.asking?`). So the calls that are active at a time are for different sites, and they nest
no deeper than there are sites to ask for: a bound on the depth that is at least their number is
never reached, and changes nothing.
-/

set_option autoImplicit false

namespace DoubleColon

/-! ## When the provider is asked -/

namespace Resolver

variable {ω : Type}

def asking? (r : Resolver ω) (cx : Context) (site : Site) (s : Session ω) : Option (Session ω) :=
  if cx.env.asks site then
    match r.route cx site s with
    | .uncached => some (s.polled cx.token)
    | .unstored => some ((s.polled cx.token).slotted site.id)
    | .claiming => some ((s.polled cx.token).claiming cx site)
    | .refused | .bypassed _ | .reentrant | .hit _ | .waiting => none
  else none

variable {r : Resolver ω} {cx : Context} {site : Site} {s u : Session ω}

theorem asking_restores (h : r.asking? cx site s = some u) :
    s.Restores u ∧ site.id ∉ s.underway := by
  unfold asking? at h
  split at h
  · split at h
    · rename_i hr
      exact ⟨Option.some.inj h ▸ ⟨rfl, rfl⟩, not_underway (.inl hr)⟩
    · rename_i hr
      exact ⟨Option.some.inj h ▸ ⟨rfl, rfl⟩, not_underway (.inr (.inl hr))⟩
    · rename_i hr
      exact ⟨Option.some.inj h ▸ ⟨rfl, rfl⟩, not_underway (.inr (.inr hr))⟩
    all_goals cases h
  · cases h

theorem unasked_congr (ha : cx.env.asks site = false) (derive other : Site → Request ω (Option Ty))
    (source : TargetOrigin) (s : Session ω) :
    r.resolveOrReport cx derive site source s = r.resolveOrReport cx other site source s := by
  unfold resolveOrReport resolveValid
  cases hat : site.attached with
  | false => rfl
  | true =>
    cases hq : cx.env.classify site.qualifier with
    | none => rfl
    | some q =>
      have hn : site.name = .missing := by simpa [Env.asks, hat, hq] using ha
      simp [hn]

theorem report_congr {derive other : Site → Request ω (Option Ty)} {source : TargetOrigin}
    (h : source = .fromProvider → cx.env.asks site = true → derive site s = other site s) :
    r.resolveOrReport cx derive site source s = r.resolveOrReport cx other site source s := by
  cases ha : cx.env.asks site with
  | false => exact unasked_congr ha derive other source s
  | true =>
    have hi : interfaceOf derive site source s = interfaceOf other site source s := by
      cases source with
      | fromProvider => exact h rfl ha
      | _ => rfl
    rw [asked_apply ha, asked_apply ha, Request.bind_apply, Request.bind_apply, hi]

/-- What the provider would do in any other session does not matter to a request. -/
theorem with_congr {derive other : Site → Request ω (Option Ty)}
    (h : ∀ u, r.asking? cx site s = some u → derive site u = other site u) :
    r.resolveWith cx derive site s = r.resolveWith cx other site s := by
  rw [with_apply, with_apply]
  cases hr : r.route cx site s <;> dsimp only
  case bypassed source => rw [report_congr fun hs => absurd hs (bypass_source hr)]
  case reentrant =>
    have hs : TargetOrigin.untargeted ≠ .fromProvider := by decide
    rw [report_congr fun h => absurd h hs]
  all_goals rw [report_congr fun _ ha => h _ (by simp [asking?, ha, hr])]

end Resolver

/-! ## Calls within calls -/

namespace Script

variable {ω : Type}

def AsksOnly (allowed : SiteId → Prop) : {α : Type} → Script ω α → Prop
  | _, .pure _ => True
  | _, .resolve site next => allowed site.id ∧ ∀ r, (next r).AsksOnly allowed
  | _, .assuming _ _ body next => body.AsksOnly allowed ∧ ∀ b, (next b).AsksOnly allowed
  | _, .inspect next => ∀ v, (next v).AsksOnly allowed
  | _, .cancel next => next.AsksOnly allowed
  | _, .act _ next => ∀ w, (next w).AsksOnly allowed

theorem asksOnly_of_forall {allowed : SiteId → Prop} (h : ∀ i, allowed i) {α : Type}
    (script : Script ω α) : script.AsksOnly allowed := by
  induction script with
  | pure a => trivial
  | resolve site next ih => exact ⟨h site.id, ih⟩
  | assuming site target body next ihb ihn => exact ⟨ihb, ihn⟩
  | inspect next ih => exact ih
  | cancel next ih => exact ih
  | act f next ih => exact ih

def chains (cx : Context) (ask : Site → Request ω Issued)
    (look : Site → Session ω → List (List SiteId)) {α : Type} :
    Script ω α → Session ω → List (List SiteId)
  | .pure _, _ => []
  | .resolve site next, s => look site s ++ match (ask site).attempt s with
    | (.ok x, t) => (next x).chains cx ask look t
    | (.error _, _) => []
  | .assuming site target body next, s =>
      body.chains cx ask look (s.assume site (some target)) ++
        match (body.run cx ask).assuming site target s with
        | (.ok b, t) => (next b).chains cx ask look t
        | (.error _, _) => []
  | .inspect next, s => (next ⟨cx.env, cx.lenient, s.assumed, s.underway⟩).chains cx ask look s
  | .cancel next, s =>
      next.chains cx ask look (s.onWorld fun w => { w with tokens := w.tokens.cancel cx.token })
  | .act f next, s => (next (f s.world)).chains cx ask look (s.onWorld f)

end Script

namespace Resolver

variable {ω : Type}

/-- The calls of the provider during a request, in order. Each is given as the chain of the sites
for which calls are active then: its own site, and after it those of the calls around it, of which
`active` are outside of the request. -/
def chains (r : Resolver ω) (cx : Context) :
    Nat → List SiteId → Site → Session ω → List (List SiteId)
  | n, active, site, s => match r.asking? cx site s with
    | none => []
    | some u => (site.id :: active) :: match n with
      | 0 => []
      | n + 1 => (r.provider site).chains cx (r.resolveWithin cx n)
          (r.chains cx n (site.id :: active)) (u.entering site.id)

end Resolver

/-! ## The calls that are active at a time -/

theorem Script.mem_chains {ω α : Type} {cx : Context} {ask : Site → Request ω Issued}
    {look : Site → Session ω → List (List SiteId)} {allowed : SiteId → Prop} {U : List SiteId}
    {P : List SiteId → Prop} (hk : ∀ site (s : Session ω), s.Restores (ask site s).2)
    (hg : ∀ site (s : Session ω), allowed site.id → s.underway = U → ∀ chain ∈ look site s, P chain)
    {script : Script ω α} (hs : script.AsksOnly allowed) {s : Session ω} (hu : s.underway = U) :
    ∀ chain ∈ script.chains cx ask look s, P chain := by
  induction script generalizing s with
  | pure a => exact fun _ h => absurd h List.not_mem_nil
  | resolve site next ih =>
    intro chain hc
    rw [Script.chains] at hc
    rcases List.mem_append.mp hc with hc | hc
    · exact hg site s hs.1 hu chain hc
    · have ht := (hk site s).underway
      rw [← Request.attempt_session] at ht
      generalize (ask site).attempt s = out at hc ht
      rcases out with ⟨e | x, t⟩
      · cases hc
      · exact ih x (hs.2 x) (ht.trans hu) chain hc
  | assuming site target body next ihb ihn =>
    intro chain hc
    rw [Script.chains] at hc
    rcases List.mem_append.mp hc with hc | hc
    · exact ihb hs.1 (s := s.assume site (some target)) hu chain hc
    · have ht : (body.run cx ask (s.assume site (some target))).2.underway = s.underway :=
        (body.run_restores hk _).underway
      rw [Request.assuming_apply] at hc
      generalize body.run cx ask (s.assume site (some target)) = out at hc ht
      rcases out with ⟨e | b, t⟩
      · cases hc
      · exact ihn b (hs.2 b) (s := t.assume site (s.assumed site)) (ht.trans hu) chain hc
  | inspect next ih => exact ih _ (hs _) hu
  | cancel next ih => exact ih hs (s := s.onWorld _) hu
  | act f next ih => exact ih _ (hs _) (s := s.onWorld f) hu

namespace Resolver

variable {ω : Type} {r : Resolver ω} {cx : Context} {site : Site} {s u : Session ω}

/-- The calls that are active at a time are for different sites, all of which were asked for. -/
theorem chains_nodup (allowed : SiteId → Prop)
    (hp : ∀ site, allowed site.id → (r.provider site).AsksOnly allowed)
    (n : Nat) {active : List SiteId} (hi : allowed site.id) (hn : active.Nodup)
    (ha : ∀ i ∈ active, i ∈ s.underway ∧ allowed i) :
    ∀ chain ∈ r.chains cx n active site s, chain.Nodup ∧ ∀ i ∈ chain, allowed i := by
  induction n using Nat.strongRec generalizing active site s with
  | ind n ih =>
  intro chain hc
  unfold chains at hc
  cases hu : r.asking? cx site s with
  | none =>
    rw [hu] at hc
    cases hc
  | some u =>
    rw [hu] at hc
    obtain ⟨hrest, hnot⟩ := asking_restores hu
    -- A provider is only asked at a site that is not underway, and all active ones are.
    have hown : (site.id :: active).Nodup := List.nodup_cons.mpr ⟨fun h => hnot (ha _ h).1, hn⟩
    have hall : ∀ i ∈ site.id :: active, i ∈ (u.entering site.id).underway ∧ allowed i := by
      refine List.forall_mem_cons.mpr ⟨⟨Session.mem_entering.mpr (.inl rfl), hi⟩, fun i h => ?_⟩
      refine ⟨Session.mem_entering.mpr (.inr ?_), (ha i h).2⟩
      rw [hrest.underway]
      exact (ha i h).1
    rcases List.mem_cons.mp hc with rfl | hc
    · exact ⟨hown, fun i h => (hall i h).2⟩
    · cases n with
      | zero => cases hc
      | succ n =>
        refine Script.mem_chains (P := fun chain => chain.Nodup ∧ ∀ i ∈ chain, allowed i)
          (fun site s => within_restores r cx n site s) (fun j t hj ht => ?_) (hp site hi) rfl
          chain hc
        exact ih n (Nat.lt_succ_self n) hj hown fun i h =>
          ⟨by rw [ht]; exact (hall i h).1, (hall i h).2⟩

end Resolver

/-! ## A depth that is enough -/

namespace Request

variable {ω α β : Type} {e : Interrupt}

theorem attempt_congr {body other : Request ω α} {s : Session ω} (h : body s = other s) :
    body.attempt s = other.attempt s := by
  rw [attempt_apply, attempt_apply, h]

def Avoids (e : Interrupt) (body : Request ω α) : Prop := ∀ s, (body s).1 ≠ .error e

theorem avoids_pure (a : α) : Avoids e (pure a : Request ω α) := nofun

theorem avoids_throw {e' : Interrupt} (h : e' ≠ e) : Avoids e (throw e' : Request ω α) :=
  fun _ he => h (Except.error.inj he)

theorem avoids_poll (h : .cancelled ≠ e) (token : TokenId) :
    Avoids e (poll token : Request ω Unit) := by
  intro s
  rw [poll_apply]
  cases (s.world.tokens.poll token).1 with
  | true => exact fun he => h (Except.error.inj he)
  | false => nofun

theorem Avoids.bind {body : Request ω α} {f : α → Request ω β} (hb : Avoids e body)
    (hf : ∀ a, Avoids e (f a)) : Avoids e (body >>= f) := by
  intro s
  rw [bind_apply]
  have h := hb s
  generalize body s = out at h ⊢
  rcases out with ⟨e' | a, t⟩
  · exact fun he => h (congrArg Except.error (Except.error.inj he))
  · exact hf a t

theorem Avoids.map {body : Request ω α} (f : α → β) (hb : Avoids e body) :
    Avoids e (f <$> body) := by
  rw [map_eq_pure_bind]
  exact hb.bind fun _ => avoids_pure _

end Request

namespace Resolver

variable {ω : Type} {r : Resolver ω} {cx : Context} {site : Site} {s : Session ω}

theorem avoids_walk (q : WalkRequest) : (r.walk cx q).Avoids .outOfFuel := by
  intro s
  rw [walk_apply]
  dsimp only
  split <;> nofun

theorem avoids_choose (q : SearchedClass) (subst : Substitution) (target : Option FunctionType)
    (cs : List Candidate) : (r.chooseAmong cx q subst target cs).Avoids .outOfFuel := by
  unfold chooseAmong
  split
  · exact Request.avoids_pure _
  · split
    · exact Request.avoids_pure _
    · split
      · exact Request.avoids_throw (by decide)
      · split
        · exact Request.Avoids.bind nofun fun _ => Request.avoids_pure _
        · exact Request.avoids_pure _

theorem avoids_conclude (id : SiteId) (subst : Substitution) (target : Option FunctionType)
    (cs : List Candidate) (c : Choice) :
    (r.conclude cx id subst target cs c).Avoids .outOfFuel := by
  unfold conclude
  dsimp only
  split
  · split
    · exact Request.Avoids.bind nofun fun _ => Request.avoids_pure _
    · exact Request.avoids_pure _
  · exact Request.avoids_pure _

theorem avoids_conclusion (interface : Option Ty) :
    (r.conclusion cx site interface).Avoids .outOfFuel := by
  refine (Request.avoids_poll (by decide) _).bind fun _ => ?_
  split
  · exact Request.avoids_pure _
  · refine Request.Avoids.bind ?_ fun v => ?_
    · unfold resolveInClass
      dsimp only
      split
      · exact Request.avoids_pure _
      · exact (avoids_conclude _ _ _ _ _).map _
      · exact (avoids_walk _).bind fun _ => (avoids_choose _ _ _ _).bind fun _ =>
          (avoids_conclude _ _ _ _ _).map _
    · split
      · exact Request.avoids_pure _
      · exact Request.Avoids.bind nofun fun _ => Request.avoids_pure _

theorem report_avoids {derive : Site → Request ω (Option Ty)} {source : TargetOrigin}
    (h : source = .fromProvider → cx.env.asks site = true →
      (derive site s).1 ≠ .error .outOfFuel) :
    (r.resolveOrReport cx derive site source s).1 ≠ .error .outOfFuel := by
  cases ha : cx.env.asks site with
  | false =>
    obtain ⟨host, he⟩ := unasked_apply (r := r) ha derive source s
    rw [he]
    nofun
  | true =>
    have hi : (interfaceOf derive site source s).1 ≠ .error .outOfFuel := by
      cases source with
      | fromProvider => exact h rfl ha
      | _ => nofun
    rw [asked_apply ha, Request.bind_apply]
    generalize interfaceOf derive site source s = out at hi ⊢
    rcases out with ⟨e | interface, t⟩
    · exact fun he => hi (congrArg Except.error (Except.error.inj he))
    · exact avoids_conclusion interface t

theorem with_avoids {derive : Site → Request ω (Option Ty)}
    (h : ∀ u, r.asking? cx site s = some u → (derive site u).1 ≠ .error .outOfFuel) :
    (r.resolveWith cx derive site s).1 ≠ .error .outOfFuel := by
  have hclosed : ∀ {done stop} {out : Except Interrupt Resolution × Session ω},
      out.1 ≠ .error .outOfFuel → (closed done stop out).1 ≠ .error .outOfFuel := by
    rintro done stop ⟨e | x, t⟩ ho
    · exact fun he => ho (congrArg Except.error (Except.error.inj he))
    · nofun
  rw [with_apply]
  cases hr : r.route cx site s <;> dsimp only
  case refused => nofun
  case hit x => nofun
  case waiting => nofun
  case bypassed source =>
    exact hclosed (report_avoids fun hs => absurd hs (bypass_source hr))
  case reentrant => exact hclosed (report_avoids nofun)
  all_goals exact hclosed (report_avoids fun _ ha => h _ (by simp [asking?, ha, hr]))

end Resolver

section Scripts

variable {ω α : Type} {cx : Context} {ask other : Site → Request ω Issued}
  {look look' : Site → Session ω → List (List SiteId)} {allowed : SiteId → Prop}
  {U : List SiteId} {script : Script ω α} {s : Session ω}

theorem Script.run_congr (hk : ∀ site (s : Session ω), s.Restores (other site s).2)
    (h : ∀ site (s : Session ω), allowed site.id → s.underway = U → ask site s = other site s)
    (hs : script.AsksOnly allowed) (hu : s.underway = U) :
    script.run cx ask s = script.run cx other s := by
  induction script generalizing s with
  | pure a => rfl
  | resolve site next ih =>
    have ht := (hk site s).underway
    rw [← Request.attempt_session] at ht
    rw [Script.run, Script.run, Request.bind_apply, Request.bind_apply,
      Request.attempt_congr (h site s hs.1 hu)]
    generalize (other site).attempt s = out at ht ⊢
    rcases out with ⟨e | x, t⟩
    · rfl
    · exact ih x (hs.2 x) (ht.trans hu)
  | assuming site target body next ihb ihn =>
    have ht : (body.run cx other (s.assume site (some target))).2.underway = s.underway :=
      (body.run_restores hk _).underway
    rw [Script.run, Script.run, Request.bind_apply, Request.bind_apply, Request.assuming_apply,
      Request.assuming_apply, ihb hs.1 (s := s.assume site (some target)) hu]
    generalize body.run cx other (s.assume site (some target)) = out at ht ⊢
    rcases out with ⟨e | b, t⟩
    · rfl
    · exact ihn b (hs.2 b) (s := t.assume site (s.assumed site)) (ht.trans hu)
  | inspect next ih => exact ih _ (hs _) hu
  | cancel next ih => exact ih hs (s := s.onWorld _) hu
  | act f next ih => exact ih _ (hs _) (s := s.onWorld f) hu

theorem Script.chains_congr (hk : ∀ site (s : Session ω), s.Restores (other site s).2)
    (h : ∀ site (s : Session ω), allowed site.id → s.underway = U → ask site s = other site s)
    (hl : ∀ site (s : Session ω), allowed site.id → s.underway = U → look site s = look' site s)
    (hs : script.AsksOnly allowed) (hu : s.underway = U) :
    script.chains cx ask look s = script.chains cx other look' s := by
  induction script generalizing s with
  | pure a => rfl
  | resolve site next ih =>
    have ht := (hk site s).underway
    rw [← Request.attempt_session] at ht
    rw [Script.chains, Script.chains, hl site s hs.1 hu, Request.attempt_congr (h site s hs.1 hu)]
    generalize (other site).attempt s = out at ht ⊢
    rcases out with ⟨e | x, t⟩
    · rfl
    · exact congrArg _ (ih x (hs.2 x) (ht.trans hu))
  | assuming site target body next ihb ihn =>
    have ht : (body.run cx other (s.assume site (some target))).2.underway = s.underway :=
      (body.run_restores hk _).underway
    rw [Script.chains, Script.chains, Request.assuming_apply, Request.assuming_apply,
      ihb hs.1 (s := s.assume site (some target)) hu,
      Script.run_congr hk h hs.1 (s := s.assume site (some target)) hu]
    generalize body.run cx other (s.assume site (some target)) = out at ht ⊢
    rcases out with ⟨e | b, t⟩
    · rfl
    · exact congrArg _ (ihn b (hs.2 b) (s := t.assume site (s.assumed site)) (ht.trans hu))
  | inspect next ih => exact ih _ (hs _) hu
  | cancel next ih => exact ih hs (s := s.onWorld _) hu
  | act f next ih => exact ih _ (hs _) (s := s.onWorld f) hu

theorem Script.run_avoids (hk : ∀ site (s : Session ω), s.Restores (ask site s).2)
    (h : ∀ site (s : Session ω), allowed site.id → s.underway = U →
      (ask site s).1 ≠ .error .outOfFuel)
    (hs : script.AsksOnly allowed) (hu : s.underway = U) :
    (script.run cx ask s).1 ≠ .error .outOfFuel := by
  induction script generalizing s with
  | pure a => exact fun he => by cases he
  | resolve site next ih =>
    have ht := (hk site s).underway
    have ha := h site s hs.1 hu
    rw [Script.run, Request.bind_apply, Request.attempt_apply]
    generalize ask site s = out at ht ha ⊢
    rcases out with ⟨e | x, t⟩
    · cases e with
      | outOfFuel => exact absurd rfl ha
      | cancelled => exact ih none (hs.2 none) (ht.trans hu)
      | _ => exact fun he => by cases he
    · exact ih (some x) (hs.2 _) (ht.trans hu)
  | assuming site target body next ihb ihn =>
    have ht : (body.run cx ask (s.assume site (some target))).2.underway = s.underway :=
      (body.run_restores hk _).underway
    have hb := ihb hs.1 (s := s.assume site (some target)) hu
    rw [Script.run, Request.bind_apply, Request.assuming_apply]
    generalize body.run cx ask (s.assume site (some target)) = out at ht hb ⊢
    rcases out with ⟨e | b, t⟩
    · exact fun he => hb (congrArg Except.error (Except.error.inj he))
    · exact ihn b (hs.2 b) (s := t.assume site (s.assumed site)) (ht.trans hu)
  | inspect next ih => exact ih _ (hs _) hu
  | cancel next ih => exact ih hs (s := s.onWorld _) hu
  | act f next ih => exact ih _ (hs _) (s := s.onWorld f) hu

end Scripts

namespace Resolver

variable {ω : Type} {r : Resolver ω} {cx : Context} {site : Site} {s : Session ω}

/-- Sites underway that are all to be found in a set are fewer, as long as one is not underway. -/
theorem length_underway_lt {sites : Finset SiteId} (hi : site.id ∈ sites)
    (hn : s.underway.Nodup) (hu : ∀ i ∈ s.underway, i ∈ sites) (h : site.id ∉ s.underway) :
    s.underway.length < sites.card := by
  have hsub : (site.id :: s.underway).toFinset ⊆ sites := fun i hm =>
    List.forall_mem_cons.mpr ⟨hi, hu⟩ i (List.mem_toFinset.mp hm)
  have hcard := Finset.card_le_card hsub
  rw [List.toFinset_card_of_nodup (List.nodup_cons.mpr ⟨h, hn⟩), List.length_cons] at hcard
  omega

/-- If no more sites can be asked for than calls may still nest, no call is refused for its depth,
and more depth changes nothing. -/
theorem depth_suffices {sites : Finset SiteId}
    (hp : ∀ site, site.id ∈ sites → (r.provider site).AsksOnly (· ∈ sites)) (n : Nat)
    (hi : site.id ∈ sites) (hn : s.underway.Nodup) (hu : ∀ i ∈ s.underway, i ∈ sites)
    (hc : sites.card ≤ n + s.underway.length) {m : Nat} (hm : n ≤ m) :
    r.resolveWithin cx m site s = r.resolveWithin cx n site s ∧
      (∀ active, r.chains cx m active site s = r.chains cx n active site s) ∧
      (r.resolveWithin cx n site s).1 ≠ .error .outOfFuel := by
  induction n generalizing site s m with
  | zero =>
    have ha : r.asking? cx site s = none := by
      by_contra ha
      obtain ⟨u, ha⟩ := Option.ne_none_iff_exists'.mp ha
      have := length_underway_lt hi hn hu (asking_restores ha).2
      omega
    refine ⟨with_congr fun u h => absurd (ha.symm.trans h) nofun, fun active => ?_,
      with_avoids fun u h => absurd (ha.symm.trans h) nofun⟩
    unfold chains
    rw [ha]
  | succ n ih =>
    obtain ⟨m, rfl⟩ : ∃ k, m = k + 1 := ⟨m - 1, by omega⟩
    -- The scripts of both runs begin with one more site underway.
    have hask : ∀ u, r.asking? cx site s = some u → ∀ j (t : Session ω), j.id ∈ sites →
        t.underway = (u.entering site.id).underway →
        r.resolveWithin cx m j t = r.resolveWithin cx n j t ∧
          (∀ active, r.chains cx m active j t = r.chains cx n active j t) ∧
          (r.resolveWithin cx n j t).1 ≠ .error .outOfFuel := by
      intro u ha j t hj ht
      obtain ⟨hrest, hnot⟩ := asking_restores ha
      have hU : t.underway = site.id :: s.underway := by
        rw [ht, Session.entering, hrest.underway, if_neg hnot]
      refine ih hj (hU ▸ List.nodup_cons.mpr ⟨hnot, hn⟩)
        (hU ▸ List.forall_mem_cons.mpr ⟨hi, hu⟩) ?_ (by omega)
      rw [hU, List.length_cons]
      omega
    have hrest := fun j (t : Session ω) => within_restores r cx n j t
    refine ⟨with_congr fun u ha => ?_, fun active => ?_, with_avoids fun u ha => ?_⟩
    · rw [expected_apply, expected_apply, Script.run_congr hrest
        (fun j t hj ht => (hask u ha j t hj ht).1) (hp site hi) rfl]
    · unfold chains
      cases ha : r.asking? cx site s with
      | none => rfl
      | some u =>
        exact congrArg _ (Script.chains_congr hrest (fun j t hj ht => (hask u ha j t hj ht).1)
          (fun j t hj ht => (hask u ha j t hj ht).2.1 _) (hp site hi) rfl)
    · rw [expected_apply]
      exact Script.run_avoids hrest (fun j t hj ht => (hask u ha j t hj ht).2.2) (hp site hi) rfl

/-- The calls of the provider that are active at a time in one request are for different sites. So
if only finitely many sites are ever asked for, calls nest no deeper than there are sites, and a
depth of their number is enough: the request comes to its end after the same calls of the provider
and with the same result whatever more depth is allowed. -/
theorem derivations_end (r : Resolver ω) (cx : Context) :
    (∀ n site (w : World ω), ∀ chain ∈ r.chains cx n [] site (.start w), chain.Nodup) ∧
    ∀ sites : Finset SiteId,
      (∀ site, site.id ∈ sites → (r.provider site).AsksOnly (· ∈ sites)) →
      ∀ site, site.id ∈ sites → ∀ (w : World ω) n, sites.card ≤ n →
        (r.resolve cx n site w).1 ≠ .error .outOfFuel ∧
        r.resolve cx n site w = r.resolve cx sites.card site w ∧
        r.chains cx n [] site (.start w) = r.chains cx sites.card [] site (.start w) ∧
        ∀ chain ∈ r.chains cx n [] site (.start w), chain.length ≤ sites.card := by
  refine ⟨fun n site w chain hc => ?_, fun sites hp site hi w n hn => ?_⟩
  · exact (chains_nodup (fun _ => True)
      (fun site _ => Script.asksOnly_of_forall (fun _ => trivial) (r.provider site)) n trivial
      List.nodup_nil (fun i h => absurd h List.not_mem_nil) chain hc).1
  · obtain ⟨hsame, hchains, havoids⟩ : r.resolveWithin cx n site (.start w) =
        r.resolveWithin cx sites.card site (.start w) ∧ _ :=
      depth_suffices hp sites.card hi List.nodup_nil (fun i h => absurd h List.not_mem_nil)
        (Nat.le_refl _) hn
    have hresolve : r.resolve cx n site w = r.resolve cx sites.card site w := by
      unfold resolve Request.run
      rw [hsame]
    refine ⟨hresolve ▸ havoids, hresolve, hchains [], fun chain hc => ?_⟩
    obtain ⟨hnodup, hmem⟩ := chains_nodup (· ∈ sites) hp n hi List.nodup_nil
      (fun i h => absurd h List.not_mem_nil) chain hc
    rw [← List.toFinset_card_of_nodup hnodup]
    exact Finset.card_le_card fun i h => hmem i (List.mem_toFinset.mp h)

/-- Two sites that ask for each other: the second call is within the first, and there is no
third. -/
theorem derivations_end_pair :
    Toggle.pair.chains Toggle.context 5 [] (Toggle.site ⟨0⟩) (.start Toggle.world) =
      [[⟨0⟩], [⟨1⟩, ⟨0⟩]] ∧
    Toggle.pair.resolve Toggle.context 5 (Toggle.site ⟨0⟩) Toggle.world =
      Toggle.pair.resolve Toggle.context 2 (Toggle.site ⟨0⟩) Toggle.world := by
  refine ⟨by decide +kernel, ?_⟩
  have hp : ∀ site : Site, site.id ∈ ({⟨0⟩, ⟨1⟩} : Finset SiteId) →
      (Toggle.pair.provider site).AsksOnly (· ∈ ({⟨0⟩, ⟨1⟩} : Finset SiteId)) := by
    intro site hi
    refine ⟨?_, fun _ => trivial⟩
    rcases Finset.mem_insert.mp hi with h | h
    · simp [Toggle.site, h]
    · simp [Toggle.site, Finset.mem_singleton.mp h]
  have hcard : Finset.card ({⟨0⟩, ⟨1⟩} : Finset SiteId) = 2 := by decide
  have h := ((derivations_end Toggle.pair Toggle.context).2 {⟨0⟩, ⟨1⟩} hp (Toggle.site ⟨0⟩)
    (Finset.mem_insert_self _ _) Toggle.world 5 (by rw [hcard]; decide)).2.1
  rwa [hcard] at h

end Resolver

end DoubleColon
