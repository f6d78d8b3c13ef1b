import DoubleColon.Proofs.Routes

/-!
# What a request leaves alone

However a request ends, the assumed targets and the sites underway are then what they were, and no
slot has moved to another place. It changes only cells of its own mode, and no cell of a site that
is underway: a request for such a site is answered without the cache. So a computation finds its
claim as it made it, whatever the provider did in between.

This takes a provider that goes by way of its request. Its script may do what it likes to the host
but nothing else to the world.
-/

set_option autoImplicit false

namespace DoubleColon

/-! ## Scripts that go by way of their request -/

namespace Script

variable {ω : Type}

def IsConfined : {α : Type} → Script ω α → Prop
  | _, .pure _ => True
  | _, .resolve _ next => ∀ r, (next r).IsConfined
  | _, .assuming _ _ body next => body.IsConfined ∧ ∀ b, (next b).IsConfined
  | _, .inspect next => ∀ v, (next v).IsConfined
  | _, .cancel _ => False
  | _, .act f next => (∀ w, f w = { w with host := (f w).host }) ∧ ∀ w, (next w).IsConfined

def IsPure : {α : Type} → Script ω α → Prop
  | _, .pure _ => True
  | _, .resolve _ next => ∀ r, (next r).IsPure
  | _, .assuming _ _ body next => body.IsPure ∧ ∀ b, (next b).IsPure
  | _, .inspect next => ∀ v, (next v).IsPure
  | _, .cancel _ => False
  | _, .act _ _ => False

theorem IsPure.confined {α : Type} {script : Script ω α} (h : script.IsPure) :
    script.IsConfined := by
  induction script with
  | pure a => trivial
  | resolve site next ih => exact fun r => ih r (h r)
  | assuming site target body next ihb ihn => exact ⟨ihb h.1, fun b => ihn b (h.2 b)⟩
  | inspect next ih => exact fun v => ih v (h v)
  | cancel next => exact h.elim
  | act f next => exact h.elim

end Script

namespace Request

variable {ω α : Type}

theorem attempt_apply (body : Request ω α) (s : Session ω) :
    body.attempt s = match body s with
      | (.ok a, t) => (.ok (some a), t)
      | (.error .cancelled, t) => (.ok none, t)
      | (.error e, t) => (.error e, t) := rfl

theorem attempt_session (body : Request ω α) (s : Session ω) :
    (body.attempt s).2 = (body s).2 := by
  rw [attempt_apply]
  rcases body s with ⟨e | a, t⟩
  · cases e <;> rfl
  · rfl

theorem assuming_apply (site : SiteId) (target : Ty) (body : Request ω α) (s : Session ω) :
    body.assuming site target s = ((body (s.assume site (some target))).1,
      (body (s.assume site (some target))).2.assume site (s.assumed site)) := rfl

end Request

namespace Session

variable {ω : Type}

def entering (site : SiteId) (s : Session ω) : Session ω :=
  if site ∈ s.underway then s else { s with underway := site :: s.underway }

@[simp] theorem assumed_entering (site : SiteId) (s : Session ω) :
    (s.entering site).assumed = s.assumed := by
  unfold entering
  split <;> rfl

@[simp] theorem breaks_entering (site : SiteId) (s : Session ω) :
    (s.entering site).breaks = s.breaks := by
  unfold entering
  split <;> rfl

@[simp] theorem world_entering (site : SiteId) (s : Session ω) :
    (s.entering site).world = s.world := by
  unfold entering
  split <;> rfl

theorem entering_outside (site : SiteId) (s : Session ω) (host : ω) (ts : Tokens) :
    (s.outside host ts).entering site = (s.entering site).outside host ts := by
  unfold entering
  rw [underway_outside]
  split <;> rfl

theorem mem_entering {site other : SiteId} {s : Session ω} :
    other ∈ (s.entering site).underway ↔ other = site ∨ other ∈ s.underway := by
  unfold entering
  split
  · rename_i h
    exact ⟨.inr, fun h' => h'.elim (fun he => he ▸ h) id⟩
  · exact List.mem_cons

/-- What a later session shares with an earlier one: all but cells of one mode of sites that are
not held. -/
structure Keeps (lenient : Bool) (held : List SiteId) (s t : Session ω) : Prop where
  assumed : t.assumed = s.assumed
  underway : t.underway = s.underway
  grows : s.world.cache.Grows t.world.cache
  cells : ∀ site flag, site ∈ held ∨ flag ≠ lenient →
    t.world.cache.cell site flag = s.world.cache.cell site flag

variable {lenient : Bool} {held : List SiteId} {s t u : Session ω}

theorem keeps_outside (hc : s.world.cache.WellFormed) (host : ω) (ts : Tokens) :
    s.Keeps lenient held (s.outside host ts) :=
  ⟨rfl, rfl, Cache.grows_refl hc, fun _ _ _ => rfl⟩

theorem keeps_refl (hc : s.world.cache.WellFormed) : s.Keeps lenient held s :=
  ⟨rfl, rfl, Cache.grows_refl hc, fun _ _ _ => rfl⟩

theorem Keeps.trans (h : s.Keeps lenient held t) (k : t.Keeps lenient held u) :
    s.Keeps lenient held u where
  assumed := k.assumed.trans h.assumed
  underway := k.underway.trans h.underway
  grows := h.grows.trans k.grows
  cells site flag hs := (k.cells site flag hs).trans (h.cells site flag hs)

theorem Keeps.mono {fewer : List SiteId} (h : s.Keeps lenient held t)
    (hf : ∀ site ∈ fewer, site ∈ held) : s.Keeps lenient fewer t :=
  ⟨h.assumed, h.underway, h.grows, fun site flag hs => h.cells site flag (hs.imp_left (hf site))⟩

theorem Keeps.noteBreak (h : s.Keeps lenient held t) (site : SiteId) :
    s.Keeps lenient held (t.noteBreak site) :=
  ⟨h.assumed, h.underway, h.grows, h.cells⟩

theorem Keeps.issuing (h : s.Keeps lenient held t) : s.Keeps lenient held t.issuing :=
  ⟨h.assumed, h.underway, h.grows, h.cells⟩

theorem Keeps.settled (h : s.Keeps lenient held t) (mark : Nat) (site : SiteId) :
    s.Keeps lenient held (t.settle mark site).issuing :=
  ⟨h.assumed, h.underway, h.grows, h.cells⟩

theorem keeps_slotted (hc : s.world.cache.WellFormed) (site : SiteId) :
    s.Keeps lenient held (s.slotted site) where
  assumed := rfl
  underway := rfl
  grows := Cache.grows_slotFor hc site
  cells i flag _ := congrFun (congrFun (Cache.cell_slotFor hc site) i) flag

/-! ## Claims -/

theorem slot_claiming (cx : Context) (site : Site) (s : Session ω) :
    (s.claiming cx site).world.cache.slotOf? site.id =
      some (s.world.cache.slotFor site.id).2 :=
  Cache.slot_slotFor s.world.cache site.id

theorem cell_claiming (hc : s.world.cache.WellFormed) (cx : Context) (site : Site) :
    (s.claiming cx site).world.cache.cell site.id cx.lenient =
      .claimed site.version cx.thread :=
  Cache.cell_update (Cache.grows_slotFor hc site.id).wellFormed
    (Cache.slot_slotFor s.world.cache site.id) _ _

theorem cell_claiming_apart (hc : s.world.cache.WellFormed) (cx : Context) (site : Site)
    {other : SiteId} {flag : Bool} (h : other ≠ site.id ∨ flag ≠ cx.lenient) :
    (s.claiming cx site).world.cache.cell other flag = s.world.cache.cell other flag := by
  refine (Cache.cell_update_apart (Cache.grows_slotFor hc site.id).wellFormed
    (Cache.slot_slotFor s.world.cache site.id) h _).trans ?_
  rw [← Cache.cell_slotFor hc site.id]

theorem get?_claiming (hc : s.world.cache.WellFormed) {cx : Context} {site : Site} {i : SiteId}
    {version : Nat} {flag : Bool} {x : Issued}
    (h : (s.claiming cx site).world.cache.get? i version flag = some x) :
    s.world.cache.get? i version flag = some x := by
  rw [Cache.get?_eq_some_iff] at h ⊢
  by_cases hi : i = site.id
  · by_cases hf : flag = cx.lenient
    · rw [hi, hf, cell_claiming hc] at h
      cases h
    · rwa [cell_claiming_apart hc cx site (.inr hf)] at h
  · rwa [cell_claiming_apart hc cx site (.inl hi)] at h

theorem grows_claiming (hc : s.world.cache.WellFormed) (cx : Context) (site : Site) :
    s.world.cache.Grows (s.claiming cx site).world.cache :=
  (Cache.grows_slotFor hc site.id).trans
    (Cache.grows_update (Cache.grows_slotFor hc site.id).wellFormed _ _ _)

end Session

namespace Resolver

variable {ω : Type} {r : Resolver ω} {cx : Context} {site : Site} {s t : Session ω}

theorem cell_end_claim {slot : SlotId} (hc : t.world.cache.WellFormed)
    (hs : t.world.cache.slotOf? site.id = some slot) (flag : Bool) (version : Nat)
    (thread : ThreadId) (next : Cell Issued) :
    (endClaim slot flag version thread next t).world.cache.cell site.id flag =
      (t.world.cache.cell site.id flag).finish version thread next :=
  Cache.cell_update hc hs _ _

theorem not_underway (h : r.route cx site s = .uncached ∨ r.route cx site s = .unstored ∨
    r.route cx site s = .claiming) : site.id ∉ s.underway := by
  intro hu
  unfold route at h
  split at h
  · simp at h
  · split at h
    · simp at h
    · simp at h

/-! ## Requests -/

theorem computation_keeps {derive : Site → Request ω (Option Ty)}
    (hd : ∀ s : Session ω, s.world.cache.WellFormed →
      s.Keeps cx.lenient (site.id :: s.underway) (derive site s).2)
    (hc : s.world.cache.WellFormed) (source : TargetOrigin) :
    s.Keeps cx.lenient (site.id :: s.underway)
      (r.resolveOrReport cx derive site source s).2 := by
  cases ha : cx.env.asks site with
  | false =>
    obtain ⟨host, he⟩ := unasked_apply (r := r) ha derive source s
    rw [he]
    exact Session.keeps_outside hc _ _
  | true =>
    rw [asked_apply ha, Request.bind_apply]
    have hi : s.Keeps cx.lenient (site.id :: s.underway) (interfaceOf derive site source s).2 := by
      cases source with
      | fromProvider => exact hd s hc
      | _ => exact Session.keeps_refl hc
    generalize interfaceOf derive site source s = out at hi ⊢
    rcases out with ⟨e | t, u⟩
    · exact hi
    · obtain ⟨host, ts, he⟩ := outside_conclusion r cx site t u
      dsimp only
      rw [he]
      exact hi.trans (Session.keeps_outside hi.grows.wellFormed _ _)

/-- A claim still stands when its computation ends, so its cell holds what the end leaves there. -/
theorem cell_end_own (hc : s.world.cache.WellFormed)
    (ht : (s.claiming cx site).Keeps cx.lenient (site.id :: s.underway) t) (next : Cell Issued) :
    (endClaim (s.world.cache.slotFor site.id).2 cx.lenient site.version cx.thread next
      t).world.cache.cell site.id cx.lenient = next := by
  have hslot := ht.grows.keeps _ _ (Session.slot_claiming cx site s)
  rw [cell_end_claim ht.grows.wellFormed hslot, ht.cells site.id cx.lenient
    (.inl List.mem_cons_self), Session.cell_claiming hc, Cell.finish_claimed]

theorem cell_end_other (ht : (s.claiming cx site).Keeps cx.lenient (site.id :: s.underway) t)
    {other : SiteId} {flag : Bool} (h : other ≠ site.id ∨ flag ≠ cx.lenient)
    (next : Cell Issued) :
    (endClaim (s.world.cache.slotFor site.id).2 cx.lenient site.version cx.thread next
      t).world.cache.cell other flag = t.world.cache.cell other flag :=
  Cache.cell_update_apart ht.grows.wellFormed
    (ht.grows.keeps _ _ (Session.slot_claiming cx site s)) h _

theorem ended_keeps (hc : s.world.cache.WellFormed) (hu : site.id ∉ s.underway)
    (ht : (s.claiming cx site).Keeps cx.lenient (site.id :: s.underway) t) (next : Cell Issued) :
    s.Keeps cx.lenient s.underway (endClaim (s.world.cache.slotFor site.id).2 cx.lenient
      site.version cx.thread next t) := by
  have hgrows := (Session.grows_claiming hc cx site).trans ht.grows
  refine ⟨ht.assumed, ht.underway, hgrows.trans (Cache.grows_update ht.grows.wellFormed _ _ _), ?_⟩
  intro other flag ho
  have hne : other ≠ site.id ∨ flag ≠ cx.lenient := ho.imp_left fun hm he => hu (he ▸ hm)
  rw [cell_end_other ht hne, ht.cells other flag (ho.imp_left (List.mem_cons_of_mem _)),
    Session.cell_claiming_apart hc cx site hne]

theorem closed_keeps {flag : Bool} {U : List SiteId} {done : Resolution → Session ω → Session ω}
    {stop : Session ω → Session ω} {out : Except Interrupt Resolution × Session ω}
    (hd : ∀ x, s.Keeps flag U (done x out.2)) (hs : s.Keeps flag U (stop out.2)) :
    s.Keeps flag U (closed done stop out).2 := by
  rcases out with ⟨e | x, t⟩
  · exact hs
  · exact hd x

theorem with_keeps {derive : Site → Request ω (Option Ty)}
    (hd : ∀ s : Session ω, s.world.cache.WellFormed →
      s.Keeps cx.lenient (site.id :: s.underway) (derive site s).2)
    (hc : s.world.cache.WellFormed) :
    s.Keeps cx.lenient s.underway (r.resolveWith cx derive site s).2 := by
  have hp : s.Keeps cx.lenient s.underway (s.polled cx.token) := Session.keeps_outside hc _ _
  have hps := hp.trans (Session.keeps_slotted (s := s.polled cx.token) hc site.id)
  have hfew : ∀ i ∈ s.underway, i ∈ site.id :: s.underway := fun _ => List.mem_cons_of_mem _
  have hcomp := fun u source hu => computation_keeps (r := r) (s := u) hd hu source
  rw [with_apply]
  cases hr : r.route cx site s with
  | refused => exact hp
  | hit x => exact hps
  | waiting => exact hps
  | bypassed source =>
    have hk := (hcomp ((s.polled cx.token).noteBreak site.id) source hc).mono hfew
    have hn := (hp.noteBreak site.id).trans hk
    exact closed_keeps (fun _ => hn.issuing) hn
  | reentrant =>
    have hk := (hcomp (((s.polled cx.token).slotted site.id).noteBreak site.id) .untargeted
      hps.grows.wellFormed).mono hfew
    have hn := (hps.noteBreak site.id).trans hk
    exact closed_keeps (fun _ => hn.settled _ _) hn
  | uncached =>
    have hk := (hcomp (s.polled cx.token) .fromProvider hc).mono hfew
    exact closed_keeps (fun _ => (hp.trans hk).issuing) (hp.trans hk)
  | unstored =>
    have hk := (hcomp ((s.polled cx.token).slotted site.id) .fromProvider
      hps.grows.wellFormed).mono hfew
    exact closed_keeps (fun _ => (hps.trans hk).settled _ _) (hps.trans hk)
  | claiming =>
    have hu : site.id ∉ s.underway := not_underway (.inr (.inr hr))
    have hg := Session.grows_claiming (s := s.polled cx.token) hc cx site
    have hk := hcomp ((s.polled cx.token).claiming cx site) .fromProvider hg.wellFormed
    exact hp.trans (closed_keeps (fun _ => ended_keeps (s := s.polled cx.token) hc hu
      (hk.settled _ _) _) (ended_keeps (s := s.polled cx.token) hc hu hk _))

end Resolver

/-! ## Scripts -/

theorem Script.run_keeps {ω α : Type} {cx : Context} {ask : Site → Request ω Issued}
    (ha : ∀ site (s : Session ω), s.world.cache.WellFormed →
      s.Keeps cx.lenient s.underway (ask site s).2)
    {script : Script ω α} (hs : script.IsConfined) {s : Session ω}
    (hc : s.world.cache.WellFormed) :
    s.Keeps cx.lenient s.underway (script.run cx ask s).2 := by
  induction script generalizing s with
  | pure a => exact Session.keeps_refl hc
  | resolve site next ih =>
    rw [Script.run, Request.bind_apply]
    have h := ha site s hc
    rw [← Request.attempt_session] at h
    generalize (ask site).attempt s = out at h ⊢
    rcases out with ⟨e | x, t⟩
    · exact h
    · have hn := ih x (hs x) h.grows.wellFormed
      rw [h.underway] at hn
      exact h.trans hn
  | assuming site target body next ihb ihn =>
    rw [Script.run, Request.bind_apply, Request.assuming_apply]
    have h := ihb hs.1 (s := s.assume site (some target)) hc
    generalize body.run cx ask (s.assume site (some target)) = out at h ⊢
    rcases out with ⟨e | b, t⟩
    -- The target assumed for the body is taken back also where the body fails.
    all_goals
      have ht : s.Keeps cx.lenient s.underway (t.assume site (s.assumed site)) := by
        refine ⟨?_, h.underway, h.grows, h.cells⟩
        have : t.assumed = (s.assume site (some target)).assumed := h.assumed
        funext i
        by_cases hi : i = site <;> simp [Session.assume, this, hi]
    · exact ht
    · have hn := ihn b (hs.2 b) ht.grows.wellFormed
      rw [ht.underway] at hn
      exact ht.trans hn
  | inspect next ih =>
    rw [Script.run, Request.get_bind]
    exact ih _ (hs _) hc
  | cancel next => exact hs.elim
  | act f next ih =>
    obtain ⟨hf, hn⟩ := hs
    rw [Script.run, Request.onWorld, Request.modify_bind, Request.get_bind]
    have ht : s.Keeps cx.lenient s.underway (s.onWorld f) := by
      have hw : (s.onWorld f).world.cache = s.world.cache := by
        change (f s.world).cache = _
        rw [hf]
      exact ⟨rfl, rfl, by rw [hw]; exact Cache.grows_refl hc, fun _ _ _ => by rw [hw]⟩
    exact ht.trans (ih _ (hn _) ht.grows.wellFormed)

namespace Resolver

variable {ω : Type} {r : Resolver ω} {cx : Context}

theorem while_apply {α : Type} (site : SiteId) (body : Request ω α) (s : Session ω) :
    body.whileUnderway site s = ((body (s.entering site)).1,
      { (body (s.entering site)).2 with
        underway := if site ∈ s.underway then (body (s.entering site)).2.underway
          else (body (s.entering site)).2.underway.erase site }) := by
  unfold Request.whileUnderway Session.entering Request.protect
  split <;> rfl

theorem expected_apply (n : Nat) (site : Site) (s : Session ω) :
    r.expectedType cx (n + 1) site s =
      let out := (r.provider site).run cx (r.resolveWithin cx n) (s.entering site.id)
      (out.1, { out.2 with underway := if site.id ∈ s.underway then out.2.underway
        else out.2.underway.erase site.id }) :=
  while_apply site.id _ s

theorem expected_keeps (hp : ∀ site, (r.provider site).IsConfined) {n : Nat}
    (ha : ∀ site (s : Session ω), s.world.cache.WellFormed →
      s.Keeps cx.lenient s.underway (r.resolveWithin cx n site s).2)
    (site : Site) {s : Session ω} (hc : s.world.cache.WellFormed) :
    s.Keeps cx.lenient (site.id :: s.underway) (r.expectedType cx (n + 1) site s).2 := by
  have hk := Script.run_keeps ha (hp site) (s := s.entering site.id) (by simpa using hc)
  rw [expected_apply]
  have hcells := (hk.mono (fun i (hi : i ∈ site.id :: s.underway) =>
    Session.mem_entering.mpr (List.mem_cons.mp hi))).cells
  have hg := hk.grows
  rw [Session.world_entering] at hcells hg
  refine ⟨hk.assumed.trans (Session.assumed_entering site.id s), ?_, hg, hcells⟩
  dsimp only
  rw [hk.underway]
  by_cases hm : site.id ∈ s.underway
  · simp [Session.entering, hm]
  · simp [Session.entering, hm]

/-- However a request ends, it restores the session and leaves the cells of held sites alone. -/
theorem within_keeps (hp : ∀ site, (r.provider site).IsConfined) (n : Nat) (site : Site)
    {s : Session ω} (hc : s.world.cache.WellFormed) :
    s.Keeps cx.lenient s.underway (r.resolveWithin cx n site s).2 := by
  induction n generalizing site s with
  | zero => exact with_keeps (fun s hs => Session.keeps_refl hs) hc
  | succ n ih =>
    exact with_keeps (fun s hs => expected_keeps hp (fun site s hs => ih site hs) site hs) hc

theorem derived_keeps (hp : ∀ site, (r.provider site).IsConfined) (n : Nat) (site : Site)
    {s : Session ω} (hc : s.world.cache.WellFormed) :
    s.Keeps cx.lenient (site.id :: s.underway) (r.expectedType cx n site s).2 := by
  cases n with
  | zero => exact Session.keeps_refl hc
  | succ n => exact expected_keeps hp (fun site s hs => within_keeps hp n site hs) site hc

end Resolver

end DoubleColon
