import DoubleColon.Proofs.Lasting
import DoubleColon.Proofs.ParallelRequests

/-!
# A request as a part of the traffic

What `Resolver.resolve` does at once, a thread does step by step. As long as the other threads
pause, the steps of the traffic follow the request through its scripts and computations: the thread
keeps what the session keeps, and the shared cache is the cache of the world. So each request of
one thread, whatever its provider does within the request, is a run of the traffic.
-/

set_option autoImplicit false

namespace DoubleColon

def Ends {β : Type} (out : Except Interrupt β) : Prop :=
  out ≠ .error .wouldWait ∧ out ≠ .error .outOfFuel

theorem ends_ok {β : Type} (a : β) : Ends (.ok a : Except Interrupt β) := ⟨nofun, nofun⟩

theorem Ends.error {β γ : Type} {e : Interrupt} (h : Ends (.error e : Except Interrupt β)) :
    Ends (.error e : Except Interrupt γ) :=
  ⟨fun he => h.1 (by cases he; rfl), fun he => h.2 (by cases he; rfl)⟩

/-- The sessions differ only in what no other thread can tell. -/
structure Session.Alike {ω : Type} (s t : Session ω) : Prop extends s.Restores t where
  cache : t.world.cache = s.world.cache

namespace Traffic

variable {ω : Type} {enabled : Bool} {cx : Context} {x y z : Traffic Issued} {s s' : Session ω}

/-- The thread keeps what the session does, and computes or does not use the cache. -/
structure Mirrors (cx : Context) (x : Traffic Issued) (s : Session ω) : Prop where
  cache : x.shared.cache = s.world.cache
  lenient : (x.errands cx.thread).lenient = cx.lenient
  assumed : (x.errands cx.thread).assumed = s.assumed
  underway : (x.errands cx.thread).underway = s.underway
  busy : ∀ f ∈ x.shared.threads cx.thread, f.point.serial?.isSome
  inner : ∀ a ∈ (x.errands cx.thread).scopes.head?,
    a.uses.length ≤ (x.shared.threads cx.thread).length

/-- From a state the thread comes back to the uses and the scopes that it had in another one, and
keeps what a session does. -/
def Comes (enabled : Bool) (cx : Context) (home x : Traffic Issued) (s : Session ω) : Prop :=
  ∃ y, Relation.ReflTransGen (Step enabled) x y ∧
    y.shared.threads cx.thread = home.shared.threads cx.thread ∧
    (y.errands cx.thread).scopes = (home.errands cx.thread).scopes ∧ y.Mirrors cx s

def InScript (x : Traffic Issued) (t : ThreadId) : Prop :=
  ∃ a, x.IsIn t a ∧ a.isScript = true

theorem Mirrors.congr (h : x.Mirrors cx s) (hs : s.Alike s') : x.Mirrors cx s' :=
  ⟨h.cache.trans hs.cache.symm, h.lenient, h.assumed.trans hs.assumed.symm,
    h.underway.trans hs.underway.symm, h.busy, h.inner⟩

theorem Mirrors.back {home : Traffic Issued} (hhome : home.Mirrors cx s)
    (hu : y.shared.threads cx.thread = home.shared.threads cx.thread)
    (hs : (y.errands cx.thread).scopes = (home.errands cx.thread).scopes)
    (hc : y.shared.cache = s'.world.cache) (hl : (y.errands cx.thread).lenient = cx.lenient)
    (ha : (y.errands cx.thread).assumed = s'.assumed)
    (hd : (y.errands cx.thread).underway = s'.underway) : y.Mirrors cx s' where
  cache := hc
  lenient := hl
  assumed := ha
  underway := hd
  busy := by
    rw [hu]
    exact hhome.busy
  inner := by
    rw [hs, hu]
    exact hhome.inner

theorem Mirrors.comes (h : x.Mirrors cx s) : Comes enabled cx x x s := ⟨x, .refl, rfl, rfl, h⟩

theorem Comes.after {home : Traffic Issued} (hxy : Relation.ReflTransGen (Step enabled) x y)
    (h : Comes enabled cx home y s) : Comes enabled cx home x s := by
  obtain ⟨z, hz, hrest⟩ := h
  exact ⟨z, hxy.trans hz, hrest⟩

theorem Comes.head {home : Traffic Issued} (hxy : Step enabled x y)
    (h : Comes enabled cx home y s) : Comes enabled cx home x s :=
  h.after (.single hxy)

theorem Comes.congr {home : Traffic Issued} (h : Comes enabled cx home x s) (hs : s.Alike s') :
    Comes enabled cx home x s' := by
  obtain ⟨y, hy, huses, hscopes, hm⟩ := h
  exact ⟨y, hy, huses, hscopes, hm.congr hs⟩

theorem Comes.andThen (h : Comes enabled cx x x s)
    (k : ∀ y, y.shared.threads cx.thread = x.shared.threads cx.thread →
      (y.errands cx.thread).scopes = (x.errands cx.thread).scopes → y.Mirrors cx s →
      Comes enabled cx y y s') : Comes enabled cx x x s' := by
  obtain ⟨y, hy, huses, hscopes, hm⟩ := h
  obtain ⟨z, hz, huses', hscopes', hm'⟩ := k y huses hscopes hm
  exact ⟨z, hy.trans hz, huses'.trans huses, hscopes'.trans hscopes, hm'⟩

theorem isIn_congr {t : ThreadId} {a : Activity} (h : x.IsIn t a)
    (hu : y.shared.threads t = x.shared.threads t)
    (hs : (y.errands t).scopes = (x.errands t).scopes) : y.IsIn t a := by
  obtain ⟨rest, hr⟩ := h
  exact ⟨rest, by rw [hs, hu, hr]⟩

@[simp] theorem errands_setErrand (x : Traffic Issued) (t : ThreadId) (e : Errand Issued) :
    (x.setErrand t e).errands t = e := by
  simp [setErrand]

theorem lenient_close (e : Errand Issued) : e.close.lenient = e.lenient := by
  unfold Errand.close
  split <;> rfl

theorem Mirrors.begins {a : Activity} {e : Errand Issued} (hx : x.Mirrors cx s)
    (hs : e.scopes = ⟨a, x.shared.threads cx.thread⟩ :: (x.errands cx.thread).scopes)
    (hc : s'.world.cache = s.world.cache) (hl : e.lenient = cx.lenient)
    (ha : e.assumed = s'.assumed) (hu : e.underway = s'.underway) :
    (x.setErrand cx.thread e).Mirrors cx s' := by
  have he := errands_setErrand x cx.thread e
  refine ⟨hx.cache.trans hc.symm, (congrArg (·.lenient) he).trans hl,
    (congrArg (·.assumed) he).trans ha, (congrArg (·.underway) he).trans hu, hx.busy,
    fun b hb => ?_⟩
  rw [he, hs] at hb
  cases hb
  exact Nat.le_refl _

theorem Mirrors.close {a : Activity} {final : Session ω} (hx : x.Mirrors cx s)
    (hu : y.shared.threads cx.thread = x.shared.threads cx.thread)
    (hs : (y.errands cx.thread).scopes =
      ⟨a, x.shared.threads cx.thread⟩ :: (x.errands cx.thread).scopes)
    (h : Comes enabled cx y y s') (hc : final.world.cache = s'.world.cache)
    (hend : ∀ e : Errand Issued, e.scopes = (y.errands cx.thread).scopes →
      e.assumed = s'.assumed → e.underway = s'.underway →
      e.close.assumed = final.assumed ∧ e.close.underway = final.underway) :
    Comes enabled cx x y final := by
  obtain ⟨z, hz, huses, hscopes, hm⟩ := h
  have hclose : (z.errands cx.thread).close.scopes = (x.errands cx.thread).scopes :=
    Errand.scopes_close (hscopes.trans hs)
  have hclosed := hend (z.errands cx.thread) hscopes hm.assumed hm.underway
  rw [← errands_setErrand z cx.thread (z.errands cx.thread).close] at hclose hclosed
  refine ⟨_, hz.tail (.close ⟨_, (hscopes.trans hs).trans (by rw [huses, hu])⟩), huses.trans hu,
    hclose, hx.back (huses.trans hu) hclose (hm.cache.trans hc.symm) ?_ hclosed.1 hclosed.2⟩
  rw [errands_setErrand, lenient_close]
  exact hm.lenient

/-! ## The provider -/

def asked (x : Traffic Issued) (t : ThreadId) (site : SiteId) : Traffic Issued :=
  x.setErrand t ((x.errands t).asking site (x.shared.threads t))

theorem scopes_asked (x : Traffic Issued) (t : ThreadId) (site : SiteId) :
    ((x.asked t site).errands t).scopes =
      ⟨.asking site (site ∉ (x.errands t).underway), x.shared.threads t⟩ ::
        (x.errands t).scopes := by
  rw [asked, errands_setErrand]
  rfl

theorem inScript_asked (x : Traffic Issued) (t : ThreadId) (site : SiteId) :
    (x.asked t site).InScript t :=
  ⟨_, ⟨_, scopes_asked x t site⟩, rfl⟩

theorem Mirrors.asked (h : x.Mirrors cx s) (site : SiteId) :
    (x.asked cx.thread site).Mirrors cx (s.entering site) := by
  refine h.begins rfl (congrArg World.cache (Session.world_entering site s)) h.lenient
    (h.assumed.trans (Session.assumed_entering site s).symm) ?_
  simp only [Errand.asking, h.underway, Session.entering]
  split <;> rfl

theorem Mirrors.answered (hx : x.Mirrors cx s) {site : SiteId}
    (h : Comes enabled cx (x.asked cx.thread site) (x.asked cx.thread site) s') :
    Comes enabled cx x (x.asked cx.thread site) (s.leaving site s') := by
  refine hx.close rfl (scopes_asked x cx.thread site) h rfl fun e he ha hu => ?_
  rw [scopes_asked, hx.underway] at he
  simp only [Errand.close, he, ha, hu, Session.leaving]
  by_cases hm : site ∈ s.underway <;> simp [hm]

/-! ## Assumed targets -/

def presumed (x : Traffic Issued) (t : ThreadId) (site : SiteId) (target : Ty) : Traffic Issued :=
  x.setErrand t ((x.errands t).assuming site target (x.shared.threads t))

theorem scopes_presumed (x : Traffic Issued) (t : ThreadId) (site : SiteId) (target : Ty) :
    ((x.presumed t site target).errands t).scopes =
      ⟨.assuming site ((x.errands t).assumed site), x.shared.threads t⟩ ::
        (x.errands t).scopes := by
  rw [presumed, errands_setErrand]
  rfl

theorem inScript_presumed (x : Traffic Issued) (t : ThreadId) (site : SiteId) (target : Ty) :
    (x.presumed t site target).InScript t :=
  ⟨_, ⟨_, scopes_presumed x t site target⟩, rfl⟩

theorem Mirrors.presumed (h : x.Mirrors cx s) (site : SiteId) (target : Ty) :
    (x.presumed cx.thread site target).Mirrors cx (s.assume site (some target)) :=
  h.begins rfl rfl h.lenient (by rw [Errand.assuming, Session.assume, h.assumed]) h.underway

theorem Mirrors.restored (hx : x.Mirrors cx s) {site : SiteId} {target : Ty}
    (h : Comes enabled cx (x.presumed cx.thread site target)
      (x.presumed cx.thread site target) s') :
    Comes enabled cx x (x.presumed cx.thread site target) (s'.assume site (s.assumed site)) := by
  refine hx.close rfl (scopes_presumed x cx.thread site target) h rfl fun e he ha hu => ?_
  rw [scopes_presumed, hx.assumed] at he
  simp [Errand.close, he, ha, hu, Session.assume]

end Traffic

def Script.KeepsCache {ω α : Type} (script : Script ω α) : Prop :=
  script.ActsBy fun f => ∀ w : World ω, (f w).cache = w.cache

namespace Traffic

variable {ω : Type} {enabled : Bool} {cx : Context} {x y z : Traffic Issued} {s s' : Session ω}

theorem ends_attempt {α : Type} {body : Request ω α} (h : Ends (body.attempt s).1) :
    Ends (body s).1 := by
  rw [Request.attempt_apply] at h
  generalize body s = out at h ⊢
  rcases out with ⟨e | a, t⟩
  · cases e with
    | cancelled => exact ⟨nofun, nofun⟩
    | outOfRange => exact ⟨nofun, nofun⟩
    | wouldWait => exact absurd rfl h.1
    | outOfFuel => exact absurd rfl h.2
  · exact ends_ok a

theorem ends_bind {α β : Type} {body : Request ω α} {k : α → Request ω β}
    (h : Ends ((body >>= k) s).1) : Ends (body s).1 := by
  rw [Request.bind_apply] at h
  generalize body s = out at h ⊢
  rcases out with ⟨e | a, t⟩
  · exact h.error
  · exact ends_ok a

/-- From every state of a kind that mirrors its session, the traffic can do what a body does. -/
def Follows (enabled : Bool) (cx : Context) (kind : Traffic Issued → Prop) {α : Type}
    (body : Request ω α) : Prop :=
  ∀ s x, x.Mirrors cx s → kind x → Ends (body s).1 → Comes enabled cx x x (body s).2

theorem follows_pure {α : Type} {kind : Traffic Issued → Prop} (a : α) :
    Follows enabled cx kind (pure a : Request ω α) :=
  fun _ _ hm _ _ => hm.comes

theorem Follows.bind {α β : Type} {body : Request ω α} {k : α → Request ω β}
    (h : Follows enabled cx (·.InScript cx.thread) body)
    (hk : ∀ a, Follows enabled cx (·.InScript cx.thread) (k a)) :
    Follows enabled cx (·.InScript cx.thread) (body >>= k) := by
  intro s x hm hin he
  have hbody := h s x hm hin (ends_bind he)
  rw [Request.bind_apply] at he ⊢
  generalize body s = out at hbody he ⊢
  rcases out with ⟨e | a, t⟩
  · exact hbody
  · refine hbody.andThen fun y hu hs hy => hk a t y hy ?_ he
    obtain ⟨b, hb, hscript⟩ := hin
    exact ⟨b, isIn_congr hb hu hs, hscript⟩

theorem follows_script {ask : Site → Request ω Issued}
    (hask : ∀ site, Follows enabled cx (·.InScript cx.thread) (ask site)) {α : Type}
    {script : Script ω α} (hs : script.KeepsCache) :
    Follows enabled cx (·.InScript cx.thread) (script.run cx ask) := by
  induction script with
  | pure a => exact follows_pure a
  | resolve site next ih =>
    refine Follows.bind (fun s x hm hin he => ?_) fun r => ih r (hs r)
    rw [Request.attempt_session]
    exact hask site s x hm hin (ends_attempt he)
  | assuming site target body next ihb ihn =>
    refine Follows.bind (fun s x hm hin he => ?_) fun b => ihn b (hs.2 b)
    rw [Request.assuming_apply] at he ⊢
    obtain ⟨a, ha, hscript⟩ := hin
    exact .head (.assume ha hscript site target)
      (hm.restored (ihb hs.1 _ _ (hm.presumed site target) (x.inScript_presumed _ site target) he))
  | inspect next ih => exact fun s x hm hin he => ih _ (hs _) s x hm hin he
  | cancel next ih =>
    exact fun s x hm hin he => ih hs _ x (hm.congr ⟨⟨rfl, rfl⟩, rfl⟩) hin he
  | act f next ih =>
    exact fun s x hm hin he => ih _ (hs.2 _) _ x (hm.congr ⟨⟨rfl, rfl⟩, hs.1 s.world⟩) hin he

/-! ## Computations -/

def MayAsk (enabled : Bool) (t : ThreadId) (site : SiteId) (x : Traffic Issued) : Prop :=
  Step enabled x (x.asked t site)

section

variable {r : Resolver ω} {derive : Site → Request ω (Option Ty)} {site : Site}

theorem follows_computation
    (hd : Follows enabled cx (MayAsk enabled cx.thread site.id) (derive site))
    (source : TargetOrigin) :
    Follows enabled cx (fun x => source = .fromProvider → MayAsk enabled cx.thread site.id x)
      (r.resolveOrReport cx derive site source) := by
  intro s x hm hx he
  obtain ⟨host, tokens, hout⟩ := @Resolver.outside_computation ω r cx site derive source s
  have h : Comes enabled cx x x
      (if cx.env.asks site then (Resolver.interfaceOf derive site source s).2 else s) := by
    split
    · rename_i ha
      rw [Resolver.asked_apply ha] at he
      cases source with
      | fromProvider => exact hd s x hm (hx rfl) (ends_bind he)
      | _ => exact hm.comes
    · exact hm.comes
  rw [hout]
  exact h.congr ⟨⟨rfl, rfl⟩, rfl⟩

theorem Mirrors.plain (hx : x.Mirrors cx s)
    (hd : Follows enabled cx (MayAsk enabled cx.thread site.id) (derive site))
    {source : TargetOrigin} (he : Ends (r.resolveOrReport cx derive site source s).1)
    (hs : (r.resolveOrReport cx derive site source s).2.Alike s') :
    Comes enabled cx x (x.setErrand cx.thread
      ((x.errands cx.thread).resolving site source (x.shared.threads cx.thread))) s' := by
  have hscopes : ((x.setErrand cx.thread ((x.errands cx.thread).resolving site source
      (x.shared.threads cx.thread))).errands cx.thread).scopes =
      ⟨.resolving site source, x.shared.threads cx.thread⟩ :: (x.errands cx.thread).scopes := by
    rw [errands_setErrand]
    rfl
  have hm := hx.begins (e := (x.errands cx.thread).resolving site source _) rfl rfl hx.lenient
    hx.assumed hx.underway
  have h := follows_computation hd source s _ hm (fun hsource => ?_) he
  · refine hx.close rfl hscopes (h.congr hs) rfl fun e hclosed ha hu => ?_
    rw [hscopes] at hclosed
    simp [Errand.close, hclosed, ha, hu]
  · subst hsource
    exact .consult ⟨_, hscopes⟩

end

/-! ## Uses of the cache -/

def looking (x : Traffic Issued) (t : ThreadId) (c : Call) : Traffic Issued :=
  { x with shared := x.shared.setStack t (⟨.request c, .looking⟩ :: x.shared.threads t) }

def entering (x : Traffic Issued) (t : ThreadId) (c : Call) : Traffic Issued where
  shared := { x.shared.setStack t (⟨.request c, .entering (x.shared.cache.slotFor c.site).2⟩ ::
      x.shared.threads t) with cache := (x.shared.cache.slotFor c.site).1 }
  errands := x.errands

def computing (x : Traffic Issued) (t : ThreadId) (c : Call) (id : SlotId) (mode : Mode)
    (cache : Cache Issued) : Traffic Issued where
  shared := { x.shared.compute t c id mode (x.shared.threads t) with cache }
  errands := x.errands

theorem comes_entering (x : Traffic Issued) (t : ThreadId) (c : Call) :
    Relation.ReflTransGen (Step enabled) (x.looking t c) (x.entering t c) := by
  have htop : (x.looking t c).shared.threads t =
      ⟨.request c, .looking⟩ :: x.shared.threads t := by simp [looking]
  have hlook : Step enabled (x.looking t c) _ := .proceed (.look htop) trivial
  cases hslot : x.shared.cache.slotOf? c.site with
  | some id =>
    have he : x.entering t c = ⟨(x.looking t c).shared.look t (.request c) (x.shared.threads t),
        x.errands⟩ := by
      simp [looking, entering, Shared.look, Shared.setStack, Cache.slotFor, Operation.site, hslot]
    exact he ▸ .single hlook
  | none =>
    generalize hz : (⟨(x.looking t c).shared.look t (.request c) (x.shared.threads t),
      (x.looking t c).errands⟩ : Traffic Issued) = z at hlook
    have htop : z.shared.threads t = ⟨.request c, .inserting⟩ :: x.shared.threads t := by
      simp [← hz, looking, Shared.look, Operation.site, hslot]
    have he : x.entering t c =
        { z with shared := z.shared.insert t c (x.shared.threads t) } := by
      simp [← hz, looking, entering, Shared.look, Shared.insert, Shared.setStack, Operation.site,
        hslot]
    exact he ▸ .tail (.single hlook) (.proceed (.insert htop) trivial)

theorem step_entering (x : Traffic Issued) (t : ThreadId) (c : Call) (y : Traffic Issued)
    (hy : y.errands = x.errands)
    (h : y.shared = (x.entering t c).shared.enter t (.request c)
      (x.shared.cache.slotFor c.site).2 (x.shared.threads t)) :
    Step enabled (x.entering t c) y := by
  have htop : (x.entering t c).shared.threads t =
      ⟨.request c, .entering (x.shared.cache.slotFor c.site).2⟩ :: x.shared.threads t := by
    simp [entering]
  have he : (⟨(x.entering t c).shared.enter t (.request c) (x.shared.cache.slotFor c.site).2
      (x.shared.threads t), x.errands⟩ : Traffic Issued) = y := by
    rw [← h, ← hy]
  exact he ▸ .proceed (.enter htop) trivial

section

variable {t : ThreadId} {c : Call}

theorem admission_entering (x : Traffic Issued) (t : ThreadId) (c : Call) :
    ((x.entering t c).shared.cache.state (x.shared.cache.slotFor c.site).2 c.lenient).admission
        c.version t c.mayWait =
      (x.shared.cache.cell c.site c.lenient).admission c.version t c.mayWait :=
  congrArg (Cell.admission · c.version t c.mayWait) (Cache.state_slotFor _ c.site c.lenient)

theorem step_hit {v : Issued} (h : (x.shared.cache.cell c.site c.lenient).admission c.version t
    c.mayWait = .hit v) : Step enabled (x.entering t c)
      ⟨⟨(x.shared.cache.slotFor c.site).1, x.shared.threads, x.shared.computations,
        x.shared.replies ++ [⟨t, .request c, some v⟩]⟩, x.errands⟩ := by
  refine step_entering x t c _ rfl ?_
  unfold Shared.enter
  dsimp only
  rw [admission_entering, h]
  simp [entering, Shared.answer, Shared.setStack]

theorem step_bypass {why : Bypass} (h : (x.shared.cache.cell c.site c.lenient).admission c.version
    t c.mayWait = .bypass why) : Step enabled (x.entering t c)
      (x.computing t c (x.shared.cache.slotFor c.site).2 (.bypass why)
        (x.shared.cache.slotFor c.site).1) := by
  refine step_entering x t c _ rfl ?_
  unfold Shared.enter
  dsimp only
  rw [admission_entering, h]
  simp [entering, computing, Shared.compute, Shared.setStack]

theorem step_claim (h : (x.shared.cache.cell c.site c.lenient).admission c.version t
    c.mayWait = .claim) : Step enabled (x.entering t c)
      (x.computing t c (x.shared.cache.slotFor c.site).2 .publish
        ((x.shared.cache.slotFor c.site).1.update (x.shared.cache.slotFor c.site).2 c.lenient
          fun _ => .claimed c.version t)) := by
  refine step_entering x t c _ rfl ?_
  unfold Shared.enter
  dsimp only
  rw [admission_entering, h]
  simp [entering, computing, Shared.compute, Shared.setStack, Shared.onCache]

end

section

variable {c : Call} {id : SlotId} {mode : Mode} {cache : Cache Issued}

theorem Mirrors.computing (h : x.Mirrors cx s) (c : Call) (id : SlotId) (mode : Mode)
    (hs : s.Restores s') (hc : s'.world.cache = cache) :
    (x.computing cx.thread c id mode cache).Mirrors cx s' where
  cache := hc.symm
  lenient := h.lenient
  assumed := h.assumed.trans hs.assumed.symm
  underway := h.underway.trans hs.underway.symm
  busy := by
    simp only [Traffic.computing, Shared.compute, Shared.threads_setStack, Function.update_self]
    exact List.forall_mem_cons.mpr ⟨rfl, h.busy⟩
  inner a ha := by
    simp only [Traffic.computing, Shared.compute, Shared.threads_setStack, Function.update_self]
    exact Nat.le_succ_of_le (h.inner a ha)

theorem Mirrors.computes (h : x.Mirrors cx s)
    (hu : y.shared.threads cx.thread =
      (x.computing cx.thread c id mode cache).shared.threads cx.thread)
    (hs : (y.errands cx.thread).scopes =
      ((x.computing cx.thread c id mode cache).errands cx.thread).scopes) :
    y.Computes cx.thread c id mode x.shared.computations.length
      (x.shared.threads cx.thread) := by
  have htop : y.shared.threads cx.thread =
      ⟨.request c, .computing id mode x.shared.computations.length⟩ ::
        x.shared.threads cx.thread := by
    rw [hu]
    simp [Traffic.computing, Shared.compute]
  refine ⟨htop, fun a ha he => ?_⟩
  rw [hs] at ha
  have hle := h.inner a ha
  rw [he, htop] at hle
  exact absurd hle (Nat.not_succ_le_self _)

theorem Mirrors.mayAsk (h : x.Mirrors cx s) (hm : mode ≠ .bypass .ownClaim) :
    MayAsk enabled cx.thread c.site (x.computing cx.thread c id mode cache) :=
  .derive (h.computes rfl rfl) hm

theorem Mirrors.bypassed {final : Session ω} {why : Bypass} (hx : x.Mirrors cx s)
    (h : Comes enabled cx (x.computing cx.thread c id (.bypass why) cache)
      (x.computing cx.thread c id (.bypass why) cache) s') (hs : s'.Alike final)
    (o : Outcome Issued) :
    Comes enabled cx x (x.computing cx.thread c id (.bypass why) cache) final := by
  obtain ⟨y, hy, huses, hscopes, hm⟩ := h
  have hout : (y.shared.leave cx.thread c id (.bypass why) x.shared.computations.length o
      (x.shared.threads cx.thread)).threads cx.thread = x.shared.threads cx.thread := by
    simp [Shared.leave, Shared.answer]
  exact ⟨_, hy.tail (.leave (hx.computes huses hscopes) o), hout, hscopes,
    hx.back hout hscopes (hm.cache.trans hs.cache.symm) hm.lenient
      (hm.assumed.trans hs.assumed.symm) (hm.underway.trans hs.underway.symm)⟩

theorem map_wake {frames : List (Frame Issued)} (h : ∀ f ∈ frames, f.point.serial?.isSome)
    (id : SlotId) : (frames.map fun f => { f with point := f.point.wake id }) = frames := by
  refine (List.map_congr_left fun f hf => ?_).trans (List.map_id frames)
  obtain ⟨op, p⟩ := f
  have := h _ hf
  cases p with
  | computing => rfl
  | _ => cases this

theorem Mirrors.published {final : Session ω} {o : Outcome Issued} (hx : x.Mirrors cx s)
    (h : Comes enabled cx (x.computing cx.thread c id .publish cache)
      (x.computing cx.thread c id .publish cache) s') (hs : s'.Restores final)
    (hc : final.world.cache = s'.world.cache.update id c.lenient fun k =>
      k.finish c.version cx.thread (o.cell c.version)) :
    Comes enabled cx x (x.computing cx.thread c id .publish cache) final := by
  obtain ⟨y, hy, huses, hscopes, hm⟩ := h
  generalize hz : (⟨y.shared.leave cx.thread c id .publish x.shared.computations.length o
    (x.shared.threads cx.thread), y.errands⟩ : Traffic Issued) = z
  have hleave : Step enabled y z := hz ▸ .leave (hx.computes huses hscopes) o
  have htop : z.shared.threads cx.thread =
      ⟨.request c, .finishing id x.shared.computations.length o⟩ ::
        x.shared.threads cx.thread := by
    simp [← hz, Shared.leave]
  have hout : (z.shared.finish cx.thread c id o (x.shared.threads cx.thread)).threads cx.thread =
      x.shared.threads cx.thread := by
    simpa [Shared.finish, Shared.wake, Shared.onCache, Shared.answer] using map_wake hx.busy id
  have hcache : (z.shared.finish cx.thread c id o (x.shared.threads cx.thread)).cache =
      final.world.cache := by
    rw [hc, ← hm.cache, ← hz]
    rfl
  have herrands : z.errands = y.errands := by rw [← hz]
  exact ⟨_, (hy.tail hleave).tail (.proceed (.finish htop) trivial), hout, herrands ▸ hscopes,
    hx.back hout (herrands ▸ hscopes) hcache (herrands ▸ hm.lenient)
      (herrands ▸ hm.assumed.trans hs.assumed.symm)
      (herrands ▸ hm.underway.trans hs.underway.symm)⟩

end

/-! ## Requests -/

section

variable {r : Resolver ω} {derive : Site → Request ω (Option Ty)} {site : Site}
  {done : Resolution → Session ω → Session ω} {stop : Session ω → Session ω}
  {out : Except Interrupt Resolution × Session ω}

theorem ends_closed (h : Ends (Resolver.closed done stop out).1) : Ends out.1 := by
  rcases out with ⟨e | x, t⟩
  · exact h.error
  · exact ends_ok x

theorem alike_closed (hd : ∀ x t, Session.Alike t (done x t)) (hs : ∀ t, Session.Alike t (stop t)) :
    out.2.Alike (Resolver.closed done stop out).2 := by
  rcases out with ⟨e | x, t⟩
  · exact hs t
  · exact hd x t

theorem Mirrors.access (h : x.Mirrors cx s) (enabled : Bool) (site : Site) :
    (x.errands cx.thread).access enabled site =
      Errand.access (α := Issued) enabled ⟨cx.lenient, s.assumed, s.underway, []⟩ site := by
  simp [Errand.access, h.lenient, h.assumed, h.underway]

theorem leftover_outcome (site : Site) (mark : Nat) (value : Resolution) (t : Session ω) :
    Resolver.leftover site mark value t = Outcome.cell site.version
      (.done ⟨t.world.issued, value⟩ (t.openBreaks mark site.id).isEmpty) := by
  unfold Resolver.leftover
  cases (t.openBreaks mark site.id).isEmpty <;> rfl

theorem Mirrors.claimed {c : Call} {slot : SlotId} {cache : Cache Issued} {t : Session ω}
    (hx : x.Mirrors cx s) (hd : Follows enabled cx (MayAsk enabled cx.thread site.id) (derive site))
    (he : Ends (r.resolveOrReport cx derive site .fromProvider t).1)
    (hcache : t.world.cache = cache) (hs : s.Restores t) (hc : c.site = site.id)
    (hv : c.version = site.version) (hl : c.lenient = cx.lenient) (mark : Nat) :
    Comes enabled cx x (x.computing cx.thread c slot .publish cache)
      (Resolver.closed
        (fun x t => Resolver.endClaim slot cx.lenient site.version cx.thread
          (Resolver.leftover site mark x t) (t.settle mark site.id).issuing)
        (Resolver.endClaim slot cx.lenient site.version cx.thread .vacant)
        (r.resolveOrReport cx derive site .fromProvider t)).2 := by
  have h := follows_computation (r := r) hd .fromProvider t _
    (hx.computing c slot .publish hs hcache)
    (fun _ => hc ▸ hx.mayAsk nofun) he
  generalize r.resolveOrReport cx derive site .fromProvider t = out at h ⊢
  rcases out with ⟨e | value, u⟩
  · exact hx.published (o := .cancelled) h ⟨rfl, rfl⟩ (by rw [hl, hv]; rfl)
  · refine hx.published (o := .done ⟨u.world.issued, value⟩ (u.openBreaks mark site.id).isEmpty) h
      ⟨rfl, rfl⟩ ?_
    rw [hl, hv, ← leftover_outcome]
    rfl

theorem Mirrors.unclaimed {c : Call} {slot : SlotId} {cache : Cache Issued} {t : Session ω}
    {why : Bypass} {source : TargetOrigin} (hx : x.Mirrors cx s)
    (hd : Follows enabled cx (MayAsk enabled cx.thread site.id) (derive site))
    (he : Ends (r.resolveOrReport cx derive site source t).1)
    (hcache : t.world.cache = cache) (hs : s.Restores t) (hc : c.site = site.id)
    (hsource : source = .fromProvider → why ≠ .ownClaim) (mark : Nat) :
    Comes enabled cx x (x.computing cx.thread c slot (.bypass why) cache)
      (Resolver.closed (fun _ t => (t.settle mark site.id).issuing) id
        (r.resolveOrReport cx derive site source t)).2 := by
  have hasks : source = .fromProvider →
      MayAsk enabled cx.thread site.id (x.computing cx.thread c slot (.bypass why) cache) :=
    fun h => hc ▸ hx.mayAsk fun hm => hsource h (Mode.bypass.inj hm)
  have h := follows_computation (r := r) hd source t _
    (hx.computing c slot (.bypass why) hs hcache) hasks he
  -- The cache does not keep what a computation without a claim comes to, so any outcome will do.
  exact hx.bypassed h (alike_closed (fun _ _ => ⟨⟨rfl, rfl⟩, rfl⟩) fun _ => ⟨⟨rfl, rfl⟩, rfl⟩)
    .cancelled

theorem Mirrors.cached {c : Call} (hx : x.Mirrors cx s)
    (hd : Follows enabled cx (MayAsk enabled cx.thread site.id) (derive site))
    (hr : r.settings.cacheEnabled = enabled)
    (hp : (s.world.tokens.poll cx.token).1 = false)
    (hc : Errand.access (α := Issued) enabled ⟨cx.lenient, s.assumed, s.underway, []⟩ site =
      .cached c) (he : Ends (r.resolveWith cx derive site s).1) :
    Comes enabled cx x (x.looking cx.thread c) (r.resolveWith cx derive site s).2 := by
  obtain rfl : c = ⟨site.id, site.version, cx.lenient, s.underway.isEmpty⟩ :=
    Errand.call_access hc
  rw [Resolver.with_apply, Resolver.route_eq_access, hr, hc] at he ⊢
  simp only [hp, Bool.false_eq_true, if_false] at he ⊢
  rw [← hx.cache] at he ⊢
  have hslotted : ((s.polled cx.token).slotted site.id).world.cache =
      (x.shared.cache.slotFor site.id).1 := by
    rw [hx.cache]
    rfl
  have hfound : Relation.ReflTransGen (Step enabled) _ _ :=
    comes_entering x cx.thread ⟨site.id, site.version, cx.lenient, s.underway.isEmpty⟩
  cases ha : (x.shared.cache.cell site.id cx.lenient).admission site.version cx.thread
    s.underway.isEmpty with
  | hit v =>
    exact ⟨_, hfound.tail (step_hit ha), rfl, rfl,
      hx.back rfl rfl hslotted.symm hx.lenient hx.assumed hx.underway⟩
  | wait =>
    rw [ha] at he
    exact absurd rfl he.1
  | bypass why =>
    rw [ha] at he
    refine .after (hfound.tail (step_bypass ha)) ?_
    cases why with
    | ownClaim =>
      dsimp only at he ⊢
      exact hx.unclaimed hd (ends_closed he) hslotted ⟨rfl, rfl⟩ rfl nofun _
    | outdated | foreignClaim =>
      dsimp only at he ⊢
      refine hx.unclaimed hd (ends_closed he) hslotted ⟨rfl, rfl⟩ ?_ (fun _ => ?_) _
      · rfl
      · nofun
  | claim =>
    rw [ha] at he
    refine .after (hfound.tail (step_claim ha)) ?_
    dsimp only at he ⊢
    refine hx.claimed hd (ends_closed he) ?_ ⟨rfl, rfl⟩ rfl rfl rfl _
    rw [hx.cache]
    rfl

/-- A request runs in the traffic from where its thread asks for the site, unless it is refused. -/
theorem Mirrors.request (hx : x.Mirrors cx s)
    (hd : Follows enabled cx (MayAsk enabled cx.thread site.id) (derive site))
    (hr : r.settings.cacheEnabled = enabled) (he : Ends (r.resolveWith cx derive site s).1) :
    s.Alike (r.resolveWith cx derive site s).2 ∨
      Comes enabled cx x (x.ask enabled cx.thread site) (r.resolveWith cx derive site s).2 := by
  cases hp : (s.world.tokens.poll cx.token).1 with
  | true =>
    left
    rw [Resolver.with_apply, Resolver.route_eq_access, if_pos hp]
    exact ⟨⟨rfl, rfl⟩, rfl⟩
  | false =>
    right
    have hplain : ∀ (t : Session ω) source, x.Mirrors cx t →
        Ends (Resolver.closed (fun _ t => t.issuing) id
          (r.resolveOrReport cx derive site source t)).1 →
        Comes enabled cx x (x.setErrand cx.thread
          ((x.errands cx.thread).resolving site source (x.shared.threads cx.thread)))
          (Resolver.closed (fun _ t => t.issuing) id
            (r.resolveOrReport cx derive site source t)).2 := fun t source hm h =>
      hm.plain hd (ends_closed h)
        (alike_closed (fun _ _ => ⟨⟨rfl, rfl⟩, rfl⟩) fun _ => ⟨⟨rfl, rfl⟩, rfl⟩)
    unfold Traffic.ask
    rw [hx.access]
    cases ha : Errand.access (α := Issued) enabled ⟨cx.lenient, s.assumed, s.underway, []⟩ site with
    | cached c => exact hx.cached hd hr hp ha he
    | plain source =>
      rw [Resolver.with_apply, Resolver.route_eq_access, hr, ha] at he ⊢
      simp only [hp, Bool.false_eq_true, if_false] at he ⊢
      have hpolled : x.Mirrors cx (s.polled cx.token) := hx.congr ⟨⟨rfl, rfl⟩, rfl⟩
      have hbroken : x.Mirrors cx ((s.polled cx.token).noteBreak site.id) :=
        hx.congr ⟨⟨rfl, rfl⟩, rfl⟩
      cases source with
      | fromProvider => exact hplain _ _ hpolled he
      | assumed target => exact hplain _ _ hbroken he
      | untargeted => exact hplain _ _ hbroken he

theorem follows_derivation (hr : r.settings.cacheEnabled = enabled)
    (hp : ∀ site, (r.provider site).KeepsCache) (n : Nat) (site : Site) :
    Follows enabled cx (MayAsk enabled cx.thread site.id) (r.expectedType cx n site) := by
  induction n generalizing site with
  | zero => exact fun s x _ _ he => absurd rfl he.2
  | succ n ih =>
    intro s x hx hasks he
    rw [Resolver.expected_apply] at he ⊢
    have hask : ∀ site, Follows enabled cx (·.InScript cx.thread) (r.resolveWithin cx n site) := by
      intro other t y hy hin hends
      obtain ⟨a, ha, hscript⟩ := hin
      rcases hy.request (ih other) hr hends with h | h
      · exact hy.comes.congr h
      · exact .head (.ask ha hscript other) h
    exact .head hasks (hx.answered (follows_script hask (hp site) _ _ (hx.asked site.id)
      (x.inScript_asked cx.thread site.id) he))

end

/-- A request of a thread that is on none, if its cache is that of the traffic, is a run of the
traffic. The thread is then on no request again, and the cache is what the request has made of
it. -/
theorem resolve_runs {r : Resolver ω} {w : World ω} {n : Nat} {site : Site}
    (hp : ∀ site, (r.provider site).KeepsCache) (hx : x.IsIdle cx.thread)
    (hc : x.shared.cache = w.cache) (he : Ends (r.resolve cx n site w).1) :
    ∃ y, Relation.ReflTransGen (Step r.settings.cacheEnabled) x y ∧ y.IsIdle cx.thread ∧
      y.shared.cache = (r.resolve cx n site w).2.cache := by
  have hstart : (x.setErrand cx.thread (.fresh cx.lenient)).Mirrors cx (.start w) := by
    refine ⟨hc, ?_, ?_, ?_, fun f hf => ?_, fun a ha => ?_⟩
    · rw [errands_setErrand]
      rfl
    · rw [errands_setErrand]
      rfl
    · rw [errands_setErrand]
      rfl
    · exact absurd (hx.1 ▸ hf) List.not_mem_nil
    · rw [errands_setErrand] at ha
      cases ha
  -- A request that is refused takes no step.
  rcases hstart.request (follows_derivation rfl hp n site) rfl he with h | h
  · exact ⟨x, .refl, hx, hc.trans h.cache.symm⟩
  · obtain ⟨y, hy, huses, hscopes, hm⟩ := h
    rw [errands_setErrand] at hscopes
    exact ⟨y, .head (.request hx cx.lenient site) hy, ⟨huses.trans hx.1, hscopes⟩, hm.cache⟩

end Traffic

end DoubleColon
