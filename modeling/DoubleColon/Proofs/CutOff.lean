import DoubleColon.Proofs.Toggle
import DoubleColon.Proofs.Trails

/-!
# Requests that are cut off

A run under a token that may turn cancelled at any poll is compared with the run under a token
that stays live. As long as the token has not been found cancelled the two are the same but for
the host and the tokens. From then on the first run only comes to its end: it adds nothing to the
cache any more, and the poll after the provider lets no result of it pass.

So what it leaves in the cache was there at the start, or was left there by a claim of the other
run. This takes providers that depend on nothing but their requests.
-/

set_option autoImplicit false

namespace DoubleColon

/-- What the later cache holds was held by the earlier one, or a claim of the trail left it. -/
def Cache.AddsOnly (lenient : Bool) (trail : Trail) (c d : Cache Issued) : Prop :=
  ∀ site version flag x, d.get? site version flag = some x →
    c.get? site version flag = some x ∨ (flag = lenient ∧ trail.Stores site version x)

namespace Trail

variable {t u : Trail} {site : SiteId} {version : Nat} {x : Issued}

theorem Stores.left (h : t.Stores site version x) : (t.append u).Stores site version x := by
  obtain ⟨c, hc, hx⟩ := h
  exact ⟨c, by rw [claims_append]; exact List.mem_append_left _ hc, hx⟩

theorem Stores.right (h : u.Stores site version x) : (t.append u).Stores site version x := by
  obtain ⟨c, hc, hx⟩ := h
  exact ⟨c, by rw [claims_append]; exact List.mem_append_right _ hc, hx⟩

theorem Stores.inside (h : t.Stores site version x) (around : SiteId) (claim : Option Claim) :
    (keyed around claim t .done).Stores site version x := by
  obtain ⟨c, hc, hx⟩ := h
  exact ⟨c, by simp [claims, hc], hx⟩

end Trail

namespace Cache

variable {lenient : Bool} {t u : Trail} {c d e : Cache Issued}

theorem adds_refl (lenient : Bool) (t : Trail) (c : Cache Issued) : c.AddsOnly lenient t c :=
  fun _ _ _ _ h => .inl h

theorem adds_of_cell (h : d.cell = c.cell) : c.AddsOnly lenient t d := by
  intro i v f x hx
  rw [get?_eq_cell, h, ← get?_eq_cell] at hx
  exact .inl hx

theorem AddsOnly.of_cell {b : Cache Issued} (hd : c.AddsOnly lenient t d) (h : c.cell = b.cell) :
    b.AddsOnly lenient t d := by
  intro i v f x hx
  refine (hd i v f x hx).imp_left fun hg => ?_
  rwa [get?_eq_cell, ← h, ← get?_eq_cell]

theorem AddsOnly.trans (hd : c.AddsOnly lenient t d) (he : d.AddsOnly lenient u e) :
    c.AddsOnly lenient (t.append u) e := by
  intro i v f x hx
  rcases he i v f x hx with hx | ⟨hf, hx⟩
  · exact (hd i v f x hx).imp_right fun h => ⟨h.1, h.2.left⟩
  · exact .inr ⟨hf, hx.right⟩

theorem AddsOnly.weaken (hd : c.AddsOnly lenient t d) :
    c.AddsOnly lenient (t.append u) d :=
  fun i v f x hx => (hd i v f x hx).imp_right fun h => ⟨h.1, h.2.left⟩

theorem AddsOnly.inside (hd : c.AddsOnly lenient t d) (site : SiteId) (claim : Option Claim) :
    c.AddsOnly lenient (.keyed site claim t .done) d :=
  fun i v f x hx => (hd i v f x hx).imp_right fun h => ⟨h.1, h.2.inside site claim⟩

end Cache

namespace Session

variable {ω α : Type}

/-- How a run under a token that may turn cancelled compares with the run under a live token from
the session `s`: it is the same, or it was cut off and has `ended`. -/
def Follows (cx : Context) (s : Session ω) (trail : Trail) (ended : Except Interrupt α → Prop)
    (plain cut : Except Interrupt α × Session ω) : Prop :=
  (plain.2.Live cx.token ∧ s.world.cache.AddsOnly cx.lenient trail plain.2.world.cache ∧
    ∃ host tokens, cut = (plain.1, plain.2.outside host tokens) ∧
      tokens.isCancelled cx.token = false) ∨
  (ended cut.1 ∧ cut.2.IsCancelled cx.token ∧
    s.world.cache.AddsOnly cx.lenient trail cut.2.world.cache)

def IsInner (f : Session ω → Session ω) : Prop :=
  ∀ t host tokens, f (t.outside host tokens) = (f t).outside host tokens

theorem IsInner.tokens {f : Session ω → Session ω} (hf : IsInner f) (t : Session ω) :
    (f t).world.tokens = t.world.tokens := by
  have h : f t = (f t).outside t.world.host t.world.tokens := hf t t.world.host t.world.tokens
  rw [h]
  rfl

theorem inner_id : IsInner (id : Session ω → Session ω) := fun _ _ _ => rfl

variable {cx : Context} {s : Session ω} {ended : Except Interrupt α → Prop} {host : ω}
  {tokens : Tokens}

theorem Follows.append {s t : Session ω} {trail rest : Trail}
    {plain cut : Except Interrupt α × Session ω}
    (ha : s.world.cache.AddsOnly cx.lenient trail t.world.cache)
    (h : t.Follows cx rest ended plain cut) :
    s.Follows cx (trail.append rest) ended plain cut :=
  h.imp (fun ⟨hl, hs, hc⟩ => ⟨hl, ha.trans hs, hc⟩) fun ⟨he, hc, hs⟩ => ⟨he, hc, ha.trans hs⟩

theorem Follows.inner {s₀ : Session ω} {trail : Trail}
    {plain cut : Except Interrupt α × Session ω} {f : Session ω → Session ω}
    (h : s₀.Follows cx trail ended plain cut) (hs : s₀.world.cache = s.world.cache)
    (hf : IsInner f) (hc : ∀ t, (f t).world.cache = t.world.cache) :
    s.Follows cx trail ended (plain.1, f plain.2) (cut.1, f cut.2) := by
  rw [Follows, hs] at h
  rcases h with ⟨hl, ha, host, ts, rfl, hn⟩ | ⟨he, hcan, ha⟩
  · refine .inl ⟨?_, ?_, host, ts, ?_, hn⟩
    · rw [Live, hf.tokens]
      exact hl
    · rw [hc]
      exact ha
    · exact congrArg (Prod.mk _) (hf plain.2 host ts)
  · refine .inr ⟨he, ?_, ?_⟩
    · rw [IsCancelled, hf.tokens]
      exact hcan
    · rw [hc]
      exact ha

theorem follows_same {v : Except Interrupt α} {t : Session ω} {trail : Trail}
    (ht : t.Live cx.token) (hc : t.world.cache.cell = s.world.cache.cell)
    (hn : tokens.isCancelled cx.token = false) :
    s.Follows cx trail ended (v, t) (v, t.outside host tokens) :=
  .inl ⟨ht, Cache.adds_of_cell hc, host, tokens, rfl, hn⟩

end Session

namespace Resolver

variable {ω : Type} {r : Resolver ω} {cx : Context} {site : Site} {s : Session ω}

/-! ## One computation -/

theorem conclusion_follows (hw : ∀ q, (r.walker cx.env q).IsPlain)
    (ha : cx.env.asks site = true) {trail : Trail} {ask : Request ω (Option Ty)}
    {t : Session ω} (hi : s.Follows cx trail (·.isOk = true) (ask s) (ask t)) :
    s.Follows cx trail (· = .error .cancelled) ((ask >>= r.conclusion cx site) s)
      ((ask >>= r.conclusion cx site) t) := by
  rw [Request.bind_apply, Request.bind_apply]
  rcases hi with ⟨hl, hs, host, ts, he, hn⟩ | ⟨hok, hcan, hs⟩
  · rw [he]
    generalize ask s = out at hl hs ⊢
    rcases out with ⟨e | i, u⟩
    · exact .inl ⟨hl, hs, host, ts, rfl, hn⟩
    · obtain ⟨host₁, hp⟩ := (yields_conclusion hw ha i).live hl
      dsimp only
      rw [hp]
      obtain ⟨host₂, ts₂, ⟨hv, hn₂, -⟩ | ⟨hv, hc₂, -⟩⟩ := yields_conclusion hw ha i
        (u.outside host ts) hn
      · exact .inl ⟨hl, hs, host₂, ts₂, by rw [hv]; rfl, hn₂⟩
      · exact .inr (by rw [hv]; exact ⟨rfl, hc₂, hs⟩)
  · generalize ask t = out at hok hcan hs ⊢
    rcases out with ⟨e | i, u⟩
    · cases hok
    · refine .inr ?_
      dsimp only
      rw [conclusion_cancelled hcan]
      exact ⟨rfl, hcan, hs⟩

theorem computation_follows (hw : ∀ q, (r.walker cx.env q).IsPlain)
    (derive : Site → Request ω (Option Ty)) (site : Site) (source : TargetOrigin) {trail : Trail}
    {host : ω} {tokens : Tokens} (hl : s.Live cx.token)
    (hn : tokens.isCancelled cx.token = false)
    (hi : s.Follows cx trail (·.isOk = true) (interfaceOf derive site source s)
      (interfaceOf derive site source (s.outside host tokens))) :
    s.Follows cx (if cx.env.asks site then trail else .done) (· = .error .cancelled)
      (r.resolveOrReport cx derive site source s)
      (r.resolveOrReport cx derive site source (s.outside host tokens)) := by
  cases ha : cx.env.asks site with
  | false =>
    obtain ⟨host₁, h₁⟩ := unasked_apply (r := r) ha derive source s
    obtain ⟨host₂, h₂⟩ := unasked_apply (r := r) ha derive source (s.outside host tokens)
    rw [h₁, h₂]
    exact Session.follows_same hl rfl hn
  | true =>
    rw [asked_apply ha, asked_apply ha]
    exact conclusion_follows hw ha hi

theorem broken_follows (hw : ∀ q, (r.walker cx.env q).IsPlain)
    (derive : Site → Request ω (Option Ty)) (site : Site) {source : TargetOrigin}
    (hs : source ≠ .fromProvider) (host : ω) {tokens : Tokens} (hl : s.Live cx.token)
    (hn : tokens.isCancelled cx.token = false) :
    s.Follows cx .done (· = .error .cancelled) (r.resolveOrReport cx derive site source s)
      (r.resolveOrReport cx derive site source (s.outside host tokens)) := by
  have hi : s.Follows cx .done (·.isOk = true) (interfaceOf derive site source s)
      (interfaceOf derive site source (s.outside host tokens)) := by
    cases source with
    | fromProvider => exact absurd rfl hs
    | _ => exact Session.follows_same hl rfl hn
  have h := computation_follows (r := r) hw derive site source hl hn hi
  rwa [ite_self] at h

/-! ## One request -/

theorem closed_follows {s₀ : Session ω} {inner trail : Trail}
    {done : Resolution → Session ω → Session ω} {stop : Session ω → Session ω}
    {plain cut : Except Interrupt Resolution × Session ω}
    (h : s₀.Follows cx inner (· = .error .cancelled) plain cut)
    (hd : ∀ x, Session.IsInner (done x)) (hs : Session.IsInner stop)
    (hda : ∀ x t, plain = (.ok x, t) →
      s₀.world.cache.AddsOnly cx.lenient inner t.world.cache →
      s.world.cache.AddsOnly cx.lenient trail (done x t).world.cache)
    (hsa : ∀ t : Session ω, s₀.world.cache.AddsOnly cx.lenient inner t.world.cache →
      s.world.cache.AddsOnly cx.lenient trail (stop t).world.cache) :
    s.Follows cx trail (· = .error .cancelled) (closed done stop plain)
      (closed done stop cut) := by
  rcases h with ⟨hl, ha, host, ts, rfl, hn⟩ | ⟨he, hc, ha⟩
  · rcases plain with ⟨e | x, t⟩
    · exact .inl ⟨by rw [Session.Live, closed, hs.tokens]; exact hl, hsa t ha, host, ts,
        congrArg (Prod.mk _) (hs t host ts), hn⟩
    · exact .inl ⟨by rw [Session.Live, closed, (hd x).tokens]; exact hl, hda x t rfl ha, host, ts,
        congrArg (Prod.mk _) (hd x t host ts), hn⟩
  · rcases cut with ⟨e | x, t⟩
    · refine .inr ⟨?_, ?_, hsa t ha⟩
      · exact congrArg Except.error (Except.error.inj he)
      · rw [Session.IsCancelled, closed, hs.tokens]
        exact hc
    · cases he

theorem adds_claiming {trail : Trail} {d : Cache Issued} (hc : s.world.cache.WellFormed)
    (h : (s.claiming cx site).world.cache.AddsOnly cx.lenient trail d) :
    s.world.cache.AddsOnly cx.lenient trail d :=
  fun i v f x hx => (h i v f x hx).imp_left (Session.get?_claiming hc)

theorem adds_claimed {inner : Trail} {x : Resolution} {t : Session ω}
    {result : Except Interrupt Issued} (hc : s.world.cache.WellFormed)
    (hk : (s.claiming cx site).Keeps cx.lenient (site.id :: s.underway) t)
    (ha : s.world.cache.AddsOnly cx.lenient inner t.world.cache) {u : Session ω}
    (hu : u = endClaim (s.world.cache.slotFor site.id).2 cx.lenient site.version cx.thread
      (leftover site s.breaks.length x t) (t.settle s.breaks.length site.id).issuing) :
    s.world.cache.AddsOnly cx.lenient (.keyed site.id
      (some ⟨site, result, u.world.cache.get? site.id site.version cx.lenient⟩) inner .done)
      u.world.cache := by
  have hend := hk.settled s.breaks.length site.id
  intro i v f y hy
  by_cases hi : i = site.id ∧ f = cx.lenient
  · obtain ⟨rfl, rfl⟩ := hi
    have hv : v = site.version := by
      rw [hu, Cache.get?_eq_some_iff, cell_end_own hc hend, leftover] at hy
      split at hy
      · injection hy with hv
        exact hv.symm
      · cases hy
    subst hv
    have hown : ∀ c, (c, inner) ∈ (Trail.keyed site.id (some c) inner .done).claims := fun c =>
      List.mem_append_left _ (List.mem_append_left _ (List.mem_singleton.mpr rfl))
    exact .inr ⟨rfl, _, hown _, rfl, rfl, hy⟩
  · have ho := Classical.not_and_iff_not_or_not.mp hi
    rw [hu, Cache.get?_eq_some_iff, cell_end_other hend ho, ← Cache.get?_eq_some_iff] at hy
    exact ha.inside site.id _ i v f y hy

theorem route_outside {host : ω} {tokens : Tokens} (hl : s.Live cx.token)
    (hp : (tokens.poll cx.token).1 = false) :
    r.route cx site (s.outside host tokens) = r.route cx site s := by
  unfold route
  rw [Session.tokens_outside, hp, Tokens.poll_live hl]
  rfl

theorem claiming_follows {derive : Site → Request ω (Option Ty)} {inner : Trail} {host : ω}
    {tokens : Tokens} {result : Except Interrupt Issued}
    (hk : ∀ s : Session ω, s.world.cache.WellFormed →
      s.Keeps cx.lenient (site.id :: s.underway) (derive site s).2)
    (hc : s.world.cache.WellFormed)
    (h : (s.claiming cx site).Follows cx inner (· = .error .cancelled)
      (r.resolveOrReport cx derive site .fromProvider (s.claiming cx site))
      (r.resolveOrReport cx derive site .fromProvider
        ((s.claiming cx site).outside host tokens))) :
    let finish := endClaim (s.world.cache.slotFor site.id).2 cx.lenient site.version cx.thread
    let done := fun x t => finish (leftover site s.breaks.length x t)
      (t.settle s.breaks.length site.id).issuing
    let plain := closed done (finish .vacant)
      (r.resolveOrReport cx derive site .fromProvider (s.claiming cx site))
    s.Follows cx (.keyed site.id (some ⟨site, result,
        plain.2.world.cache.get? site.id site.version cx.lenient⟩) inner .done)
      (· = .error .cancelled) plain (closed done (finish .vacant)
        (r.resolveOrReport cx derive site .fromProvider
          ((s.claiming cx site).outside host tokens))) := by
  intro finish done plain
  have hkeep := computation_keeps (r := r) hk (Session.grows_claiming hc cx site).wellFormed
    .fromProvider
  have hplain : plain = closed done (finish .vacant) _ := rfl
  generalize r.resolveOrReport cx derive site .fromProvider (s.claiming cx site) = comp
    at h hkeep hplain
  rw [hplain]
  refine closed_follows h (fun _ _ _ _ => rfl) (fun _ _ _ => rfl) ?_ ?_
  · rintro x t rfl ha
    exact adds_claimed hc hkeep (adds_claiming hc ha) rfl
  · intro t ha i v f x hx
    exact (adds_claiming hc ha).inside site.id _ i v f x (Cache.get?_finish_vacant hx)

theorem with_follows (hw : ∀ q, (r.walker cx.env q).IsPlain)
    {derive : Site → Request ω (Option Ty)} {look : Site → Session ω → Trail}
    (hk : ∀ s : Session ω, s.world.cache.WellFormed →
      s.Keeps cx.lenient (site.id :: s.underway) (derive site s).2)
    (hd : ∀ (s : Session ω) host tokens, s.Live cx.token → s.world.cache.WellFormed →
      tokens.isCancelled cx.token = false → s.Follows cx (look site s) (·.isOk = true)
        (derive site s) (derive site (s.outside host tokens)))
    (hl : s.Live cx.token) (hc : s.world.cache.WellFormed) {host : ω} {tokens : Tokens} :
    s.Follows cx (r.trailWith cx derive look site s) (· = .error .cancelled)
      (r.resolveWith cx derive site s) (r.resolveWith cx derive site (s.outside host tokens)) := by
  have hcan := Tokens.cancelled_poll tokens cx.token
  cases hp : (tokens.poll cx.token).1 with
  | true =>
    have hr : r.route cx site (s.outside host tokens) = .refused := by
      unfold route
      rw [Session.tokens_outside, hp]
      rfl
    rw [with_apply (s := s.outside host tokens), hr]
    exact .inr ⟨rfl, hcan.trans hp, Cache.adds_refl _ _ _⟩
  | false =>
    rw [hp] at hcan
    have hplain : r.resolveWith cx derive site s = _ := with_apply derive
    have hcut : r.resolveWith cx derive site (s.outside host tokens) = _ :=
      with_apply (s := s.outside host tokens) derive
    -- The poll at the start told nothing, so that both requests go the same way from here.
    rw [route_outside hl hp] at hcut
    rw [Session.polled_live hl] at hplain
    have hcell := Cache.cell_slotFor hc site.id
    have hslot := (Cache.grows_slotFor hc site.id).wellFormed
    unfold trailWith
    rw [Session.polled_live hl]
    cases hr : r.route cx site s
    all_goals
      rw [hr] at hplain hcut
      rw [hplain, hcut]
    case refused => exact Session.follows_same hl rfl hcan
    case hit x => exact Session.follows_same hl hcell hcan
    case waiting => exact Session.follows_same hl hcell hcan
    case bypassed source =>
      have h := broken_follows (r := r) (s := s.noteBreak site.id) hw derive site
        (bypass_source hr) host hl hcan
      exact closed_follows h (fun _ _ _ _ => rfl) Session.inner_id (fun _ _ _ h => h) fun _ h => h
    case reentrant =>
      have hne : TargetOrigin.untargeted ≠ .fromProvider := by decide
      have h := broken_follows (r := r) (s := (s.slotted site.id).noteBreak site.id) hw derive
        site hne host hl hcan
      exact closed_follows h (fun _ _ _ _ => rfl) Session.inner_id (fun _ _ _ h => h.of_cell hcell)
        fun _ h => h.of_cell hcell
    case uncached =>
      have h := computation_follows (r := r) hw derive site .fromProvider hl hcan
        (hd s host _ hl hc hcan)
      exact closed_follows h (fun _ _ _ _ => rfl) Session.inner_id (fun _ _ _ h => h) fun _ h => h
    case unstored =>
      have h := computation_follows (r := r) (s := s.slotted site.id) hw derive site .fromProvider
        hl hcan (hd (s.slotted site.id) host _ hl hslot hcan)
      exact closed_follows h (fun _ _ _ _ => rfl) Session.inner_id
        (fun _ _ _ h => (h.of_cell hcell).inside site.id none)
        fun _ h => (h.of_cell hcell).inside site.id none
    case claiming =>
      have hg := Session.grows_claiming hc cx site
      have h := computation_follows (r := r) (s := s.claiming cx site) hw derive site .fromProvider
        hl hcan (hd (s.claiming cx site) host _ hl hg.wellFormed hcan)
      exact claiming_follows hk hc h

end Resolver

/-! ## Scripts and whole requests -/

/-- A script that goes on under a cancelled token comes to its end without doing anything more. -/
theorem Script.cut_follows {ω α : Type} {cx : Context} {ask : Site → Request ω Issued}
    (hr : ∀ site (s : Session ω), s.IsCancelled cx.token → ask site s = (.error .cancelled, s))
    {script : Script ω α} (hs : script.IsPure) {s v : Session ω} (hcan : v.IsCancelled cx.token)
    {trail : Trail} (hadd : s.world.cache.AddsOnly cx.lenient trail v.world.cache)
    (plain : Except Interrupt α × Session ω) :
    s.Follows cx trail (·.isOk = true) plain (script.run cx ask v) := by
  obtain ⟨a, hrun⟩ := Script.run_cancelled hr hs hcan
  rw [hrun]
  exact .inr ⟨rfl, hcan, hadd⟩

theorem Script.run_follows {ω α : Type} {cx : Context} {ask : Site → Request ω Issued}
    {look : Site → Session ω → Trail}
    (hk : ∀ site (s : Session ω), s.world.cache.WellFormed →
      s.Keeps cx.lenient s.underway (ask site s).2)
    (hr : ∀ site (s : Session ω), s.IsCancelled cx.token → ask site s = (.error .cancelled, s))
    (ha : ∀ site (s : Session ω) host tokens, s.Live cx.token → s.world.cache.WellFormed →
      tokens.isCancelled cx.token = false → s.Follows cx (look site s) (· = .error .cancelled)
        (ask site s) (ask site (s.outside host tokens)))
    {script : Script ω α} (hs : script.IsPure) {s : Session ω} (host : ω) {tokens : Tokens}
    (hl : s.Live cx.token) (hc : s.world.cache.WellFormed)
    (hn : tokens.isCancelled cx.token = false) :
    s.Follows cx (script.trail cx ask look s) (·.isOk = true) (script.run cx ask s)
      (script.run cx ask (s.outside host tokens)) := by
  -- The runs stay side by side until one request is cut off. What the script does from there on
  -- adds nothing, since each further request is refused.
  induction script generalizing s host tokens with
  | pure a => exact Session.follows_same hl rfl hn
  | resolve site next ih =>
    have h := ha site s host tokens hl hc hn
    have hkt := (hk site s hc).grows.wellFormed
    rw [Script.run, Script.trail, Request.bind_apply, Request.bind_apply, Request.attempt_apply,
      Request.attempt_apply]
    rcases h with ⟨hlive, hadd, host, ts, he, hn⟩ | ⟨hcut, hcan, hadd⟩
    · rw [he]
      generalize ask site s = out at hlive hadd hkt ⊢
      rcases out with ⟨e | x, t⟩
      · cases e with
        | cancelled => exact .append hadd (ih none (hs none) host hlive hkt hn)
        | _ => exact .inl ⟨hlive, hadd, host, ts, rfl, hn⟩
      · exact .append hadd (ih (some x) (hs (some x)) host hlive hkt hn)
    · generalize ask site (s.outside host tokens) = cut at hcut hcan hadd ⊢
      rcases cut with ⟨e | x, v⟩
      · obtain rfl : e = .cancelled := Except.error.inj hcut
        refine Script.cut_follows hr (hs none) hcan ?_ _
        split
        · exact hadd.weaken
        · exact hadd
      · cases hcut
  | assuming site target body next ihb ihn =>
    have h : (s.assume site (some target)).Follows cx
        (body.trail cx ask look (s.assume site (some target))) (·.isOk = true)
        (body.run cx ask (s.assume site (some target)))
        (body.run cx ask ((s.outside host tokens).assume site (some target))) :=
      ihb hs.1 host hl hc hn
    have hkt := (Script.run_keeps hk hs.1.confined (s := s.assume site (some target))
      hc).grows.wellFormed
    rw [Script.run, Script.trail, Request.bind_apply, Request.bind_apply, Request.assuming_apply,
      Request.assuming_apply]
    rcases h with ⟨hlive, hadd, host, ts, he, hn⟩ | ⟨hcut, hcan, hadd⟩
    · rw [he]
      generalize body.run cx ask (s.assume site (some target)) = out at hlive hadd hkt ⊢
      rcases out with ⟨e | b, t⟩
      · exact .inl ⟨hlive, hadd, _, ts, rfl, hn⟩
      · exact .append (t := t.assume site (s.assumed site)) hadd
          (ihn b (hs.2 b) host hlive hkt hn)
    · generalize body.run cx ask ((s.outside host tokens).assume site (some target)) = cut
        at hcut hcan hadd ⊢
      rcases cut with ⟨e | b, v⟩
      · cases hcut
      · refine Script.cut_follows hr (hs.2 b)
          (v := v.assume site ((s.outside host tokens).assumed site)) hcan ?_ _
        split
        · exact hadd.weaken
        · exact hadd
  | inspect next ih => exact ih _ (hs _) host hl hc hn
  | cancel next => exact hs.elim
  | act f next ih => exact hs.elim

namespace Resolver

variable {ω : Type} {r : Resolver ω} {cx : Context} {site : Site} {s : Session ω}

theorem within_follows (hw : ∀ q, (r.walker cx.env q).IsPlain)
    (hp : ∀ site, (r.provider site).IsPure) (n : Nat) (site : Site) (host : ω) (tokens : Tokens)
    (hl : s.Live cx.token) (hc : s.world.cache.WellFormed)
    (hn : tokens.isCancelled cx.token = false) :
    s.Follows cx (r.trail cx n site s) (· = .error .cancelled) (r.resolveWithin cx n site s)
      (r.resolveWithin cx n site (s.outside host tokens)) := by
  have hconf : ∀ site, (r.provider site).IsConfined := fun site => (hp site).confined
  induction n generalizing site s host tokens with
  | zero =>
    exact with_follows hw (fun s hs => Session.keeps_refl hs)
      (fun s host tokens hl _ hn => Session.follows_same hl rfl hn) hl hc
  | succ n ih =>
    have hkeep : ∀ site (s : Session ω), s.world.cache.WellFormed →
        s.Keeps cx.lenient s.underway (r.resolveWithin cx n site s).2 :=
      fun site s hs => within_keeps hconf n site hs
    refine with_follows hw (fun s hs => derived_keeps hconf (n + 1) site hs)
      (fun s host tokens hl hc hn => ?_) hl hc
    have hlive : (s.entering site.id).Live cx.token := by
      rw [Session.Live, Session.world_entering]
      exact hl
    have hf := Script.run_follows hkeep (fun site s h => with_cancelled h _)
      (fun site s host tokens hl hc hn => ih site host tokens hl hc hn) (hp site)
      (s := s.entering site.id) host hlive (by rwa [Session.world_entering]) hn
    rw [expected_apply, expected_apply, Session.entering_outside]
    exact Session.Follows.inner (f := fun t => { t with underway :=
      if site.id ∈ s.underway then t.underway else t.underway.erase site.id }) hf
      (congrArg World.cache (Session.world_entering site.id s)) (fun _ _ _ => rfl) fun _ => rfl

/-- An interrupted request leaves nothing new in the cache for its own site. -/
theorem error_adds_nothing (hp : ∀ site, (r.provider site).IsConfined) {n : Nat} {site : Site}
    (hc : s.world.cache.WellFormed) {e : Interrupt}
    (he : (r.resolveWithin cx n site s).1 = .error e) {version : Nat} {flag : Bool} {x : Issued}
    (hx : (r.resolveWithin cx n site s).2.world.cache.get? site.id version flag = some x) :
    s.world.cache.get? site.id version flag = some x := by
  have hkeep : ∀ (u : Session ω) source, u.world.cache.WellFormed →
      u.Keeps cx.lenient (site.id :: u.underway)
        (r.resolveOrReport cx (r.expectedType cx n) site source u).2 := fun u source hu =>
    computation_keeps (fun s hs => derived_keeps hp n site hs) hu source
  -- Without a claim, the computation finds the cell of the site as it was and leaves it so.
  have hstop : ∀ (u : Session ω) source done, u.world.cache.WellFormed →
      u.world.cache.cell = s.world.cache.cell →
      let out := closed done id (r.resolveOrReport cx (r.expectedType cx n) site source u)
      out.1 = .error e → out.2.world.cache.get? site.id version flag = some x →
      s.world.cache.get? site.id version flag = some x := by
    intro u source done hu hcu out he hx
    have h := (hkeep u source hu).cells site.id flag (.inl List.mem_cons_self)
    rw [closed_error he, id, Cache.get?_eq_cell, h, hcu] at hx
    rwa [Cache.get?_eq_cell]
  have hslot := (Cache.grows_slotFor hc site.id).wellFormed
  have hcell := Cache.cell_slotFor hc site.id
  unfold resolveWithin at he hx
  rw [with_apply] at he hx
  cases hr : r.route cx site s
  all_goals rw [hr] at he hx
  case refused => exact hx
  case hit y => cases he
  case waiting =>
    rw [Cache.get?_eq_cell] at hx ⊢
    rw [← hcell]
    exact hx
  case bypassed source =>
    exact hstop ((s.polled cx.token).noteBreak site.id) source _ hc rfl he hx
  case reentrant =>
    exact hstop (((s.polled cx.token).slotted site.id).noteBreak site.id) .untargeted _ hslot hcell
      he hx
  case uncached => exact hstop (s.polled cx.token) .fromProvider _ hc rfl he hx
  case unstored =>
    exact hstop ((s.polled cx.token).slotted site.id) .fromProvider _ hslot hcell he hx
  case claiming =>
    have hg := Session.grows_claiming (s := s.polled cx.token) hc cx site
    have h := (hkeep _ .fromProvider hg.wellFormed).cells site.id flag (.inl List.mem_cons_self)
    dsimp only at he hx
    rw [closed_error he] at hx
    have hx := Cache.get?_finish_vacant hx
    rw [Cache.get?_eq_cell, h, ← Cache.get?_eq_cell] at hx
    exact Session.get?_claiming (s := s.polled cx.token) hc hx

/-- A request whose token may turn cancelled at any poll ends as cancelled or as the request under
a live token. Ending as cancelled it leaves nothing new in the cache for its own site, and what it
leaves for others the request under the live token stored as well. -/
theorem cut_off (hw : ∀ q, (r.walker cx.env q).IsPlain) (hp : ∀ site, (r.provider site).IsPure)
    {n : Nat} {site : Site} {w : World ω} (hc : w.cache.WellFormed)
    (hl : w.tokens.IsLive cx.token) (tokens : Tokens) :
    let plain := r.resolve cx n site w
    let cut := r.resolve cx n site { w with tokens }
    (cut.1 = .error .cancelled ∨ cut.1 = plain.1) ∧
    (cut.1 = .error .cancelled → ∀ version flag x,
      cut.2.cache.get? site.id version flag = some x →
        w.cache.get? site.id version flag = some x) ∧
    ∀ i version flag x, cut.2.cache.get? i version flag = some x →
      w.cache.get? i version flag = some x ∨
        (flag = cx.lenient ∧ (r.trail cx n site (.start w)).Stores i version x) := by
  intro plain cut
  have hown : cut.1 = .error .cancelled → ∀ version flag x,
      cut.2.cache.get? site.id version flag = some x →
        w.cache.get? site.id version flag = some x := fun he version flag x hx =>
    error_adds_nothing (s := .start { w with tokens }) (fun site => (hp site).confined) hc he hx
  cases hn : tokens.isCancelled cx.token with
  | true =>
    have hcut : cut = (.error .cancelled, { w with tokens }) :=
      congrArg (fun out => (out.1, out.2.world))
        (with_cancelled (s := .start { w with tokens }) hn (r.expectedType cx n))
    refine ⟨.inl (by rw [hcut]), hown, fun i version flag x hx => .inl ?_⟩
    rwa [hcut] at hx
  | false =>
    have hf := within_follows hw hp n site w.host tokens (s := .start w) hl hc hn
    have hcut : cut = ((r.resolveWithin cx n site ((Session.start w).outside w.host tokens)).1,
      (r.resolveWithin cx n site ((Session.start w).outside w.host tokens)).2.world) := rfl
    rcases hf with ⟨-, ha, host, ts, he, -⟩ | ⟨he, -, ha⟩
    · refine ⟨.inr ?_, hown, ?_⟩
      · rw [hcut, he]
        rfl
      · rw [hcut, he]
        exact ha
    · refine ⟨.inl ?_, hown, ?_⟩
      · rw [hcut]
        exact he
      · rw [hcut]
        exact ha

/-- The token turns cancelled while the provider is being asked. -/
theorem cut_off_pair :
    (Toggle.pair.resolve Toggle.context 2 (Toggle.site ⟨0⟩) Toggle.world).1.isOk = true ∧
    (Toggle.pair.resolve Toggle.context 2 (Toggle.site ⟨0⟩)
      { Toggle.world with tokens := [{ deadline := some 3 }] }).1.isOk = false ∧
    ((Toggle.pair.resolve Toggle.context 2 (Toggle.site ⟨0⟩)
        { Toggle.world with tokens := [{ deadline := some 3 }] }).1 = .error .cancelled ∨
      (Toggle.pair.resolve Toggle.context 2 (Toggle.site ⟨0⟩)
        { Toggle.world with tokens := [{ deadline := some 3 }] }).1 =
      (Toggle.pair.resolve Toggle.context 2 (Toggle.site ⟨0⟩) Toggle.world).1) := by
  refine ⟨by decide +kernel, by decide +kernel, ?_⟩
  have hlive : Toggle.world.tokens.IsLive Toggle.context.token := by
    intro t ht
    obtain rfl := Option.some.inj ht
    exact ⟨rfl, rfl⟩
  exact (cut_off (Env.plain_members _) Toggle.pure_pair Cache.well_formed_empty hlive
    [{ deadline := some 3 }]).1

end Resolver

end DoubleColon
