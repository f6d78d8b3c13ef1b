import DoubleColon.Proofs.Toggle
import DoubleColon.Proofs.Trails

/-!
# Which results depend on an open cycle

The breaks of a session are one list, which every computation on the way extends and cuts down
again. Read along the trail of a run they are exactly what is not settled: `Tracks` says that a
run appends the unsettled breaks of its trail. Since a claim is kept if its computation has left
no break open but at its own site, what the cache keeps can be told from the trail alone.
-/

set_option autoImplicit false

namespace DoubleColon

/-- The claim ended with a result, which the cache kept if and only if every bypassed request
under it was for its own site or within a keyed request of the bypassed site. -/
def Claim.IsExact (c : Claim) (inner : Trail) : Prop :=
  ∃ x, c.result = .ok x ∧
    (c.kept = some x ↔ ∀ p ∈ inner.bypasses, p.2 = c.site.id ∨ p.2 ∈ p.1)

namespace Trail

def IsExact (t : Trail) : Prop := ∀ c ∈ t.claims, c.1.IsExact c.2

theorem exact_done : done.IsExact := fun _ h => nomatch h

theorem IsExact.append {t u : Trail} (ht : t.IsExact) (hu : u.IsExact) :
    (t.append u).IsExact := by
  intro c hc
  rw [claims_append] at hc
  exact (List.mem_append.mp hc).elim (ht c) (hu c)

theorem unsettled_subset {t : Trail} {site : SiteId} :
    (t.unsettled.filter fun b => b != site) = [] ↔
      ∀ p ∈ t.bypasses, p.2 = site ∨ p.2 ∈ p.1 := by
  simp only [List.filter_eq_nil_iff, bne_iff_ne, ne_eq, Decidable.not_not, mem_unsettled]
  constructor
  · intro h p hp
    by_cases hm : p.2 ∈ p.1
    · exact .inr hm
    · exact .inl (h p.2 ⟨p.1, hp, hm⟩)
  · rintro h b ⟨path, hp, hb⟩
    exact (h (path, b) hp).resolve_right hb

end Trail

namespace Session

variable {ω α β : Type} {token : TokenId} {s t u : Session ω} {trail rest : Trail}

def Tracks (token : TokenId) (s : Session ω) (trail : Trail)
    (out : Except Interrupt α × Session ω) : Prop :=
  ∀ a, out.1 = .ok a → ¬ out.2.IsCancelled token →
    out.2.breaks = s.breaks ++ trail.unsettled ∧ trail.IsExact

theorem tracks_error {e : Interrupt} : s.Tracks token trail (α := α) (.error e, t) :=
  fun _ h => nomatch h

theorem Tracks.append {a : α} {out : Except Interrupt β × Session ω}
    (h : s.Tracks token trail (.ok a, t)) (ht : t.IsCancelled token → out.2.IsCancelled token)
    (k : t.Tracks token rest out) : s.Tracks token (trail.append rest) out := by
  intro b hb hn
  obtain ⟨hs, he⟩ := h a rfl fun hc => hn (ht hc)
  obtain ⟨hs', he'⟩ := k b hb hn
  exact ⟨by rw [hs', hs, Trail.unsettled_append, List.append_assoc], he.append he'⟩

end Session

namespace Resolver

variable {ω : Type} {r : Resolver ω} {cx : Context} {site : Site} {s : Session ω}

theorem computation_tracks {derive : Site → Request ω (Option Ty)}
    {look : Site → Session ω → Trail} (hd : s.Tracks cx.token (look site s) (derive site s)) :
    s.Tracks cx.token (if cx.env.asks site then look site s else .done)
      (r.resolveOrReport cx derive site .fromProvider s) := by
  cases ha : cx.env.asks site with
  | false =>
    obtain ⟨host, he⟩ := unasked_apply (r := r) ha derive .fromProvider s
    rw [he]
    exact fun _ _ _ => ⟨(List.append_nil _).symm, Trail.exact_done⟩
  | true =>
    have hf : interfaceOf derive site .fromProvider = derive site := rfl
    rw [asked_apply ha, Request.bind_apply, hf, if_pos rfl]
    generalize derive site s = out at hd ⊢
    rcases out with ⟨e | interface, t⟩
    · exact Session.tracks_error
    · intro x hx hn
      obtain ⟨host, ts, he⟩ := outside_conclusion r cx site interface t
      have ht : ¬ t.IsCancelled cx.token := fun hc => hn (by
        dsimp only
        rw [conclusion_cancelled hc]
        exact hc)
      dsimp only
      rw [he]
      exact hd interface rfl ht

theorem bypass_tracks (r : Resolver ω) (cx : Context) (site : Site)
    (derive : Site → Request ω (Option Ty)) {source : TargetOrigin}
    (hs : source ≠ .fromProvider) (s : Session ω) :
    (r.resolveOrReport cx derive site source s).2.breaks = s.breaks := by
  cases ha : cx.env.asks site with
  | false =>
    obtain ⟨host, he⟩ := unasked_apply (r := r) ha derive source s
    rw [he]
    rfl
  | true =>
    rw [asked_apply ha]
    have hi : ∃ t, interfaceOf derive site source s = (.ok t, s) := by
      cases source with
      | fromProvider => exact absurd rfl hs
      | assumed t => exact ⟨some t, rfl⟩
      | untargeted => exact ⟨none, rfl⟩
    obtain ⟨t, hi⟩ := hi
    rw [Request.bind_ok hi]
    obtain ⟨host, ts, he⟩ := outside_conclusion r cx site t s
    rw [he]
    rfl

theorem settle_tracks {t : Session ω} {trail : Trail}
    (h : t.breaks = s.breaks ++ trail.unsettled) (site : SiteId) :
    (t.settle s.breaks.length site).breaks =
        s.breaks ++ trail.unsettled.filter (fun b => b != site) ∧
      t.openBreaks s.breaks.length site = trail.unsettled.filter fun b => b != site := by
  simp [Session.settle, Session.openBreaks, h]

/-- What a claim leaves is a value exactly if its trail left no break open but at its site. -/
theorem leftover_exact {t : Session ω} {trail : Trail}
    (h : t.breaks = s.breaks ++ trail.unsettled) (x : Resolution) :
    (leftover site s.breaks.length x t).get? site.version = some ⟨t.world.issued, x⟩ ↔
      ∀ p ∈ trail.bypasses, p.2 = site.id ∨ p.2 ∈ p.1 := by
  rw [Cell.get?_eq_some, leftover, (settle_tracks h site.id).2, ← Trail.unsettled_subset]
  cases trail.unsettled.filter fun b => b != site.id with
  | nil => simp
  | cons b bs => simp

theorem claiming_tracks {derive : Site → Request ω (Option Ty)} {trail : Trail}
    (hk : (s.claiming cx site).Keeps cx.lenient (site.id :: s.underway)
      (r.resolveOrReport cx derive site .fromProvider (s.claiming cx site)).2)
    (ht : (s.claiming cx site).Tracks cx.token trail
      (r.resolveOrReport cx derive site .fromProvider (s.claiming cx site)))
    (hc : s.world.cache.WellFormed) :
    let finish := endClaim (s.world.cache.slotFor site.id).2 cx.lenient site.version cx.thread
    let out := closed
      (fun x t => finish (leftover site s.breaks.length x t)
        (t.settle s.breaks.length site.id).issuing) (finish .vacant)
      (r.resolveOrReport cx derive site .fromProvider (s.claiming cx site))
    s.Tracks cx.token (.keyed site.id
      (some ⟨site, out.1, out.2.world.cache.get? site.id site.version cx.lenient⟩) trail .done)
      out := by
  intro finish out
  have ho : out = closed _ (finish .vacant) _ := rfl
  rw [ho]
  generalize r.resolveOrReport cx derive site .fromProvider (s.claiming cx site) = mid at hk ht ⊢
  rcases mid with ⟨e | x, t⟩
  · exact Session.tracks_error
  · intro y hy hn
    obtain ⟨hs, he⟩ := ht x rfl hn
    have hend := hk.settled s.breaks.length site.id
    refine ⟨(settle_tracks hs site.id).1.trans (by simp [Trail.unsettled]), ?_⟩
    intro c hm
    rcases List.mem_append.mp hm with hm | hm
    · rcases List.mem_append.mp hm with hm | hm
      · rw [List.mem_singleton.mp hm]
        refine ⟨_, rfl, ?_⟩
        dsimp only [closed]
        rw [Cache.get?_eq_cell, cell_end_own hc hend]
        exact leftover_exact hs x
      · exact he c hm
    · cases hm

theorem with_tracks {derive : Site → Request ω (Option Ty)} {look : Site → Session ω → Trail}
    (hk : ∀ s : Session ω, s.world.cache.WellFormed →
      s.Keeps cx.lenient (site.id :: s.underway) (derive site s).2)
    (hd : ∀ s : Session ω, s.world.cache.WellFormed →
      s.Tracks cx.token (look site s) (derive site s)) (hc : s.world.cache.WellFormed) :
    s.Tracks cx.token (r.trailWith cx derive look site s) (r.resolveWith cx derive site s) := by
  have hslot : ((s.polled cx.token).slotted site.id).world.cache.WellFormed :=
    (Cache.grows_slotFor hc site.id).wellFormed
  unfold trailWith
  cases hr : r.route cx site s
  all_goals
    rw [with_apply, hr]
    dsimp only
  case refused => exact Session.tracks_error
  case waiting => exact Session.tracks_error
  case hit x => exact fun _ _ _ => ⟨(List.append_nil _).symm, Trail.exact_done⟩
  case bypassed source =>
    have hb := bypass_tracks r cx site derive (bypass_source hr)
      ((s.polled cx.token).noteBreak site.id)
    generalize r.resolveOrReport cx derive site source _ = out at hb ⊢
    rcases out with ⟨e | x, t⟩
    · exact Session.tracks_error
    · exact fun _ _ _ => ⟨hb, Trail.exact_done⟩
  case reentrant =>
    have hs : TargetOrigin.untargeted ≠ .fromProvider := by decide
    have hb := bypass_tracks r cx site derive hs
      (((s.polled cx.token).slotted site.id).noteBreak site.id)
    generalize r.resolveOrReport cx derive site .untargeted _ = out at hb ⊢
    rcases out with ⟨e | x, t⟩
    · exact Session.tracks_error
    · -- The break was noted before the computation, which therefore does not settle it.
      refine fun _ _ _ => ⟨?_, Trail.exact_done⟩
      change (t.settle
        (((s.polled cx.token).slotted site.id).noteBreak site.id).breaks.length
        site.id).breaks = _
      rw [← hb, Session.settle_length, hb]
      rfl
  case uncached =>
    have ht := computation_tracks (r := r) (hd (s.polled cx.token) hc)
    generalize r.resolveOrReport cx derive site .fromProvider _ = out at ht ⊢
    rcases out with ⟨e | x, t⟩
    · exact Session.tracks_error
    · exact fun _ _ hn => ht x rfl hn
  case unstored =>
    have ht := computation_tracks (r := r) (hd ((s.polled cx.token).slotted site.id) hslot)
    generalize r.resolveOrReport cx derive site .fromProvider _ = out at ht ⊢
    rcases out with ⟨e | x, t⟩
    · exact Session.tracks_error
    · intro y hy hn
      obtain ⟨hs, he⟩ := ht x rfl hn
      exact ⟨(settle_tracks hs site.id).1.trans (by simp [Trail.unsettled]),
        fun c hm => he c (by simpa [Trail.claims] using hm)⟩
  case claiming =>
    have hg := Session.grows_claiming (s := s.polled cx.token) hc cx site
    have hk := computation_keeps (r := r) hk hg.wellFormed .fromProvider
    have ht := computation_tracks (r := r) (hd ((s.polled cx.token).claiming cx site) hg.wellFormed)
    exact claiming_tracks (s := s.polled cx.token) hk ht hc

end Resolver

/-! ## Scripts and whole requests -/

theorem Script.run_tracks {ω α : Type} {cx : Context} {ask : Site → Request ω Issued}
    {look : Site → Session ω → Trail}
    (hk : ∀ site (s : Session ω), s.world.cache.WellFormed →
      s.Keeps cx.lenient s.underway (ask site s).2)
    (ht : ∀ site, Request.Tells cx.token (ask site))
    (ha : ∀ site (s : Session ω), s.world.cache.WellFormed →
      s.Tracks cx.token (look site s) (ask site s))
    {script : Script ω α} (hs : script.IsConfined) {s : Session ω}
    (hc : s.world.cache.WellFormed) :
    s.Tracks cx.token (script.trail cx ask look s) (script.run cx ask s) := by
  induction script generalizing s with
  | pure a => exact fun _ _ _ => ⟨(List.append_nil _).symm, Trail.exact_done⟩
  | resolve site next ih =>
    have hat := ha site s hc
    have hkt := (hk site s hc).grows.wellFormed
    have htt := ht site s
    rw [Script.run, Script.trail, Request.bind_apply, Request.attempt_apply]
    generalize ask site s = out at hat hkt htt ⊢
    rcases out with ⟨e | x, t⟩
    · cases e with
      | cancelled =>
        -- The run goes on, but under a cancelled token.
        intro a _ hn
        have htell := Resolver.tells_script ht (hs none)
        exact absurd (htell t (.inl (htt (.inr rfl)))) hn
      | _ => exact Session.tracks_error
    · exact hat.append (fun h => Resolver.tells_script ht (hs _) t (.inl h)) (ih _ (hs _) hkt)
  | assuming site target body next ihb ihn =>
    have hb := ihb hs.1 (s := s.assume site (some target)) hc
    have hkb := (Script.run_keeps hk hs.1 (s := s.assume site (some target)) hc).grows.wellFormed
    rw [Script.run, Script.trail, Request.bind_apply, Request.assuming_apply]
    generalize body.run cx ask (s.assume site (some target)) = out at hb hkb ⊢
    rcases out with ⟨e | b, t⟩
    · exact Session.tracks_error
    · exact Session.Tracks.append (t := t.assume site (s.assumed site)) hb
        (fun h => Resolver.tells_script ht (hs.2 b) _ (.inl h)) (ihn b (hs.2 b) hkb)
  | inspect next ih => exact ih _ (hs _) hc
  | cancel next => exact hs.elim
  | act f next ih =>
    refine ih _ (hs.2 _) ?_
    change (f s.world).cache.WellFormed
    rwa [hs.1]

namespace Resolver

variable {ω : Type} {r : Resolver ω} {cx : Context}

theorem within_tracks (hw : ∀ q, (r.walker cx.env q).IsPlain)
    (hp : ∀ site, (r.provider site).IsConfined) (n : Nat) (site : Site) {s : Session ω}
    (hc : s.world.cache.WellFormed) :
    s.Tracks cx.token (r.trail cx n site s) (r.resolveWithin cx n site s) := by
  induction n generalizing site s with
  | zero =>
    exact with_tracks (fun s hs => Session.keeps_refl hs) (fun s _ => Session.tracks_error) hc
  | succ n ih =>
    refine with_tracks
      (fun s hs => expected_keeps hp (fun site s => within_keeps hp n site) site hs)
      (fun s hs => ?_) hc
    have ht := Script.run_tracks (fun site s => within_keeps hp n site)
      (fun site => tells_within hw hp n site) (fun site s hs => ih site hs) (hp site)
      (s := s.entering site.id) (by simpa using hs)
    rw [expected_apply]
    intro a ha hn
    obtain ⟨hb, he⟩ := ht a ha hn
    exact ⟨hb.trans (by rw [Session.breaks_entering]), he⟩

/-- A claim made in a request that is not cancelled is kept if and only if every bypassed request
under it was for the claimed site or within a keyed request of the bypassed site. -/
theorem claims_exact (hw : ∀ q, (r.walker cx.env q).IsPlain)
    (hp : ∀ site, (r.provider site).IsConfined) {n : Nat} {site : Site} {w : World ω}
    (hc : w.cache.WellFormed) (hok : (r.resolve cx n site w).1.isOk = true)
    (hl : (r.resolve cx n site w).2.tokens.isCancelled cx.token = false) :
    ∀ c ∈ (r.trail cx n site (.start w)).claims, c.1.IsExact c.2 := by
  have ht := within_tracks hw hp n site (s := .start w) hc
  change ((r.resolveWithin cx n site (.start w)).1).isOk = true at hok
  obtain ⟨x, hx⟩ : ∃ x, (r.resolveWithin cx n site (.start w)).1 = .ok x := by
    generalize (r.resolveWithin cx n site (.start w)).1 = out at hok ⊢
    cases out with
    | error e => cases hok
    | ok x => exact ⟨x, rfl⟩
  exact (ht x hx (Session.not_cancelled.mpr hl)).2

/-- Of two sites that ask for each other, the one that was asked for first is kept. -/
theorem claims_exact_pair :
    (Toggle.pair.trail Toggle.context 2 (Toggle.site ⟨0⟩) (.start Toggle.world)).claims.map
        (fun c => (c.1.site.id.index, c.1.kept.isSome)) = [(0, true), (1, false)] ∧
      ∀ c ∈ (Toggle.pair.trail Toggle.context 2 (Toggle.site ⟨0⟩) (.start Toggle.world)).claims,
        c.1.IsExact c.2 := by
  refine ⟨by decide +kernel, ?_⟩
  exact claims_exact (Env.plain_members _) (fun s => (Toggle.pure_pair s).confined)
    Cache.well_formed_empty
    (by decide +kernel) (by decide +kernel)

end Resolver

end DoubleColon
