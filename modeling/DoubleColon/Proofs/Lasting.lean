import DoubleColon.Proofs.Frames

/-!
# What lasts through a request

A request changes its session by few kinds of steps, and undoes on its way out what it did on its
way in. A relation between an earlier and a later session that bears each of them
(`Session.Lasting`) holds between the beginning and the end of every request, however it ends, as
far as it bears what the provider does to the world.

So a request restores the assumed targets and the sites underway for every provider, and the number
of issued results never falls unless the provider lowers it.
-/

set_option autoImplicit false

namespace DoubleColon

namespace Script

variable {ω : Type}

def ActsBy (kind : (World ω → World ω) → Prop) : {α : Type} → Script ω α → Prop
  | _, .pure _ => True
  | _, .resolve _ next => ∀ r, (next r).ActsBy kind
  | _, .assuming _ _ body next => body.ActsBy kind ∧ ∀ b, (next b).ActsBy kind
  | _, .inspect next => ∀ v, (next v).ActsBy kind
  | _, .cancel next => next.ActsBy kind
  | _, .act f next => kind f ∧ ∀ w, (next w).ActsBy kind

theorem actsBy_of_forall {kind : (World ω → World ω) → Prop} (h : ∀ f, kind f) {α : Type}
    (script : Script ω α) : script.ActsBy kind := by
  induction script with
  | pure a => trivial
  | resolve site next ih => exact ih
  | assuming site target body next ihb ihn => exact ⟨ihb, ihn⟩
  | inspect next ih => exact ih
  | cancel next ih => exact ih
  | act f next ih => exact ⟨h f, ih⟩

theorem IsConfined.actsBy {kind : (World ω → World ω) → Prop}
    (h : ∀ f : World ω → World ω, (∀ w, f w = { w with host := (f w).host }) → kind f) {α : Type}
    {script : Script ω α} (hs : script.IsConfined) : script.ActsBy kind := by
  induction script with
  | pure a => trivial
  | resolve site next ih => exact fun r => ih r (hs r)
  | assuming site target body next ihb ihn => exact ⟨ihb hs.1, fun b => ihn b (hs.2 b)⟩
  | inspect next ih => exact fun v => ih v (hs v)
  | cancel next => exact hs.elim
  | act f next ih => exact ⟨h f hs.1, fun w => ih w (hs.2 w)⟩

end Script

namespace Session

variable {ω : Type}

def leaving (site : SiteId) (s t : Session ω) : Session ω :=
  { t with underway := if site ∈ s.underway then t.underway else t.underway.erase site }

/-- A relation between an earlier and a later session that bears every kind of step of a request. -/
structure Lasting (R : Session ω → Session ω → Prop) : Prop where
  refl : ∀ s, R s s
  trans : ∀ {s t u}, R s t → R t u → R s u
  outside : ∀ s host tokens, R s (s.outside host tokens)
  breaks : ∀ (s : Session ω) breaks, R s { s with breaks }
  issuing : ∀ s, R s s.issuing
  cache : ∀ (s : Session ω) cache, R s (s.onWorld fun w => { w with cache })
  assuming : ∀ {s t} site target, R (s.assume site target) t → R s (t.assume site (s.assumed site))
  entering : ∀ {s t} site, R (s.entering site) t → R s (s.leaving site t)

section

variable {R : Session ω → Session ω → Prop} (hR : Lasting R)
include hR

theorem Lasting.noteBreak (s : Session ω) (site : SiteId) : R s (s.noteBreak site) :=
  hR.breaks s (s.breaks ++ [site])

theorem Lasting.slotted (s : Session ω) (site : SiteId) : R s (s.slotted site) :=
  hR.cache s (s.world.cache.slotFor site).1

theorem Lasting.claiming (s : Session ω) (cx : Context) (site : Site) :
    R s (s.claiming cx site) :=
  hR.trans (hR.slotted s site.id) (hR.cache _ (s.claiming cx site).world.cache)

end

structure Restores (s t : Session ω) : Prop where
  assumed : t.assumed = s.assumed
  underway : t.underway = s.underway

theorem underway_leaving {site : SiteId} {s t : Session ω}
    (h : t.underway = (s.entering site).underway) : (s.leaving site t).underway = s.underway := by
  unfold leaving
  dsimp only
  rw [h]
  by_cases hm : site ∈ s.underway
  · simp [entering, hm]
  · simp [entering, hm]

theorem lasting_restores : Lasting (Restores (ω := ω)) where
  refl _ := ⟨rfl, rfl⟩
  trans h k := ⟨k.assumed.trans h.assumed, k.underway.trans h.underway⟩
  outside _ _ _ := ⟨rfl, rfl⟩
  breaks _ _ := ⟨rfl, rfl⟩
  issuing _ := ⟨rfl, rfl⟩
  cache _ _ := ⟨rfl, rfl⟩
  assuming {s t} site target h := by
    refine ⟨?_, h.underway⟩
    have ht : t.assumed = (s.assume site target).assumed := h.assumed
    funext i
    by_cases hi : i = site <;> simp [assume, ht, hi]
  entering {s t} site h :=
    ⟨h.assumed.trans (assumed_entering site s), underway_leaving h.underway⟩

theorem lasting_issued : Lasting fun s t : Session ω => s.world.issued ≤ t.world.issued where
  refl _ := Nat.le_refl _
  trans := Nat.le_trans
  outside _ _ _ := Nat.le_refl _
  breaks _ _ := Nat.le_refl _
  issuing _ := Nat.le_succ _
  cache _ _ := Nat.le_refl _
  assuming _ _ h := h
  entering site h := by simpa [leaving] using h

end Session

namespace Resolver

variable {ω : Type} {r : Resolver ω} {cx : Context} {site : Site} {s : Session ω}
  {R : Session ω → Session ω → Prop}

theorem computation_lasting (hR : Session.Lasting R) {derive : Site → Request ω (Option Ty)}
    (hd : ∀ s, R s (derive site s).2) (source : TargetOrigin) (s : Session ω) :
    R s (r.resolveOrReport cx derive site source s).2 := by
  obtain ⟨host, tokens, he⟩ := @outside_computation ω r cx site derive source s
  rw [he]
  refine hR.trans ?_ (hR.outside _ host tokens)
  split
  · cases source with
    | fromProvider => exact hd s
    | _ => exact hR.refl s
  · exact hR.refl s

theorem closed_lasting {done : Resolution → Session ω → Session ω} {stop : Session ω → Session ω}
    {out : Except Interrupt Resolution × Session ω} (hd : ∀ x, R s (done x out.2))
    (hs : R s (stop out.2)) : R s (closed done stop out).2 := by
  rcases out with ⟨e | x, t⟩
  · exact hs
  · exact hd x

theorem with_lasting (hR : Session.Lasting R) {derive : Site → Request ω (Option Ty)}
    (hd : ∀ s, R s (derive site s).2) (s : Session ω) :
    R s (r.resolveWith cx derive site s).2 := by
  have hp : R s (s.polled cx.token) := hR.outside _ _ _
  have hps := hR.trans hp (hR.slotted (s.polled cx.token) site.id)
  have hcomp : ∀ {u} source, R s u → R s (r.resolveOrReport cx derive site source u).2 :=
    fun source h => hR.trans h (computation_lasting hR hd source _)
  have hend : ∀ {t} cell, R s t → R s (endClaim (s.world.cache.slotFor site.id).2 cx.lenient
      site.version cx.thread cell t) := fun cell h => hR.trans h (hR.cache _ _)
  have hsettled : ∀ {t : Session ω} mark, R s t → R s (t.settle mark site.id).issuing :=
    fun mark h => hR.trans h (hR.trans (hR.breaks _ _) (hR.issuing _))
  rw [with_apply]
  cases r.route cx site s with
  | refused => exact hp
  | hit x => exact hps
  | waiting => exact hps
  | bypassed source =>
    have h := hcomp source (hR.trans hp (hR.noteBreak _ site.id))
    exact closed_lasting (fun _ => hR.trans h (hR.issuing _)) h
  | reentrant =>
    have h := hcomp .untargeted (hR.trans hps (hR.noteBreak _ site.id))
    exact closed_lasting (fun _ => hsettled _ h) h
  | uncached =>
    have h := hcomp .fromProvider hp
    exact closed_lasting (fun _ => hR.trans h (hR.issuing _)) h
  | unstored =>
    have h := hcomp .fromProvider hps
    exact closed_lasting (fun _ => hsettled _ h) h
  | claiming =>
    have h := hcomp .fromProvider (hR.trans hp (hR.claiming _ cx site))
    exact closed_lasting (fun _ => hend _ (hsettled _ h)) (hend _ h)

end Resolver

theorem Script.run_lasting {ω α : Type} {cx : Context} {ask : Site → Request ω Issued}
    {R : Session ω → Session ω → Prop} (hR : Session.Lasting R)
    (ha : ∀ site s, R s (ask site s).2) {script : Script ω α}
    (hs : script.ActsBy fun f => ∀ s : Session ω, R s (s.onWorld f)) (s : Session ω) :
    R s (script.run cx ask s).2 := by
  induction script generalizing s with
  | pure a => exact hR.refl s
  | resolve site next ih =>
    rw [Script.run, Request.bind_apply]
    have h := ha site s
    rw [← Request.attempt_session] at h
    generalize (ask site).attempt s = out at h ⊢
    rcases out with ⟨e | x, t⟩
    · exact h
    · exact hR.trans h (ih x (hs x) t)
  | assuming site target body next ihb ihn =>
    rw [Script.run, Request.bind_apply, Request.assuming_apply]
    have h := hR.assuming site _ (ihb hs.1 (s.assume site (some target)))
    generalize body.run cx ask (s.assume site (some target)) = out at h ⊢
    rcases out with ⟨e | b, t⟩
    · exact h
    · exact hR.trans h (ihn b (hs.2 b) _)
  | inspect next ih =>
    rw [Script.run, Request.get_bind]
    exact ih _ (hs _) s
  | cancel next ih =>
    rw [Script.run, Request.onWorld, Request.modify_bind]
    exact hR.trans (hR.outside s s.world.host (s.world.tokens.cancel cx.token)) (ih hs _)
  | act f next ih =>
    rw [Script.run, Request.onWorld, Request.modify_bind, Request.get_bind]
    exact hR.trans (hs.1 s) (ih _ (hs.2 _) _)

theorem Script.run_restores {ω α : Type} {cx : Context} {ask : Site → Request ω Issued}
    (ha : ∀ site (s : Session ω), s.Restores (ask site s).2) (script : Script ω α)
    (s : Session ω) : s.Restores (script.run cx ask s).2 :=
  Script.run_lasting Session.lasting_restores ha
    (Script.actsBy_of_forall (fun _ _ => ⟨rfl, rfl⟩) script) s

namespace Resolver

variable {ω : Type} {r : Resolver ω} {cx : Context} {R : Session ω → Session ω → Prop}

theorem expected_lasting (hR : Session.Lasting R)
    (hp : ∀ site, (r.provider site).ActsBy fun f => ∀ s : Session ω, R s (s.onWorld f)) (n : Nat)
    (site : Site) (s : Session ω) : R s (r.expectedType cx n site s).2 := by
  induction n generalizing site s with
  | zero => exact hR.refl s
  | succ n ih =>
    rw [expected_apply]
    exact hR.entering site.id
      (Script.run_lasting hR (fun site s => with_lasting hR (fun s => ih site s) s) (hp site) _)

theorem within_lasting (hR : Session.Lasting R)
    (hp : ∀ site, (r.provider site).ActsBy fun f => ∀ s : Session ω, R s (s.onWorld f)) (n : Nat)
    (site : Site) (s : Session ω) : R s (r.resolveWithin cx n site s).2 :=
  with_lasting hR (fun s => expected_lasting hR hp n site s) s

/-- Whatever the provider does, a request restores its session. -/
theorem within_restores (r : Resolver ω) (cx : Context) (n : Nat) (site : Site) (s : Session ω) :
    s.Restores (r.resolveWithin cx n site s).2 :=
  within_lasting Session.lasting_restores
    (fun site => Script.actsBy_of_forall (fun _ _ => ⟨rfl, rfl⟩) (r.provider site)) n site s

theorem expected_issued (hp : ∀ site, (r.provider site).IsConfined) (n : Nat) (site : Site)
    (s : Session ω) : s.world.issued ≤ (r.expectedType cx n site s).2.world.issued := by
  refine expected_lasting Session.lasting_issued (fun site => (hp site).actsBy fun f hf s => ?_) n
    site s
  exact Nat.le_of_eq (congrArg World.issued (hf s.world)).symm

end Resolver

end DoubleColon
