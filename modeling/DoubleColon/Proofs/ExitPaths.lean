import DoubleColon.Proofs.Lasting
import DoubleColon.Proofs.Toggle

/-!
# However a call ends

A provider is code that has a request at hand. `Resolver.Allows` is what such code may do on its
thread: resolve sites and assume targets, begin requests of its own, act on the world through its
interface, panic, and catch what was cancelled or has panicked. Every way a call may be cut off is
an outcome of such code.

A call leaves its session as it found it: each guard undoes what it did itself, so that calls nest
in any way. It restores the assumed targets and the sites underway, and what is claimed in the
cache afterwards was claimed before.
-/

set_option autoImplicit false

namespace DoubleColon

/-! ## Claims in the cache -/

theorem Cell.claimed_of_finish {α : Type} {s next : Cell α} {version v : Nat}
    {thread o : ThreadId} (hn : ∀ v o, next ≠ .claimed v o)
    (h : s.finish version thread next = .claimed v o) :
    s = .claimed v o ∧ ¬(v = version ∧ o = thread) := by
  cases s with
  | vacant => cases h
  | stored w x => cases h
  | claimed w p =>
    unfold finish at h
    dsimp only at h
    split at h
    · exact absurd h (hn v o)
    · rename_i hother
      cases h
      exact ⟨rfl, hother⟩

namespace Cache

variable {α : Type}

/-- Each cell that is claimed in the later cache has the same claim in the earlier one. Slots that
were taken out of the index count as well. -/
def AddsNoClaim (c d : Cache α) : Prop :=
  ∀ slot flag version owner, d.state slot flag = .claimed version owner →
    c.state slot flag = .claimed version owner

theorem noClaim_refl (c : Cache α) : c.AddsNoClaim c := fun _ _ _ _ h => h

theorem AddsNoClaim.trans {c d e : Cache α} (h : c.AddsNoClaim d) (k : d.AddsNoClaim e) :
    c.AddsNoClaim e :=
  fun slot flag version owner he => h slot flag version owner (k slot flag version owner he)

theorem noClaim_of_vacant {c d : Cache α}
    (h : ∀ slot flag, d.state slot flag = c.state slot flag ∨ d.state slot flag = .vacant) :
    c.AddsNoClaim d := by
  intro slot flag version owner hd
  rcases h slot flag with he | he
  · rwa [← he]
  · rw [he] at hd
    cases hd

theorem noClaim_slotFor (c : Cache α) (site : SiteId) : c.AddsNoClaim (c.slotFor site).1 :=
  noClaim_of_vacant fun slot flag => .inl (c.state_of_slotFor site slot flag)

theorem noClaim_invalidate (c : Cache α) (site : SiteId) : c.AddsNoClaim (c.invalidate site) := by
  refine noClaim_of_vacant fun slot flag => ?_
  unfold invalidate
  cases c.slotOf? site with
  | none => exact .inl rfl
  | some id => exact c.state_invalidated id slot flag

theorem noClaim_finish {c d : Cache α} {id : SlotId} {flag : Bool} {version : Nat}
    {thread : ThreadId} {next : Cell α} (hn : ∀ v o, next ≠ .claimed v o)
    (h : (c.update id flag fun _ => .claimed version thread).AddsNoClaim d) :
    c.AddsNoClaim (d.update id flag fun cell => cell.finish version thread next) := by
  intro slot flag' v o hd
  by_cases ha : slot ≠ id ∨ flag' ≠ flag
  · rw [state_update_apart d ha] at hd
    rw [← state_update_apart c ha fun _ => .claimed version thread]
    exact h slot flag' v o hd
  · obtain ⟨rfl, rfl⟩ : slot = id ∧ flag' = flag := by simpa using ha
    by_cases hk : slot.index < d.slots.length
    · rw [state_update hk] at hd
      obtain ⟨hs, hother⟩ := Cell.claimed_of_finish hn hd
      -- Only the claim that ends can have been made in the cell.
      have hc := h slot flag' v o hs
      rcases c.state_update_cases slot flag' (fun _ => .claimed version thread) slot flag' with
        he | ⟨-, -, he⟩
      · rwa [he] at hc
      · rw [he] at hc
        cases hc
        exact absurd ⟨rfl, rfl⟩ hother
    · rw [state_of_length_le (by simpa [update, updateSlot] using hk)] at hd
      cases hd

end Cache

/-! ## Sessions -/

/-- What the interface lets code do to the world besides requests: it may keep what it likes,
cancel tokens, and forget results. -/
inductive World.Deed {ω : Type} : (World ω → World ω) → Prop where
  | host (f : World ω → ω) : Deed fun w => { w with host := f w }
  | tokens (f : World ω → Tokens) : Deed fun w => { w with tokens := f w }
  | invalidate (site : SiteId) : Deed fun w => { w with cache := w.cache.invalidate site }
  | remove (site : SiteId) : Deed fun w => { w with cache := w.cache.remove site }
  | clear : Deed fun w => { w with cache := w.cache.clear }

theorem World.Deed.noClaim {ω : Type} {f : World ω → World ω} (h : World.Deed f) (w : World ω) :
    w.cache.AddsNoClaim (f w).cache := by
  cases h with
  | host f => exact Cache.noClaim_refl _
  | tokens f => exact Cache.noClaim_refl _
  | invalidate site => exact Cache.noClaim_invalidate w.cache site
  | remove site => exact Cache.noClaim_refl _
  | clear => exact Cache.noClaim_refl _

namespace Session

variable {ω : Type} {s t u : Session ω}

structure CleanExit (s t : Session ω) : Prop extends s.Restores t where
  noClaim : s.world.cache.AddsNoClaim t.world.cache

theorem exit_refl (s : Session ω) : s.CleanExit s := ⟨⟨rfl, rfl⟩, Cache.noClaim_refl _⟩

theorem CleanExit.trans (h : s.CleanExit t) (k : t.CleanExit u) : s.CleanExit u :=
  ⟨lasting_restores.trans h.toRestores k.toRestores, h.noClaim.trans k.noClaim⟩

end Session

namespace Resolver

variable {ω : Type} {r : Resolver ω} {cx : Context} {site : Site}

/-! ## One call -/

theorem computation_noClaim {derive : Site → Request ω (Option Ty)}
    (hd : ∀ site (s : Session ω), s.CleanExit (derive site s).2) (source : TargetOrigin)
    (s : Session ω) :
    s.world.cache.AddsNoClaim (r.resolveOrReport cx derive site source s).2.world.cache := by
  obtain ⟨host, tokens, he⟩ := @outside_computation ω r cx site derive source s
  rw [he]
  change s.world.cache.AddsNoClaim
    (if cx.env.asks site then (interfaceOf derive site source s).2 else s).world.cache
  split
  · cases source with
    | fromProvider => exact (hd site s).noClaim
    | _ => exact Cache.noClaim_refl _
  · exact Cache.noClaim_refl _

theorem closed_noClaim {c : Cache Issued} {done : Resolution → Session ω → Session ω}
    {stop : Session ω → Session ω} {out : Except Interrupt Resolution × Session ω}
    (hd : ∀ x, c.AddsNoClaim (done x out.2).world.cache)
    (hs : c.AddsNoClaim (stop out.2).world.cache) :
    c.AddsNoClaim (closed done stop out).2.world.cache := by
  rcases out with ⟨e | x, t⟩
  · exact hs
  · exact hd x

theorem leftover_unclaimed (site : Site) (mark : Nat) (x : Resolution) (t : Session ω) (v : Nat)
    (o : ThreadId) : leftover site mark x t ≠ .claimed v o := by
  unfold leftover
  split <;> simp

/-- Resolving a site exits clean if asking for its expected type does. -/
theorem with_exits {derive : Site → Request ω (Option Ty)}
    (hd : ∀ site (s : Session ω), s.CleanExit (derive site s).2) (site : Site) (s : Session ω) :
    s.CleanExit (r.resolveWith cx derive site s).2 := by
  refine ⟨with_lasting Session.lasting_restores (fun s => (hd site s).toRestores) s, ?_⟩
  have hslot : s.world.cache.AddsNoClaim (s.slotted site.id).world.cache :=
    Cache.noClaim_slotFor s.world.cache site.id
  have hcomp := @computation_noClaim ω r cx site derive hd
  rw [with_apply]
  cases r.route cx site s with
  | refused => exact Cache.noClaim_refl _
  | hit x => exact hslot
  | waiting => exact hslot
  | bypassed source =>
    have h := hcomp source ((s.polled cx.token).noteBreak site.id)
    exact closed_noClaim (fun _ => h) h
  | reentrant =>
    have h := hslot.trans
      (hcomp .untargeted (((s.polled cx.token).slotted site.id).noteBreak site.id))
    exact closed_noClaim (fun _ => h) h
  | uncached =>
    have h := hcomp .fromProvider (s.polled cx.token)
    exact closed_noClaim (fun _ => h) h
  | unstored =>
    have h := hslot.trans (hcomp .fromProvider ((s.polled cx.token).slotted site.id))
    exact closed_noClaim (fun _ => h) h
  | claiming =>
    have h := hcomp .fromProvider ((s.polled cx.token).claiming cx site)
    have hend : ∀ next : Cell Issued, (∀ v o, next ≠ .claimed v o) → s.world.cache.AddsNoClaim
        ((r.resolveOrReport cx derive site .fromProvider
          ((s.polled cx.token).claiming cx site)).2.world.cache.update
            (s.world.cache.slotFor site.id).2 cx.lenient
            fun cell => cell.finish site.version cx.thread next) :=
      fun next hn => hslot.trans (Cache.noClaim_finish hn h)
    exact closed_noClaim (fun x => hend _ (leftover_unclaimed site _ x _))
      (hend .vacant fun _ _ h => by cases h)

end Resolver

/-! ## What a provider may do -/

namespace Request

variable {ω α β : Type}

def react (body : Request ω α) (next : Except Interrupt α → Request ω β) : Request ω β := fun s =>
  let out := body s
  next out.1 out.2

def ofItsOwn (body : Request ω α) : Request ω α := fun s =>
  let out := body (.start s.world)
  (out.1, { s with world := out.2.world })

theorem bind_eq_react (body : Request ω α) (next : α → Request ω β) :
    (body >>= next) = body.react fun
      | .ok a => next a
      | .error e => fun t => (.error e, t) := by
  funext s
  rw [bind_apply]
  unfold react
  rcases body s with ⟨e | a, t⟩ <;> rfl

theorem attempt_eq_react (body : Request ω α) :
    body.attempt = body.react fun
      | .ok a => fun t => (.ok (some a), t)
      | .error .cancelled => fun t => (.ok none, t)
      | .error e => fun t => (.error e, t) := by
  funext s
  rw [attempt_apply]
  unfold react
  rcases body s with ⟨e | a, t⟩
  · cases e <;> rfl
  · rfl

end Request

namespace Resolver

variable {ω : Type}

/-- What the interface of a resolver allows code to do that runs in a context. -/
inductive Allows (r : Resolver ω) : {α : Type} → Context → Request ω α → Prop where
  /-- Return or panic. -/
  | finish {α : Type} {cx : Context} (out : Except Interrupt α) : Allows r cx fun s => (out, s)
  | look {α : Type} {cx : Context} {next : Session ω → Request ω α}
      (h : ∀ s, Allows r cx (next s)) : Allows r cx (get >>= next)
  | act {cx : Context} {f : World ω → World ω} (h : World.Deed f) : Allows r cx (Request.onWorld f)
  | react {α β : Type} {cx : Context} {body : Request ω α}
      {next : Except Interrupt α → Request ω β} (h : Allows r cx body)
      (hn : ∀ out, Allows r cx (next out)) : Allows r cx (body.react next)
  | assuming {α : Type} {cx : Context} {body : Request ω α} (site : SiteId) (target : Ty)
      (h : Allows r cx body) : Allows r cx (body.assuming site target)
  /-- The resolver does this around a provider. -/
  | whileUnderway {α : Type} {cx : Context} {body : Request ω α} (site : SiteId)
      (h : Allows r cx body) : Allows r cx (body.whileUnderway site)
  | resolve {cx : Context} {derive : Site → Request ω (Option Ty)}
      (h : ∀ site, Allows r cx (derive site)) (site : Site) :
      Allows r cx (r.resolveWith cx derive site)
  | ofItsOwn {α : Type} {cx inner : Context} {body : Request ω α} (ht : inner.thread = cx.thread)
      (h : Allows r inner body) : Allows r cx body.ofItsOwn

variable {r : Resolver ω} {cx : Context}

theorem Allows.bind {α β : Type} {body : Request ω α} {next : α → Request ω β}
    (h : r.Allows cx body) (hn : ∀ a, r.Allows cx (next a)) : r.Allows cx (body >>= next) := by
  rw [Request.bind_eq_react]
  refine .react h fun out => ?_
  cases out with
  | ok a => exact hn a
  | error e => exact .finish _

theorem Allows.attempt {α : Type} {body : Request ω α} (h : r.Allows cx body) :
    r.Allows cx body.attempt := by
  rw [Request.attempt_eq_react]
  refine .react h fun out => ?_
  rcases out with (_ | _ | _ | _) | a <;> exact .finish _

/-- Whatever code does by way of the interface, it exits clean. -/
theorem Allows.exits {α : Type} {body : Request ω α} (h : r.Allows cx body) (s : Session ω) :
    s.CleanExit (body s).2 := by
  induction h generalizing s with
  | finish out => exact s.exit_refl
  | look h ih => exact ih s s
  | act h => exact ⟨⟨rfl, rfl⟩, h.noClaim s.world⟩
  | react h hn ih ihn => exact (ih s).trans (ihn _ _)
  | assuming site target h ih =>
    have hb := ih (s.assume site (some target))
    exact ⟨Session.lasting_restores.assuming site _ hb.toRestores, hb.noClaim⟩
  | whileUnderway site h ih =>
    have hb := ih (s.entering site)
    rw [while_apply]
    refine ⟨Session.lasting_restores.entering site hb.toRestores, ?_⟩
    simpa using hb.noClaim
  | resolve h site ih => exact with_exits ih site s
  | ofItsOwn ht h ih => exact ⟨⟨rfl, rfl⟩, (ih (.start s.world)).noClaim⟩

/-- For every provider, a call to resolve a site and a call that assumes a target leave no trace in
the request, wherever they are made and however they end. -/
theorem calls_exit_clean {provider : Site → Request ω (Option Ty)}
    (hp : ∀ site, r.Allows cx (provider site)) (s : Session ω) :
    (∀ site, s.CleanExit
      (r.resolveWith cx (fun i => (provider i).whileUnderway i.id) site s).2) ∧
    (∀ (α : Type) (body : Request ω α), r.Allows cx body →
      ∀ site target, s.CleanExit (body.assuming site target s).2) :=
  ⟨fun site => (Allows.resolve (fun i => .whileUnderway i.id (hp i)) site).exits s,
    fun _ _ hb site target => (Allows.assuming site target hb).exits s⟩

def failing (site : Site) : Request Unit (Option Ty) :=
  (Toggle.pair.resolveWith Toggle.context (fun _ => pure none) site).assuming site.id Toggle.sink
    >>= fun _ => throw .outOfRange

theorem allows_failing (site : Site) : Toggle.pair.Allows Toggle.context (failing site) :=
  (Allows.assuming site.id Toggle.sink (.resolve (fun _ => .finish (.ok none)) site)).bind
    fun _ => .finish (.error .outOfRange)

theorem failing_exits_clean :
    (∀ site, Toggle.pair.Allows Toggle.context (failing site)) ∧
    (Toggle.pair.resolveWith Toggle.context (fun i => (failing i).whileUnderway i.id)
      (Toggle.site ⟨0⟩) (.start Toggle.world)).1 = .error .outOfRange ∧
    (Session.start Toggle.world).CleanExit (Toggle.pair.resolveWith Toggle.context
      (fun i => (failing i).whileUnderway i.id) (Toggle.site ⟨0⟩) (.start Toggle.world)).2 ∧
    (Session.start Toggle.world).CleanExit
      ((failing (Toggle.site ⟨0⟩)).assuming ⟨1⟩ Toggle.sink (.start Toggle.world)).2 := by
  have h := calls_exit_clean allows_failing (.start Toggle.world)
  exact ⟨allows_failing, rfl, h.1 _, h.2 _ _ (allows_failing _) _ _⟩

/-! ## Scripts -/

theorem allows_script {ask : Site → Request ω Issued} (ha : ∀ site, r.Allows cx (ask site))
    {α : Type} {script : Script ω α} (hs : script.ActsBy World.Deed) :
    r.Allows cx (script.run cx ask) := by
  induction script with
  | pure a => exact .finish (.ok a)
  | resolve site next ih => exact (ha site).attempt.bind fun x => ih x (hs x)
  | assuming site target body next ihb ihn =>
    exact (Allows.assuming site target (ihb hs.1)).bind fun b => ihn b (hs.2 b)
  | inspect next ih => exact .look fun s => ih _ (hs _)
  | cancel next ih =>
    exact (Allows.act (.tokens fun w => w.tokens.cancel cx.token)).bind fun _ => ih hs
  | act f next ih =>
    exact (Allows.act hs.1).bind fun _ => .look fun s => ih _ (hs.2 _)

theorem allows_expected (hp : ∀ site, (r.provider site).ActsBy World.Deed) (n : Nat) (site : Site) :
    r.Allows cx (r.expectedType cx n site) := by
  induction n generalizing site with
  | zero => exact .finish (.error .outOfFuel)
  | succ n ih => exact .whileUnderway site.id (allows_script (fun i => .resolve ih i) (hp site))

/-- A request of its own leaves no claim in the cache. -/
theorem resolve_noClaim (hp : ∀ site, (r.provider site).ActsBy World.Deed) (n : Nat) (site : Site)
    (w : World ω) : w.cache.AddsNoClaim (r.resolve cx n site w).2.cache :=
  ((Allows.resolve (allows_expected hp n) site).exits (.start w)).noClaim

end Resolver

end DoubleColon
