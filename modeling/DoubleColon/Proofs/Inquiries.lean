import DoubleColon.Proofs.Interruption

/-!
# Providers that answer from results

A provider of this kind answers for a site as a function of the results that it asks for, so what
it comes to is determined by a table of results: `Inquiry.eval`. A resolver whose sites do not
change is followed here through one request. If a table solves the equations of the sites, if it
agrees with the untargeted value of a site wherever a cycle is broken, and if the cache holds
nothing but values of the table, then so does the request, whatever the cache holds already.
-/

set_option autoImplicit false

namespace DoubleColon

/-- How the expected type of a site follows from results of sites. -/
inductive Inquiry where
  | answer (t : Option Ty)
  | ask (site : SiteId) (next : Resolution → Inquiry)

namespace Inquiry

def script {ω : Type} (sites : SiteId → Site) : Inquiry → Script ω (Option Ty)
  | answer t => .pure t
  | ask site next => .resolve (sites site) fun
    | some x => (next x.resolution).script sites
    | none => .pure none

def eval (look : SiteId → Except Interrupt Resolution) : Inquiry → Except Interrupt (Option Ty)
  | answer t => .ok t
  | ask site next => look site >>= fun x => (next x).eval look

def AsksOnly (p : SiteId → Prop) : Inquiry → Prop
  | answer _ => True
  | ask site next => p site ∧ ∀ x, (next x).AsksOnly p

theorem pure_script {ω : Type} (sites : SiteId → Site) (q : Inquiry) :
    (q.script sites : Script ω (Option Ty)).IsPure := by
  induction q with
  | answer t => trivial
  | ask site next ih =>
    rw [script]
    refine fun x => ?_
    cases x with
    | none => trivial
    | some x => exact ih x.resolution

theorem AsksOnly.mono {p p' : SiteId → Prop} {q : Inquiry} (h : q.AsksOnly p)
    (hp : ∀ i, p i → p' i) : q.AsksOnly p' := by
  induction q with
  | answer t => trivial
  | ask site next ih => exact ⟨hp site h.1, fun x => ih x (h.2 x)⟩

end Inquiry

structure Caller where
  token : TokenId
  thread : ThreadId

/-- Sites that do not change, with what their expected types depend on. -/
structure Setting (ω : Type) where
  base : Resolver ω
  env : Env
  lenient : Bool
  content : SiteId → Site
  inquiry : SiteId → Inquiry

namespace Setting

variable {ω : Type}

def site (S : Setting ω) (i : SiteId) : Site := { S.content i with id := i }

@[simp] theorem site_id (S : Setting ω) (i : SiteId) : (S.site i).id = i := rfl

@[reducible] def context (S : Setting ω) (c : Caller) : Context :=
  ⟨S.env, S.lenient, c.token, c.thread⟩

def resolver (S : Setting ω) : Resolver ω :=
  { S.base with
    settings := { S.base.settings with cacheEnabled := true }
    provider := fun site => (S.inquiry site.id).script S.site
    walker := Env.memberPlan }

def value (S : Setting ω) (i : SiteId) (t : Option Ty) : Except Interrupt Resolution :=
  S.resolver.value S.env (S.site i) t

def outcome (S : Setting ω) (i : SiteId) (look : SiteId → Except Interrupt Resolution) :
    Except Interrupt Resolution :=
  if S.env.asks (S.site i) then (S.inquiry i).eval look >>= S.value i else .ok .empty

theorem confined (S : Setting ω) (site : Site) : (S.resolver.provider site).IsConfined :=
  (Inquiry.pure_script S.site (S.inquiry site.id)).confined

theorem plain (S : Setting ω) (q : WalkRequest) :
    (S.resolver.walker S.env q).IsPlain :=
  Env.plain_members S.env q

def CellOk (S : Setting ω) (v : SiteId → Except Interrupt Resolution) (known : SiteId → Prop)
    (held : List SiteId) (i : SiteId) : Cell Issued → Prop
  | .vacant => ¬ known i
  | .claimed _ _ => i ∈ held ∧ ¬ known i
  | .stored version x => version = (S.site i).version ∧ v i = .ok x.resolution

/-- A session of a live request with the sites `U` underway. Cells are claimed only for `held`
sites and hold nothing but values of the table `v`, at least those of the `known` sites. Cycles were
broken only at `broken` sites. -/
structure Steady (S : Setting ω) (T : Tokens) (v : SiteId → Except Interrupt Resolution)
    (known broken : SiteId → Prop) (held U : List SiteId) (s : Session ω) : Prop where
  assumed : ∀ i, s.assumed i = none
  underway : s.underway = U
  tokens : s.world.tokens = T
  wellFormed : s.world.cache.WellFormed
  cells : ∀ i, S.CellOk v known held i (s.world.cache.cell i S.lenient)
  breaks : ∀ b ∈ s.breaks, broken b

/-- A table `v` of results is right for requests. `Ok` tells, for the sites underway, which site may
be computed next; `look i` is what the provider is told when it asks on behalf of site `i`. It is
told the untargeted value of a site underway, and otherwise what the table says. -/
structure Plan (S : Setting ω) (v : SiteId → Except Interrupt Resolution)
    (look : SiteId → SiteId → Except Interrupt Resolution) (known broken : SiteId → Prop)
    (Ok : List SiteId → SiteId → Prop) (depth : Nat) : Prop where
  solves : ∀ U i, Ok U i → S.outcome i (look i) = v i
  apart : ∀ U i, Ok U i → i ∉ U
  short : ∀ U i, Ok U i → U.length < depth
  asks : ∀ U i, Ok U i → (S.inquiry i).AsksOnly fun j =>
    (j ∈ i :: U ∧ broken j ∧ look i j = S.value j none) ∨
    (j ∉ i :: U ∧ look i j = v j ∧ (known j ∨ Ok (i :: U) j))

variable {S : Setting ω} {T : Tokens} {c : Caller} {v : SiteId → Except Interrupt Resolution}
  {look : SiteId → SiteId → Except Interrupt Resolution} {known broken : SiteId → Prop}
  {held U : List SiteId} {s t : Session ω} {i : SiteId}

theorem Steady.live (h : S.Steady T v known broken held U s) (hl : T.IsLive c.token) :
    s.Live c.token := by
  rw [Session.Live, h.tokens]
  exact hl

theorem Steady.outside (h : S.Steady T v known broken held U s) (host : ω) :
    S.Steady T v known broken held U (s.outside host s.world.tokens) :=
  ⟨h.assumed, h.underway, h.tokens, h.wellFormed, h.cells, h.breaks⟩

theorem Steady.issuing (h : S.Steady T v known broken held U s) :
    S.Steady T v known broken held U s.issuing :=
  ⟨h.assumed, h.underway, h.tokens, h.wellFormed, h.cells, h.breaks⟩

theorem ask_underway (h : S.Steady T v known broken held U s) (hl : T.IsLive c.token)
    {j : SiteId} (hj : j ∈ U) (hb : broken j) (n : Nat) :
    ∃ out t, S.resolver.resolveWithin (S.context c) n (S.site j) s = (out, t) ∧
      out.map (·.resolution) = S.value j none ∧ S.Steady T v known broken held U t := by
  have hr : S.resolver.route (S.context c) (S.site j) s = .bypassed .untargeted := by
    unfold Resolver.route
    rw [Tokens.poll_live (h.live hl), site_id, h.assumed j, h.underway]
    simp [hj]
  have hn : S.Steady T v known broken held U (s.noteBreak j) := by
    refine ⟨h.assumed, h.underway, h.tokens, h.wellFormed, h.cells, fun b hm => ?_⟩
    rcases List.mem_append.mp hm with hm | hm
    · exact h.breaks b hm
    · rwa [List.mem_singleton.mp hm]
  have hy : Request.Yields (S.context c).token (S.resolver.resolveOrReport (S.context c)
      (S.resolver.expectedType (S.context c) n) (S.site j) .untargeted) (S.value j none) :=
    Resolver.yields_report S.plain fun _ => rfl
  obtain ⟨host, he⟩ := hy.live (hn.live hl)
  unfold Resolver.resolveWithin
  rw [Resolver.with_apply, hr, Session.polled_live (h.live hl)]
  change ∃ out t, Resolver.closed _ _ (S.resolver.resolveOrReport (S.context c)
    (S.resolver.expectedType (S.context c) n) (S.site j) .untargeted (s.noteBreak j)) = _ ∧ _
  rw [he]
  cases hv : S.value j none with
  | error e => exact ⟨_, _, rfl, rfl, hn.outside host⟩
  | ok x => exact ⟨_, _, rfl, rfl, (hn.outside host).issuing⟩

theorem inquiry_run (hl : T.IsLive c.token) {n : Nat} {allowed : SiteId → Prop}
    {w : SiteId → Except Interrupt Resolution}
    (ha : ∀ j, allowed j → ∀ s, S.Steady T v known broken held U s →
      ∃ out t, S.resolver.resolveWithin (S.context c) n (S.site j) s = (out, t) ∧
        out.map (·.resolution) = w j ∧ S.Steady T v known broken held U t)
    {q : Inquiry} (hq : q.AsksOnly allowed) (h : S.Steady T v known broken held U s) :
    ∃ t, (q.script S.site).run (S.context c) (S.resolver.resolveWithin (S.context c) n) s =
      (q.eval w, t) ∧ S.Steady T v known broken held U t := by
  induction q generalizing s with
  | answer t => exact ⟨s, rfl, h⟩
  | ask j next ih =>
    obtain ⟨out, t, he, hv, ht⟩ := ha j hq.1 s h
    rw [Inquiry.script, Inquiry.eval, ← hv, Script.run, Request.bind_apply, Request.attempt_apply,
      he]
    cases out with
    | ok x => exact ih x.resolution (hq.2 x.resolution) ht
    | error e =>
      cases e with
      | cancelled =>
        -- A request ends as cancelled only under a cancelled token.
        have htell : Request.Tells (S.context c).token
            (S.resolver.resolveWithin (S.context c) n (S.site j)) :=
          Resolver.tells_within S.plain S.confined n (S.site j)
        replace htell := htell s
        rw [he] at htell
        have hc := htell (.inr rfl)
        have hn := Tokens.not_cancelled_of_live (ht.live hl)
        rw [Session.IsCancelled] at hc
        exact absurd (hc.symm.trans hn) (by decide)
      | _ => exact ⟨t, rfl, ht⟩

/-! ## One claim -/

theorem cellOk_cons {j : SiteId} (hj : j ≠ i) {c : Cell Issued} :
    S.CellOk v known (i :: U) j c ↔ S.CellOk v known U j c := by
  cases c with
  | claimed version owner => simp [CellOk, hj]
  | _ => rfl

theorem Steady.slotted (h : S.Steady T v known broken held U s) (i : SiteId) :
    S.Steady T v known broken held U (s.slotted i) := by
  refine ⟨h.assumed, h.underway, h.tokens, (Cache.grows_slotFor h.wellFormed i).wellFormed,
    fun j => ?_, h.breaks⟩
  have hc := congrFun (congrFun (Cache.cell_slotFor h.wellFormed i) j) S.lenient
  change S.CellOk v known held j ((s.world.cache.slotFor i).1.cell j S.lenient)
  rw [hc]
  exact h.cells j

theorem Steady.claiming (h : S.Steady T v known broken U U s) (hi : ¬ known i) :
    S.Steady T v known broken (i :: U) U (s.claiming (S.context c) (S.site i)) := by
  refine ⟨h.assumed, h.underway, h.tokens,
    (Session.grows_claiming h.wellFormed (S.context c) (S.site i)).wellFormed, fun j => ?_,
    h.breaks⟩
  by_cases hj : j = i
  · subst hj
    have hc := Session.cell_claiming h.wellFormed (S.context c) (S.site j)
    rw [site_id] at hc
    rw [hc]
    exact ⟨List.mem_cons_self, hi⟩
  · rw [Session.cell_claiming_apart h.wellFormed (S.context c) (S.site i) (.inl hj),
      cellOk_cons hj]
    exact h.cells j

theorem Steady.entering (h : S.Steady T v known broken held U s) (hi : i ∉ U) :
    S.Steady T v known broken held (i :: U) (s.entering i) := by
  have he : s.entering i = { s with underway := i :: s.underway } := by
    rw [Session.entering, h.underway, if_neg hi]
  rw [he]
  exact ⟨h.assumed, congrArg (i :: ·) h.underway, h.tokens, h.wellFormed, h.cells, h.breaks⟩

theorem Steady.settled (h : S.Steady T v known broken held U s) (mark : Nat) (i : SiteId) :
    S.Steady T v known broken held U (s.settle mark i).issuing := by
  refine ⟨h.assumed, h.underway, h.tokens, h.wellFormed, h.cells, fun b hb => h.breaks b ?_⟩
  rcases List.mem_append.mp hb with hb | hb
  · exact List.mem_of_mem_take hb
  · exact List.mem_of_mem_drop (List.mem_filter.mp hb).1

theorem Steady.ended (h : S.Steady T v known broken (i :: U) U t) (hc : s.world.cache.WellFormed)
    (hk : (s.claiming (S.context c) (S.site i)).Keeps (S.context c).lenient
      ((S.site i).id :: s.underway) t)
    {next : Cell Issued} (hn : S.CellOk v known U i next) :
    S.Steady T v known broken U U (Resolver.endClaim (s.world.cache.slotFor (S.site i).id).2
      (S.context c).lenient (S.site i).version (S.context c).thread next t) := by
  refine ⟨h.assumed, h.underway, h.tokens,
    (Cache.grows_update hk.grows.wellFormed _ _ _).wellFormed, fun j => ?_, h.breaks⟩
  by_cases hj : j = i
  · subst hj
    change S.CellOk v known U j (Cache.cell _ (S.site j).id _)
    rw [Resolver.cell_end_own hc hk next]
    exact hn
  · rw [Resolver.cell_end_other hk (.inl hj), ← cellOk_cons hj]
    exact h.cells j

/-! ## One request -/

theorem computation (hl : T.IsLive c.token) (n : Nat) {allowed : SiteId → Prop}
    {w : SiteId → Except Interrupt Resolution}
    (ha : ∀ j, allowed j → ∀ s, S.Steady T v known broken held (i :: U) s →
      ∃ out t, S.resolver.resolveWithin (S.context c) n (S.site j) s = (out, t) ∧
        out.map (·.resolution) = w j ∧ S.Steady T v known broken held (i :: U) t)
    (hq : (S.inquiry i).AsksOnly allowed) (hi : i ∉ U)
    (h : S.Steady T v known broken held U s) :
    ∃ t, S.resolver.resolveOrReport (S.context c) (S.resolver.expectedType (S.context c) (n + 1))
      (S.site i) .fromProvider s = (S.outcome i w, t) ∧ S.Steady T v known broken held U t := by
  unfold outcome
  cases hasks : (S.context c).env.asks (S.site i) with
  | false =>
    obtain ⟨host, he⟩ := Resolver.unasked_apply (r := S.resolver) hasks
      (S.resolver.expectedType (S.context c) (n + 1)) .fromProvider s
    exact ⟨_, he, h.outside host⟩
  | true =>
    obtain ⟨t, he, ht⟩ := inquiry_run hl ha hq (h.entering hi)
    have hd : Resolver.interfaceOf (S.resolver.expectedType (S.context c) (n + 1)) (S.site i)
        .fromProvider s = ((S.inquiry i).eval w, { t with underway := U }) := by
      have hrun : (S.resolver.provider (S.site i)).run (S.context c)
          (S.resolver.resolveWithin (S.context c) n) (s.entering (S.site i).id) = _ := he
      change S.resolver.expectedType (S.context c) (n + 1) (S.site i) s = _
      rw [Resolver.expected_apply, hrun]
      dsimp only
      rw [h.underway, ht.underway, site_id, if_neg hi, List.erase_cons_head]
    have hu : S.Steady T v known broken held U { t with underway := U } :=
      ⟨ht.assumed, rfl, ht.tokens, ht.wellFormed, ht.cells, ht.breaks⟩
    rw [Resolver.asked_apply hasks, Request.bind_apply, hd]
    cases (S.inquiry i).eval w with
    | error e => exact ⟨_, rfl, hu⟩
    | ok interface =>
      obtain ⟨host, hv⟩ := (Resolver.yields_conclusion (r := S.resolver) S.plain hasks
        interface).live (hu.live hl)
      exact ⟨_, hv, hu.outside host⟩

theorem request_stored (hl : T.IsLive c.token) (n : Nat) (hi : i ∉ U)
    (h : S.Steady T v known broken U U s) {version : Nat} {x : Issued}
    (hx : s.world.cache.cell i S.lenient = .stored version x) :
    ∃ t, S.resolver.resolveWithin (S.context c) n (S.site i) s = (.ok x, t) ∧
      v i = .ok x.resolution ∧ S.Steady T v known broken U U t ∧
      t.world.cache.cell i S.lenient = .stored version x := by
  have hcell := h.cells i
  rw [hx] at hcell
  obtain ⟨rfl, hv⟩ := hcell
  have hr : S.resolver.route (S.context c) (S.site i) s = .hit x := by
    unfold Resolver.route
    rw [Tokens.poll_live (h.live hl), site_id, h.assumed, h.underway, hx]
    simp [hi, resolver, Cell.admission_stored]
  refine ⟨s.slotted i, ?_, hv, h.slotted i, ?_⟩
  · unfold Resolver.resolveWithin
    rw [Resolver.with_apply, Session.polled_live (h.live hl), hr]
    rfl
  · exact (congrFun (congrFun (Cache.cell_slotFor h.wellFormed i) i) S.lenient).trans hx

theorem leftover_ok (mark : Nat) (t : Session ω) {x : Resolution} (hk : ¬ known i)
    (hv : v i = .ok x) : S.CellOk v known U i (Resolver.leftover (S.site i) mark x t) := by
  unfold Resolver.leftover
  split
  · exact ⟨rfl, hv⟩
  · exact hk

theorem leftover_stored (h : S.Steady T v known broken held U t) (hb : ∀ b, broken b → b = i)
    (mark : Nat) (x : Resolution) : Resolver.leftover (S.site i) mark x t =
      .stored (S.site i).version ⟨t.world.issued, x⟩ := by
  have ho : t.openBreaks mark (S.site i).id = [] := by
    refine List.filter_eq_nil_iff.mpr fun b hm => ?_
    have := hb b (h.breaks b (List.mem_of_mem_drop hm))
    simp [this]
  rw [Resolver.leftover, ho]
  rfl

theorem Steady.free (h : S.Steady T v known broken U U s) (hi : i ∉ U) :
    (∃ version x, s.world.cache.cell i S.lenient = .stored version x) ∨
      (¬ known i ∧ s.world.cache.cell i S.lenient = .vacant) := by
  have hcell := h.cells i
  cases hx : s.world.cache.cell i S.lenient with
  | vacant =>
    rw [hx] at hcell
    exact .inr ⟨hcell, rfl⟩
  | claimed version owner =>
    rw [hx] at hcell
    exact absurd hcell.1 hi
  | stored version x => exact .inl ⟨version, x, rfl⟩

theorem request_claiming (hl : T.IsLive c.token) (n : Nat) {allowed : SiteId → Prop}
    {w : SiteId → Except Interrupt Resolution}
    (ha : ∀ j, allowed j → ∀ s, S.Steady T v known broken (i :: U) (i :: U) s →
      ∃ out t, S.resolver.resolveWithin (S.context c) n (S.site j) s = (out, t) ∧
        out.map (·.resolution) = w j ∧ S.Steady T v known broken (i :: U) (i :: U) t)
    (hq : (S.inquiry i).AsksOnly allowed) (hv : S.outcome i w = v i) (hi : i ∉ U)
    (h : S.Steady T v known broken U U s) (hk : ¬ known i)
    (hx : s.world.cache.cell i S.lenient = .vacant) :
    ∃ out t, S.resolver.resolveWithin (S.context c) (n + 1) (S.site i) s = (out, t) ∧
      out.map (·.resolution) = v i ∧ S.Steady T v known broken U U t ∧
      ((∀ b, broken b → b = i) → ∀ y, out = .ok y →
        ∃ version x, t.world.cache.cell i S.lenient = .stored version x) := by
  have hr : S.resolver.route (S.context c) (S.site i) s = .claiming := by
    unfold Resolver.route
    rw [Tokens.poll_live (h.live hl), site_id, h.assumed, h.underway, hx]
    simp [hi, resolver, Cell.admission]
  obtain ⟨t, he, ht⟩ := computation hl n ha hq hi (h.claiming (c := c) hk)
  have hkeep : (s.claiming (S.context c) (S.site i)).Keeps (S.context c).lenient
      ((S.site i).id :: s.underway) (S.resolver.resolveOrReport (S.context c)
        (S.resolver.expectedType (S.context c) (n + 1)) (S.site i) .fromProvider
        (s.claiming (S.context c) (S.site i))).2 :=
    Resolver.computation_keeps
      (fun s hs => Resolver.derived_keeps S.confined (n + 1) (S.site i) hs)
      (Session.grows_claiming h.wellFormed (S.context c) (S.site i)).wellFormed .fromProvider
  have hrun : S.resolver.resolveWithin (S.context c) (n + 1) (S.site i) s = _ :=
    Resolver.with_apply _
  rw [hr, Session.polled_live (h.live hl)] at hrun
  dsimp only at hrun
  rw [he] at hkeep hrun
  rw [hv] at hrun
  cases hvi : v i with
  | error e =>
    rw [hvi] at hrun
    refine ⟨_, _, hrun, rfl, ht.ended h.wellFormed hkeep hk, ?_⟩
    intro _ y hy
    cases hy
  | ok x =>
    rw [hvi] at hrun
    -- The breaks at the own site are settled before the claim ends, so that only others count.
    have hkend := hkeep.settled s.breaks.length (S.site i).id
    have hend := (ht.settled s.breaks.length i).ended h.wellFormed hkend
      (leftover_ok s.breaks.length t hk hvi)
    refine ⟨_, _, hrun, rfl, hend, ?_⟩
    intro hb _ _
    exact ⟨_, _, (Resolver.cell_end_own h.wellFormed hkend _).trans (leftover_stored ht hb _ x)⟩

/-- Under a plan, a request has the result that the table tells, and keeps the session steady. If
cycles are broken at its own site only, it leaves the result in the cache. -/
theorem Plan.request {Ok : List SiteId → SiteId → Prop} {depth : Nat}
    (P : S.Plan v look known broken Ok depth) (hl : T.IsLive c.token) (n : Nat) {i : SiteId}
    (hi : i ∉ U) (hok : known i ∨ Ok U i) (hn : depth ≤ n + U.length)
    (h : S.Steady T v known broken U U s) :
    ∃ out t, S.resolver.resolveWithin (S.context c) n (S.site i) s = (out, t) ∧
      out.map (·.resolution) = v i ∧ S.Steady T v known broken U U t ∧
      ((∀ b, broken b → b = i) → ∀ y, out = .ok y →
        ∃ version x, t.world.cache.cell i S.lenient = .stored version x) := by
  induction n generalizing U i s with
  | zero =>
    rcases h.free hi with ⟨version, x, hx⟩ | ⟨hk, -⟩
    · obtain ⟨t, he, hv, ht, hc⟩ := request_stored hl 0 hi h hx
      exact ⟨_, t, he, hv.symm, ht, fun _ _ _ => ⟨version, x, hc⟩⟩
    · have hshort := P.short U i (hok.resolve_left hk)
      omega
  | succ n ih =>
    rcases h.free hi with ⟨version, x, hx⟩ | ⟨hk, hx⟩
    · obtain ⟨t, he, hv, ht, hc⟩ := request_stored hl (n + 1) hi h hx
      exact ⟨_, t, he, hv.symm, ht, fun _ _ _ => ⟨version, x, hc⟩⟩
    · have hplan := hok.resolve_left hk
      refine request_claiming hl n ?_ (P.asks U i hplan) (P.solves U i hplan) hi h hk hx
      intro j hj s hs
      rcases hj with ⟨hm, hb, hv⟩ | ⟨hm, hv, hkj⟩
      · obtain ⟨out, t, he, ho, ht⟩ := ask_underway hs hl hm hb n
        exact ⟨out, t, he, ho.trans hv.symm, ht⟩
      · have hlong : depth ≤ n + (i :: U).length := by
          rw [List.length_cons]
          omega
        obtain ⟨out, t, he, ho, ht, -⟩ := ih hm hkj hlong hs
        exact ⟨out, t, he, ho.trans hv.symm, ht⟩

end Setting

end DoubleColon
