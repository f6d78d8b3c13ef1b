import DoubleColon.Proofs.Runs

/-!
# What follows the expected type

Once the provider has answered, or is not asked at all, a resolution depends on nothing but the
environment and the site. `Resolver.value` is its result. The steps that lead to it poll the token
and report events, so that a request ends with this value or with finding its token cancelled.

The value is that of a walk which is carried out to its end. The walk of the members of a class is
one: it neither cancels a token nor gives up by itself.
-/

set_option autoImplicit false

namespace DoubleColon

/-! ## Plain walks -/

def WalkStep.IsPlain : WalkStep → Prop
  | .examine | .report _ => True
  | .cancel _ | .abort => False

namespace WalkPlan

def IsPlain (plan : WalkPlan) : Prop := ∀ step ∈ plan, step.IsPlain

/-- A walk carries out a part of its plan, and ends by itself if and only if this is all of it. -/
theorem carriedOut_run (token : TokenId) (k : PollCounter) (ts : Tokens) (plan : WalkPlan) :
    (plan.run token k ts).carriedOut <+: plan ∧
      ((plan.run token k ts).isCancelled = false ↔ (plan.run token k ts).carriedOut = plan) := by
  induction plan generalizing k ts with
  | nil => simp [run]
  | cons step rest ih =>
    cases step with
    | examine =>
      simp only [run]
      split
      · split
        · simp
        · simpa using ih k.advance (ts.poll token).2
      · simpa using ih k.advance ts
    | report c => simpa [run] using ih k ts
    | cancel t => simpa [run] using ih k (ts.cancel t)
    | abort => simp [run]

/-- A plain walk is abandoned if and only if it has found its token cancelled, and polls change
nothing about a live token. -/
theorem run_plain {plan : WalkPlan} (hp : plan.IsPlain) (token : TokenId) (k : PollCounter)
    {ts : Tokens} (h : ts.isCancelled token = false) :
    (plan.run token k ts).tokens.isCancelled token = (plan.run token k ts).isCancelled ∧
      (ts.IsLive token →
        (plan.run token k ts).isCancelled = false ∧ (plan.run token k ts).tokens = ts) := by
  induction plan generalizing k ts with
  | nil => exact ⟨h, fun _ => ⟨rfl, rfl⟩⟩
  | cons step rest ih =>
    have hr : IsPlain rest := fun st hst => hp st (List.mem_cons_of_mem _ hst)
    cases step with
    | examine =>
      simp only [run]
      split
      · have hc := Tokens.cancelled_poll ts token
        split
        · rename_i hv
          refine ⟨hc.trans hv, fun hl => ?_⟩
          rw [Tokens.poll_live hl] at hv
          cases hv
        · rename_i hv
          have hlater := ih hr k.advance (hc.trans (Bool.not_eq_true _ ▸ hv))
          refine ⟨hlater.1, fun hl => ?_⟩
          have hsame : (ts.poll token).2 = ts := by rw [Tokens.poll_live hl]
          rw [hsame] at hlater ⊢
          exact hlater.2 hl
      · exact ih hr k.advance h
    | report c => exact ih hr k h
    | cancel t => exact (hp _ List.mem_cons_self).elim
    | abort => exact (hp _ List.mem_cons_self).elim

theorem plain_declarations (ds : List (Option Candidate)) : (ofDeclarations ds).IsPlain := by
  intro step hs
  obtain ⟨d, -, hd⟩ := List.mem_flatMap.mp hs
  cases d with
  | none => simp_all [ofDeclaration, WalkStep.IsPlain]
  | some c =>
    rcases List.mem_cons.mp hd with rfl | hd
    · trivial
    · rw [List.mem_singleton.mp hd]
      trivial

end WalkPlan

theorem Env.plain_members (env : Env) (q : WalkRequest) : (env.memberPlan q).IsPlain :=
  WalkPlan.plain_declarations _

/-! ## Parts that stay outside -/

def Request.StaysOutside {ω α : Type} (body : Request ω α) : Prop :=
  ∀ s, ∃ host tokens, (body s).2 = s.outside host tokens

namespace Request

variable {ω α β : Type}

theorem outside_pure (a : α) : (pure a : Request ω α).StaysOutside :=
  fun s => ⟨s.world.host, s.world.tokens, rfl⟩

theorem outside_throw (e : Interrupt) : (throw e : Request ω α).StaysOutside :=
  fun s => ⟨s.world.host, s.world.tokens, rfl⟩

theorem outside_poll (token : TokenId) : (poll token : Request ω Unit).StaysOutside :=
  fun s => ⟨s.world.host, (s.world.tokens.poll token).2, rfl⟩

theorem StaysOutside.bind {body : Request ω α} {f : α → Request ω β} (hb : body.StaysOutside)
    (hf : ∀ a, (f a).StaysOutside) : (body >>= f).StaysOutside := by
  intro s
  obtain ⟨host, ts, he⟩ := hb s
  rw [bind_apply]
  rcases hbs : body s with ⟨e | a, t⟩
  · exact ⟨host, ts, by rw [hbs] at he; exact he⟩
  · obtain ⟨host', ts', he'⟩ := hf a t
    rw [hbs] at he
    exact ⟨host', ts', by rw [he', show t = _ from he]; rfl⟩

theorem StaysOutside.map {body : Request ω α} (f : α → β) (hb : body.StaysOutside) :
    (f <$> body).StaysOutside := by
  intro s
  rw [map_apply]
  exact hb s

end Request

/-! ## The value of a site -/

namespace Env

def asks (env : Env) (site : Site) : Bool :=
  site.attached && (env.classify site.qualifier).isSome && decide (site.name ≠ .missing)

end Env

namespace Resolver

variable {ω : Type}

def choiceAmong (r : Resolver ω) (env : Env) (q : SearchedClass) (subst : Substitution)
    (target : Option FunctionType) (cs : List Candidate) : Except Interrupt Choice :=
  match target with
  | none => .ok (.ofCount cs.length)
  | some t => match env.class? q.id with
    | none => .ok .none
    | some owner => match env.readings owner ⟨q.id, subst, t, q.isBareTypeName, q.namesType⟩ cs with
      | none => .error .outOfRange
      | some rs => .ok (choose env r.picker rs)

def valueInClass (r : Resolver ω) (env : Env) (site : Site) (q : SearchedClass)
    (target : Option FunctionType) : Except Interrupt (Except InvalidSite Resolution) :=
  let subst := env.ownerSubst site q target
  match env.gather site q subst target with
  | .error e => .ok (.error e)
  | .ok (.settled cs) => .ok (.ok (env.resolutionOf subst target cs (.ofCount cs.length)).1)
  | .ok (.walk request) =>
      let cs := (r.walker env request).reported
      r.choiceAmong env q subst target cs >>= fun c =>
        .ok (.ok (env.resolutionOf subst target cs c).1)

/-- What a site resolves to, given its expected type; an invalid site to nothing. -/
def value (r : Resolver ω) (env : Env) (site : Site) (interface : Option Ty) :
    Except Interrupt Resolution :=
  match env.asks site, env.classify site.qualifier with
  | true, some q => (r.valueInClass env site q (interface.bind env.functionType)).map
      fun v => v.toOption.getD .empty
  | _, _ => .ok .empty

def conclusion (r : Resolver ω) (cx : Context) (site : Site) (interface : Option Ty) :
    Request ω Resolution := do
  Request.poll cx.token
  match cx.env.classify site.qualifier with
  | none => return .empty
  | some q => match ← r.resolveInClass cx site q (interface.bind cx.env.functionType) with
    | .ok resolution => return resolution
    | .error e =>
        r.emit (.invalid site.id e)
        return .empty

variable {r : Resolver ω} {cx : Context} {site : Site}

theorem outside_emit (e : Event) : (r.emit e).StaysOutside :=
  fun s => ⟨r.observe e s.world.host, s.world.tokens, rfl⟩

theorem yields_emit (e : Event) : Request.Yields cx.token (r.emit e) (.ok ()) :=
  fun s h => ⟨r.observe e s.world.host, s.world.tokens, .inl ⟨rfl, h, fun _ => rfl⟩⟩

theorem walk_apply (q : WalkRequest) (s : Session ω) :
    r.walk cx q s =
      let out := (r.walker cx.env q).run cx.token (.ofInterval r.settings.checkpointInterval)
        s.world.tokens
      (if out.isCancelled then .error .cancelled else .ok out.candidates,
        s.outside (r.observe (.walking q) s.world.host) out.tokens) := by
  unfold walk emit Request.onWorld
  rw [Request.modify_bind, Request.get_bind, Request.modify_bind]
  exact Request.throw_if_apply _ _ _ _

theorem outside_walk (q : WalkRequest) : (r.walk cx q).StaysOutside := by
  intro s
  rw [walk_apply]
  exact ⟨_, _, rfl⟩

theorem yields_walk {q : WalkRequest} (hp : (r.walker cx.env q).IsPlain) :
    Request.Yields cx.token (r.walk cx q) (.ok (r.walker cx.env q).reported) := by
  intro s h
  rw [walk_apply]
  have hplain := WalkPlan.run_plain hp cx.token (.ofInterval r.settings.checkpointInterval) h
  have hall := (WalkPlan.carriedOut_run cx.token (.ofInterval r.settings.checkpointInterval)
    s.world.tokens (r.walker cx.env q)).2
  generalize (r.walker cx.env q).run cx.token (.ofInterval r.settings.checkpointInterval)
    s.world.tokens = out at hplain hall ⊢
  refine ⟨r.observe (.walking q) s.world.host, out.tokens, ?_⟩
  cases hc : out.isCancelled with
  | false =>
    refine .inl ⟨?_, hplain.1.trans hc, fun hl => (hplain.2 hl).2⟩
    simp [hc, WalkOutcome.candidates, hall.mp hc]
  | true =>
    refine .inr ⟨by simp [hc], hplain.1.trans hc, fun hl => ?_⟩
    exact Bool.false_ne_true ((hplain.2 hl).1.symm.trans hc)

theorem outside_choose (q : SearchedClass) (subst : Substitution) (target : Option FunctionType)
    (cs : List Candidate) : (r.chooseAmong cx q subst target cs).StaysOutside := by
  unfold chooseAmong
  cases target with
  | none => exact Request.outside_pure _
  | some t =>
    cases ho : cx.env.class? q.id with
    | none => exact Request.outside_pure _
    | some owner =>
      dsimp only
      split
      · exact Request.outside_throw _
      · split
        · exact (outside_emit _).bind fun _ => Request.outside_pure _
        · exact Request.outside_pure _

theorem yields_choose (q : SearchedClass) (subst : Substitution) (target : Option FunctionType)
    (cs : List Candidate) : Request.Yields cx.token (r.chooseAmong cx q subst target cs)
      (r.choiceAmong cx.env q subst target cs) := by
  unfold chooseAmong choiceAmong
  cases target with
  | none => exact Request.yields_pure _
  | some t =>
    cases ho : cx.env.class? q.id with
    | none => exact Request.yields_pure _
    | some owner =>
      dsimp only
      cases hr : cx.env.readings owner ⟨q.id, subst, t, q.isBareTypeName, q.namesType⟩ cs with
      | none => exact Request.yields_throw _
      | some rs =>
        dsimp only
        split
        · exact (yields_emit _).bind fun _ _ => Request.yields_pure _
        · exact Request.yields_pure _

theorem outside_conclude (id : SiteId) (subst : Substitution) (target : Option FunctionType)
    (cs : List Candidate) (c : Choice) : (r.conclude cx id subst target cs c).StaysOutside := by
  unfold conclude
  dsimp only
  split
  · split
    · exact (outside_emit _).bind fun _ => Request.outside_pure _
    · exact Request.outside_pure _
  · exact Request.outside_pure _

theorem yields_conclude (id : SiteId) (subst : Substitution) (target : Option FunctionType)
    (cs : List Candidate) (c : Choice) : Request.Yields cx.token
      (r.conclude cx id subst target cs c) (.ok (cx.env.resolutionOf subst target cs c).1) := by
  unfold conclude
  dsimp only
  split
  · split
    · exact (yields_emit _).bind fun _ _ => Request.yields_pure _
    · exact Request.yields_pure _
  · exact Request.yields_pure _

theorem outside_in_class (q : SearchedClass) (target : Option FunctionType) :
    (r.resolveInClass cx site q target).StaysOutside := by
  unfold resolveInClass
  dsimp only
  split
  · exact Request.outside_pure _
  · exact (outside_conclude _ _ _ _ _).map _
  · exact (outside_walk _).bind fun _ => (outside_choose _ _ _ _).bind fun _ =>
      (outside_conclude _ _ _ _ _).map _

theorem yields_in_class (hw : ∀ q, (r.walker cx.env q).IsPlain) (site : Site) (q : SearchedClass)
    (target : Option FunctionType) : Request.Yields cx.token (r.resolveInClass cx site q target)
      (r.valueInClass cx.env site q target) := by
  unfold resolveInClass valueInClass
  dsimp only
  rcases hg : cx.env.gather site q (cx.env.ownerSubst site q target) target with
    e | ⟨cs⟩ | ⟨request⟩
  · exact Request.yields_pure _
  · exact (yields_conclude _ _ _ _ _).map _
  · exact (yields_walk (hw request)).bind fun cs _ =>
      (yields_choose q _ target cs).bind fun c _ => (yields_conclude site.id _ target cs c).map _

theorem outside_conclusion (r : Resolver ω) (cx : Context) (site : Site) (interface : Option Ty) :
    (r.conclusion cx site interface).StaysOutside := by
  refine (Request.outside_poll _).bind fun _ => ?_
  split
  · exact Request.outside_pure _
  · refine (outside_in_class _ _).bind fun v => ?_
    cases v with
    | ok x => exact Request.outside_pure _
    | error e => exact (outside_emit _).bind fun _ => Request.outside_pure _

theorem yields_conclusion (hw : ∀ q, (r.walker cx.env q).IsPlain)
    (ha : cx.env.asks site = true) (interface : Option Ty) :
    Request.Yields cx.token (r.conclusion cx site interface) (r.value cx.env site interface) := by
  unfold conclusion value
  rw [ha]
  cases hq : cx.env.classify site.qualifier with
  | none => exact Request.yields_poll.bind fun _ _ => Request.yields_pure _
  | some q =>
    have h := Request.yields_poll.bind fun _ _ =>
      (yields_in_class hw site q (interface.bind cx.env.functionType)).bind fun v _ =>
      show Request.Yields cx.token (match v with
        | .ok resolution => return resolution
        | .error e => do r.emit (.invalid site.id e); return .empty)
        (.ok (v.toOption.getD .empty)) from by
      cases v with
      | ok x => exact Request.yields_pure _
      | error e => exact (yields_emit _).bind fun _ _ => Request.yields_pure _
    exact h

theorem unasked_apply (ha : cx.env.asks site = false) (derive : Site → Request ω (Option Ty))
    (source : TargetOrigin) (s : Session ω) : ∃ host,
      r.resolveOrReport cx derive site source s = (.ok .empty, s.outside host s.world.tokens) := by
  unfold resolveOrReport resolveValid
  cases hat : site.attached with
  | false => exact ⟨_, rfl⟩
  | true =>
    cases hq : cx.env.classify site.qualifier with
    | none => exact ⟨s.world.host, rfl⟩
    | some q =>
      have hn : site.name = .missing := by simpa [Env.asks, hat, hq] using ha
      rw [hn]
      exact ⟨s.world.host, rfl⟩

theorem asked_apply (ha : cx.env.asks site = true) (derive : Site → Request ω (Option Ty))
    (source : TargetOrigin) (s : Session ω) :
    r.resolveOrReport cx derive site source s =
      (interfaceOf derive site source >>= r.conclusion cx site) s := by
  obtain ⟨⟨hat, hq⟩, hn⟩ : (site.attached = true ∧ (cx.env.classify site.qualifier).isSome) ∧
      site.name ≠ .missing := by simpa [Env.asks] using ha
  obtain ⟨q, hq⟩ := Option.isSome_iff_exists.mp hq
  unfold resolveOrReport resolveValid conclusion
  simp only [hat, hq, hn, if_false, Bool.not_true, Bool.false_eq_true, Request.bind_apply]
  rcases interfaceOf derive site source s with ⟨e | t, s₁⟩
  · rfl
  · dsimp only
    rcases Request.poll cx.token s₁ with ⟨e | u, s₂⟩ <;> rfl

/-- A computation changes what asking for the expected type does, and otherwise only the host and
the tokens. -/
theorem outside_computation (derive : Site → Request ω (Option Ty)) (source : TargetOrigin)
    (s : Session ω) : ∃ host tokens, (r.resolveOrReport cx derive site source s).2 =
      (if cx.env.asks site then (interfaceOf derive site source s).2 else s).outside host
        tokens := by
  cases ha : cx.env.asks site with
  | false =>
    obtain ⟨host, he⟩ := unasked_apply (r := r) ha derive source s
    exact ⟨host, _, congrArg Prod.snd he⟩
  | true =>
    rw [asked_apply ha, Request.bind_apply, if_pos rfl]
    rcases interfaceOf derive site source s with ⟨e | t, u⟩
    · exact ⟨_, _, rfl⟩
    · exact outside_conclusion r cx site t u

theorem value_unasked (r : Resolver ω) {env : Env} (ha : env.asks site = false)
    (interface : Option Ty) : r.value env site interface = .ok .empty := by
  simp [value, ha]

/-- Once it is settled how the provider is asked, a computation yields the value of the site. -/
theorem yields_report (hw : ∀ q, (r.walker cx.env q).IsPlain)
    {derive : Site → Request ω (Option Ty)} {source : TargetOrigin} {t : Option Ty}
    (hi : ∀ s : Session ω, interfaceOf derive site source s = (.ok t, s)) :
    Request.Yields cx.token (r.resolveOrReport cx derive site source)
      (r.value cx.env site t) := by
  intro s hn
  cases ha : cx.env.asks site with
  | false =>
    obtain ⟨host, he⟩ := unasked_apply (r := r) ha derive source s
    exact ⟨host, s.world.tokens, .inl ⟨by rw [he, value_unasked r ha], hn, fun _ => rfl⟩⟩
  | true =>
    rw [asked_apply ha, Request.bind_ok (hi s)]
    exact yields_conclusion hw ha t s hn

end Resolver

end DoubleColon
