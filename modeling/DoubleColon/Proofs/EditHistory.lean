import DoubleColon.Proofs.Toggle

/-!
# Answers along a history of edits

Sites are edited and resolved in turn, in their present state or in an earlier one, by requests
that may be cancelled, and the cache is made to forget at any time. If the expected types are
fixed, the cache holds for a site only values of snapshots under their own versions, and no two
snapshots of a site share a version. So every answer is the one that a resolver without a cache
gives.
-/

set_option autoImplicit false

namespace DoubleColon

inductive Edit where
  | touch
  | setQualifier (q : Qualifier)
  | setName (n : Selector)
  | rename (newName : String)
  | detach

section

variable [Identifier.XidProperties]

def Edit.apply (s : Site) : Edit → Site
  | touch => s.touch
  | setQualifier q => s.setQualifier q
  | setName n => s.setName n
  | rename newName => match s.rename newName with
    | .ok (t, _) => t
    | .error _ => s
  | detach => s.detach

theorem Edit.apply_rename (s : Site) (newName : String) :
    (rename newName).apply s = s ∨ ∃ n, (rename newName).apply s = s.setName n := by
  change (match s.rename newName with | .ok (t, _) => t | .error _ => s) = s ∨
    ∃ n, (match s.rename newName with | .ok (t, _) => t | .error _ => s) = s.setName n
  unfold Site.rename
  by_cases hm : s.name = .missing
  · simp [hm]
  · by_cases hk : (s.name.isKeyword || decide (s.name = .ident newName)) = true
    · simp [hm, hk]
    · by_cases hv : Identifier.isValid newName = true
      · exact .inr ⟨.ident newName, by simp only [if_neg hm, if_neg hk, if_pos hv]⟩
      · exact .inl (by simp only [if_neg hm, if_neg hk, if_neg hv])

/-- An edit that changes a site gives it the next version. -/
theorem Edit.apply_version (s : Site) (e : Edit) :
    e.apply s = s ∨ (e.apply s).version = s.version + 1 := by
  cases e with
  | rename newName =>
    rcases apply_rename s newName with h | ⟨n, h⟩
    · exact .inl h
    · exact .inr (by rw [h, Site.version_setName])
  | _ => exact .inr rfl

theorem Edit.apply_id (s : Site) (e : Edit) : (e.apply s).id = s.id := by
  cases e with
  | rename newName =>
    rcases apply_rename s newName with h | ⟨n, h⟩
    · rw [h]
    · rw [h]
      rfl
  | _ => rfl

end

structure Workspace (ω : Type) where
  snapshots : SiteId → List Site
  world : World ω

inductive Action where
  | edit (site : SiteId) (e : Edit)
  /-- Resolve a site as it was so many edits ago. -/
  | resolve (site : SiteId) (age : Nat) (lenient : Bool) (token : TokenId) (thread : ThreadId)
  | cancel (token : TokenId)
  | addToken (t : Token)
  | invalidate (site : SiteId)
  | remove (site : SiteId)
  | clear

structure Answer where
  site : Site
  lenient : Bool
  result : Except Interrupt Issued

namespace Workspace

variable {ω : Type}

def onCache (f : Cache Issued → Cache Issued) (p : Workspace ω) : Workspace ω :=
  { p with world := { p.world with cache := f p.world.cache } }

def onTokens (f : Tokens → Tokens) (p : Workspace ω) : Workspace ω :=
  { p with world := { p.world with tokens := f p.world.tokens } }

def fresh (sites : SiteId → Site) (tokens : Tokens) (issued : Nat) (host : ω) : Workspace ω :=
  ⟨fun id => [{ sites id with id }], ⟨{}, tokens, issued, host⟩⟩

section

variable [Identifier.XidProperties]

def edited (p : Workspace ω) (site : SiteId) (e : Edit) : Workspace ω :=
  { p with snapshots := fun id => match p.snapshots id with
      | s :: rest => if id = site then e.apply s :: s :: rest else s :: rest
      | [] => [] }

def step (r : Resolver ω) (env : Env) (depth : Nat) (p : Workspace ω) :
    Action → Workspace ω × Option Answer
  | .edit site e => (p.edited site e, none)
  | .resolve site age lenient token thread => match (p.snapshots site)[age]? with
    | none => (p, none)
    | some s =>
        let (result, world) := r.resolve ⟨env, lenient, token, thread⟩ depth s p.world
        ({ p with world }, some ⟨s, lenient, result⟩)
  | .cancel token => (p.onTokens (·.cancel token), none)
  | .addToken t => (p.onTokens (· ++ [t]), none)
  | .invalidate site => (p.onCache (·.invalidate site), none)
  | .remove site => (p.onCache (·.remove site), none)
  | .clear => (p.onCache (·.clear), none)

theorem step_resolve (r : Resolver ω) (env : Env) (depth : Nat) {p : Workspace ω} {site : SiteId}
    {age : Nat} {s : Site} (hs : (p.snapshots site)[age]? = some s) (lenient : Bool)
    (token : TokenId) (thread : ThreadId) :
    p.step r env depth (.resolve site age lenient token thread) =
      ({ p with world := (r.resolve ⟨env, lenient, token, thread⟩ depth s p.world).2 },
        some ⟨s, lenient, (r.resolve ⟨env, lenient, token, thread⟩ depth s p.world).1⟩) := by
  simp only [step, hs]

def answers (r : Resolver ω) (env : Env) (depth : Nat) : Workspace ω → List Action → List Answer
  | _, [] => []
  | p, a :: rest =>
      let (next, answer) := p.step r env depth a
      answer.toList ++ next.answers r env depth rest

/-! ## Snapshots -/

/-- A linear history: a version stands for one snapshot, and the first has the latest version. -/
structure IsLinear (id : SiteId) (snapshots : List Site) : Prop where
  ids : ∀ s ∈ snapshots, s.id = id
  versions : ∀ s ∈ snapshots, ∀ t ∈ snapshots, s.version = t.version → s = t
  latest : ∀ h, snapshots.head? = some h → ∀ s ∈ snapshots, s.version ≤ h.version

theorem linear_edit {id : SiteId} {s : Site} {rest : List Site} (h : IsLinear id (s :: rest))
    (e : Edit) : IsLinear id (e.apply s :: s :: rest) := by
  have hlatest : ∀ t ∈ s :: rest, t.version ≤ s.version := h.latest s rfl
  have hnew : ∀ t ∈ s :: rest, t.version ≤ (e.apply s).version := by
    intro t ht
    have := hlatest t ht
    rcases e.apply_version s with he | he
    · rw [he]
      exact this
    · omega
  have hsame : ∀ t ∈ s :: rest, t.version = (e.apply s).version → t = e.apply s := by
    intro t ht hv
    rcases e.apply_version s with he | he
    · rw [he] at hv ⊢
      exact h.versions t ht s List.mem_cons_self hv
    · have := hlatest t ht
      omega
  refine ⟨?_, ?_, ?_⟩
  · intro t ht
    rcases List.mem_cons.mp ht with rfl | ht
    · exact (e.apply_id s).trans (h.ids s List.mem_cons_self)
    · exact h.ids t ht
  · intro t ht u hu hv
    rcases List.mem_cons.mp ht with rfl | ht <;> rcases List.mem_cons.mp hu with rfl | hu
    · rfl
    · exact (hsame u hu hv.symm).symm
    · exact hsame t ht hv
    · exact h.versions t ht u hu hv
  · intro u hu t ht
    obtain rfl : e.apply s = u := Option.some.inj hu
    rcases List.mem_cons.mp ht with rfl | ht
    · exact Nat.le_refl _
    · exact hnew t ht

theorem mem_edited {p : Workspace ω} {id site : SiteId} {e : Edit} {s : Site}
    (h : s ∈ p.snapshots id) : s ∈ (p.edited site e).snapshots id := by
  unfold edited
  cases hs : p.snapshots id with
  | nil =>
    rw [hs] at h
    cases h
  | cons t rest =>
    rw [hs] at h
    simp only [hs]
    split
    · exact List.mem_cons_of_mem _ h
    · exact h

end

end Workspace

/-! ## Resolving under fixed targets -/

namespace Resolver

variable {ω : Type} {r : Resolver ω} {cx : Context} {site : Site} {t : Option Ty}

theorem derived_fixed (hp : r.provider site = .pure t) (n : Nat) (s : Session ω) :
    r.expectedType cx (n + 1) site s = (.ok t, s) := by
  rw [expected_apply, hp]
  by_cases hu : site.id ∈ s.underway
  · simp [Script.run, Session.entering, hu]
  · simp [Script.run, Session.entering, hu]

theorem yields_fixed (hw : ∀ q, (r.walker cx.env q).IsPlain) (hp : r.provider site = .pure t)
    (n : Nat) : Request.Yields cx.token
      (r.resolveOrReport cx (r.expectedType cx (n + 1)) site .fromProvider)
      (r.value cx.env site t) :=
  yields_report hw (derived_fixed hp n)

def uncached (r : Resolver ω) : Resolver ω :=
  { r with settings := { r.settings with cacheEnabled := false } }

theorem uncached_fixed (cx : Context) (hw : ∀ q, (r.walker cx.env q).IsPlain)
    (hp : r.provider site = .pure t) (n : Nat) {w : World ω}
    (hl : (Session.start w).Live cx.token) :
    (r.uncached.resolve cx (n + 1) site w).1.map (·.resolution) = r.value cx.env site t := by
  have hr : r.uncached.route cx site (.start w) = .uncached := by
    unfold route
    rw [Tokens.poll_live hl]
    rfl
  obtain ⟨host, hv⟩ := (yields_fixed (r := r.uncached) hw hp n).live (s := .start w) hl
  change ((r.uncached.resolveWith cx _ site (.start w)).1.map _) = _
  rw [with_apply, hr]
  dsimp only
  rw [Session.polled_live hl, hv]
  change (closed _ _ (r.value cx.env site t, _)).1.map _ = _
  cases r.value cx.env site t <;> rfl

theorem route_start {w : World ω} (hc : w.cache.cell site.id cx.lenient = .vacant ∨
      ∃ v x, w.cache.cell site.id cx.lenient = .stored v x) :
    r.route cx site (.start w) = .refused ∨ r.route cx site (.start w) = .uncached ∨
    (∃ x, r.route cx site (.start w) = .hit x ∧
      w.cache.cell site.id cx.lenient = .stored site.version x) ∨
    r.route cx site (.start w) = .unstored ∨ r.route cx site (.start w) = .claiming := by
  unfold route
  cases (Session.start w).world.tokens.poll cx.token |>.1 with
  | true => exact .inl rfl
  | false =>
    cases r.settings.cacheEnabled with
    | false => exact .inr (.inl rfl)
    | true =>
      rcases hc with hc | ⟨v, x, hc⟩
      · exact .inr (.inr (.inr (.inr (by simp [Session.start, hc, Cell.admission]))))
      · by_cases hv : v = site.version
        · subst hv
          exact .inr (.inr (.inl ⟨x, by simp [Session.start, hc, Cell.admission], hc⟩))
        · by_cases hlt : site.version < v
          · exact .inr (.inr (.inr (.inl (by simp [Session.start, hc, Cell.admission, hv, hlt]))))
          · exact .inr (.inr (.inr (.inr (by simp [Session.start, hc, Cell.admission, hv, hlt]))))

theorem polled_of_route {s : Session ω} (h : r.route cx site s ≠ .refused) :
    (s.polled cx.token).world.tokens.isCancelled cx.token = false := by
  refine (Tokens.cancelled_poll s.world.tokens cx.token).trans ?_
  by_cases hp : (s.world.tokens.poll cx.token).1 = true
  · exact absurd (by rw [route, if_pos hp]) h
  · exact Bool.not_eq_true _ ▸ hp

theorem closed_fixed {token : TokenId} {body : Request ω Resolution}
    {v : Except Interrupt Resolution} (hy : Request.Yields token body v) {u : Session ω}
    (hn : u.world.tokens.isCancelled token = false)
    {done : Resolution → Session ω → Session ω} {stop : Session ω → Session ω}
    {p : Cache Issued → Prop}
    (hd : ∀ y host tokens, v = .ok y → p (done y (u.outside host tokens)).world.cache)
    (hs : ∀ host tokens, p (stop (u.outside host tokens)).world.cache) :
    (∀ x, (closed done stop (body u)).1 = .ok x → v = .ok x.resolution) ∧
      p (closed done stop (body u)).2.world.cache := by
  obtain ⟨host, ts, ⟨he, -, -⟩ | ⟨he, -, -⟩⟩ := hy u hn
  · rw [he]
    cases v with
    | error e => exact ⟨nofun, hs host ts⟩
    | ok y => exact ⟨fun x hx => by cases hx; rfl, hd y host ts rfl⟩
  · rw [he]
    exact ⟨nofun, hs host ts⟩

def Holds (r : Resolver ω) (env : Env) (target : Option Ty) (snapshots : List Site) :
    Cell Issued → Prop
  | .vacant => True
  | .claimed _ _ => False
  | .stored v x => ∃ s ∈ snapshots, s.version = v ∧ r.value env s target = .ok x.resolution

theorem ended_fixed {s : Session ω} (hc : s.world.cache.WellFormed) {snapshots : List Site}
    (next : Cell Issued) (hn : r.Holds cx.env t snapshots next) (host : ω) (tokens : Tokens)
    (i : SiteId) (f : Bool) :
    let d := (endClaim (s.world.cache.slotFor site.id).2 cx.lenient site.version cx.thread next
      ((s.claiming cx site).outside host tokens)).world.cache
    d.cell i f = s.world.cache.cell i f ∨
      (i = site.id ∧ r.Holds cx.env t snapshots (d.cell i f)) := by
  intro d
  have hk : (s.claiming cx site).Keeps cx.lenient (site.id :: s.underway)
      ((s.claiming cx site).outside host tokens) :=
    Session.keeps_outside (Session.grows_claiming hc cx site).wellFormed host tokens
  by_cases hi : i = site.id ∧ f = cx.lenient
  · obtain ⟨rfl, rfl⟩ := hi
    have hown : d.cell site.id cx.lenient = next := cell_end_own hc hk next
    refine .inr ⟨rfl, ?_⟩
    rw [hown]
    exact hn
  · have hne := Classical.not_and_iff_not_or_not.mp hi
    exact .inl ((cell_end_other hk hne next).trans (Session.cell_claiming_apart hc cx site hne))

/-- A request under fixed targets answers with the value of its site, and at most puts this value
into the cell of the site. -/
theorem resolve_fixed (cx : Context) (hw : ∀ q, (r.walker cx.env q).IsPlain)
    (hp : r.provider site = .pure t) {snapshots : List Site} (hm : site ∈ snapshots)
    (hv : ∀ s ∈ snapshots, s.version = site.version → s = site) (n : Nat) {w : World ω}
    (hc : w.cache.WellFormed)
    (hs : r.Holds cx.env t snapshots (w.cache.cell site.id cx.lenient)) :
    let out := r.resolve cx (n + 1) site w
    (∀ x, out.1 = .ok x → r.value cx.env site t = .ok x.resolution) ∧
      ∀ i f, out.2.cache.cell i f = w.cache.cell i f ∨
        (i = site.id ∧ r.Holds cx.env t snapshots (out.2.cache.cell i f)) := by
  intro out
  let s : Session ω := .start w
  have hyield := yields_fixed hw hp n
  have hout : out = ((r.resolveWith cx (r.expectedType cx (n + 1)) site s).1,
    (r.resolveWith cx (r.expectedType cx (n + 1)) site s).2.world) := rfl
  have hcell : ∀ i f, (w.cache.slotFor site.id).1.cell i f = w.cache.cell i f := fun i f =>
    congrFun (congrFun (Cache.cell_slotFor hc site.id) i) f
  have hrest : w.cache.cell site.id cx.lenient = .vacant ∨
      ∃ v x, w.cache.cell site.id cx.lenient = .stored v x := by
    cases h : w.cache.cell site.id cx.lenient with
    | vacant => exact .inl rfl
    | claimed v o =>
      rw [h] at hs
      exact hs.elim
    | stored v x => exact .inr ⟨v, x, rfl⟩
  let p (d : Cache Issued) : Prop := ∀ i f, d.cell i f = w.cache.cell i f ∨
    (i = site.id ∧ r.Holds cx.env t snapshots (d.cell i f))
  rw [hout, with_apply (s := s)]
  rcases route_start (r := r) hrest with hr | hr | ⟨x, hr, hx⟩ | hr | hr
  · rw [hr]
    exact ⟨nofun, fun _ _ => .inl rfl⟩
  · have hn := polled_of_route (r := r) (s := s) (by rw [hr]; nofun)
    rw [hr]
    exact closed_fixed (p := p) hyield hn (fun _ _ _ _ _ _ => .inl rfl) fun _ _ _ _ => .inl rfl
  · rw [hr]
    refine ⟨?_, fun i f => .inl (hcell i f)⟩
    rintro _ ⟨⟩
    -- What is found was kept for a snapshot of the same version, and this is the only one.
    rw [hx] at hs
    obtain ⟨s', hm', hv', hval⟩ := hs
    rwa [hv s' hm' hv'] at hval
  · have hn := polled_of_route (r := r) (s := s) (by rw [hr]; nofun)
    rw [hr]
    exact closed_fixed (p := p) (u := (s.polled cx.token).slotted site.id) hyield hn
      (fun _ _ _ _ i f => .inl (hcell i f)) fun _ _ i f => .inl (hcell i f)
  · have hn := polled_of_route (r := r) (s := s) (by rw [hr]; nofun)
    rw [hr]
    refine closed_fixed (p := p) (u := (s.polled cx.token).claiming cx site) hyield hn ?_ ?_
    · intro y host tokens hy
      exact ended_fixed (s := s.polled cx.token) hc (.stored site.version ⟨w.issued, y⟩)
        ⟨site, hm, rfl, hy⟩ host tokens
    · intro host tokens
      exact ended_fixed (s := s.polled cx.token) hc .vacant trivial host tokens

end Resolver

/-! ## Sequences of actions -/

namespace Workspace

variable {ω : Type} {r : Resolver ω} {env : Env} {targets : SiteId → Option Ty} {p : Workspace ω}

structure Sound (r : Resolver ω) (env : Env) (targets : SiteId → Option Ty)
    (p : Workspace ω) : Prop where
  linear : ∀ id, IsLinear id (p.snapshots id)
  wellFormed : p.world.cache.WellFormed
  cells : ∀ id flag, r.Holds env (targets id) (p.snapshots id) (p.world.cache.cell id flag)

theorem sound_fresh (sites : SiteId → Site) (tokens : Tokens) (issued : Nat) (host : ω) :
    (fresh sites tokens issued host).Sound r env targets where
  linear id := by
    refine ⟨?_, ?_, ?_⟩
    · intro s hs
      rw [List.mem_singleton.mp hs]
    · intro s hs t ht _
      rw [List.mem_singleton.mp hs, List.mem_singleton.mp ht]
    · intro h hh s hs
      obtain rfl := List.mem_singleton.mp hs
      obtain rfl := Option.some.inj hh
      exact Nat.le_refl _
  wellFormed := Cache.well_formed_empty
  cells _ _ := trivial

theorem Sound.forget (h : p.Sound r env targets) (f : Cache Issued → Cache Issued)
    (hf : p.world.cache.Forgets (f p.world.cache)) : (p.onCache f).Sound r env targets where
  linear := h.linear
  wellFormed := hf.wellFormed
  cells id flag := by
    change r.Holds env (targets id) (p.snapshots id) ((f p.world.cache).cell id flag)
    rcases hf.cells id flag with hc | hc
    · rw [hc]
      exact h.cells id flag
    · rw [hc]
      trivial

theorem Sound.resolve (hw : ∀ q, (r.walker env q).IsPlain)
    (hp : ∀ site, r.provider site = .pure (targets site.id)) (h : p.Sound r env targets) (n : Nat)
    {id : SiteId} {s : Site} (hm : s ∈ p.snapshots id) (lenient : Bool) (token : TokenId)
    (thread : ThreadId) :
    let out := r.resolve ⟨env, lenient, token, thread⟩ (n + 1) s p.world
    ({ p with world := out.2 } : Workspace ω).Sound r env targets ∧
      ∀ x, out.1 = .ok x → r.value env s (targets s.id) = .ok x.resolution := by
  intro out
  obtain rfl : s.id = id := (h.linear id).ids s hm
  have hv := fun u hu he => (h.linear s.id).versions u hu s hm he
  have hf := Resolver.resolve_fixed ⟨env, lenient, token, thread⟩ hw (hp s) hm hv n
    h.wellFormed (h.cells s.id lenient)
  have hconf : ∀ site, (r.provider site).IsConfined := fun site => by
    rw [hp]
    trivial
  refine ⟨⟨h.linear, ?_, fun i f => ?_⟩, hf.1⟩
  · exact (Resolver.within_keeps hconf (n + 1) s (s := .start p.world)
      h.wellFormed).grows.wellFormed
  · rcases hf.2 i f with hc | ⟨rfl, hc⟩
    · change r.Holds env (targets i) (p.snapshots i) (out.2.cache.cell i f)
      rw [hc]
      exact h.cells i f
    · exact hc

section

variable [Identifier.XidProperties]

theorem Sound.edit (h : p.Sound r env targets) (site : SiteId) (e : Edit) :
    (p.edited site e).Sound r env targets where
  linear id := by
    have hl := h.linear id
    unfold edited
    dsimp only
    cases hs : p.snapshots id with
    | nil =>
      rw [hs] at hl
      exact hl
    | cons s rest =>
      rw [hs] at hl
      dsimp only
      split
      · exact linear_edit hl e
      · exact hl
  wellFormed := h.wellFormed
  cells id flag := by
    have hc := h.cells id flag
    change r.Holds env (targets id) _ (p.world.cache.cell id flag)
    cases hx : p.world.cache.cell id flag with
    | vacant => trivial
    | claimed v o =>
      rw [hx] at hc
      exact hc.elim
    | stored v x =>
      rw [hx] at hc
      obtain ⟨s, hm, hv⟩ := hc
      exact ⟨s, mem_edited hm, hv⟩

theorem Sound.step (hw : ∀ q, (r.walker env q).IsPlain)
    (hp : ∀ site, r.provider site = .pure (targets site.id)) (h : p.Sound r env targets) (n : Nat)
    (a : Action) : (p.step r env (n + 1) a).1.Sound r env targets ∧
      ∀ b, (p.step r env (n + 1) a).2 = some b → ∀ x, b.result = .ok x →
        r.value env b.site (targets b.site.id) = .ok x.resolution := by
  have quiet : ∀ b, (none : Option Answer) = some b → ∀ x, b.result = .ok x →
      r.value env b.site (targets b.site.id) = .ok x.resolution := fun _ hb => by cases hb
  cases a with
  | edit site e => exact ⟨h.edit site e, quiet⟩
  | resolve site age lenient token thread =>
    cases hs : (p.snapshots site)[age]? with
    | none =>
      have he : p.step r env (n + 1) (.resolve site age lenient token thread) = (p, none) := by
        simp only [Workspace.step, hs]
      rw [he]
      exact ⟨h, quiet⟩
    | some s =>
      obtain ⟨hn, hx⟩ := h.resolve hw hp n (List.mem_of_getElem? hs) lenient token thread
      rw [step_resolve r env (n + 1) hs lenient token thread]
      refine ⟨hn, fun b hb x hr => ?_⟩
      obtain rfl := Option.some.inj hb
      exact hx x hr
  | cancel token => exact ⟨⟨h.linear, h.wellFormed, h.cells⟩, quiet⟩
  | addToken t => exact ⟨⟨h.linear, h.wellFormed, h.cells⟩, quiet⟩
  | invalidate site =>
    exact ⟨h.forget (·.invalidate site) (Cache.forgets_invalidate h.wellFormed site), quiet⟩
  | remove site => exact ⟨h.forget (·.remove site) (Cache.forgets_remove h.wellFormed site), quiet⟩
  | clear => exact ⟨h.forget (·.clear) (Cache.forgets_clear p.world.cache), quiet⟩

theorem Sound.answers (hw : ∀ q, (r.walker env q).IsPlain)
    (hp : ∀ site, r.provider site = .pure (targets site.id)) (h : p.Sound r env targets) (n : Nat)
    (actions : List Action) : ∀ b ∈ p.answers r env (n + 1) actions, ∀ x, b.result = .ok x →
      r.value env b.site (targets b.site.id) = .ok x.resolution := by
  induction actions generalizing p with
  | nil => exact fun b hb => absurd hb List.not_mem_nil
  | cons a rest ih =>
    obtain ⟨hn, ha⟩ := h.step hw hp n a
    intro b hb
    rcases List.mem_append.mp hb with hb | hb
    · exact ha b (Option.mem_toList.mp hb)
    · exact ih hn b hb

/-- Whatever is edited, resolved, cancelled and forgotten in turn, under fixed targets every answer
is the one that the resolver without a cache gives for the same snapshot. -/
theorem never_stale (targets : SiteId → Option Ty) (hw : ∀ q, (r.walker env q).IsPlain)
    (hp : ∀ site, r.provider site = .pure (targets site.id)) (n : Nat) (sites : SiteId → Site)
    (tokens : Tokens) (issued : Nat) (host : ω) (actions : List Action) :
    ∀ b ∈ (fresh sites tokens issued host).answers r env (n + 1) actions,
      ∀ x, b.result = .ok x → ∀ token thread (w : World ω), w.cache.WellFormed →
        w.tokens.IsLive token →
        (r.uncached.resolve ⟨env, b.lenient, token, thread⟩ (n + 1) b.site w).1.map
          (·.resolution) = .ok x.resolution := by
  intro b hb x hx token thread w _ hl
  have hv := (sound_fresh sites tokens issued host).answers hw hp n actions b hb x hx
  rw [Resolver.uncached_fixed ⟨env, b.lenient, token, thread⟩ hw (hp b.site) n hl]
  exact hv

end

def detaching : List Action :=
  [.resolve ⟨1⟩ 0 false ⟨0⟩ ⟨0⟩, .edit ⟨1⟩ .detach, .resolve ⟨1⟩ 0 false ⟨0⟩ ⟨0⟩,
    .resolve ⟨1⟩ 1 false ⟨0⟩ ⟨0⟩]

theorem never_stale_detaching :
    ((fresh Toggle.site [{}] 0 ()).answers Toggle.fixed Toggle.env 1 detaching).map
        (fun b => b.result.toOption.map fun x => Toggle.isOn x.resolution) =
      [some true, some false, some true] ∧
    ∀ b ∈ (fresh Toggle.site [{}] 0 ()).answers Toggle.fixed Toggle.env 1 detaching,
      ∀ x, b.result = .ok x → ∀ token thread (w : World Unit), w.cache.WellFormed →
        w.tokens.IsLive token →
        (Toggle.fixed.uncached.resolve ⟨Toggle.env, b.lenient, token, thread⟩ 1 b.site w).1.map
          (·.resolution) = .ok x.resolution := by
  refine ⟨by decide +kernel, ?_⟩
  exact never_stale Toggle.target (Env.plain_members _) (fun _ => rfl) 0 Toggle.site [{}] 0 ()
    detaching

end Workspace

end DoubleColon
