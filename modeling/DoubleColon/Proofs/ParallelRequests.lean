import DoubleColon.Proofs.Toggle
import DoubleColon.Proofs.Waiting

/-!
# Requests of many threads

Each thread is on one request at a time, and the requests of all threads share the cache. What a
thread does between its uses of the cache is a stack of activities: it resolves a site without the
cache, asks the provider for an expected type, or assumes a target. From within the provider it
resolves other sites, in the same request. `Traffic.Step` says what a thread may do next; what the
provider does, and what a computation comes to, is left open.

A request that the provider makes does not wait, since there is a site underway. So a thread waits
only if it has claimed nothing, and whom it waits for does not wait.
-/

set_option autoImplicit false

namespace DoubleColon

inductive Activity where
  | resolving (site : Site) (source : TargetOrigin)
  /-- It asks the provider for the expected type of a site, which was underway before or not. -/
  | asking (site : SiteId) (fresh : Bool)
  | assuming (site : SiteId) (previous : Option Ty)

def Activity.isScript : Activity → Bool
  | .resolving _ _ => false
  | .asking _ _ | .assuming _ _ => true

/-- An activity with the uses of the cache that surround it. -/
structure Scope (α : Type) where
  activity : Activity
  uses : List (Frame α)

structure Errand (α : Type) where
  lenient : Bool
  assumed : SiteId → Option Ty
  underway : List SiteId
  scopes : List (Scope α)

inductive Access where
  | plain (source : TargetOrigin)
  | cached (call : Call)
  deriving DecidableEq

namespace Errand

variable {α : Type}

def fresh (lenient : Bool) : Errand α := ⟨lenient, fun _ => none, [], []⟩

def access (cacheEnabled : Bool) (e : Errand α) (site : Site) : Access :=
  match e.assumed site.id with
  | some target => .plain (.assumed target)
  | none =>
      if site.id ∈ e.underway then .plain .untargeted
      else if cacheEnabled then .cached ⟨site.id, site.version, e.lenient, e.underway.isEmpty⟩
      else .plain .fromProvider

def resolving (e : Errand α) (site : Site) (source : TargetOrigin) (uses : List (Frame α)) :
    Errand α :=
  { e with scopes := ⟨.resolving site source, uses⟩ :: e.scopes }

def asking (e : Errand α) (site : SiteId) (uses : List (Frame α)) : Errand α :=
  { e with
    underway := if site ∈ e.underway then e.underway else site :: e.underway
    scopes := ⟨.asking site (site ∉ e.underway), uses⟩ :: e.scopes }

def assuming (e : Errand α) (site : SiteId) (target : Ty) (uses : List (Frame α)) : Errand α :=
  { e with
    assumed := fun id => if id = site then some target else e.assumed id
    scopes := ⟨.assuming site (e.assumed site), uses⟩ :: e.scopes }

def close (e : Errand α) : Errand α :=
  match e.scopes with
  | [] => e
  | ⟨.resolving _ _, _⟩ :: rest => { e with scopes := rest }
  | ⟨.asking site fresh, _⟩ :: rest =>
      { e with underway := if fresh then e.underway.erase site else e.underway, scopes := rest }
  | ⟨.assuming site previous, _⟩ :: rest =>
      { e with assumed := fun id => if id = site then previous else e.assumed id, scopes := rest }

end Errand

/-- The route of a request is that of its access to the cache. -/
theorem Resolver.route_eq_access {ω : Type} (r : Resolver ω) (cx : Context) (site : Site)
    (s : Session ω) : r.route cx site s =
      if (s.world.tokens.poll cx.token).1 then .refused
      else match Errand.access (α := Issued) r.settings.cacheEnabled
          ⟨cx.lenient, s.assumed, s.underway, []⟩ site with
        | .plain .fromProvider => .uncached
        | .plain source => .bypassed source
        | .cached c =>
            match (s.world.cache.cell c.site c.lenient).admission c.version cx.thread
                c.mayWait with
            | .hit x => .hit x
            | .wait => .waiting
            | .bypass .ownClaim => .reentrant
            | .bypass _ => .unstored
            | .claim => .claiming := by
  unfold route Errand.access
  dsimp only
  cases s.assumed site.id with
  | some target => rfl
  | none =>
    by_cases hu : site.id ∈ s.underway
    · simp only [if_pos hu]
    · cases r.settings.cacheEnabled with
      | true => simp only [if_neg hu]; rfl
      | false => simp only [if_neg hu]; rfl

structure Traffic (α : Type) where
  shared : Shared α
  errands : ThreadId → Errand α

def Move.Proceeds {α : Type} : Move α → Prop
  | .begin op => ∀ c, op ≠ .request c
  | .leave _ _ => False
  | _ => True

namespace Traffic

variable {α : Type}

def start : Traffic α := ⟨.start, fun _ => .fresh false⟩

def setErrand (x : Traffic α) (t : ThreadId) (e : Errand α) : Traffic α :=
  { x with errands := Function.update x.errands t e }

def IsIdle (x : Traffic α) (t : ThreadId) : Prop :=
  x.shared.threads t = [] ∧ (x.errands t).scopes = []

def IsIn (x : Traffic α) (t : ThreadId) (a : Activity) : Prop :=
  ∃ rest, (x.errands t).scopes = ⟨a, x.shared.threads t⟩ :: rest

def Computes (x : Traffic α) (t : ThreadId) (c : Call) (id : SlotId) (mode : Mode) (n : Nat)
    (rest : List (Frame α)) : Prop :=
  x.shared.threads t = ⟨.request c, .computing id mode n⟩ :: rest ∧
    ∀ a ∈ (x.errands t).scopes.head?, a.uses ≠ x.shared.threads t

def ask (cacheEnabled : Bool) (x : Traffic α) (t : ThreadId) (site : Site) : Traffic α :=
  match (x.errands t).access cacheEnabled site with
  | .plain source =>
      x.setErrand t ((x.errands t).resolving site source (x.shared.threads t))
  | .cached c =>
      { x with shared := x.shared.setStack t (⟨.request c, .looking⟩ :: x.shared.threads t) }

inductive Step (cacheEnabled : Bool) : Traffic α → Traffic α → Prop
  | request {x : Traffic α} {t : ThreadId} (h : x.IsIdle t) (lenient : Bool) (site : Site) :
      Step cacheEnabled x ((x.setErrand t (.fresh lenient)).ask cacheEnabled t site)
  | ask {x : Traffic α} {t : ThreadId} {a : Activity} (h : x.IsIn t a) (ha : a.isScript = true)
      (site : Site) : Step cacheEnabled x (x.ask cacheEnabled t site)
  | assume {x : Traffic α} {t : ThreadId} {a : Activity} (h : x.IsIn t a) (ha : a.isScript = true)
      (site : SiteId) (target : Ty) : Step cacheEnabled x
        (x.setErrand t ((x.errands t).assuming site target (x.shared.threads t)))
  | consult {x : Traffic α} {t : ThreadId} {site : Site}
      (h : x.IsIn t (.resolving site .fromProvider)) : Step cacheEnabled x
        (x.setErrand t ((x.errands t).asking site.id (x.shared.threads t)))
  | derive {x : Traffic α} {t : ThreadId} {c : Call} {id : SlotId} {mode : Mode} {n : Nat}
      {rest : List (Frame α)} (h : x.Computes t c id mode n rest)
      (hm : mode ≠ .bypass .ownClaim) : Step cacheEnabled x
        (x.setErrand t ((x.errands t).asking c.site (x.shared.threads t)))
  | close {x : Traffic α} {t : ThreadId} {a : Activity} (h : x.IsIn t a) :
      Step cacheEnabled x (x.setErrand t (x.errands t).close)
  | leave {x : Traffic α} {t : ThreadId} {c : Call} {id : SlotId} {mode : Mode} {n : Nat}
      {rest : List (Frame α)} (h : x.Computes t c id mode n rest) (o : Outcome α) :
      Step cacheEnabled x { x with shared := x.shared.leave t c id mode n o rest }
  | proceed {x : Traffic α} {t : ThreadId} {e : Move α} {s : Shared α}
      (h : Shared.StepBy t e x.shared s) (he : e.Proceeds) :
      Step cacheEnabled x { x with shared := s }

def Reachable (cacheEnabled : Bool) (x : Traffic α) : Prop :=
  Relation.ReflTransGen (Step cacheEnabled) start x

end Traffic

/-! ## The sites underway -/

section

variable {α : Type}

def Scope.opened? : Scope α → Option SiteId
  | ⟨.asking site true, _⟩ => some site
  | _ => none

def derived (scopes : List (Scope α)) : List SiteId := scopes.filterMap Scope.opened?

theorem derived_asking (site : SiteId) (fresh : Bool) (uses : List (Frame α))
    (rest : List (Scope α)) : derived (⟨.asking site fresh, uses⟩ :: rest) =
      if fresh then site :: derived rest else derived rest := by
  cases fresh <;> rfl

def Grounded : List (Scope α) → Prop
  | [] => True
  | a :: rest => (a.activity.isScript = true → derived (a :: rest) ≠ []) ∧ Grounded rest

/-- The sites underway are those that the provider is asked for, and what a thread has begun it has
begun within computations. -/
structure Errand.Sound (e : Errand α) : Prop where
  underway : e.underway = derived e.scopes
  free : ∀ a ∈ e.scopes, ∀ f ∈ a.uses.head?, f.point.serial?.isSome
  grounded : Grounded e.scopes

namespace Errand

variable {e : Errand α} {uses : List (Frame α)} {site : SiteId}

theorem sound_fresh (lenient : Bool) : (fresh lenient : Errand α).Sound :=
  ⟨rfl, fun _ h => absurd h List.not_mem_nil, trivial⟩

theorem Sound.underway_ne_nil (h : e.Sound) {a : Activity} (ha : a.isScript = true)
    {rest : List (Scope α)} (hs : e.scopes = ⟨a, uses⟩ :: rest) : e.underway ≠ [] := by
  have hg := h.grounded
  rw [hs] at hg
  rw [h.underway, hs]
  exact hg.1 ha

theorem Sound.resolving (h : e.Sound) (hu : ∀ f ∈ uses.head?, f.point.serial?.isSome)
    (site : Site) (source : TargetOrigin) : (e.resolving site source uses).Sound where
  underway := h.underway
  free := List.forall_mem_cons.mpr ⟨hu, h.free⟩
  grounded := ⟨nofun, h.grounded⟩

theorem Sound.asking (h : e.Sound) (hu : ∀ f ∈ uses.head?, f.point.serial?.isSome)
    (site : SiteId) : (e.asking site uses).Sound := by
  have hall : ∀ a ∈ (e.asking site uses).scopes, ∀ f ∈ a.uses.head?, f.point.serial?.isSome :=
    List.forall_mem_cons.mpr ⟨hu, h.free⟩
  refine ⟨?_, hall, fun _ => ?_, h.grounded⟩
  · change (e.asking site uses).underway = derived (_ :: e.scopes)
    rw [derived_asking, ← h.underway]
    by_cases hm : site ∈ e.underway <;> simp [Errand.asking, hm]
  · rw [derived_asking, ← h.underway]
    by_cases hm : site ∈ e.underway
    · simpa [hm] using List.ne_nil_of_mem hm
    · simp [hm]

theorem Sound.assuming (h : e.Sound) (hu : ∀ f ∈ uses.head?, f.point.serial?.isSome)
    (hn : e.underway ≠ []) (site : SiteId) (target : Ty) :
    (e.assuming site target uses).Sound where
  underway := h.underway
  free := List.forall_mem_cons.mpr ⟨hu, h.free⟩
  grounded := ⟨fun _ => h.underway ▸ hn, h.grounded⟩

theorem Sound.close (h : e.Sound) : e.close.Sound := by
  obtain ⟨hu, hf, hg⟩ := h
  unfold Errand.close
  split
  · exact ⟨hu, hf, hg⟩
  all_goals
    rename_i hs
    rw [hs] at hu hf hg
  · exact ⟨hu, (List.forall_mem_cons.mp hf).2, hg.2⟩
  · rename_i fresh _ _
    refine ⟨?_, (List.forall_mem_cons.mp hf).2, hg.2⟩
    rw [hu, derived_asking]
    cases fresh with
    | true => simp
    | false => rfl
  · exact ⟨hu, (List.forall_mem_cons.mp hf).2, hg.2⟩

theorem scopes_close {a : Scope α} {rest : List (Scope α)} (h : e.scopes = a :: rest) :
    e.close.scopes = rest := by
  obtain ⟨activity, uses⟩ := a
  unfold Errand.close
  rw [h]
  cases activity <;> rfl

theorem call_access {cacheEnabled : Bool} {site : Site} {c : Call}
    (h : e.access cacheEnabled site = .cached c) :
    c = ⟨site.id, site.version, e.lenient, e.underway.isEmpty⟩ := by
  unfold access at h
  split at h
  · cases h
  · split at h
    · cases h
    · split at h
      · exact (Access.cached.inj h).symm
      · cases h

end Errand

end

/-! ## Steps -/

namespace Shared

variable {α : Type} {s s' : Shared α} {t : ThreadId} {frames rest : List (Frame α)}

theorem Guarded.setStack (h : s.Guarded)
    (hf : (frames.map (·.op)).Pairwise fun op _ => op.mayWait = false) :
    (s.setStack t frames).Guarded := by
  intro u
  by_cases hu : u = t
  · subst hu
    simpa using hf
  · simpa [hu] using h u

theorem Guarded.tail (h : s.Guarded) {f : Frame α} (hs : s.threads t = f :: rest) :
    (rest.map (·.op)).Pairwise fun op _ => op.mayWait = false := by
  have := h t
  rw [hs] at this
  exact (List.pairwise_cons.mp this).2

theorem Guarded.swap (h : s.Guarded) {op : Operation} {p : Point α}
    (hs : s.threads t = ⟨op, p⟩ :: rest) (q : Point α) :
    ((⟨op, q⟩ :: rest).map (·.op)).Pairwise fun op _ => op.mayWait = false := by
  have := h t
  rwa [hs] at this

theorem Guarded.wake (h : s.Guarded) (id : SlotId) : (s.wake id).Guarded := by
  intro u
  simpa [Shared.wake, Function.comp_def] using h u

theorem Guarded.proceeds (h : s.Guarded) {e : Move α} (hs : StepBy t e s s')
    (he : e.Proceeds) : s'.Guarded := by
  cases hs with
  | begin _ op =>
    refine h.setStack (List.pairwise_cons.mpr ⟨fun _ _ => ?_, h t⟩)
    cases op with
    | request c => exact absurd rfl (he c)
    | _ => rfl
  | @look _ op rest hs =>
    rcases s.look_cases t op rest with ⟨id, -, he⟩ | ⟨c, -, he⟩ | ⟨-, he⟩ <;> rw [he]
    · exact h.setStack (h.swap hs _)
    · exact h.setStack (h.swap hs _)
    · exact h.setStack (h.tail hs)
  | insert hs => exact h.setStack (h.swap hs _)
  | @enter _ op id rest hs =>
    rcases s.enter_cases t op id rest with
      ⟨v, he⟩ | ⟨c, -, -, he⟩ | ⟨c, why, rfl, he⟩ | ⟨c, rfl, he⟩ | ⟨site, -, he⟩ <;> rw [he]
    · exact h.setStack (h.tail hs)
    · exact h.setStack (h.swap hs _)
    · exact h.setStack (h.swap hs _)
    · exact h.setStack (h.swap hs _)
    · exact h.setStack (h.tail hs)
  | wake hs => exact h.setStack (h.swap hs _)
  | leave _ _ => exact he.elim
  | finish hs => exact (h.setStack (h.tail hs)).wake _
  | remove _ site =>
    have hk : (s.onCache (·.remove site)).Guarded := h
    unfold Shared.remove
    split
    · exact hk.wake _
    · exact hk
  | clear => exact h

theorem Guarded.leave (h : s.Guarded) {c : Call} {id : SlotId} {mode : Mode} {n : Nat}
    (hs : s.threads t = ⟨.request c, .computing id mode n⟩ :: rest) (o : Outcome α) :
    (s.leave t c id mode n o rest).Guarded := by
  cases mode with
  | publish => exact h.setStack (h.swap hs _)
  | bypass why => exact h.setStack (h.tail hs)

end Shared

namespace Traffic

variable {α : Type} {x x' : Traffic α} {t : ThreadId} {cacheEnabled : Bool}

structure Sound (x : Traffic α) : Prop where
  errands : ∀ t, (x.errands t).Sound
  guarded : x.shared.Guarded

theorem sound_start : (start : Traffic α).Sound :=
  ⟨fun _ => Errand.sound_fresh false, fun _ => .nil⟩

theorem Sound.setErrand (h : x.Sound) {e : Errand α} (he : e.Sound) : (x.setErrand t e).Sound := by
  refine ⟨fun u => ?_, h.guarded⟩
  by_cases hu : u = t
  · subst hu
    simpa [Traffic.setErrand] using he
  · simpa [Traffic.setErrand, hu] using h.errands u

theorem Sound.isFree (h : x.Sound) {a : Activity} (ha : x.IsIn t a) : x.shared.IsFree t := by
  obtain ⟨rest, hs⟩ := ha
  exact (h.errands t).free ⟨a, x.shared.threads t⟩ (hs ▸ List.mem_cons_self)

/-- A thread asks for a site from where it may turn to the cache; unless nothing is underway, the
request does not wait. -/
theorem Sound.ask (h : x.Sound) (hf : x.shared.IsFree t)
    (hw : (x.errands t).underway = [] → x.shared.threads t = []) (site : Site) :
    (x.ask cacheEnabled t site).Sound := by
  unfold Traffic.ask
  cases ha : (x.errands t).access cacheEnabled site with
  | plain source => exact h.setErrand ((h.errands t).resolving hf site source)
  | cached c =>
    refine ⟨h.errands, h.guarded.setStack (List.pairwise_cons.mpr ⟨fun op hop => ?_, h.guarded t⟩)⟩
    have hm := congrArg Call.mayWait (Errand.call_access ha)
    change c.mayWait = false
    rw [hm, List.isEmpty_eq_false_iff]
    intro hu
    rw [hw hu] at hop
    exact absurd hop List.not_mem_nil

theorem Sound.step (h : x.Sound) (hs : Step cacheEnabled x x') : x'.Sound := by
  cases hs with
  | @request t hidle lenient site =>
    refine Sound.ask (h.setErrand (Errand.sound_fresh lenient)) ?_ (fun _ => hidle.1) site
    exact Shared.isFree_of_idle hidle.1
  | ask ha hscript site =>
    obtain ⟨rest, hr⟩ := id ha
    exact h.ask (h.isFree ha)
      (fun hu => absurd hu ((h.errands _).underway_ne_nil hscript hr)) site
  | @assume t a ha hscript site target =>
    obtain ⟨rest, hr⟩ := id ha
    exact h.setErrand ((h.errands t).assuming (h.isFree ha)
      ((h.errands t).underway_ne_nil hscript hr) site target)
  | @consult t site ha => exact h.setErrand ((h.errands t).asking (h.isFree ha) site.id)
  | @derive t c id mode n rest hc hm =>
    refine h.setErrand ((h.errands t).asking ?_ c.site)
    rw [hc.1]
    intro f hf
    cases hf
    rfl
  | @close t a ha => exact h.setErrand (h.errands t).close
  | leave hc o => exact ⟨h.errands, h.guarded.leave hc.1 o⟩
  | proceed hp he => exact ⟨h.errands, h.guarded.proceeds hp he⟩

theorem Step.shared (h : x.Sound) (hs : Step cacheEnabled x x') :
    x'.shared = x.shared ∨ Shared.Step x.shared x'.shared := by
  have hask : ∀ {y : Traffic α} {t : ThreadId} (site : Site), y.shared.IsFree t →
      (y.ask cacheEnabled t site).shared = y.shared ∨
        Shared.Step y.shared (y.ask cacheEnabled t site).shared := fun {y t} site hf => by
    unfold Traffic.ask
    split
    · exact .inl rfl
    · exact .inr (.begin hf _)
  cases hs with
  | @request t hidle lenient site =>
    exact hask (y := x.setErrand t _) site (Shared.isFree_of_idle hidle.1)
  | ask ha _ site => exact hask site (h.isFree ha)
  | leave hc o => exact .inr (.leave hc.1 o)
  | proceed hp _ => exact .inr hp.step
  | _ => exact .inl rfl

theorem Reachable.sound (h : Reachable cacheEnabled x) :
    x.Sound ∧ Shared.Reachable x.shared := by
  induction h with
  | refl => exact ⟨sound_start, .refl⟩
  | tail _ hs ih =>
    refine ⟨ih.1.step hs, ?_⟩
    rcases hs.shared ih.1 with he | hstep
    · rw [he]
      exact ih.2
    · exact ih.2.tail hstep

end Traffic

/-! ## Progress -/

section

variable {α : Type} {rest : List (Frame α)} {op : Operation} {p q : Point α}

def Point.rank : Point α → Nat
  | .looking => 5
  | .inserting | .waiting _ => 4
  | .entering _ => 3
  | .computing _ _ _ => 2
  | .finishing _ _ _ => 1

theorem Point.rank_le (p : Point α) : p.rank ≤ 5 := by
  cases p <;> simp [rank]

/-- What is left to do of the uses of a thread. -/
def weight : List (Frame α) → Nat
  | [] => 0
  | f :: rest => 6 * rest.length + f.point.rank + 1

theorem weight_le (frames : List (Frame α)) : weight frames ≤ 6 * frames.length := by
  cases frames with
  | nil => exact Nat.le_refl _
  | cons f rest =>
    have := f.point.rank_le
    simp only [weight, List.length_cons]
    omega

theorem weight_tail (f : Frame α) (rest : List (Frame α)) : weight rest < weight (f :: rest) := by
  have := weight_le rest
  change weight rest < 6 * rest.length + f.point.rank + 1
  omega

theorem weight_swap (h : q.rank < p.rank) :
    weight (⟨op, q⟩ :: rest) < weight (⟨op, p⟩ :: rest) := by
  simpa [weight] using h

namespace Shared

variable {s : Shared α} {t : ThreadId} {id : SlotId}

theorem weight_look : weight ((s.look t op rest).threads t) < weight (⟨op, .looking⟩ :: rest) := by
  rcases s.look_cases t op rest with ⟨k, -, he⟩ | ⟨c, -, he⟩ | ⟨-, he⟩ <;> rw [he]
  · simpa using weight_swap (by simp [Point.rank])
  · simpa using weight_swap (by simp [Point.rank])
  · simpa [Shared.answer] using weight_tail _ rest

theorem weight_insert {c : Call} : weight ((s.insert t c rest).threads t) <
    weight (⟨.request c, .inserting⟩ :: rest) := by
  simpa [Shared.insert] using weight_swap (by simp [Point.rank])

theorem weight_enter (hm : op.mayWait = false) :
    weight ((s.enter t op id rest).threads t) < weight (⟨op, .entering id⟩ :: rest) := by
  rcases s.enter_cases t op id rest with
    ⟨v, he⟩ | ⟨c, rfl, hw, he⟩ | ⟨c, why, rfl, he⟩ | ⟨c, rfl, he⟩ | ⟨site, -, he⟩ <;> rw [he]
  · simpa [Shared.answer] using weight_tail _ rest
  · cases (Cell.claimed_of_wait hw).1.symm.trans hm
  · simpa [Shared.compute] using weight_swap (by simp [Point.rank])
  · simpa [Shared.compute, Shared.onCache] using weight_swap (by simp [Point.rank])
  · simpa [Shared.answer, Shared.onCache] using weight_tail _ rest

theorem weight_leave {c : Call} {mode : Mode} {n : Nat} (o : Outcome α) :
    weight ((s.leave t c id mode n o rest).threads t) <
      weight (⟨.request c, .computing id mode n⟩ :: rest) := by
  cases mode with
  | publish => simpa [Shared.leave] using weight_swap (by simp [Point.rank])
  | bypass why => simpa [Shared.leave, Shared.answer] using weight_tail _ rest

theorem weight_finish {c : Call} {n : Nat} {o : Outcome α} :
    weight ((s.finish t c id o rest).threads t) <
      weight (⟨.request c, .finishing id n o⟩ :: rest) := by
  have hle := weight_le ((s.finish t c id o rest).threads t)
  simp only [Shared.finish, Shared.wake, Shared.onCache, Shared.answer, threads_setStack,
    Function.update_self, List.length_map] at hle ⊢
  change _ < 6 * rest.length + 1 + 1
  omega

end Shared

end

namespace Traffic

variable {α : Type} {x x' : Traffic α} {t : ThreadId} {cacheEnabled : Bool}

def load (x : Traffic α) (t : ThreadId) : Nat :=
  weight (x.shared.threads t) + (x.errands t).scopes.length

/-- A thread that uses the cache and does not wait comes nearer to its end. -/
theorem Reachable.exists_step (h : Reachable cacheEnabled x) {f : Frame α}
    {rest : List (Frame α)} (hs : x.shared.threads t = f :: rest) (hw : ∀ id, ¬ f.WaitsAt id)
    (hm : ∀ id, f.point = .entering id → f.op.mayWait = false) :
    ∃ y, Step cacheEnabled x y ∧ y.load t < x.load t ∧
      (y.shared = x.shared ∨ ∃ e, Shared.StepBy t e x.shared y.shared) := by
  obtain ⟨hx, hshared⟩ := h.sound
  obtain ⟨origins, hsound⟩ := hshared.sound
  have hmem : f ∈ x.shared.threads t := hs ▸ List.mem_cons_self
  have hf : f.Sound origins x.shared.computations t := (hsound.threads t).each f hmem
  -- A step of the cache that makes the stack of the thread lighter.
  have go : ∀ {e : Move α} {s : Shared α}, Shared.StepBy t e x.shared s → e.Proceeds →
      weight (s.threads t) < weight (f :: rest) → ∃ y, Step cacheEnabled x y ∧
        y.load t < x.load t ∧ (y.shared = x.shared ∨ ∃ e, Shared.StepBy t e x.shared y.shared) :=
    fun {e s} hstep he hlt => ⟨{ x with shared := s }, .proceed hstep he,
      Nat.add_lt_add_right (hs ▸ hlt) _, .inr ⟨e, hstep⟩⟩
  obtain ⟨op, p⟩ := f
  cases p with
  | looking => exact go (.look hs) trivial Shared.weight_look
  | inserting =>
    obtain ⟨c, rfl⟩ := (hshared.orderly.ready t _ hmem).inserting rfl
    exact go (.insert hs) trivial Shared.weight_insert
  | entering id => exact go (.enter hs) trivial (Shared.weight_enter (hm id rfl))
  | waiting id => exact absurd rfl (hw id)
  | computing id mode n =>
    obtain ⟨c, rfl, -⟩ := hf.running id mode n rfl
    by_cases hin : ∃ a, x.IsIn t a
    · obtain ⟨a, ha⟩ := hin
      refine ⟨_, .close ha, Nat.add_lt_add_left ?_ _, .inl rfl⟩
      obtain ⟨scopes, hscopes⟩ := ha
      simp only [Traffic.setErrand, Function.update_self, Errand.scopes_close hscopes, hscopes,
        List.length_cons, Nat.lt_succ_self]
    · have hc : x.Computes t c id mode n rest := by
        refine ⟨hs, fun a ha he => hin ⟨a.activity, ?_⟩⟩
        obtain ⟨scopes, hscopes⟩ := List.head?_eq_some_iff.mp ha
        exact ⟨scopes, by rw [hscopes, ← he]⟩
      exact ⟨_, .leave hc .cancelled, Nat.add_lt_add_right (hs ▸ Shared.weight_leave _) _,
        .inr ⟨_, .leave hs .cancelled⟩⟩
  | finishing id n o =>
    obtain ⟨c, rfl, -⟩ := hf.ended id n o rfl
    exact go (.finish hs) trivial Shared.weight_finish

/-- Whoever has claimed a cell comes to the end of its claim on its own, and then nobody waits for
it. -/
theorem Reachable.released (h : Reachable cacheEnabled x) {u : ThreadId} (hu : t ≠ u)
    {f : Frame α} {id : SlotId} {flag : Bool} {v : Nat} (hf : f ∈ x.shared.threads t)
    (hw : f.WaitsAt id) (hc : x.shared.cache.state id flag = .claimed v u) :
    ∃ y, Relation.ReflTransGen (Step cacheEnabled) x y ∧
      ∀ g ∈ y.shared.threads t, ∀ k, ¬ g.WaitsAt k := by
  induction hn : x.load u using Nat.strongRecOn generalizing x v with
  | ind n ih =>
    obtain ⟨hx, hshared⟩ := h.sound
    have ho := hshared.orderly
    obtain ⟨g, hg, hclaim⟩ := ho.backed id flag v u hc
    obtain ⟨top, rest, hs⟩ : ∃ top rest, x.shared.threads u = top :: rest :=
      List.exists_cons_of_ne_nil (List.ne_nil_of_mem hg)
    have hstill : ∀ k, ¬ top.WaitsAt k := fun k hk =>
      ho.claims_nothing hx.guarded (hs ▸ List.mem_cons_self) hk id flag v hc
    have hguarded : ∀ k, top.point = .entering k → top.op.mayWait = false := fun k hk => by
      have hd := hx.guarded u
      rw [hs] at hg hd
      rcases List.mem_cons.mp hg with rfl | hg
      · obtain ⟨c, -, -, -, ⟨n, hp⟩ | ⟨n, o, hp⟩⟩ := Frame.claim?_eq_some.mp hclaim <;>
          exact absurd (hk.symm.trans hp) nofun
      · exact (List.pairwise_cons.mp hd).1 g.op (List.mem_map_of_mem hg)
    obtain ⟨y, hstep, hload, hsame⟩ := h.exists_step hs hstill hguarded
    have hy : Reachable cacheEnabled y := h.tail hstep
    by_cases hwaits : ∃ g ∈ y.shared.threads t, ∃ k, g.WaitsAt k
    · obtain ⟨hfy, w, hcy⟩ : f ∈ y.shared.threads t ∧
          ∃ w, y.shared.cache.state id flag = .claimed w u := by
        rcases hsame with he | ⟨e, hby⟩
        · exact ⟨he ▸ hf, v, he ▸ hc⟩
        · have hfy := hby.mem_of_waits hu (ho.alone hx.guarded hf hw) hwaits
          exact ⟨hfy, (hby.claims hc).resolve_right fun hno => hno t f hfy hw⟩
      obtain ⟨z, hz, hdone⟩ := ih (y.load u) (hn ▸ hload) hy hfy hcy rfl
      exact ⟨z, .head hstep hz, hdone⟩
    · exact ⟨y, .single hstep, fun g hg k hk => hwaits ⟨g, hg, k, hk⟩⟩

/-- However requests take turns, a thread that waits has claimed nothing. It waits for the claimed
computation of another thread, which does not wait and comes to its end on its own; and when it
does, nobody is left waiting at its slot. -/
theorem never_deadlocked (h : Reachable cacheEnabled x) {f : Frame α} {id : SlotId}
    (hf : f ∈ x.shared.threads t) (hw : f.WaitsAt id) :
    (∀ k flag v, x.shared.cache.state k flag ≠ .claimed v t) ∧
    (∃ u, u ≠ t ∧ (∀ g ∈ x.shared.threads u, ∀ k, ¬ g.WaitsAt k) ∧
      ∃ c n, x.shared.cache.state id c.lenient = .claimed c.version u ∧
        (⟨.request c, .computing id .publish n⟩ ∈ x.shared.threads u ∨
          ∃ o, ⟨.request c, .finishing id n o⟩ ∈ x.shared.threads u) ∧
        ∀ y, Relation.ReflTransGen (Step cacheEnabled) x y → ∀ o rest,
          y.shared.threads u = ⟨.request c, .finishing id n o⟩ :: rest →
          Step cacheEnabled y { y with shared := y.shared.finish u c id o rest } ∧
            ∀ w, ∀ g ∈ (y.shared.finish u c id o rest).threads w, ¬ g.WaitsAt id) ∧
    ∃ y, Relation.ReflTransGen (Step cacheEnabled) x y ∧
      ∀ g ∈ y.shared.threads t, ∀ k, ¬ g.WaitsAt k := by
  obtain ⟨hx, hs⟩ := h.sound
  have ho := hs.orderly
  obtain ⟨u, hne, hstill, ⟨op, p⟩, hg, flag, v, hp, hc⟩ := ho.awaited hx.guarded hf hw
  obtain ⟨c, rfl, rfl, rfl, hpoint⟩ := Frame.claim?_eq_some.mp hp
  have hwake : ∀ n y, Relation.ReflTransGen (Step cacheEnabled) x y → ∀ o rest,
      y.shared.threads u = ⟨.request c, .finishing id n o⟩ :: rest →
      Step cacheEnabled y { y with shared := y.shared.finish u c id o rest } ∧
        ∀ w, ∀ g ∈ (y.shared.finish u c id o rest).threads w, ¬ g.WaitsAt id :=
    fun n y _ o rest hy => ⟨.proceed (.finish hy) trivial, y.shared.waits_at_finish u c id o rest⟩
  refine ⟨ho.claims_nothing hx.guarded hf hw, ?_, h.released hne.symm hf hw hc⟩
  rcases hpoint with ⟨n, rfl⟩ | ⟨n, o, rfl⟩
  · exact ⟨u, hne, hstill, c, n, hc, .inl hg, hwake n⟩
  · exact ⟨u, hne, hstill, c, n, hc, .inr ⟨o, hg⟩, hwake n⟩

/-- One thread computes the first site, whose provider asks for the second one. Another thread
waits for the second site. -/
theorem exists_waiting : ∃ x : Traffic Nat, Reachable true x ∧
    ⟨.request ⟨⟨1⟩, 0, false, true⟩, .waiting ⟨1⟩⟩ ∈ x.shared.threads ⟨1⟩ := by
  have h : Reachable true (start : Traffic Nat) := Relation.ReflTransGen.refl
  have h := h.tail (.request (t := ⟨0⟩) ⟨rfl, rfl⟩ false (Toggle.site ⟨0⟩))
  have h := (h.tail (.proceed (t := ⟨0⟩) (.look rfl) trivial)).tail
    (.proceed (t := ⟨0⟩) (.insert rfl) trivial)
  have h := h.tail (.proceed (t := ⟨0⟩) (.enter rfl) trivial)
  have h := h.tail (.derive (t := ⟨0⟩) ⟨rfl, by decide⟩ (by decide))
  have h := h.tail (.ask (t := ⟨0⟩) ⟨_, rfl⟩ rfl (Toggle.site ⟨1⟩))
  have h := (h.tail (.proceed (t := ⟨0⟩) (.look rfl) trivial)).tail
    (.proceed (t := ⟨0⟩) (.insert rfl) trivial)
  have h := h.tail (.proceed (t := ⟨0⟩) (.enter rfl) trivial)
  have h := h.tail (.request (t := ⟨1⟩) ⟨rfl, rfl⟩ false (Toggle.site ⟨1⟩))
  have h := (h.tail (.proceed (t := ⟨1⟩) (.look rfl) trivial)).tail
    (.proceed (t := ⟨1⟩) (.enter rfl) trivial)
  exact ⟨_, h, by decide⟩

theorem never_deadlocked_nested : ∃ x : Traffic Nat, Reachable true x ∧
    (∃ f ∈ x.shared.threads ⟨1⟩, f.WaitsAt ⟨1⟩) ∧
    (∃ u, u ≠ ⟨1⟩ ∧ ∀ g ∈ x.shared.threads u, ∀ k, ¬ g.WaitsAt k) ∧
    ∃ y, Relation.ReflTransGen (Step true) x y ∧
      ∀ g ∈ y.shared.threads ⟨1⟩, ∀ k, ¬ g.WaitsAt k := by
  obtain ⟨x, h, hf⟩ := exists_waiting
  obtain ⟨-, ⟨u, hne, hstill, -⟩, hend⟩ := never_deadlocked h hf rfl
  exact ⟨x, h, ⟨_, hf, rfl⟩, ⟨u, hne, hstill⟩, hend⟩

end Traffic

end DoubleColon
