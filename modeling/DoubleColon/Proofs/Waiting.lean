import DoubleColon.Proofs.Publication

/-!
# Who waits for whom

A thread waits only at a cell that is claimed. Behind every claim there is the computation of its
owner, which either runs or has ended and is about to end the claim; and whoever ends a claim wakes
all that wait at the slot. `Orderly` carries this through every step, over claims that are taken
over for a later version and slots that are no longer in the index.
-/

set_option autoImplicit false

namespace DoubleColon

variable {α : Type}

inductive Move (α : Type) where
  | begin (op : Operation)
  | look
  | insert
  | enter
  | wake
  | leave (c : Call) (o : Outcome α)
  | finish
  | remove (site : SiteId)
  | clear

inductive Shared.StepBy (t : ThreadId) : Move α → Shared α → Shared α → Prop
  | begin {s : Shared α} (h : s.IsFree t) (op : Operation) :
      StepBy t (.begin op) s (s.setStack t (⟨op, .looking⟩ :: s.threads t))
  | look {s : Shared α} {op : Operation} {rest : List (Frame α)}
      (h : s.threads t = ⟨op, .looking⟩ :: rest) : StepBy t .look s (s.look t op rest)
  | insert {s : Shared α} {c : Call} {rest : List (Frame α)}
      (h : s.threads t = ⟨.request c, .inserting⟩ :: rest) : StepBy t .insert s (s.insert t c rest)
  | enter {s : Shared α} {op : Operation} {id : SlotId} {rest : List (Frame α)}
      (h : s.threads t = ⟨op, .entering id⟩ :: rest) : StepBy t .enter s (s.enter t op id rest)
  | wake {s : Shared α} {op : Operation} {id : SlotId} {rest : List (Frame α)}
      (h : s.threads t = ⟨op, .waiting id⟩ :: rest) :
      StepBy t .wake s (s.setStack t (⟨op, .entering id⟩ :: rest))
  | leave {s : Shared α} {c : Call} {id : SlotId} {mode : Mode} {n : Nat}
      {rest : List (Frame α)} (h : s.threads t = ⟨.request c, .computing id mode n⟩ :: rest)
      (o : Outcome α) : StepBy t (.leave c o) s (s.leave t c id mode n o rest)
  | finish {s : Shared α} {c : Call} {id : SlotId} {n : Nat} {o : Outcome α}
      {rest : List (Frame α)} (h : s.threads t = ⟨.request c, .finishing id n o⟩ :: rest) :
      StepBy t .finish s (s.finish t c id o rest)
  | remove {s : Shared α} (h : s.IsFree t) (site : SiteId) :
      StepBy t (.remove site) s (s.remove site)
  | clear {s : Shared α} (h : s.IsFree t) : StepBy t .clear s (s.onCache (·.clear))

theorem Shared.step_iff {s s' : Shared α} : Step s s' ↔ ∃ t e, StepBy t e s s' := by
  constructor
  · intro h
    cases h with
    | begin h op => exact ⟨_, _, .begin h op⟩
    | look h => exact ⟨_, _, .look h⟩
    | insert h => exact ⟨_, _, .insert h⟩
    | enter h => exact ⟨_, _, .enter h⟩
    | wake h => exact ⟨_, _, .wake h⟩
    | leave h o => exact ⟨_, _, .leave h o⟩
    | finish h => exact ⟨_, _, .finish h⟩
    | remove h site => exact ⟨_, _, .remove h site⟩
    | clear h => exact ⟨_, _, .clear h⟩
  · rintro ⟨t, e, h⟩
    cases h with
    | begin h op => exact .begin h op
    | look h => exact .look h
    | insert h => exact .insert h
    | enter h => exact .enter h
    | wake h => exact .wake h
    | leave h o => exact .leave h o
    | finish h => exact .finish h
    | remove h site => exact .remove h site
    | clear h => exact .clear h

theorem Shared.StepBy.step {s s' : Shared α} {t : ThreadId} {e : Move α}
    (h : StepBy t e s s') : Step s s' :=
  step_iff.mpr ⟨t, e, h⟩

theorem Shared.look_cases (s : Shared α) (t : ThreadId) (op : Operation) (rest : List (Frame α)) :
    (∃ id, s.cache.slotOf? op.site = some id ∧
      s.look t op rest = s.setStack t (⟨op, .entering id⟩ :: rest)) ∨
    (∃ c, op = .request c ∧ s.look t op rest = s.setStack t (⟨op, .inserting⟩ :: rest)) ∨
    (∀ c, op ≠ .request c) ∧ s.look t op rest = s.answer t op rest none := by
  unfold Shared.look
  split
  · rename_i id hid
    exact .inl ⟨id, hid, rfl⟩
  · exact .inr (.inl ⟨_, rfl, rfl⟩)
  · rename_i hop _
    exact .inr (.inr ⟨hop, rfl⟩)

/-- A section on the cells of a slot answers the operation and leaves the cells as they are, lets
the thread wait, begins a computation without a claim or with one, or forgets the values of the
slot. -/
theorem Shared.enter_cases (s : Shared α) (t : ThreadId) (op : Operation) (id : SlotId)
    (rest : List (Frame α)) :
    (∃ v, s.enter t op id rest = s.answer t op rest v) ∨
    (∃ c, op = .request c ∧
      (s.cache.state id c.lenient).admission c.version t c.mayWait = .wait ∧
      s.enter t op id rest = s.setStack t (⟨op, .waiting id⟩ :: rest)) ∨
    (∃ c why, op = .request c ∧ s.enter t op id rest = s.compute t c id (.bypass why) rest) ∨
    (∃ c, op = .request c ∧ s.enter t op id rest = (s.compute t c id .publish rest).onCache
      (·.update id c.lenient fun _ => .claimed c.version t)) ∨
    ∃ site, op = .invalidate site ∧ s.enter t op id rest = (s.answer t op rest none).onCache
      (·.updateSlot id fun k => ⟨k.complete.invalidate, k.incomplete.invalidate⟩) := by
  unfold Shared.enter
  cases op with
  | request c =>
    dsimp only
    split
    · exact .inl ⟨_, rfl⟩
    · rename_i hw
      exact .inr (.inl ⟨c, rfl, hw, rfl⟩)
    · exact .inr (.inr (.inl ⟨c, _, rfl, rfl⟩))
    · exact .inr (.inr (.inr (.inl ⟨c, rfl, rfl⟩)))
  | get site version lenient => exact .inl ⟨_, rfl⟩
  | invalidate site => exact .inr (.inr (.inr (.inr ⟨site, rfl, rfl⟩)))

def Operation.mayWait : Operation → Bool
  | .request c => c.mayWait
  | _ => false

namespace Frame

def claim? : Frame α → Option (SlotId × Bool × Nat)
  | ⟨.request c, .computing id .publish _⟩ => some (id, c.lenient, c.version)
  | ⟨.request c, .finishing id _ _⟩ => some (id, c.lenient, c.version)
  | _ => none

theorem claim?_eq_some {f : Frame α} {id : SlotId} {flag : Bool} {version : Nat} :
    f.claim? = some (id, flag, version) ↔
      ∃ c, f.op = .request c ∧ c.lenient = flag ∧ c.version = version ∧
        ((∃ n, f.point = .computing id .publish n) ∨ ∃ n o, f.point = .finishing id n o) := by
  obtain ⟨op, p⟩ := f
  constructor
  · intro h
    unfold claim? at h
    split at h
    · rename_i c k n he
      cases he
      cases h
      exact ⟨c, rfl, rfl, rfl, .inl ⟨n, rfl⟩⟩
    · rename_i c k n o he
      cases he
      cases h
      exact ⟨c, rfl, rfl, rfl, .inr ⟨n, o, rfl⟩⟩
    · cases h
  · rintro ⟨c, rfl, rfl, rfl, ⟨n, rfl⟩ | ⟨n, o, rfl⟩⟩
    · rfl
    · rfl

theorem claim?_wake (f : Frame α) (id : SlotId) :
    ({ f with point := f.point.wake id } : Frame α).claim? = f.claim? := by
  obtain ⟨op, p⟩ := f
  cases p with
  | waiting k =>
    unfold Point.wake
    cases op <;> dsimp only <;> split <;> rfl
  | _ => rfl

def WaitsAt (f : Frame α) (id : SlotId) : Prop := f.point = .waiting id

structure Ready (cache : Cache α) (f : Frame α) : Prop where
  inserting : f.point = .inserting → ∃ c, f.op = .request c
  waiting : ∀ id, f.WaitsAt id → ∃ c v o, f.op = .request c ∧ c.mayWait = true ∧
    cache.state id c.lenient = .claimed v o

theorem Ready.mono {c d : Cache α} {f : Frame α} (h : f.Ready c)
    (hcd : ∀ id flag v o, f.WaitsAt id → c.state id flag = .claimed v o →
      ∃ w u, d.state id flag = .claimed w u) : f.Ready d where
  inserting := h.inserting
  waiting id hw := by
    obtain ⟨call, v, o, hop, hm, hc⟩ := h.waiting id hw
    obtain ⟨w, u, hd⟩ := hcd id call.lenient v o hw hc
    exact ⟨call, w, u, hop, hm, hd⟩

theorem Ready.wake {c : Cache α} {f : Frame α} (h : f.Ready c) (id : SlotId) :
    Frame.Ready c { f with point := f.point.wake id } :=
  ⟨fun hp => h.inserting (Point.wake_eq hp nofun),
    fun k hw => h.waiting k (Point.wake_eq hw nofun)⟩

end Frame

theorem Cell.claimed_of_wait {a : Cell α} {version : Nat} {thread : ThreadId} {mayWait : Bool}
    (h : a.admission version thread mayWait = .wait) :
    mayWait = true ∧ ∃ v o, a = .claimed v o := by
  unfold admission at h
  split at h
  · cases h
  · split at h
    · cases h
    · split at h <;> cases h
  · rename_i v o
    refine ⟨?_, v, o, rfl⟩
    cases mayWait with
    | true => rfl
    | false => split at h <;> (try split at h) <;> (try split at h) <;> simp at h

namespace Cache

theorem claimed_invalidated {c : Cache α} {id k : SlotId} {flag : Bool} {v : Nat} {o : ThreadId} :
    (c.updateSlot id fun s => ⟨s.complete.invalidate, s.incomplete.invalidate⟩).state k flag =
      .claimed v o ↔ c.state k flag = .claimed v o := by
  have hcell : ∀ a : Cell α, a.invalidate = .claimed v o ↔ a = .claimed v o := fun a => by
    cases a <;> simp [Cell.invalidate]
  unfold state
  by_cases hid : id.index = k.index
  · cases hs : c.slots[k.index]? with
    | none => simp [updateSlot, hid, hs]
    | some s => cases flag <;> simp [updateSlot, hid, hs, Slot.state, hcell]
  · simp [updateSlot, hid]

end Cache

namespace Shared

variable {s s' : Shared α} {t u : ThreadId} {f g : Frame α} {rest : List (Frame α)}

/-- All but the topmost use of a thread are computing, every claim is that of a computation of its
owner, and who waits may do so and waits at a claim. -/
structure Orderly (s : Shared α) : Prop where
  nested : ∀ t, (s.threads t).Pairwise fun _ g => g.point.serial?.isSome
  backed : ∀ id flag v o, s.cache.state id flag = .claimed v o →
    ∃ f ∈ s.threads o, f.claim? = some (id, flag, v)
  ready : ∀ t, ∀ f ∈ s.threads t, f.Ready s.cache

theorem orderly_start : Orderly (start : Shared α) where
  nested _ := .nil
  backed id flag v o h := by simp [start, Cache.state] at h
  ready _ f hf := absurd hf List.not_mem_nil

theorem Orderly.setStack (h : s.Orderly) {frames : List (Frame α)}
    (hn : frames.Pairwise fun _ g => g.point.serial?.isSome)
    (hb : ∀ f ∈ s.threads t, ∀ p, f.claim? = some p → ∃ g ∈ frames, g.claim? = some p)
    (hr : ∀ f ∈ frames, f.Ready s.cache) : (s.setStack t frames).Orderly where
  nested u := by
    by_cases hu : u = t
    · subst hu
      simpa using hn
    · simpa [hu] using h.nested u
  backed id flag v o hc := by
    obtain ⟨f, hf, hp⟩ := h.backed id flag v o hc
    by_cases ho : o = t
    · subst ho
      obtain ⟨g, hg, hgp⟩ := hb f hf _ hp
      exact ⟨g, by simpa using hg, hgp⟩
    · exact ⟨f, by simpa [ho] using hf, hp⟩
  ready u f hf := by
    by_cases hu : u = t
    · subst hu
      exact hr f (by simpa using hf)
    · exact h.ready u f (by simpa [hu] using hf)

theorem Orderly.pop (h : s.Orderly) (hs : s.threads t = f :: rest) (hf : f.claim? = none) :
    (s.setStack t rest).Orderly := by
  refine h.setStack (List.pairwise_cons.mp (hs ▸ h.nested t)).2 ?_ ?_
  · intro g hg p hp
    rw [hs] at hg
    rcases List.mem_cons.mp hg with rfl | hg
    · rw [hf] at hp
      cases hp
    · exact ⟨g, hg, hp⟩
  · exact fun g hg => h.ready t g (hs ▸ List.mem_cons_of_mem _ hg)

theorem Orderly.swap (h : s.Orderly) (hs : s.threads t = f :: rest)
    (hc : ∀ p, f.claim? = some p → g.claim? = some p)
    (hr : g.Ready s.cache) : (s.setStack t (g :: rest)).Orderly := by
  have hn := List.pairwise_cons.mp (hs ▸ h.nested t)
  refine h.setStack (List.pairwise_cons.mpr hn) ?_ ?_
  · intro k hk p hp
    rw [hs] at hk
    rcases List.mem_cons.mp hk with rfl | hk
    · exact ⟨g, List.mem_cons_self, hc p hp⟩
    · exact ⟨k, List.mem_cons_of_mem _ hk, hp⟩
  · refine List.forall_mem_cons.mpr ⟨hr, fun k hk => ?_⟩
    exact h.ready t k (hs ▸ List.mem_cons_of_mem _ hk)

theorem Orderly.push (h : s.Orderly) (hs : s.IsFree t) (hg : g.Ready s.cache) :
    (s.setStack t (g :: s.threads t)).Orderly := by
  refine h.setStack (List.pairwise_cons.mpr ⟨fun k hk => ?_, h.nested t⟩)
    (fun f hf p hp => ⟨f, List.mem_cons_of_mem _ hf, hp⟩)
    (List.forall_mem_cons.mpr ⟨hg, h.ready t⟩)
  have hn := h.nested t
  unfold IsFree at hs
  cases hst : s.threads t with
  | nil => simp [hst] at hk
  | cons top rest =>
    rw [hst] at hk hn hs
    rcases List.mem_cons.mp hk with rfl | hk
    · exact hs k rfl
    · exact (List.pairwise_cons.mp hn).1 k hk

theorem Orderly.sameClaims (h : s.Orderly) {f : Cache α → Cache α}
    (hf : ∀ id flag v o, (f s.cache).state id flag = .claimed v o ↔
      s.cache.state id flag = .claimed v o) : (s.onCache f).Orderly where
  nested := h.nested
  backed id flag v o hc := h.backed id flag v o ((hf id flag v o).mp hc)
  ready u k hk := (h.ready u k hk).mono fun id flag v o _ hc => ⟨v, o, (hf id flag v o).mpr hc⟩

theorem Orderly.wake (h : s.Orderly) (id : SlotId) : (s.wake id).Orderly where
  nested u := List.pairwise_map.mpr (by simpa using h.nested u)
  backed k flag v o hc := by
    obtain ⟨f, hf, hp⟩ := h.backed k flag v o hc
    exact ⟨_, List.mem_map_of_mem hf, (f.claim?_wake id).trans hp⟩
  ready u f hf := by
    obtain ⟨g, hg, rfl⟩ := List.mem_map.mp hf
    exact (h.ready u g hg).wake id

theorem waits_at_wake (s : Shared α) (id : SlotId) :
    ∀ u, ∀ f ∈ (s.wake id).threads u, ¬ f.WaitsAt id := by
  intro u f hf hw
  obtain ⟨g, hg, rfl⟩ := List.mem_map.mp hf
  have hg : g.point = .waiting id := Point.wake_eq hw nofun
  have hp : g.point.wake id = .waiting id := hw
  simp [hg, Point.wake] at hp

theorem Orderly.claim (h : s.Orderly) {c : Call} {id : SlotId}
    (hs : s.threads t = ⟨.request c, .entering id⟩ :: rest) :
    ((s.compute t c id .publish rest).onCache
      (·.update id c.lenient fun _ => .claimed c.version t)).Orderly := by
  have hk : (s.compute t c id .publish rest).Orderly := by
    have hk := h.swap (g := ⟨.request c, .computing id .publish s.computations.length⟩) hs
      (fun p hp => nomatch hp) ⟨nofun, nofun⟩
    exact ⟨hk.nested, hk.backed, hk.ready⟩
  refine ⟨hk.nested, fun k flag v o hc => ?_, fun u f hf => ?_⟩
  · rcases s.cache.state_update_cases id c.lenient (fun _ => .claimed c.version t) k flag with
      he | ⟨rfl, rfl, he⟩
    · exact hk.backed k flag v o (he.symm.trans hc)
    · obtain ⟨rfl, rfl⟩ := Cell.claimed.inj (he.symm.trans hc)
      refine ⟨⟨.request c, .computing k .publish s.computations.length⟩, ?_, rfl⟩
      simp [Shared.compute, Shared.onCache]
  · refine (hk.ready u f hf).mono fun k flag v o _ hc => ?_
    rcases s.cache.state_update_cases id c.lenient (fun _ => .claimed c.version t) k flag with
      he | ⟨rfl, rfl, he⟩
    · exact ⟨v, o, he.trans hc⟩
    · exact ⟨c.version, t, he⟩

theorem Orderly.enter {op : Operation} {id : SlotId} (h : s.Orderly)
    (hs : s.threads t = ⟨op, .entering id⟩ :: rest) : (s.enter t op id rest).Orderly := by
  have hanswer : ∀ v, (s.answer t op rest v).Orderly := fun v =>
    let hk := h.pop hs (by cases op <;> rfl)
    ⟨hk.nested, hk.backed, hk.ready⟩
  rcases s.enter_cases t op id rest with
    ⟨v, he⟩ | ⟨c, rfl, hw, he⟩ | ⟨c, why, rfl, he⟩ | ⟨c, rfl, he⟩ | ⟨site, rfl, he⟩ <;> rw [he]
  · exact hanswer v
  · refine h.swap hs (fun p hp => nomatch hp) ⟨nofun, fun k hk => ?_⟩
    obtain rfl : id = k := Point.waiting.inj hk
    obtain ⟨hm, v, o, hc⟩ := Cell.claimed_of_wait hw
    exact ⟨c, v, o, rfl, hm, hc⟩
  · have hk := h.swap (g := ⟨.request c, .computing id (.bypass why) s.computations.length⟩) hs
      (fun p hp => nomatch hp) ⟨nofun, nofun⟩
    exact ⟨hk.nested, hk.backed, hk.ready⟩
  · exact h.claim hs
  · exact (hanswer none).sameClaims fun _ _ _ _ => Cache.claimed_invalidated

theorem Orderly.leave {c : Call} {id : SlotId} {mode : Mode} {n : Nat} (h : s.Orderly)
    (hs : s.threads t = ⟨.request c, .computing id mode n⟩ :: rest) (o : Outcome α) :
    (s.leave t c id mode n o rest).Orderly := by
  cases mode with
  | publish =>
    have hk := h.swap (g := ⟨.request c, .finishing id n o⟩) hs (fun p hp => hp) ⟨nofun, nofun⟩
    exact ⟨hk.nested, hk.backed, hk.ready⟩
  | bypass why =>
    have hk := h.pop hs rfl
    exact ⟨hk.nested, hk.backed, hk.ready⟩

theorem claimed_finish {c : Cache α} {id k : SlotId} {lenient flag : Bool} {version v : Nat}
    {o : ThreadId} {out : Outcome α}
    (h : (c.update id lenient fun a => a.finish version t (out.cell version)).state k flag =
      .claimed v o) :
    c.state k flag = .claimed v o ∧ ¬ (o = t ∧ (k, flag, v) = (id, lenient, version)) := by
  have hne : ∀ w u, out.cell version ≠ .claimed w u := by
    intro w u he
    cases out with
    | done x cacheable => cases cacheable <;> cases he
    | cancelled => cases he
  by_cases hk : k = id ∧ flag = lenient
  · obtain ⟨rfl, rfl⟩ := hk
    have hlt : k.index < c.slots.length := by
      by_contra hge
      rw [Cache.state_of_length_le (by simpa [Cache.update, Cache.updateSlot] using hge)] at h
      cases h
    rw [Cache.state_update hlt] at h
    rcases (c.state k flag).finish_eq version t (out.cell version) with he | ⟨-, he⟩
    · refine ⟨he.symm.trans h, ?_⟩
      rintro ⟨rfl, hv⟩
      cases hv
      rw [he.symm.trans h, Cell.finish_claimed] at h
      exact hne _ _ h
    · exact absurd (he.symm.trans h) (hne v o)
  · have hap : k ≠ id ∨ flag ≠ lenient := by
      by_contra hno
      exact hk (by simpa using hno)
    rw [Cache.state_update_apart c hap] at h
    refine ⟨h, fun hv => hk ?_⟩
    exact ⟨congrArg Prod.fst hv.2, congrArg (fun q => q.2.1) hv.2⟩

/-- Whoever ends a claim wakes all that wait at the slot, so that none is left waiting for it. -/
theorem Orderly.finish {c : Call} {id : SlotId} {n : Nat} {o : Outcome α} (h : s.Orderly)
    (hs : s.threads t = ⟨.request c, .finishing id n o⟩ :: rest) :
    (s.finish t c id o rest).Orderly := by
  have hn := List.pairwise_cons.mp (hs ▸ h.nested t)
  have hsub : ∀ u, ∀ f ∈ Function.update s.threads t rest u, f ∈ s.threads u := fun u f hf => by
    by_cases hu : u = t
    · subst hu
      rw [hs]
      exact List.mem_cons_of_mem _ (by simpa using hf)
    · simpa [hu] using hf
  refine ⟨fun u => ?_, fun k flag v w hc => ?_, fun u f hf => ?_⟩
  · refine List.pairwise_map.mpr ?_
    simp only [Point.serial?_wake]
    by_cases hu : u = t
    · subst hu
      simpa [Shared.onCache, Shared.answer] using hn.2
    · simpa [Shared.onCache, Shared.answer, hu] using h.nested u
  · obtain ⟨hold, hother⟩ := claimed_finish hc
    obtain ⟨f, hf, hp⟩ := h.backed k flag v w hold
    refine ⟨{ f with point := f.point.wake id }, List.mem_map_of_mem ?_,
      (f.claim?_wake id).trans hp⟩
    by_cases hw : w = t
    · subst hw
      rw [hs] at hf
      rcases List.mem_cons.mp hf with rfl | hf
      · exact absurd ⟨rfl, (Option.some.inj hp).symm⟩ hother
      · simpa [Shared.onCache, Shared.answer] using hf
    · simpa [Shared.onCache, Shared.answer, hw] using hf
  · have hwoken : ∀ k, f.WaitsAt k → k ≠ id := by
      rintro k hw rfl
      exact waits_at_wake _ k u f hf hw
    obtain ⟨g, hg, rfl⟩ := List.mem_map.mp hf
    refine ((h.ready u g (hsub u g hg)).wake id).mono fun k flag v w hw hc => ⟨v, w, ?_⟩
    exact (Cache.state_update_apart s.cache (.inl (hwoken k hw)) _).trans hc

theorem Orderly.remove (h : s.Orderly) (site : SiteId) : (s.remove site).Orderly := by
  have hk : (s.onCache (·.remove site)).Orderly := h.sameClaims fun _ _ _ _ => Iff.rfl
  unfold Shared.remove
  split
  · exact hk.wake _
  · exact hk

theorem Orderly.look {op : Operation} (h : s.Orderly)
    (hs : s.threads t = ⟨op, .looking⟩ :: rest) : (s.look t op rest).Orderly := by
  have hnone : (⟨op, .looking⟩ : Frame α).claim? = none := by cases op <;> rfl
  have hpop := h.pop hs hnone
  have hgo : ∀ g : Frame α, g.Ready s.cache → (s.setStack t (g :: rest)).Orderly :=
    fun g hg => h.swap hs (fun p hp => absurd (hnone.symm.trans hp) nofun) hg
  rcases s.look_cases t op rest with ⟨id, -, he⟩ | ⟨c, rfl, he⟩ | ⟨-, he⟩ <;> rw [he]
  · exact hgo _ ⟨nofun, nofun⟩
  · exact hgo _ ⟨fun _ => ⟨c, rfl⟩, nofun⟩
  · exact ⟨hpop.nested, hpop.backed, hpop.ready⟩

theorem Orderly.insert {c : Call} (h : s.Orderly)
    (hs : s.threads t = ⟨.request c, .inserting⟩ :: rest) : (s.insert t c rest).Orderly := by
  have hk := h.sameClaims (f := fun k => (k.slotFor c.site).1) fun id flag v o => by
    rw [Cache.state_of_slotFor]
  exact hk.swap (t := t) hs (fun p hp => nomatch hp) ⟨nofun, nofun⟩

theorem Orderly.step (h : s.Orderly) (hs : Step s s') : s'.Orderly := by
  cases hs with
  | begin hf op => exact h.push hf ⟨nofun, nofun⟩
  | look hs => exact h.look hs
  | insert hs => exact h.insert hs
  | enter hs => exact h.enter hs
  | @wake t op id rest hs =>
    exact h.swap hs (fun p hp => by cases op <;> cases hp) ⟨nofun, nofun⟩
  | leave hs o => exact h.leave hs o
  | finish hs => exact h.finish hs
  | remove _ site => exact h.remove site
  | clear => exact h.sameClaims fun _ _ _ _ => Iff.rfl

theorem Reachable.orderly (h : Reachable s) : s.Orderly := by
  induction h with
  | refl => exact orderly_start
  | tail _ hs ih => exact ih.step hs

/-! ## What a step leaves to others -/

theorem StepBy.others {e : Move α} (h : StepBy t e s s') (hu : u ≠ t) :
    s'.threads u = s.threads u ∨
      ∃ id, s'.threads u = (s.threads u).map fun f => { f with point := f.point.wake id } := by
  have hset : ∀ frames : List (Frame α), (s.setStack t frames).threads u = s.threads u :=
    fun frames => by simp [hu]
  cases h with
  | begin _ op => exact .inl (hset _)
  | @look _ op rest hs =>
    left
    rcases s.look_cases t op rest with ⟨id, -, he⟩ | ⟨c, -, he⟩ | ⟨-, he⟩ <;> rw [he] <;>
      exact hset _
  | insert hs => exact .inl (hset _)
  | @enter _ op id rest hs =>
    left
    rcases s.enter_cases t op id rest with
      ⟨v, he⟩ | ⟨c, -, -, he⟩ | ⟨c, why, -, he⟩ | ⟨c, -, he⟩ | ⟨site, -, he⟩ <;> rw [he] <;>
      exact hset _
  | wake hs => exact .inl (hset _)
  | @leave _ c id mode n rest hs o =>
    left
    cases mode <;> exact hset _
  | @finish _ c id n o rest hs =>
    refine .inr ⟨id, ?_⟩
    change ((s.setStack t rest).threads u).map _ = _
    rw [hset]
  | remove _ site =>
    unfold Shared.remove
    split
    · exact .inr ⟨_, rfl⟩
    · exact .inl rfl
  | clear => exact .inl rfl

/-- If a thread with a single use still waits after a step of another one, it waits as before. -/
theorem StepBy.mem_of_waits {e : Move α} (h : StepBy t e s s') (hu : u ≠ t)
    (hf : s.threads u = [f]) (hw : ∃ g ∈ s'.threads u, ∃ k, g.WaitsAt k) : f ∈ s'.threads u := by
  obtain ⟨g, hg, k, hk⟩ := hw
  rcases h.others hu with he | ⟨id, he⟩
  · rw [he, hf]
    exact List.mem_singleton_self f
  · rw [he, hf, List.map_singleton, List.mem_singleton] at hg
    have hp : f.point.wake id = .waiting k := (congrArg Frame.point hg).symm.trans hk
    rw [he, hf, List.map_singleton, hp, ← Point.wake_eq hp nofun]
    exact List.mem_singleton_self f

theorem StepBy.claims {e : Move α} (h : StepBy t e s s') {id : SlotId} {flag : Bool} {v : Nat}
    (hc : s.cache.state id flag = .claimed v t) :
    (∃ w, s'.cache.state id flag = .claimed w t) ∨ ∀ u, ∀ f ∈ s'.threads u, ¬ f.WaitsAt id := by
  cases h with
  | begin _ op => exact .inl ⟨v, hc⟩
  | @look _ op rest hs =>
    left
    rcases s.look_cases t op rest with ⟨k, -, he⟩ | ⟨c, -, he⟩ | ⟨-, he⟩ <;> rw [he] <;>
      exact ⟨v, hc⟩
  | @insert _ c rest hs => exact .inl ⟨v, (s.cache.state_of_slotFor c.site id flag).trans hc⟩
  | @enter _ op k rest hs =>
    left
    rcases s.enter_cases t op k rest with
      ⟨x, he⟩ | ⟨c, -, -, he⟩ | ⟨c, why, -, he⟩ | ⟨c, -, he⟩ | ⟨site, -, he⟩ <;> rw [he]
    · exact ⟨v, hc⟩
    · exact ⟨v, hc⟩
    · exact ⟨v, hc⟩
    · rcases s.cache.state_update_cases k c.lenient (fun _ => .claimed c.version t) id flag with
        hs | ⟨-, -, hs⟩
      · exact ⟨v, hs.trans hc⟩
      · exact ⟨c.version, hs⟩
    · exact ⟨v, Cache.claimed_invalidated.mpr hc⟩
  | wake hs => exact .inl ⟨v, hc⟩
  | @leave _ c k mode n rest hs o =>
    left
    cases mode <;> exact ⟨v, hc⟩
  | @finish _ c k n o rest hs =>
    -- Nothing else ends a claim, and those who wait are woken as it ends.
    by_cases hk : id = k
    · subst hk
      exact .inr (waits_at_wake _ id)
    · exact .inl ⟨v, (Cache.state_update_apart s.cache (.inl hk) _).trans hc⟩
  | remove _ site =>
    left
    unfold Shared.remove
    split <;> exact ⟨v, hc⟩
  | clear => exact .inl ⟨v, hc⟩

/-! ## Waiting threads -/

def Guarded (s : Shared α) : Prop :=
  ∀ t, ((s.threads t).map (·.op)).Pairwise fun op _ => op.mayWait = false

/-- The only use of the cache that a waiting thread makes is the one that it waits in. -/
theorem Orderly.alone (h : s.Orderly) (hg : s.Guarded) (hf : f ∈ s.threads t) {id : SlotId}
    (hw : f.WaitsAt id) : s.threads t = [f] := by
  obtain ⟨c, -, -, hop, hm, -⟩ := (h.ready t f hf).waiting id hw
  have hn := h.nested t
  have hd := hg t
  cases hst : s.threads t with
  | nil => simp [hst] at hf
  | cons top rest =>
    rw [hst] at hf hn hd
    rcases List.mem_cons.mp hf with rfl | hf
    · cases rest with
      | nil => rfl
      | cons g rest =>
        have := (List.pairwise_cons.mp hd).1 g.op (by simp)
        simp [hop, Operation.mayWait, hm] at this
    · have := (List.pairwise_cons.mp hn).1 f hf
      rw [hw] at this
      cases this

theorem Orderly.claims_nothing (h : s.Orderly) (hg : s.Guarded) (hf : f ∈ s.threads t)
    {id : SlotId} (hw : f.WaitsAt id) (k : SlotId) (flag : Bool) (v : Nat) :
    s.cache.state k flag ≠ .claimed v t := by
  intro hc
  obtain ⟨g, hm, hp⟩ := h.backed k flag v t hc
  rw [h.alone hg hf hw, List.mem_singleton] at hm
  obtain ⟨c, -, -, -, ⟨n, hn⟩ | ⟨n, o, hn⟩⟩ := Frame.claim?_eq_some.mp hp
  · rw [hm, hw] at hn
    cases hn
  · rw [hm, hw] at hn
    cases hn

/-- Who waits, waits for another thread that does not wait itself. -/
theorem Orderly.awaited (h : s.Orderly) (hg : s.Guarded) (hf : f ∈ s.threads t) {id : SlotId}
    (hw : f.WaitsAt id) : ∃ u, u ≠ t ∧ (∀ g ∈ s.threads u, ∀ k, ¬ g.WaitsAt k) ∧
      ∃ g ∈ s.threads u, ∃ flag v, g.claim? = some (id, flag, v) ∧
        s.cache.state id flag = .claimed v u := by
  obtain ⟨c, v, u, -, -, hc⟩ := (h.ready t f hf).waiting id hw
  obtain ⟨g, hm, hp⟩ := h.backed id c.lenient v u hc
  refine ⟨u, ?_, fun k hk i hi => h.claims_nothing hg hk hi id c.lenient v hc, g, hm, c.lenient, v,
    hp, hc⟩
  rintro rfl
  exact h.claims_nothing hg hf hw id c.lenient v hc

theorem waits_at_finish (s : Shared α) (t : ThreadId) (c : Call) (id : SlotId) (o : Outcome α)
    (rest : List (Frame α)) : ∀ u, ∀ f ∈ (s.finish t c id o rest).threads u, ¬ f.WaitsAt id :=
  waits_at_wake _ id

end Shared

end DoubleColon
