import DoubleColon.Proofs.CacheCells
import DoubleColon.Proofs.Interleavings

/-!
# What threads publish to each other

A slot is made for one site, and whoever has found it asks for that site, even if the slot is no
longer in the index. So what is stored in a cell was computed under a claim on it, for the site of
the slot and for the version that it is stored with. This is carried by an invariant, `Sound`,
that records for which site each slot was made.
-/

set_option autoImplicit false

namespace DoubleColon

variable {α : Type}

namespace Cell

def version? : Cell α → Option Nat
  | .vacant => none
  | .claimed v _ => some v
  | .stored v _ => some v

def Advances (a b : Cell α) : Prop :=
  ∀ v w, a.version? = some v → b.version? = some w → v ≤ w

theorem advances_refl (a : Cell α) : a.Advances a := by
  intro v w hv hw
  rw [hv] at hw
  exact Nat.le_of_eq (Option.some.inj hw)

theorem advances_vacant (a : Cell α) : a.Advances .vacant := fun _ _ _ hw => nomatch hw

theorem advances_claim {a : Cell α} {version : Nat} {thread : ThreadId} {mayWait : Bool}
    (h : a.admission version thread mayWait = .claim) : a.Advances (.claimed version thread) := by
  intro v w hv hw
  obtain rfl : version = w := Option.some.inj hw
  cases a with
  | vacant => cases hv
  | stored u x =>
    obtain rfl : u = v := Option.some.inj hv
    by_contra hlt
    have hne : u ≠ version := by omega
    simp [admission, hne, show version < u by omega] at h
  | claimed u owner =>
    obtain rfl : u = v := Option.some.inj hv
    by_contra hlt
    simp [admission, show version < u by omega] at h

theorem finish_eq (a : Cell α) (version : Nat) (thread : ThreadId) (next : Cell α) :
    a.finish version thread next = a ∨
      (a = .claimed version thread ∧ a.finish version thread next = next) := by
  cases a with
  | claimed v o =>
    by_cases h : v = version ∧ o = thread
    · obtain ⟨rfl, rfl⟩ := h
      exact .inr ⟨rfl, finish_claimed v o next⟩
    · exact .inl (by simp [finish, h])
  | _ => exact .inl rfl

theorem advances_finish (a : Cell α) (version : Nat) (thread : ThreadId) (o : Outcome α) :
    a.Advances (a.finish version thread (o.cell version)) := by
  rcases a.finish_eq version thread (o.cell version) with h | ⟨ha, h⟩
  · rw [h]
    exact a.advances_refl
  · rw [h, ha]
    cases o with
    | done x cacheable =>
      cases cacheable with
      | true => exact fun v w hv hw => by cases hv; cases hw; exact Nat.le_refl _
      | false => exact advances_vacant _
    | cancelled => exact advances_vacant _

end Cell

namespace Cache

def Advances (c d : Cache α) : Prop := ∀ id flag, (c.state id flag).Advances (d.state id flag)

theorem advances_update {c : Cache α} {id : SlotId} {flag : Bool} {f : Cell α → Cell α}
    (h : (c.state id flag).Advances (f (c.state id flag))) : c.Advances (c.update id flag f) := by
  intro k flag'
  rcases c.state_update_cases id flag f k flag' with he | ⟨rfl, rfl, he⟩
  · rw [he]
    exact Cell.advances_refl _
  · rw [he]
    exact h

end Cache

namespace Shared

variable {s s' : Shared α}

/-! ## Versions -/

theorem advances_of_cache_eq (h : s'.cache = s.cache) : s.cache.Advances s'.cache := by
  intro id flag
  rw [h]
  exact Cell.advances_refl _

theorem Step.advances (h : Step s s') : s.cache.Advances s'.cache := by
  cases h with
  | begin | wake => exact advances_of_cache_eq rfl
  | look h =>
    refine advances_of_cache_eq ?_
    unfold Shared.look
    split <;> rfl
  | insert h =>
    intro id flag
    change (s.cache.state id flag).Advances ((s.cache.slotFor _).1.state id flag)
    rw [Cache.state_of_slotFor]
    exact Cell.advances_refl _
  | @enter t op id rest h =>
    unfold Shared.enter
    cases op with
    | request c =>
      dsimp only
      split
      · exact advances_of_cache_eq rfl
      · exact advances_of_cache_eq rfl
      · exact advances_of_cache_eq rfl
      · rename_i hc
        exact Cache.advances_update (Cell.advances_claim hc)
    | get site version lenient => exact advances_of_cache_eq rfl
    | invalidate site =>
      intro k flag
      rcases s.cache.state_invalidated id k flag with he | he
      · exact he ▸ Cell.advances_refl _
      · exact he ▸ Cell.advances_vacant _
  | @leave t c id mode n rest h o =>
    refine advances_of_cache_eq ?_
    cases mode <;> rfl
  | finish h => exact Cache.advances_update (Cell.advances_finish _ _ _ _)
  | remove h site =>
    refine fun id flag => ?_
    unfold Shared.remove
    split <;> exact Cell.advances_refl _
  | clear h => exact fun id flag => Cell.advances_refl _

/-! ## Where stored values come from -/

/-- A computation that had claimed the cell of a site for a version came to the value, and it may be
stored. -/
def Published (computations : List (Computation α)) (site : SiteId) (lenient : Bool)
    (version : Nat) (x : α) : Prop :=
  ∃ k ∈ computations, k.mode = .publish ∧ k.call.site = site ∧ k.call.lenient = lenient ∧
    k.call.version = version ∧ k.outcome = some (.done x true)

end Shared

structure Frame.Sound (origins : List SiteId) (computations : List (Computation α)) (t : ThreadId)
    (f : Frame α) : Prop where
  slot : ∀ id, f.point.slot? = some id → origins[id.index]? = some f.op.site
  running : ∀ id mode n, f.point = .computing id mode n →
    ∃ c, f.op = .request c ∧ computations[n]? = some ⟨t, c, mode, none⟩
  ended : ∀ id n o, f.point = .finishing id n o →
    ∃ c, f.op = .request c ∧ computations[n]? = some ⟨t, c, .publish, some o⟩

/-- The computations of a thread that are running were begun one within the other. -/
structure StackSound (origins : List SiteId) (computations : List (Computation α)) (t : ThreadId)
    (frames : List (Frame α)) : Prop where
  each : ∀ f ∈ frames, f.Sound origins computations t
  nested : frames.Pairwise fun f g => ∀ n k, f.point.serial? = some n →
    g.point.serial? = some k → k < n

namespace Shared

/-- Every slot was made for one site, every operation keeps to it, and every stored value was
published for the site of its slot. -/
structure Sound (origins : List SiteId) (s : Shared α) : Prop where
  length : origins.length = s.cache.slots.length
  entries : ∀ e ∈ s.cache.entries, origins[e.2.index]? = some e.1
  cells : ∀ id flag v x site, origins[id.index]? = some site →
    s.cache.state id flag = .stored v x → Published s.computations site flag v x
  threads : ∀ t, StackSound origins s.computations t (s.threads t)

end Shared

/-! ### Operations -/

section Stacks

variable {origins : List SiteId} {computations : List (Computation α)} {t : ThreadId}
  {f g : Frame α} {frames : List (Frame α)}

theorem Frame.Sound.of_slot {op : Operation} {p : Point α}
    (hp : ∀ id, p.slot? = some id → origins[id.index]? = some op.site)
    (hc : ∀ id mode n, p ≠ .computing id mode n) (he : ∀ id n o, p ≠ .finishing id n o) :
    Frame.Sound origins computations t ⟨op, p⟩ :=
  ⟨hp, fun id mode n h => absurd h (hc id mode n), fun id n o h => absurd h (he id n o)⟩

theorem getElem?_append_of_some {β : Type} {l : List β} {i : Nat} {a : β} (h : l[i]? = some a)
    (m : List β) : (l ++ m)[i]? = some a := by
  rw [List.getElem?_append_left (List.getElem?_eq_some_iff.mp h).1, h]

theorem Frame.Sound.append (h : f.Sound origins computations t) (sites : List SiteId)
    (more : List (Computation α)) : f.Sound (origins ++ sites) (computations ++ more) t where
  slot id hid := getElem?_append_of_some (h.slot id hid) sites
  running id mode n hp := (h.running id mode n hp).imp fun _ hc =>
    ⟨hc.1, getElem?_append_of_some hc.2 more⟩
  ended id n o hp := (h.ended id n o hp).imp fun _ hc =>
    ⟨hc.1, getElem?_append_of_some hc.2 more⟩

theorem StackSound.append (h : StackSound origins computations t frames) (sites : List SiteId)
    (more : List (Computation α)) :
    StackSound (origins ++ sites) (computations ++ more) t frames :=
  ⟨fun f hf => (h.each f hf).append sites more, h.nested⟩

theorem StackSound.tail (h : StackSound origins computations t (f :: frames)) :
    StackSound origins computations t frames :=
  ⟨fun g hg => h.each g (List.mem_cons_of_mem _ hg), (List.pairwise_cons.mp h.nested).2⟩

theorem StackSound.push (h : StackSound origins computations t frames)
    (hf : f.Sound origins computations t) (hn : f.point.serial? = none) :
    StackSound origins computations t (f :: frames) where
  each := List.forall_mem_cons.mpr ⟨hf, h.each⟩
  nested := List.pairwise_cons.mpr
    ⟨fun _ _ _ _ hs _ => absurd (hn.symm.trans hs) nofun, h.nested⟩

theorem Frame.Sound.serial_lt (h : f.Sound origins computations t) {n : Nat}
    (hn : f.point.serial? = some n) : n < computations.length := by
  obtain ⟨op, p⟩ := f
  cases p with
  | computing id mode k =>
    obtain rfl : k = n := Option.some.inj hn
    obtain ⟨c, -, hc⟩ := h.running id mode k rfl
    exact (List.getElem?_eq_some_iff.mp hc).1
  | _ => cases hn

theorem StackSound.compute (h : StackSound origins computations t frames) {c : Call} {id : SlotId}
    (hid : origins[id.index]? = some c.site) (mode : Mode) :
    StackSound origins (computations ++ [⟨t, c, mode, none⟩]) t
      (⟨.request c, .computing id mode computations.length⟩ :: frames) := by
  have hold : StackSound origins (computations ++ [⟨t, c, mode, none⟩]) t frames := by
    simpa using h.append [] [⟨t, c, mode, none⟩]
  refine ⟨List.forall_mem_cons.mpr ⟨⟨?_, ?_, fun _ _ _ hp => nomatch hp⟩, hold.each⟩,
    List.pairwise_cons.mpr ⟨?_, h.nested⟩⟩
  · intro k hk
    obtain rfl : id = k := Option.some.inj hk
    exact hid
  · intro k m n hp
    obtain ⟨rfl, rfl, rfl⟩ := Point.computing.inj hp
    exact ⟨c, rfl, by simp⟩
  · intro g hg n k hn hk
    obtain rfl : computations.length = n := Option.some.inj hn
    exact (h.each g hg).serial_lt hk

@[simp] theorem Point.slot?_wake (id : SlotId) (p : Point α) : (p.wake id).slot? = p.slot? := by
  cases p with
  | waiting k =>
    by_cases h : k = id
    · simp [Point.wake, h, Point.slot?]
    · simp [Point.wake, h, Point.slot?]
  | _ => rfl

@[simp] theorem Point.serial?_wake (id : SlotId) (p : Point α) :
    (p.wake id).serial? = p.serial? := by
  cases p with
  | waiting k =>
    by_cases h : k = id
    · simp [Point.wake, h, Point.serial?]
    · simp [Point.wake, h, Point.serial?]
  | _ => rfl

theorem Point.wake_eq {id : SlotId} {p q : Point α} (h : p.wake id = q)
    (hq : ∀ k, q ≠ .entering k) : p = q := by
  cases p with
  | waiting k =>
    by_cases hk : k = id
    · simp only [Point.wake, hk, if_true] at h
      exact absurd h.symm (hq id)
    · simpa [Point.wake, hk] using h
  | _ => exact h

theorem StackSound.wake (h : StackSound origins computations t frames) (id : SlotId) :
    StackSound origins computations t
      (frames.map fun f => { f with point := f.point.wake id }) where
  each f hf := by
    obtain ⟨g, hg, rfl⟩ := List.mem_map.mp hf
    have hs := h.each g hg
    exact ⟨fun k hk => hs.slot k (by simpa using hk),
      fun k mode n hp => hs.running k mode n (Point.wake_eq hp nofun),
      fun k n o hp => hs.ended k n o (Point.wake_eq hp nofun)⟩
  nested := by
    rw [List.pairwise_map]
    simpa using h.nested

/-! ### The end of a computation -/

def settled (computations : List (Computation α)) (n : Nat) (o : Outcome α) :
    List (Computation α) :=
  computations.modify n fun k => { k with outcome := some o }

variable {c : Call} {mode : Mode} {n : Nat} {o : Outcome α} {u : ThreadId}

theorem getElem?_settled (h : computations[n]? = some ⟨t, c, mode, none⟩) (o : Outcome α) :
    (settled computations n o)[n]? = some ⟨t, c, mode, some o⟩ := by
  simp [settled, h]

theorem getElem?_settled_ne {i : Nat} (h : n ≠ i) (o : Outcome α) :
    (settled computations n o)[i]? = computations[i]? := by
  simp [settled, h]

theorem Shared.Published.settled (hn : computations[n]? = some ⟨t, c, mode, none⟩)
    (o : Outcome α) {site : SiteId} {lenient : Bool} {version : Nat} {x : α}
    (h : Shared.Published computations site lenient version x) :
    Shared.Published (settled computations n o) site lenient version x := by
  obtain ⟨k, hk, hm, hs, hl, hv, ho⟩ := h
  obtain ⟨i, hi⟩ := List.mem_iff_getElem?.mp hk
  refine ⟨k, List.mem_iff_getElem?.mpr ⟨i, ?_⟩, hm, hs, hl, hv, ho⟩
  rw [getElem?_settled_ne, hi]
  rintro rfl
  rw [hn] at hi
  cases hi
  cases ho

theorem Frame.Sound.settled (h : f.Sound origins computations u)
    (hn : computations[n]? = some ⟨t, c, mode, none⟩) (hf : f.point.serial? ≠ some n)
    (o : Outcome α) : f.Sound origins (settled computations n o) u where
  slot := h.slot
  running id m k hp := by
    have hne : n ≠ k := by
      rintro rfl
      exact hf (by rw [hp]; rfl)
    rw [getElem?_settled_ne hne]
    exact h.running id m k hp
  ended id k p hp := by
    obtain ⟨c', hc, hk⟩ := h.ended id k p hp
    refine ⟨c', hc, ?_⟩
    rw [getElem?_settled_ne, hk]
    rintro rfl
    rw [hn] at hk
    cases hk

theorem StackSound.settled_other (h : StackSound origins computations u frames)
    (hn : computations[n]? = some ⟨t, c, mode, none⟩) (hu : u ≠ t) (o : Outcome α) :
    StackSound origins (settled computations n o) u frames := by
  refine ⟨fun f hf => (h.each f hf).settled hn ?_ o, h.nested⟩
  have hs := h.each f hf
  obtain ⟨op, p⟩ := f
  intro hp
  cases p with
  | computing id m k =>
    obtain rfl : k = n := Option.some.inj hp
    obtain ⟨c', -, hk⟩ := hs.running id m k rfl
    rw [hn] at hk
    cases hk
    exact hu rfl
  | _ => cases hp

theorem StackSound.settled_tail (h : StackSound origins computations t (f :: frames))
    (hn : computations[n]? = some ⟨t, c, mode, none⟩) (hf : f.point.serial? = some n)
    (o : Outcome α) : StackSound origins (settled computations n o) t frames := by
  refine ⟨fun g hg => (h.tail.each g hg).settled hn (fun hg' => ?_) o, h.tail.nested⟩
  exact Nat.lt_irrefl _ ((List.pairwise_cons.mp h.nested).1 g hg n n hf hg')

end Stacks

/-! ### Steps -/

namespace Shared

variable {s s' : Shared α} {origins : List SiteId} {t : ThreadId} {rest : List (Frame α)}

theorem sound_start : Sound [] (start : Shared α) where
  length := rfl
  entries e he := absurd he List.not_mem_nil
  cells id flag v x site hs _ := by simp at hs
  threads t := ⟨fun f hf => absurd hf List.not_mem_nil, .nil⟩

theorem Sound.setStack (h : Sound origins s) {frames : List (Frame α)}
    (hf : StackSound origins s.computations t frames) : Sound origins (s.setStack t frames) := by
  refine ⟨h.length, h.entries, h.cells, fun u => ?_⟩
  by_cases hu : u = t
  · subst hu
    simpa using hf
  · simpa [hu] using h.threads u

theorem Sound.answer (h : Sound origins s)
    (hr : StackSound origins s.computations t rest) (op : Operation) (v : Option α) :
    Sound origins (s.answer t op rest v) :=
  let k := h.setStack hr
  ⟨k.length, k.entries, k.cells, k.threads⟩

theorem Sound.wake (h : Sound origins s) (id : SlotId) : Sound origins (s.wake id) :=
  ⟨h.length, h.entries, h.cells, fun u => (h.threads u).wake id⟩

theorem Published.append {computations : List (Computation α)} {site : SiteId} {lenient : Bool}
    {version : Nat} {x : α} (h : Published computations site lenient version x)
    (more : List (Computation α)) : Published (computations ++ more) site lenient version x :=
  h.imp fun _ hk => ⟨List.mem_append_left _ hk.1, hk.2⟩

theorem Sound.compute (h : Sound origins s) (hr : StackSound origins s.computations t rest)
    {c : Call} {id : SlotId} (hid : origins[id.index]? = some c.site) (mode : Mode) :
    Sound origins (s.compute t c id mode rest) := by
  refine ⟨h.length, h.entries,
    fun k flag v x site hs hx => (h.cells k flag v x site hs hx).append _, fun u => ?_⟩
  by_cases hu : u = t
  · subst hu
    simpa [Shared.compute] using hr.compute hid mode
  · simpa [Shared.compute, hu] using (h.threads u).append [] [⟨t, c, mode, none⟩]

/-- What a change of the cache may do: forget entries, and store what was published. -/
theorem Sound.onCache (h : Sound origins s) {f : Cache α → Cache α}
    (hl : (f s.cache).slots.length = s.cache.slots.length)
    (he : ∀ e ∈ (f s.cache).entries, e ∈ s.cache.entries)
    (hx : ∀ id flag, (f s.cache).state id flag = s.cache.state id flag ∨
      ∀ v x, (f s.cache).state id flag = .stored v x →
        ∃ site, origins[id.index]? = some site ∧ Published s.computations site flag v x) :
    Sound origins (s.onCache f) := by
  refine ⟨h.length.trans hl.symm, fun e hm => h.entries e (he e hm), ?_, h.threads⟩
  intro id flag v x site hs hst
  rcases hx id flag with hsame | hnew
  · exact h.cells id flag v x site hs (hsame ▸ hst)
  · obtain ⟨site', hs', hp⟩ := hnew v x hst
    obtain rfl : site' = site := Option.some.inj (hs'.symm.trans hs)
    exact hp

theorem Sound.origin (h : Sound origins s) {site : SiteId} {id : SlotId}
    (hid : s.cache.slotOf? site = some id) : origins[id.index]? = some site :=
  h.entries _ (Cache.mem_of_slot hid)

theorem Sound.look {op : Operation} (h : Sound origins s)
    (hs : s.threads t = ⟨op, .looking⟩ :: rest) : Sound origins (s.look t op rest) := by
  have hr : StackSound origins s.computations t rest := (hs ▸ h.threads t).tail
  have hi : StackSound origins s.computations t (⟨op, .inserting⟩ :: rest) :=
    hr.push (.of_slot nofun nofun nofun) rfl
  unfold Shared.look
  cases hid : s.cache.slotOf? op.site with
  | some id =>
    refine h.setStack (hr.push (.of_slot (fun k hk => ?_) nofun nofun) rfl)
    obtain rfl : id = k := Option.some.inj hk
    exact h.origin hid
  | none =>
    cases op with
    | request c => exact h.setStack hi
    | get site version lenient => exact h.answer hr _ _
    | invalidate site => exact h.answer hr _ _

theorem Sound.slotFor (h : Sound origins s) (site : SiteId) :
    ∃ sites, Sound (origins ++ sites) (s.onCache fun k => (k.slotFor site).1) ∧
      (origins ++ sites)[(s.cache.slotFor site).2.index]? = some site := by
  have hstate : ∀ id flag, (s.cache.slotFor site).1.state id flag = s.cache.state id flag :=
    s.cache.state_of_slotFor site
  unfold Cache.slotFor at hstate ⊢
  cases hid : s.cache.slotOf? site with
  | some id => exact ⟨[], by simpa [Shared.onCache, hid] using h, by simpa using h.origin hid⟩
  | none =>
    simp only [hid] at hstate
    have hnew : (origins ++ [site])[s.cache.slots.length]? = some site := by
      simp [← h.length]
    refine ⟨[site], ?_, hnew⟩
    simp only [Shared.onCache, hid]
    refine ⟨by simp [h.length], fun e he => ?_, fun id flag v x site' hs hx => ?_, fun u => ?_⟩
    · rcases List.mem_append.mp he with he | he
      · exact getElem?_append_of_some (h.entries e he) _
      · rw [List.mem_singleton.mp he]
        exact hnew
    · rw [hstate] at hx
      have hlt : id.index < origins.length := by
        rw [h.length]
        by_contra hge
        rw [Cache.state_of_length_le (Nat.le_of_not_lt hge)] at hx
        cases hx
      rw [List.getElem?_append_left hlt] at hs
      exact h.cells id flag v x site' hs hx
    · simpa using (h.threads u).append [site] []

theorem Sound.insert {c : Call} (h : Sound origins s)
    (hs : s.threads t = ⟨.request c, .inserting⟩ :: rest) :
    ∃ sites, Sound (origins ++ sites) (s.insert t c rest) := by
  obtain ⟨sites, hk, hid⟩ := h.slotFor c.site
  have hall : StackSound (origins ++ sites) s.computations t (s.threads t) := hk.threads t
  have hr : StackSound (origins ++ sites) s.computations t rest := (hs ▸ hall).tail
  refine ⟨sites, hk.setStack (t := t) (hr.push (.of_slot (fun k hk => ?_) nofun nofun) rfl)⟩
  obtain rfl : (s.cache.slotFor c.site).2 = k := Option.some.inj hk
  exact hid

theorem Sound.update (h : Sound origins s) {id : SlotId} {flag : Bool} {f : Cell α → Cell α}
    (hf : f (s.cache.state id flag) = s.cache.state id flag ∨
      ∀ v x, f (s.cache.state id flag) = .stored v x →
        ∃ site, origins[id.index]? = some site ∧ Published s.computations site flag v x) :
    Sound origins (s.onCache (·.update id flag f)) := by
  refine h.onCache (by simp [Cache.update, Cache.updateSlot]) (fun e he => he) fun k flag' => ?_
  rcases s.cache.state_update_cases id flag f k flag' with he | ⟨rfl, rfl, he⟩
  · exact .inl he
  · rw [he]
    exact hf

theorem Sound.enter {op : Operation} {id : SlotId} (h : Sound origins s)
    (hs : s.threads t = ⟨op, .entering id⟩ :: rest) : Sound origins (s.enter t op id rest) := by
  have hall : StackSound origins s.computations t (⟨op, .entering id⟩ :: rest) := hs ▸ h.threads t
  have hr := hall.tail
  have hid : origins[id.index]? = some op.site :=
    (hall.each _ List.mem_cons_self).slot id rfl
  unfold Shared.enter
  cases op with
  | request c =>
    dsimp only
    split
    · exact h.answer hr _ _
    · refine h.setStack (hr.push (.of_slot (fun k hk => ?_) nofun nofun) rfl)
      obtain rfl : id = k := Option.some.inj hk
      exact hid
    · exact h.compute hr hid _
    · exact (h.compute hr hid _).update (.inr nofun)
  | get site version lenient => exact h.answer hr _ _
  | invalidate site =>
    refine (h.answer hr (.invalidate site) none).onCache (by simp [Cache.updateSlot])
      (fun e he => he) fun k flag => ?_
    refine (s.cache.state_invalidated id k flag).imp_right fun he v x hx => ?_
    rw [show ((s.answer t _ rest none).cache.updateSlot id _).state k flag = .vacant from he] at hx
    cases hx

theorem Sound.leave {c : Call} {id : SlotId} {mode : Mode} {n : Nat} (h : Sound origins s)
    (hs : s.threads t = ⟨.request c, .computing id mode n⟩ :: rest) (o : Outcome α) :
    Sound origins (s.leave t c id mode n o rest) := by
  have hall : StackSound origins s.computations t (⟨.request c, .computing id mode n⟩ :: rest) :=
    hs ▸ h.threads t
  have htop := hall.each _ List.mem_cons_self
  obtain ⟨c', hc, hn⟩ := htop.running id mode n rfl
  obtain rfl : c = c' := Operation.request.inj hc
  have hr : StackSound origins (settled s.computations n o) t rest := hall.settled_tail hn rfl o
  -- Every other thread goes on, and this one below the computation.
  have hset : ∀ frames, StackSound origins (settled s.computations n o) t frames →
      Sound origins ({ s with computations := settled s.computations n o }.setStack t frames) := by
    intro frames hf
    refine ⟨h.length, h.entries, fun k flag v x site hk hx =>
      (h.cells k flag v x site hk hx).settled hn o, fun u => ?_⟩
    by_cases hu : u = t
    · subst hu
      simpa using hf
    · simpa [hu] using (h.threads u).settled_other hn hu o
  cases mode with
  | publish =>
    refine hset _ (hr.push ⟨fun k hk => ?_, nofun, fun k m p hp => ?_⟩ rfl)
    · exact htop.slot k hk
    · obtain ⟨rfl, rfl, rfl⟩ := Point.finishing.inj hp
      exact ⟨c, rfl, getElem?_settled hn _⟩
  | bypass why =>
    let k := hset rest hr
    exact ⟨k.length, k.entries, k.cells, k.threads⟩

theorem Sound.finish {c : Call} {id : SlotId} {n : Nat} {o : Outcome α} (h : Sound origins s)
    (hs : s.threads t = ⟨.request c, .finishing id n o⟩ :: rest) :
    Sound origins (s.finish t c id o rest) := by
  have hall : StackSound origins s.computations t (⟨.request c, .finishing id n o⟩ :: rest) :=
    hs ▸ h.threads t
  have htop := hall.each _ List.mem_cons_self
  obtain ⟨c', hc, hn⟩ := htop.ended id n o rfl
  obtain rfl : c = c' := Operation.request.inj hc
  refine ((h.answer hall.tail (.request c) o.value?).update ?_).wake id
  refine ((s.cache.state id c.lenient).finish_eq c.version t (o.cell c.version)).imp_right ?_
  rintro ⟨-, hf⟩ v x hx
  -- What the claim leaves is what its computation came to.
  have hcell : o.cell c.version = .stored v x := hf.symm.trans hx
  refine ⟨c.site, htop.slot id rfl, _, List.mem_of_getElem? hn, rfl, rfl, rfl, ?_⟩
  cases o with
  | done y cacheable =>
    cases cacheable with
    | true =>
      obtain ⟨rfl, rfl⟩ := Cell.stored.inj hcell
      exact ⟨rfl, rfl⟩
    | false => cases hcell
  | cancelled => cases hcell

theorem Sound.remove (h : Sound origins s) (site : SiteId) : Sound origins (s.remove site) := by
  have hk : Sound origins (s.onCache (·.remove site)) :=
    h.onCache rfl (fun e he => (List.mem_filter.mp he).1) fun _ _ => .inl rfl
  unfold Shared.remove
  split
  · exact hk.wake _
  · exact hk

/-- A step keeps to the sites that the slots were made for, and may make one more. -/
theorem Sound.step (h : Sound origins s) (hs : Step s s') :
    ∃ sites, Sound (origins ++ sites) s' := by
  have keep : Sound origins s' → ∃ sites, Sound (origins ++ sites) s' := fun hk =>
    ⟨[], by simpa using hk⟩
  cases hs with
  | @begin t _ op =>
    exact keep (h.setStack ((h.threads t).push (.of_slot nofun nofun nofun) rfl))
  | look hs => exact keep (h.look hs)
  | insert hs => exact h.insert hs
  | enter hs => exact keep (h.enter hs)
  | @wake t op id rest hs =>
    have hall : StackSound origins s.computations t (⟨op, .waiting id⟩ :: rest) :=
      hs ▸ h.threads t
    refine keep (h.setStack (hall.tail.push (.of_slot (fun k hk => ?_) nofun nofun) rfl))
    exact (hall.each _ List.mem_cons_self).slot k hk
  | leave hs o => exact keep (h.leave hs o)
  | finish hs => exact keep (h.finish hs)
  | remove _ site => exact keep (h.remove site)
  | clear => exact keep (h.onCache rfl (fun e he => absurd he List.not_mem_nil) fun _ _ => .inl rfl)

theorem Reachable.sound (h : Reachable s) : ∃ origins, Sound origins s := by
  induction h with
  | refl => exact ⟨[], sound_start⟩
  | tail _ hs ih =>
    obtain ⟨origins, ho⟩ := ih
    obtain ⟨sites, hk⟩ := ho.step hs
    exact ⟨_, hk⟩

/-- However threads take turns, what the cache finds for a site at a version is the value of a
computation that was begun under a claim for just that and may be stored; and no step replaces
what a cell is for by something older. -/
theorem publication_safe (h : Reachable s) :
    (∀ site lenient version x, s.cache.cell site lenient = .stored version x →
      Published s.computations site lenient version x) ∧
    ∀ s', Step s s' → ∀ id lenient v w, (s.cache.state id lenient).version? = some v →
      (s'.cache.state id lenient).version? = some w → v ≤ w := by
  obtain ⟨origins, ho⟩ := h.sound
  refine ⟨fun site lenient version x hx => ?_, fun s' hs id lenient => hs.advances id lenient⟩
  unfold Cache.cell at hx
  cases hid : s.cache.slotOf? site with
  | none => simp [hid] at hx
  | some id =>
    rw [hid] at hx
    exact ho.cells id lenient version x site (ho.origin hid) hx

def overtaking (version : Nat) : Call := ⟨⟨0⟩, version, false, true⟩

/-- One thread computes for version 0. Another one takes its claim over for version 1 and comes to
its end first. -/
def overtaken : Shared Nat :=
  let s := (start.setStack ⟨0⟩ [⟨.request (overtaking 0), .looking⟩]).look ⟨0⟩
    (.request (overtaking 0)) []
  let s := (s.insert ⟨0⟩ (overtaking 0) []).enter ⟨0⟩ (.request (overtaking 0)) ⟨0⟩ []
  let s := (s.setStack ⟨1⟩ [⟨.request (overtaking 1), .looking⟩]).look ⟨1⟩
    (.request (overtaking 1)) []
  let s := s.enter ⟨1⟩ (.request (overtaking 1)) ⟨0⟩ []
  let s := (s.leave ⟨1⟩ (overtaking 1) ⟨0⟩ .publish 1 (.done 11 true) []).finish ⟨1⟩
    (overtaking 1) ⟨0⟩ (.done 11 true) []
  (s.leave ⟨0⟩ (overtaking 0) ⟨0⟩ .publish 0 (.done 10 true) []).finish ⟨0⟩
    (overtaking 0) ⟨0⟩ (.done 10 true) []

theorem reachable_overtaken : Reachable overtaken := by
  have h := Relation.ReflTransGen.refl (r := Step) (a := (start : Shared Nat))
  have h := h.tail (.begin (t := ⟨0⟩) (isFree_of_idle rfl) (.request (overtaking 0)))
  have h := (h.tail (.look (t := ⟨0⟩) rfl)).tail (.insert (t := ⟨0⟩) rfl)
  have h := h.tail (.enter (t := ⟨0⟩) rfl)
  have h := h.tail (.begin (t := ⟨1⟩) (isFree_of_idle rfl) (.request (overtaking 1)))
  have h := (h.tail (.look (t := ⟨1⟩) rfl)).tail (.enter (t := ⟨1⟩) rfl)
  have h := (h.tail (.leave (t := ⟨1⟩) rfl (.done 11 true))).tail (.finish (t := ⟨1⟩) rfl)
  exact (h.tail (.leave (t := ⟨0⟩) rfl (.done 10 true))).tail (.finish (t := ⟨0⟩) rfl)

theorem publication_safe_overtaken :
    overtaken.cache.cell ⟨0⟩ false = .stored 1 11 ∧
      Published overtaken.computations ⟨0⟩ false 1 11 := by
  have hcell : overtaken.cache.cell ⟨0⟩ false = .stored 1 11 := by decide +kernel
  exact ⟨hcell, (publication_safe reachable_overtaken).1 ⟨0⟩ false 1 11 hcell⟩

end Shared

end DoubleColon
