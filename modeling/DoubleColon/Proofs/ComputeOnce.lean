import DoubleColon.Proofs.Waiting

/-!
# Computing once

Any number of threads make one and the same call, for a site that nothing is computed for and
nothing of that version is known of. The first to enter the cell claims it, and all others find its
claim or its value, whatever threads do for other sites in between. So one computation answers all
of them.

The stages of the call are those of its cell: it is untouched, claimed by the thread that computes,
and holds the value.
-/

set_option autoImplicit false

namespace DoubleColon

variable {α : Type}

/-- What threads may do while nothing but a call touches the slot of its site: each thread makes the
call once at a time, or looks for a value, and what is computed may be stored. -/
def Move.Permits (c : Call) (t : ThreadId) (s : Shared α) : Move α → Prop
  | .begin op => op.site = c.site →
      (op = .request c ∧ ∀ f ∈ s.threads t, f.op ≠ .request c) ∨ ∃ v l, op = .get c.site v l
  | .leave d o => d.site = c.site → ∃ x, o = .done x true
  | .remove site => site ≠ c.site
  | .clear => s.cache.slotOf? c.site = none
  | _ => True

def Shared.CallStep (c : Call) (s s' : Shared α) : Prop :=
  ∃ t e, StepBy t e s s' ∧ e.Permits c t s

def Point.record? : Point α → Option Nat
  | .computing _ _ n | .finishing _ n _ => some n
  | _ => none

structure Frame.Fits (c : Call) (slot : Option SlotId) (mark : Nat) (f : Frame α) : Prop where
  op : f.op.site = c.site → f.op = .request c ∨ ∃ v l, f.op = .get c.site v l
  slot : f.op.site = c.site → ∀ id, f.point.slot? = some id → slot = some id
  record : f.op.site = c.site → ∀ n, f.point.record? = some n → mark ≤ n

namespace Shared

/-- Each thread makes the call once at a time, and all find the same slot. -/
structure Hosts (c : Call) (mark : Nat) (s : Shared α) : Prop where
  length : mark ≤ s.computations.length
  each : ∀ t, ∀ f ∈ s.threads t, f.Fits c (s.cache.slotOf? c.site) mark
  once : ∀ t, (s.threads t).Pairwise fun f g => f.op = .request c → g.op ≠ .request c

end Shared

theorem Frame.Fits.mono {c : Call} {slot slot' : Option SlotId} {mark : Nat} {f : Frame α}
    (h : f.Fits c slot mark) (hs : ∀ id, slot = some id → slot' = some id) :
    f.Fits c slot' mark :=
  ⟨h.op, fun hf id hid => hs id (h.slot hf id hid), h.record⟩

theorem Point.record?_wake (id : SlotId) (p : Point α) :
    (p.wake id).record? = p.record? := by
  cases p with
  | waiting k =>
    by_cases h : k = id
    · simp [Point.wake, h, Point.record?]
    · simp [Point.wake, h, Point.record?]
  | _ => rfl

namespace Shared

variable {s s' : Shared α} {c : Call} {mark : Nat} {t : ThreadId} {rest : List (Frame α)}
  {op : Operation} {p q : Point α}

theorem Hosts.setStack (h : s.Hosts c mark) {frames : List (Frame α)}
    (he : ∀ f ∈ frames, f.Fits c (s.cache.slotOf? c.site) mark)
    (ho : frames.Pairwise fun f g => f.op = .request c → g.op ≠ .request c) :
    (s.setStack t frames).Hosts c mark := by
  refine ⟨h.length, fun u => ?_, fun u => ?_⟩
  · by_cases hu : u = t
    · subst hu
      simpa using he
    · simpa [hu] using h.each u
  · by_cases hu : u = t
    · subst hu
      simpa using ho
    · simpa [hu] using h.once u

theorem Hosts.pop (h : s.Hosts c mark) (hs : s.threads t = ⟨op, p⟩ :: rest) :
    (s.setStack t rest).Hosts c mark :=
  h.setStack (fun f hf => h.each t f (hs ▸ List.mem_cons_of_mem _ hf))
    (List.pairwise_cons.mp (hs ▸ h.once t)).2

theorem Hosts.swap (h : s.Hosts c mark) (hs : s.threads t = ⟨op, p⟩ :: rest)
    (hi : ∀ id, q.slot? = some id → p.slot? = some id ∨ s.cache.slotOf? op.site = some id)
    (hr : ∀ n, q.record? = some n → p.record? = some n ∨ mark ≤ n) :
    (s.setStack t (⟨op, q⟩ :: rest)).Hosts c mark := by
  have htop : Frame.Fits c (s.cache.slotOf? c.site) mark ⟨op, p⟩ :=
    h.each t _ (hs ▸ List.mem_cons_self)
  refine h.setStack (List.forall_mem_cons.mpr ⟨⟨htop.op, fun hf id hid => ?_, fun hf n hn => ?_⟩,
    fun f hf => h.each t f (hs ▸ List.mem_cons_of_mem _ hf)⟩)
    (List.pairwise_cons.mpr (List.pairwise_cons.mp (hs ▸ h.once t)))
  · rcases hi id hid with hp | hp
    · exact htop.slot hf id hp
    · rw [← hp]
      exact congrArg _ hf.symm
  · exact (hr n hn).elim (htop.record hf n) id

theorem Hosts.onCache (h : s.Hosts c mark) {f : Cache α → Cache α}
    (hf : ∀ id, s.cache.slotOf? c.site = some id → (f s.cache).slotOf? c.site = some id) :
    (s.onCache f).Hosts c mark :=
  ⟨h.length, fun t g hg => (h.each t g hg).mono hf, h.once⟩

theorem Hosts.wake (h : s.Hosts c mark) (id : SlotId) : (s.wake id).Hosts c mark := by
  refine ⟨h.length, fun u f hf => ?_, fun u => List.pairwise_map.mpr (by simpa using h.once u)⟩
  obtain ⟨g, hg, rfl⟩ := List.mem_map.mp hf
  obtain ⟨hop, hslot, hrecord⟩ := h.each u g hg
  exact ⟨hop, fun hf k hk => hslot hf k ((g.point.slot?_wake id).symm.trans hk),
    fun hf n hn => hrecord hf n ((g.point.record?_wake id).symm.trans hn)⟩

theorem Hosts.answer (h : s.Hosts c mark) (hs : s.threads t = ⟨op, p⟩ :: rest)
    (v : Option α) : (s.answer t op rest v).Hosts c mark :=
  let k := h.pop hs
  ⟨k.length, k.each, k.once⟩

theorem Hosts.compute (h : s.Hosts c mark) {d : Call} {id : SlotId}
    (hs : s.threads t = ⟨.request d, .entering id⟩ :: rest) (mode : Mode) :
    (s.compute t d id mode rest).Hosts c mark := by
  have hk := h.swap (q := .computing id mode s.computations.length) hs (fun k hk => .inl hk)
    fun n hn => .inr (Option.some.inj hn ▸ h.length)
  exact ⟨Nat.le_trans hk.length (by simp [Shared.compute]), hk.each, hk.once⟩

/-- What is permitted keeps the slot of the call in the index, and all that find it. -/
theorem Hosts.step (h : s.Hosts c mark) (hc : s.cache.WellFormed) {e : Move α}
    (hs : StepBy t e s s') (he : e.Permits c t s) : s'.Hosts c mark := by
  cases hs with
  | begin _ op =>
    refine h.setStack (List.forall_mem_cons.mpr ⟨⟨fun hf => ?_, nofun, nofun⟩, h.each t⟩)
      (List.pairwise_cons.mpr ⟨fun f hf hop => ?_, h.once t⟩)
    · exact (he hf).imp_left (·.1)
    · have hop : op = .request c := hop
      subst hop
      rcases he rfl with ⟨-, hnew⟩ | ⟨v, l, hget⟩
      · exact hnew f hf
      · cases hget
  | @look _ op rest hs =>
    rcases s.look_cases t op rest with ⟨id, hid, he⟩ | ⟨d, -, he⟩ | ⟨-, he⟩ <;> rw [he]
    · exact h.swap hs (fun k hk => .inr (Option.some.inj hk ▸ hid)) nofun
    · exact h.swap hs nofun nofun
    · exact h.answer hs _
  | @insert _ d rest hs =>
    have hk := h.onCache (f := fun k => (k.slotFor d.site).1)
      ((Cache.grows_slotFor hc d.site).keeps c.site)
    refine hk.swap (t := t) (q := .entering (s.cache.slotFor d.site).2) hs
      (fun k hk => .inr ?_) nofun
    rw [← Option.some.inj hk]
    exact s.cache.slot_slotFor d.site
  | @enter _ op id rest hs =>
    rcases s.enter_cases t op id rest with
      ⟨v, he⟩ | ⟨d, -, -, he⟩ | ⟨d, why, rfl, he⟩ | ⟨d, rfl, he⟩ | ⟨site, -, he⟩ <;> rw [he]
    · exact h.answer hs v
    · exact h.swap hs (fun k hk => .inl hk) nofun
    · exact h.compute hs _
    · exact (h.compute hs _).onCache fun k hk => hk
    · exact (h.answer hs none).onCache fun k hk => hk
  | wake hs => exact h.swap hs (fun k hk => .inl hk) nofun
  | @leave _ d id mode n rest hs o =>
    cases mode with
    | publish =>
      have hk := h.swap (q := .finishing id n o) hs (fun k hk => .inl hk) (fun k hk => .inl hk)
      exact ⟨by simpa [Shared.leave] using h.length, hk.each, hk.once⟩
    | bypass why =>
      have hk := h.answer hs o.value?
      exact ⟨by simpa [Shared.leave, Shared.answer] using h.length, hk.each, hk.once⟩
  | @finish _ d id n o rest hs =>
    exact ((h.answer hs _).onCache fun k hk => hk).wake id
  | remove _ site =>
    have hk : (s.onCache (·.remove site)).Hosts c mark := h.onCache fun k hk => by
      rw [Cache.slotOf?_remove _ (Ne.symm he)]
      exact hk
    unfold Shared.remove
    split
    · exact hk.wake _
    · exact hk
  | clear =>
    refine h.onCache fun k hk => ?_
    have he : s.cache.slotOf? c.site = none := he
    rw [he] at hk
    cases hk

/-! ## Other sites -/

theorem Sound.wellFormed {origins : List SiteId} (h : Sound origins s) : s.cache.WellFormed where
  inRange e he := by
    rw [← h.length]
    exact (List.getElem?_eq_some_iff.mp (h.entries e he)).1
  apart e he f hf hef := by
    have hf := h.entries f hf
    rw [← hef, h.entries e he] at hf
    exact Option.some.inj hf

theorem Sound.cell_apart {origins : List SiteId} (h : Sound origins s) {id : SlotId}
    {site other : SiteId} (hid : origins[id.index]? = some other) (hne : other ≠ site)
    (f : Slot α → Slot α) (flag : Bool) :
    (s.cache.updateSlot id f).cell site flag = s.cache.cell site flag := by
  have hslot : (s.cache.updateSlot id f).slotOf? site = s.cache.slotOf? site := rfl
  unfold Cache.cell
  rw [hslot]
  cases hk : s.cache.slotOf? site with
  | none => rfl
  | some k =>
    have hik : id.index ≠ k.index := by
      intro he
      rw [he, h.origin hk] at hid
      exact hne (Option.some.inj hid).symm
    simp [Cache.state, Cache.updateSlot, hik]

def Ran (s : Shared α) (mark : Nat) (site : SiteId) (n : Nat) (k : Computation α) : Prop :=
  mark ≤ n ∧ s.computations[n]? = some k ∧ k.call.site = site

theorem ran_append {site : SiteId} {k : Computation α}
    (hs : s'.computations = s.computations ++ [k]) (hk : k.call.site ≠ site) (n : Nat)
    (k' : Computation α) : s'.Ran mark site n k' ↔ s.Ran mark site n k' := by
  unfold Ran
  rw [hs]
  constructor
  · rintro ⟨hm, hn, hsite⟩
    refine ⟨hm, ?_, hsite⟩
    rcases Nat.lt_trichotomy n s.computations.length with hlt | heq | hgt
    · rwa [List.getElem?_append_left hlt] at hn
    · subst heq
      simp only [List.getElem?_concat_length, Option.some.injEq] at hn
      exact absurd (hn ▸ hsite) hk
    · rw [List.getElem?_eq_none (by simpa [Nat.succ_le_iff] using hgt)] at hn
      cases hn
  · rintro ⟨hm, hn, hsite⟩
    exact ⟨hm, getElem?_append_of_some hn _, hsite⟩

theorem ran_settled {site : SiteId} {d : Call} {mode : Mode} {i : Nat} {o : Outcome α}
    (hs : s'.computations = settled s.computations i o)
    (hi : s.computations[i]? = some ⟨t, d, mode, none⟩) (hd : d.site ≠ site) (n : Nat)
    (k : Computation α) : s'.Ran mark site n k ↔ s.Ran mark site n k := by
  unfold Ran
  rw [hs]
  by_cases hin : i = n
  · subst hin
    rw [getElem?_settled hi, hi]
    constructor
    · rintro ⟨-, hk, hsite⟩
      obtain rfl := Option.some.inj hk
      exact absurd hsite hd
    · rintro ⟨-, hk, hsite⟩
      obtain rfl := Option.some.inj hk
      exact absurd hsite hd
  · rw [getElem?_settled_ne hin]

/-! ## The stages of a call -/

/-- How far a call has come: its cell, the computations of its site, and the new replies. -/
inductive Stage (c : Call) (mark : Nat) (replies : List (Reply α)) (s : Shared α) : Prop
  | before (ran : ∀ n k, ¬ s.Ran mark c.site n k)
      (cell : s.cache.cell c.site c.lenient = .vacant ∨
        ∃ v x, s.cache.cell c.site c.lenient = .stored v x ∧ v < c.version)
      (replied : ∀ r ∈ replies, r.op ≠ .request c)
  | during {n : Nat} {t : ThreadId} {o : Option (Outcome α)}
      (ran : s.Ran mark c.site n ⟨t, c, .publish, o⟩)
      (only : ∀ i k, s.Ran mark c.site i k → i = n)
      (success : ∀ p, o = some p → ∃ x, p = .done x true)
      (cell : s.cache.cell c.site c.lenient = .claimed c.version t)
      (replied : ∀ r ∈ replies, r.op ≠ .request c)
  | after {n : Nat} {t : ThreadId} {x : α}
      (ran : s.Ran mark c.site n ⟨t, c, .publish, some (.done x true)⟩)
      (only : ∀ i k, s.Ran mark c.site i k → i = n)
      (cell : s.cache.cell c.site c.lenient = .stored c.version x)
      (replied : ∀ r ∈ replies, r.op = .request c → r.value = some x)

variable {replies more : List (Reply α)}

theorem Stage.quiet (h : s.Stage c mark replies)
    (hcell : s'.cache.cell c.site c.lenient = s.cache.cell c.site c.lenient)
    (hran : ∀ n k, s'.Ran mark c.site n k ↔ s.Ran mark c.site n k)
    (hmore : ∀ r ∈ more, r.op ≠ .request c) : s'.Stage c mark (replies ++ more) := by
  cases h with
  | before ran cell replied =>
    refine .before (fun n k hk => ran n k ((hran n k).mp hk)) (hcell ▸ cell) ?_
    exact fun r hr => (List.mem_append.mp hr).elim (replied r) (hmore r)
  | during ran only success cell replied =>
    refine .during ((hran _ _).mpr ran) (fun i k hk => only i k ((hran i k).mp hk)) success
      (hcell.trans cell) ?_
    exact fun r hr => (List.mem_append.mp hr).elim (replied r) (hmore r)
  | after ran only cell replied =>
    refine .after ((hran _ _).mpr ran) (fun i k hk => only i k ((hran i k).mp hk))
      (hcell.trans cell) ?_
    intro r hr hop
    exact (List.mem_append.mp hr).elim (fun hr => replied r hr hop)
      fun hr => absurd hop (hmore r hr)

theorem Hosts.call (h : s.Hosts c mark) {d : Call} {p : Point α}
    (hs : s.threads t = ⟨.request d, p⟩ :: rest) (hd : d.site = c.site) : d = c := by
  have hf : Frame.Fits c (s.cache.slotOf? c.site) mark ⟨.request d, p⟩ :=
    h.each t _ (hs ▸ List.mem_cons_self)
  rcases hf.op hd with hop | ⟨v, l, hop⟩
  · exact Operation.request.inj hop
  · cases hop

theorem Hosts.not_owner {origins : List SiteId} (h : s.Hosts c mark) (hsound : Sound origins s)
    (ho : s.Orderly) {id : SlotId} (hs : s.threads t = ⟨.request c, .entering id⟩ :: rest)
    {flag : Bool} {v : Nat} : s.cache.state id flag ≠ .claimed v t := by
  intro hc
  obtain ⟨⟨op, p⟩, hg, hclaim⟩ := ho.backed id flag v t hc
  obtain ⟨d, rfl, -, -, hp⟩ := Frame.claim?_eq_some.mp hclaim
  have hslot : p.slot? = some id := by
    rcases hp with ⟨n, rfl⟩ | ⟨n, o, rfl⟩ <;> rfl
  have horigin : origins[id.index]? = some d.site :=
    ((hsound.threads t).each _ hg).slot id hslot
  have hown : origins[id.index]? = some c.site :=
    ((hsound.threads t).each ⟨.request c, .entering id⟩ (hs ▸ List.mem_cons_self)).slot id rfl
  have hd : d.site = c.site := Option.some.inj (horigin.symm.trans hown)
  have hcall : (.request d : Operation) = .request c := by
    rcases (h.each t _ hg).op hd with hop | ⟨w, l, hop⟩
    · exact hop
    · cases hop
  have honce := h.once t
  rw [hs] at hg honce
  rcases List.mem_cons.mp hg with he | hg
  · cases he
    rcases hp with ⟨n, hn⟩ | ⟨n, o, hn⟩ <;> cases hn
  · exact (List.pairwise_cons.mp honce).1 _ hg rfl hcall

theorem Stage.enter {origins : List SiteId} (h : s.Stage c mark replies) (hm : c.mayWait = true)
    (hh : s.Hosts c mark) (hsound : Sound origins s) (ho : s.Orderly) {id : SlotId}
    (hs : s.threads t = ⟨.request c, .entering id⟩ :: rest) :
    ∃ more, (s.enter t (.request c) id rest).replies = s.replies ++ more ∧
      (s.enter t (.request c) id rest).Stage c mark (replies ++ more) := by
  have hslot : s.cache.slotOf? c.site = some id :=
    (hh.each t _ (hs ▸ List.mem_cons_self)).slot rfl id rfl
  have hcell : s.cache.cell c.site c.lenient = s.cache.state id c.lenient := by
    rw [Cache.cell, hslot]
  unfold Shared.enter
  dsimp only
  cases h with
  | before ran cell replied =>
    have hadm : (s.cache.state id c.lenient).admission c.version t c.mayWait = .claim := by
      rw [← hcell]
      rcases cell with hv | ⟨v, x, hv, hlt⟩
      · rw [hv]
        rfl
      · have hne : v ≠ c.version := by omega
        have hge : ¬ c.version < v := by omega
        simp [hv, Cell.admission, hne, hge]
    rw [hadm]
    refine ⟨[], (List.append_nil _).symm, .during (n := s.computations.length) (o := none) (t := t)
      ⟨hh.length, List.getElem?_concat_length, rfl⟩ ?_ (fun p hp => by cases hp) ?_
      (by simpa using replied)⟩
    · -- Any other computation for the site would be one of those before the call.
      rintro i k ⟨hi, hk, hsite⟩
      by_contra hne
      refine ran i k ⟨hi, ?_, hsite⟩
      change (s.computations ++ [_])[i]? = some k at hk
      have hlt : i < s.computations.length := by
        have := (List.getElem?_eq_some_iff.mp hk).1
        simp only [List.length_append, List.length_singleton] at this
        omega
      rwa [List.getElem?_append_left hlt] at hk
    · exact Cache.cell_update hsound.wellFormed hslot c.lenient _
  | @during n u o ran only success cell replied =>
    have hne : u ≠ t := by
      rintro rfl
      exact hh.not_owner hsound ho hs (hcell ▸ cell)
    have hadm : (s.cache.state id c.lenient).admission c.version t c.mayWait = .wait := by
      simp [← hcell, cell, Cell.admission, hne, hm]
    rw [hadm]
    exact ⟨[], (List.append_nil _).symm,
      .during ran only success cell (by simpa using replied)⟩
  | @after n u x ran only cell replied =>
    rw [← hcell, cell, Cell.admission_stored]
    refine ⟨[⟨t, .request c, some x⟩], rfl, .after ran only cell fun r hr hop => ?_⟩
    rcases List.mem_append.mp hr with hr | hr
    · exact replied r hr hop
    · rw [List.mem_singleton.mp hr]

theorem Stage.leave (h : s.Stage c mark replies) (hh : s.Hosts c mark) {origins : List SiteId}
    (hsound : Sound origins s) {id : SlotId} {mode : Mode} {n : Nat}
    (hs : s.threads t = ⟨.request c, .computing id mode n⟩ :: rest) (x : α) :
    (s.leave t c id mode n (.done x true) rest).replies = s.replies ∧
      (s.leave t c id mode n (.done x true) rest).Stage c mark replies := by
  have hfits : Frame.Fits c _ mark ⟨.request c, .computing id mode n⟩ :=
    hh.each t _ (hs ▸ List.mem_cons_self)
  obtain ⟨d, hd, hn⟩ := ((hsound.threads t).each ⟨.request c, .computing id mode n⟩
    (hs ▸ List.mem_cons_self)).running id mode n rfl
  obtain rfl : c = d := Operation.request.inj hd
  have hran : s.Ran mark c.site n ⟨t, c, mode, none⟩ := ⟨hfits.record rfl n rfl, hn, rfl⟩
  cases h with
  | before ran => exact absurd hran (ran n _)
  | @during i u o ran only success cell replied =>
    obtain rfl : n = i := only n _ hran
    obtain ⟨rfl, -, rfl, rfl⟩ := Computation.mk.inj (Option.some.inj (hn.symm.trans ran.2.1))
    refine ⟨rfl, .during (n := n) (t := t) (o := some (.done x true))
      ⟨hran.1, getElem?_settled hn _, rfl⟩ ?_ (fun p hp => ⟨x, (Option.some.inj hp).symm⟩) cell
      replied⟩
    rintro i k ⟨hi, hk, hsite⟩
    by_contra hne
    refine hne (only i k ⟨hi, ?_, hsite⟩)
    exact (getElem?_settled_ne (Ne.symm hne) _).symm.trans hk
  | @after i u y ran only cell replied =>
    obtain rfl : n = i := only n _ hran
    have := Option.some.inj (hn.symm.trans ran.2.1)
    cases this

theorem Stage.finish (h : s.Stage c mark replies) (hh : s.Hosts c mark) {origins : List SiteId}
    (hsound : Sound origins s) {id : SlotId} {n : Nat} {o : Outcome α}
    (hs : s.threads t = ⟨.request c, .finishing id n o⟩ :: rest) :
    (s.finish t c id o rest).Stage c mark (replies ++ [⟨t, .request c, o.value?⟩]) := by
  have hfits : Frame.Fits c _ mark ⟨.request c, .finishing id n o⟩ :=
    hh.each t _ (hs ▸ List.mem_cons_self)
  obtain ⟨d, hd, hn⟩ := ((hsound.threads t).each ⟨.request c, .finishing id n o⟩
    (hs ▸ List.mem_cons_self)).ended id n o rfl
  obtain rfl : c = d := Operation.request.inj hd
  have hran : s.Ran mark c.site n ⟨t, c, .publish, some o⟩ := ⟨hfits.record rfl n rfl, hn, rfl⟩
  have hslot : s.cache.slotOf? c.site = some id := hfits.slot rfl id rfl
  have hcell : (s.finish t c id o rest).cache.cell c.site c.lenient =
      (s.cache.cell c.site c.lenient).finish c.version t (o.cell c.version) :=
    Cache.cell_update hsound.wellFormed hslot c.lenient _
  cases h with
  | before ran => exact absurd hran (ran n _)
  | @during i u p ran only success cell replied =>
    obtain rfl : n = i := only n _ hran
    obtain ⟨rfl, -, -, rfl⟩ := Computation.mk.inj (Option.some.inj (hn.symm.trans ran.2.1))
    obtain ⟨x, rfl⟩ := success o rfl
    rw [cell, Cell.finish_claimed] at hcell
    refine .after ran only hcell fun r hr hop => ?_
    rcases List.mem_append.mp hr with hr | hr
    · exact absurd hop (replied r hr)
    · rw [List.mem_singleton.mp hr]
      rfl
  | @after i u x ran only cell replied =>
    obtain rfl : n = i := only n _ hran
    obtain ⟨rfl, -, -, ho⟩ := Computation.mk.inj (Option.some.inj (hn.symm.trans ran.2.1))
    obtain rfl := Option.some.inj ho
    rw [cell] at hcell
    refine .after ran only hcell fun r hr hop => ?_
    rcases List.mem_append.mp hr with hr | hr
    · exact replied r hr hop
    · rw [List.mem_singleton.mp hr]
      rfl

theorem Stage.still (h : s.Stage c mark replies) (hr : s'.replies = s.replies)
    (hcell : s'.cache.cell c.site c.lenient = s.cache.cell c.site c.lenient)
    (hran : ∀ n k, s'.Ran mark c.site n k ↔ s.Ran mark c.site n k) :
    ∃ more, s'.replies = s.replies ++ more ∧ s'.Stage c mark (replies ++ more) :=
  ⟨[], by simpa using hr, h.quiet hcell hran fun _ hr => absurd hr List.not_mem_nil⟩

theorem Stage.other (h : s.Stage c mark replies) {r : Reply α}
    (hr : s'.replies = s.replies ++ [r]) (hop : r.op ≠ .request c)
    (hcell : s'.cache.cell c.site c.lenient = s.cache.cell c.site c.lenient)
    (hran : ∀ n k, s'.Ran mark c.site n k ↔ s.Ran mark c.site n k) :
    ∃ more, s'.replies = s.replies ++ more ∧ s'.Stage c mark (replies ++ more) :=
  ⟨[r], hr, h.quiet hcell hran fun _ hm => List.mem_singleton.mp hm ▸ hop⟩

theorem Stage.enter_other {origins : List SiteId} (h : s.Stage c mark replies)
    (hsound : Sound origins s) {op : Operation} {id : SlotId}
    (hs : s.threads t = ⟨op, .entering id⟩ :: rest) (hne : op.site ≠ c.site) :
    ∃ more, (s.enter t op id rest).replies = s.replies ++ more ∧
      (s.enter t op id rest).Stage c mark (replies ++ more) := by
  have horigin : origins[id.index]? = some op.site :=
    ((hsound.threads t).each ⟨op, .entering id⟩ (hs ▸ List.mem_cons_self)).slot id rfl
  have hop : op ≠ .request c := by
    rintro rfl
    exact hne rfl
  rcases s.enter_cases t op id rest with
    ⟨v, he⟩ | ⟨d, -, -, he⟩ | ⟨d, why, rfl, he⟩ | ⟨d, rfl, he⟩ | ⟨site, -, he⟩ <;> rw [he]
  · exact h.other rfl hop rfl fun _ _ => Iff.rfl
  · exact h.still rfl rfl fun _ _ => Iff.rfl
  · exact h.still rfl rfl (ran_append rfl hne)
  · exact h.still rfl (hsound.cell_apart horigin hne _ _) (ran_append rfl hne)
  · exact h.other rfl hop (hsound.cell_apart horigin hne _ _) fun _ _ => Iff.rfl

/-- What is permitted keeps the call to its stages. -/
theorem Stage.step (h : s.Stage c mark replies) (hm : c.mayWait = true) (hh : s.Hosts c mark)
    {origins : List SiteId} (hsound : Sound origins s) (ho : s.Orderly) {e : Move α}
    (hs : StepBy t e s s') (he : e.Permits c t s) :
    ∃ more, s'.replies = s.replies ++ more ∧ s'.Stage c mark (replies ++ more) := by
  cases hs with
  | begin _ op => exact h.still rfl rfl fun _ _ => Iff.rfl
  | @look _ op rest hs =>
    rcases s.look_cases t op rest with ⟨id, -, he⟩ | ⟨d, -, he⟩ | ⟨hop, he⟩ <;> rw [he]
    · exact h.still rfl rfl fun _ _ => Iff.rfl
    · exact h.still rfl rfl fun _ _ => Iff.rfl
    · exact h.other rfl (hop c) rfl fun _ _ => Iff.rfl
  | @insert _ d rest hs =>
    exact h.still rfl (congrFun (congrFun (Cache.cell_slotFor hsound.wellFormed d.site) _) _)
      fun _ _ => Iff.rfl
  | @enter _ op id rest hs =>
    by_cases hsite : op.site = c.site
    · -- At the site there are the call itself and reads of the cache, which leave its cell alone.
      have hf : Frame.Fits c _ mark ⟨op, .entering id⟩ := hh.each t _ (hs ▸ List.mem_cons_self)
      rcases hf.op hsite with hop | ⟨v, l, hop⟩
      · have hop : op = .request c := hop
        subst hop
        exact h.enter hm hh hsound ho hs
      · have hop : op = .get c.site v l := hop
        subst hop
        exact h.other rfl nofun rfl fun _ _ => Iff.rfl
    · exact h.enter_other hsound hs hsite
  | wake hs => exact h.still rfl rfl fun _ _ => Iff.rfl
  | @leave _ d id mode n rest hs o =>
    by_cases hsite : d.site = c.site
    · obtain rfl := hh.call hs hsite
      obtain ⟨x, rfl⟩ := he rfl
      obtain ⟨hr, hk⟩ := h.leave hh hsound hs x
      exact ⟨[], by simpa using hr, by simpa using hk⟩
    · obtain ⟨d', hd, hn⟩ := ((hsound.threads t).each ⟨.request d, .computing id mode n⟩
        (hs ▸ List.mem_cons_self)).running id mode n rfl
      obtain rfl : d = d' := Operation.request.inj hd
      cases mode with
      | publish => exact h.still rfl rfl (ran_settled rfl hn hsite)
      | bypass why =>
        refine h.other rfl (fun hop => ?_) rfl (ran_settled rfl hn hsite)
        cases Operation.request.inj hop
        exact hsite rfl
  | @finish _ d id n o rest hs =>
    by_cases hsite : d.site = c.site
    · obtain rfl := hh.call hs hsite
      exact ⟨_, rfl, h.finish hh hsound hs⟩
    · have horigin : origins[id.index]? = some d.site :=
        ((hsound.threads t).each ⟨.request d, .finishing id n o⟩
          (hs ▸ List.mem_cons_self)).slot id rfl
      refine h.other rfl (fun hop => ?_) (hsound.cell_apart horigin hsite _ _) fun _ _ => Iff.rfl
      cases Operation.request.inj hop
      exact hsite rfl
  | remove _ site =>
    have hne : c.site ≠ site := Ne.symm he
    have hcell : (s.cache.remove site).cell c.site c.lenient = s.cache.cell c.site c.lenient := by
      rw [Cache.cell, Cache.slotOf?_remove _ hne]
      rfl
    unfold Shared.remove
    split
    · exact h.still rfl hcell fun _ _ => Iff.rfl
    · exact h.still rfl hcell fun _ _ => Iff.rfl
  | clear =>
    refine h.still rfl ?_ fun _ _ => Iff.rfl
    have he : s.cache.slotOf? c.site = none := he
    change s.cache.clear.cell c.site c.lenient = _
    rw [Cache.cell, Cache.cell, he]
    rfl

/-! ## Runs -/

theorem hosts_of_apart (h : ∀ t, ∀ f ∈ s.threads t, f.op.site ≠ c.site) :
    s.Hosts c s.computations.length where
  length := Nat.le_refl _
  each t f hf := ⟨fun hs => absurd hs (h t f hf), fun hs => absurd hs (h t f hf),
    fun hs => absurd hs (h t f hf)⟩
  once t := List.pairwise_of_forall_mem_list fun f hf _ _ hop =>
    absurd (congrArg Operation.site hop) (h t f hf)

theorem run_stage {s₀ : Shared α} (hm : c.mayWait = true) (h₀ : Reachable s₀)
    (hapart : ∀ t, ∀ f ∈ s₀.threads t, f.op.site ≠ c.site)
    (hcell : s₀.cache.cell c.site c.lenient = .vacant ∨
      ∃ v x, s₀.cache.cell c.site c.lenient = .stored v x ∧ v < c.version)
    (hrun : Relation.ReflTransGen (CallStep c) s₀ s) :
    Reachable s ∧ s.Hosts c s₀.computations.length ∧ ∃ replies, s.replies = s₀.replies ++ replies ∧
      s.Stage c s₀.computations.length replies := by
  induction hrun with
  | refl =>
    refine ⟨h₀, hosts_of_apart hapart, [], (List.append_nil _).symm, .before ?_ hcell ?_⟩
    · rintro n k ⟨hn, hk, -⟩
      rw [List.getElem?_eq_none hn] at hk
      cases hk
    · exact fun r hr => absurd hr List.not_mem_nil
  | tail _ hstep ih =>
    obtain ⟨hreach, hh, replies, hr, hstage⟩ := ih
    obtain ⟨t, e, hs, he⟩ := hstep
    obtain ⟨origins, hsound⟩ := hreach.sound
    obtain ⟨more, hmore, hnext⟩ := hstage.step hm hh hsound hreach.orderly hs he
    refine ⟨hreach.tail hs.step, hh.step hsound.wellFormed hs he, replies ++ more, ?_, hnext⟩
    rw [hmore, hr, List.append_assoc]

/-- However many threads make a call that may wait, and however they take turns: one computation is
begun for all of them, under a claim, and its value answers every thread that returns and is found
from then on. -/
theorem computed_once {s₀ : Shared α} (hm : c.mayWait = true) (h₀ : Reachable s₀)
    (hapart : ∀ t, ∀ f ∈ s₀.threads t, f.op.site ≠ c.site)
    (hcell : s₀.cache.cell c.site c.lenient = .vacant ∨
      ∃ v x, s₀.cache.cell c.site c.lenient = .stored v x ∧ v < c.version)
    (hrun : Relation.ReflTransGen (CallStep c) s₀ s) :
    (∀ n k, s.Ran s₀.computations.length c.site n k → k.call = c ∧ k.mode = .publish ∧
      ∀ i j, s.Ran s₀.computations.length c.site i j → i = n) ∧
    ∀ r ∈ s.replies.drop s₀.replies.length, r.op = .request c →
      ∃ n k x, s.Ran s₀.computations.length c.site n k ∧ k.outcome = some (.done x true) ∧
        r.value = some x ∧ s.cache.get? c.site c.version c.lenient = some x := by
  obtain ⟨-, -, replies, hr, hstage⟩ := run_stage hm h₀ hapart hcell hrun
  rw [hr, List.drop_left]
  cases hstage with
  | before ran cell replied =>
    exact ⟨fun n k hk => absurd hk (ran n k), fun r hm hop => absurd hop (replied r hm)⟩
  | during ran only success cell replied =>
    refine ⟨fun n k hk => ?_, fun r hm hop => absurd hop (replied r hm)⟩
    obtain rfl := only n k hk
    obtain rfl := Option.some.inj (hk.2.1.symm.trans ran.2.1)
    exact ⟨rfl, rfl, only⟩
  | @after n t x ran only cell replied =>
    refine ⟨fun i k hk => ?_, fun r hm hop => ?_⟩
    · obtain rfl := only i k hk
      obtain rfl := Option.some.inj (hk.2.1.symm.trans ran.2.1)
      exact ⟨rfl, rfl, only⟩
    · exact ⟨n, _, x, ran, rfl, replied r hm hop, Cache.get?_eq_some_iff.mpr cell⟩

/-- Two threads make the call; one of them computes, and the other waits for it. -/
theorem computed_once_waiting : ∃ s : Shared Nat,
    Relation.ReflTransGen (CallStep (overtaking 0)) start s ∧
    s.replies = [⟨⟨0⟩, .request (overtaking 0), some 10⟩, ⟨⟨1⟩, .request (overtaking 0), some 10⟩] ∧
    s.cache.get? ⟨0⟩ 0 false = some 10 := by
  have h := Relation.ReflTransGen.refl (r := CallStep (overtaking 0)) (a := (start : Shared Nat))
  have h := h.tail ⟨⟨0⟩, _, .begin (isFree_of_idle rfl) (.request (overtaking 0)),
    fun _ => .inl ⟨rfl, fun _ hf => absurd hf List.not_mem_nil⟩⟩
  have h := (h.tail ⟨⟨0⟩, _, .look rfl, trivial⟩).tail ⟨⟨0⟩, _, .insert rfl, trivial⟩
  have h := h.tail ⟨⟨0⟩, _, .enter rfl, trivial⟩
  have h := h.tail ⟨⟨1⟩, _, .begin (isFree_of_idle rfl) (.request (overtaking 0)),
    fun _ => .inl ⟨rfl, fun _ hf => absurd hf List.not_mem_nil⟩⟩
  have h := (h.tail ⟨⟨1⟩, _, .look rfl, trivial⟩).tail ⟨⟨1⟩, _, .enter rfl, trivial⟩
  have h := h.tail ⟨⟨0⟩, _, .leave rfl (.done 10 true), fun _ => ⟨10, rfl⟩⟩
  have h := h.tail ⟨⟨0⟩, _, .finish rfl, trivial⟩
  have h := h.tail ⟨⟨1⟩, _, .enter rfl, trivial⟩
  refine ⟨_, h, rfl, ?_⟩
  obtain ⟨n, k, x, -, -, hx, hget⟩ := (computed_once rfl .refl
    (fun t f hf => absurd hf List.not_mem_nil) (.inl rfl) h).2
    ⟨⟨1⟩, .request (overtaking 0), some 10⟩ (List.mem_of_mem_tail (List.mem_singleton.mpr rfl)) rfl
  cases hx
  exact hget

end Shared

end DoubleColon
