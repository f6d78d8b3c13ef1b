import DoubleColon.Cache

/-!
# What a cache holds for a site

A site is looked up through the index, and what is found there are two cells. `Cache.cell` is that
view. In a well-formed cache no slot serves two sites, so a change to the cell of one site leaves
every other cell alone, and a slot that has once been found for a site stays its slot as long as
the cache only grows.
-/

set_option autoImplicit false

namespace DoubleColon

namespace Cell

variable {α : Type}

theorem get?_eq_some {s : Cell α} {version : Nat} {x : α} :
    s.get? version = some x ↔ s = .stored version x := by
  cases s with
  | stored v y =>
    by_cases h : v = version
    · simp [get?, h]
    · simp [get?, h]
  | _ => simp [get?]

theorem finish_vacant (s : Cell α) (version : Nat) (thread : ThreadId) :
    s.finish version thread .vacant = s ∨ s.finish version thread .vacant = .vacant := by
  cases s with
  | claimed v o =>
    by_cases h : v = version ∧ o = thread
    · exact .inr (by simp [finish, h])
    · exact .inl (by simp [finish, h])
  | _ => exact .inl rfl

end Cell

namespace Cache

variable {α : Type}

structure WellFormed (c : Cache α) : Prop where
  inRange : ∀ e ∈ c.entries, e.2.index < c.slots.length
  apart : ∀ e ∈ c.entries, ∀ f ∈ c.entries, e.2 = f.2 → e.1 = f.1

def cell (c : Cache α) (site : SiteId) (lenient : Bool) : Cell α :=
  match c.slotOf? site with
  | some id => c.state id lenient
  | none => .vacant

structure Grows (c d : Cache α) : Prop where
  wellFormed : d.WellFormed
  keeps : ∀ site id, c.slotOf? site = some id → d.slotOf? site = some id

theorem well_formed_empty : ({} : Cache α).WellFormed :=
  ⟨fun _ h => by simp at h, fun _ h => by simp at h⟩

theorem grows_refl {c : Cache α} (h : c.WellFormed) : c.Grows c := ⟨h, fun _ _ h => h⟩

theorem Grows.trans {c d e : Cache α} (hc : c.Grows d) (hd : d.Grows e) : c.Grows e :=
  ⟨hd.wellFormed, fun site id h => hd.keeps site id (hc.keeps site id h)⟩

theorem mem_of_slot {c : Cache α} {site : SiteId} {id : SlotId} (h : c.slotOf? site = some id) :
    (site, id) ∈ c.entries := by
  obtain ⟨e, he, rfl⟩ := Option.map_eq_some_iff.mp h
  have hs : e.1 = site := by simpa using List.find?_some he
  have hm := List.mem_of_find?_eq_some he
  rwa [← hs]

theorem WellFormed.slot_inj {c : Cache α} (hc : c.WellFormed) {i j : SiteId} {id : SlotId}
    (hi : c.slotOf? i = some id) (hj : c.slotOf? j = some id) : i = j :=
  hc.apart _ (mem_of_slot hi) _ (mem_of_slot hj) rfl

theorem WellFormed.slot_lt {c : Cache α} (hc : c.WellFormed) {i : SiteId} {id : SlotId}
    (hi : c.slotOf? i = some id) : id.index < c.slots.length :=
  hc.inRange _ (mem_of_slot hi)

theorem get?_eq_cell (c : Cache α) (site : SiteId) (version : Nat) (flag : Bool) :
    c.get? site version flag = (c.cell site flag).get? version := by
  unfold get? cell
  cases c.slotOf? site <;> rfl

theorem get?_eq_some_iff {c : Cache α} {site : SiteId} {version : Nat} {flag : Bool} {x : α} :
    c.get? site version flag = some x ↔ c.cell site flag = .stored version x := by
  rw [get?_eq_cell, Cell.get?_eq_some]

/-! ## Finding a slot -/

theorem slot_slotFor (c : Cache α) (site : SiteId) :
    (c.slotFor site).1.slotOf? site = some (c.slotFor site).2 := by
  unfold slotFor
  cases h : c.slotOf? site with
  | some id => exact h
  | none =>
    have hn : c.entries.find? (fun e => e.1 = site) = none := Option.map_eq_none_iff.mp h
    simp [slotOf?, List.find?_append, hn]

theorem grows_slotFor {c : Cache α} (hc : c.WellFormed) (site : SiteId) :
    c.Grows (c.slotFor site).1 := by
  unfold slotFor
  cases h : c.slotOf? site with
  | some id => exact grows_refl hc
  | none =>
    refine ⟨⟨?_, ?_⟩, ?_⟩
    · intro e he
      rcases List.mem_append.mp he with he | he
      · have := hc.inRange e he
        simp only [List.length_append, List.length_singleton]
        omega
      · simp [List.mem_singleton.mp he]
    · intro e he f hf hef
      rcases List.mem_append.mp he with he | he <;> rcases List.mem_append.mp hf with hf | hf
      · exact hc.apart e he f hf hef
      · have := hc.inRange e he
        rw [hef, List.mem_singleton.mp hf] at this
        exact absurd this (Nat.lt_irrefl _)
      · have := hc.inRange f hf
        rw [← hef, List.mem_singleton.mp he] at this
        exact absurd this (Nat.lt_irrefl _)
      · rw [List.mem_singleton.mp he, List.mem_singleton.mp hf]
    · intro i id hi
      obtain ⟨e, he, rfl⟩ := Option.map_eq_some_iff.mp hi
      simp [slotOf?, List.find?_append, he]

/-- A new slot is vacant, so that nothing can be told from making it. -/
theorem cell_slotFor {c : Cache α} (hc : c.WellFormed) (site : SiteId) :
    (c.slotFor site).1.cell = c.cell := by
  funext i flag
  unfold slotFor
  cases h : c.slotOf? site with
  | some id => rfl
  | none =>
    unfold cell
    cases hi : c.slotOf? i with
    | some id =>
      obtain ⟨e, he, rfl⟩ := Option.map_eq_some_iff.mp hi
      have hlt := hc.slot_lt hi
      simp [slotOf?, List.find?_append, he, state, List.getElem?_append_left hlt]
    | none =>
      have hn : c.entries.find? (fun e => e.1 = i) = none := Option.map_eq_none_iff.mp hi
      by_cases his : site = i
      · cases flag <;> simp [slotOf?, List.find?_append, hn, his, state, Slot.state]
      · simp [slotOf?, List.find?_append, hn, his]

theorem state_slotFor (c : Cache α) (site : SiteId) (flag : Bool) :
    (c.slotFor site).1.state (c.slotFor site).2 flag = c.cell site flag := by
  unfold slotFor cell
  cases c.slotOf? site with
  | some id => rfl
  | none => cases flag <;> simp [state, Slot.state]

theorem state_of_length_le {c : Cache α} {id : SlotId} (h : c.slots.length ≤ id.index)
    (flag : Bool) : c.state id flag = .vacant := by
  simp [state, List.getElem?_eq_none h]

theorem state_of_slotFor (c : Cache α) (site : SiteId) (id : SlotId) (flag : Bool) :
    (c.slotFor site).1.state id flag = c.state id flag := by
  unfold slotFor
  cases c.slotOf? site with
  | some k => rfl
  | none =>
    rcases Nat.lt_trichotomy id.index c.slots.length with h | h | h
    · simp [state, List.getElem?_append_left h]
    · cases flag <;> simp [state, h, Slot.state]
    · rw [state_of_length_le (Nat.le_of_lt h),
        state_of_length_le (by simpa [Nat.succ_le_iff] using h)]

/-! ## Changing a cell -/

theorem slotOf?_update (c : Cache α) (id : SlotId) (flag : Bool) (f : Cell α → Cell α) :
    (c.update id flag f).slotOf? = c.slotOf? := rfl

theorem grows_update {c : Cache α} (hc : c.WellFormed) (id : SlotId) (flag : Bool)
    (f : Cell α → Cell α) : c.Grows (c.update id flag f) := by
  refine ⟨⟨fun e he => ?_, hc.apart⟩, fun _ _ h => h⟩
  simpa [update, updateSlot] using hc.inRange e he

theorem state_update {c : Cache α} {id : SlotId} (hid : id.index < c.slots.length) (flag : Bool)
    (f : Cell α → Cell α) : (c.update id flag f).state id flag = f (c.state id flag) := by
  simp [state, update, updateSlot, List.getElem?_eq_getElem hid]

theorem state_update_apart (c : Cache α) {id other : SlotId} {flag flag' : Bool}
    (h : other ≠ id ∨ flag' ≠ flag) (f : Cell α → Cell α) :
    (c.update id flag f).state other flag' = c.state other flag' := by
  unfold state update updateSlot
  by_cases hid : other = id
  · have hf : flag ≠ flag' := by
      rcases h with h | h
      · exact absurd hid h
      · exact Ne.symm h
    subst hid
    cases hs : c.slots[other.index]? with
    | none => simp [hs]
    | some s => simp [hs, Slot.state_update_of_ne s hf f]
  · have hne : id.index ≠ other.index := fun he => hid (by cases id; cases other; simp_all)
    simp [hne]

theorem state_update_cases (c : Cache α) (id : SlotId) (flag : Bool) (f : Cell α → Cell α)
    (k : SlotId) (flag' : Bool) :
    (c.update id flag f).state k flag' = c.state k flag' ∨
      (k = id ∧ flag' = flag ∧ (c.update id flag f).state k flag' = f (c.state k flag')) := by
  by_cases h : k ≠ id ∨ flag' ≠ flag
  · exact .inl (state_update_apart c h f)
  · obtain ⟨rfl, rfl⟩ : k = id ∧ flag' = flag := by simpa using h
    by_cases hk : k.index < c.slots.length
    · exact .inr ⟨rfl, rfl, state_update hk flag' f⟩
    · left
      rw [state_of_length_le (Nat.le_of_not_lt hk),
        state_of_length_le (by simpa [update, updateSlot] using hk)]

theorem cell_update {c : Cache α} (hc : c.WellFormed) {site : SiteId} {id : SlotId}
    (hs : c.slotOf? site = some id) (flag : Bool) (f : Cell α → Cell α) :
    (c.update id flag f).cell site flag = f (c.cell site flag) := by
  simp only [cell, slotOf?_update, hs]
  exact state_update (hc.slot_lt hs) flag f

theorem cell_update_apart {c : Cache α} (hc : c.WellFormed) {site other : SiteId} {id : SlotId}
    {flag flag' : Bool} (hs : c.slotOf? site = some id) (h : other ≠ site ∨ flag' ≠ flag)
    (f : Cell α → Cell α) : (c.update id flag f).cell other flag' = c.cell other flag' := by
  simp only [cell, slotOf?_update]
  cases ho : c.slotOf? other with
  | none => rfl
  | some k =>
    apply state_update_apart
    refine h.imp_left fun hne hk => hne ?_
    exact hc.slot_inj (hk ▸ ho) hs

theorem get?_finish_vacant {c : Cache α} {id : SlotId} {flag : Bool} {version : Nat}
    {thread : ThreadId} {site : SiteId} {v : Nat} {f : Bool} {x : α}
    (h : (c.update id flag fun s => s.finish version thread .vacant).get? site v f = some x) :
    c.get? site v f = some x := by
  obtain ⟨k, hk, hg⟩ := Option.bind_eq_some_iff.mp h
  refine Option.bind_eq_some_iff.mpr ⟨k, hk, ?_⟩
  by_cases ha : k ≠ id ∨ f ≠ flag
  · rwa [state_update_apart c ha] at hg
  · obtain ⟨rfl, rfl⟩ : k = id ∧ f = flag := by simpa using ha
    by_cases hi : k.index < c.slots.length
    · rw [state_update hi] at hg
      rcases (c.state k f).finish_vacant version thread with hs | hs
      · rwa [hs] at hg
      · rw [hs] at hg
        cases hg
    · have hn : c.slots[k.index]? = none := List.getElem?_eq_none_iff.mpr (by omega)
      simp [state, update, updateSlot, hn, Cell.get?] at hg

/-! ## Forgetting -/

/-- The later cache has for every site the cell of the earlier one, or a vacant cell. -/
structure Forgets (c d : Cache α) : Prop where
  wellFormed : d.WellFormed
  cells : ∀ site flag, d.cell site flag = c.cell site flag ∨ d.cell site flag = .vacant

theorem state_invalidated (c : Cache α) (id k : SlotId) (flag : Bool) :
    let d := c.updateSlot id fun s => ⟨s.complete.invalidate, s.incomplete.invalidate⟩
    d.state k flag = c.state k flag ∨ d.state k flag = .vacant := by
  intro d
  by_cases hid : id.index = k.index
  · cases hs : c.slots[k.index]? with
    | none => exact .inl (by simp [d, state, updateSlot, hid, hs])
    | some s =>
      have hd : d.state k flag = (s.state flag).invalidate := by
        cases flag <;> simp [d, state, updateSlot, hid, hs, Slot.state]
      have hc : c.state k flag = s.state flag := by simp [state, hs]
      rw [hd, hc]
      cases s.state flag with
      | stored v x => exact .inr rfl
      | _ => exact .inl rfl
  · exact .inl (by simp [d, state, updateSlot, hid])

theorem forgets_invalidate {c : Cache α} (hc : c.WellFormed) (site : SiteId) :
    c.Forgets (c.invalidate site) := by
  unfold invalidate
  cases c.slotOf? site with
  | none => exact ⟨hc, fun _ _ => .inl rfl⟩
  | some id =>
    refine ⟨⟨fun e he => ?_, hc.apart⟩, fun i flag => ?_⟩
    · simpa [updateSlot] using hc.inRange e he
    · have hd : ∀ f, (c.updateSlot id f).slotOf? i = c.slotOf? i := fun _ => rfl
      unfold cell
      dsimp only
      rw [hd]
      cases c.slotOf? i with
      | none => exact .inl rfl
      | some k => exact state_invalidated c id k flag

theorem slotOf?_remove (c : Cache α) {site other : SiteId} (h : other ≠ site) :
    (c.remove site).slotOf? other = c.slotOf? other := by
  simp only [slotOf?, remove, List.find?_filter]
  congr 2
  funext e
  by_cases he : e.1 = other
  · simp [he, h]
  · simp [he]

theorem forgets_remove {c : Cache α} (hc : c.WellFormed) (site : SiteId) :
    c.Forgets (c.remove site) := by
  refine ⟨⟨fun e he => hc.inRange e (List.mem_filter.mp he).1, fun e he f hf =>
    hc.apart e (List.mem_filter.mp he).1 f (List.mem_filter.mp hf).1⟩, fun i flag => ?_⟩
  by_cases hi : i = site
  · have hn : (c.remove site).slotOf? i = none := by
      simp [slotOf?, remove, hi]
    exact .inr (by rw [cell, hn])
  · exact .inl (by rw [cell, c.slotOf?_remove hi]; rfl)

theorem forgets_clear (c : Cache α) : c.Forgets c.clear :=
  ⟨⟨fun _ h => by simp [clear] at h, fun _ h => by simp [clear] at h⟩, fun _ _ => .inr rfl⟩

end Cache

end DoubleColon
