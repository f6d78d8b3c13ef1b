import Mathlib.Data.List.Forall2
import DoubleColon.Hierarchy
import DoubleColon.Proofs.ReportedMethods

/-!
# A walk and a search side by side

A walk passes over a node if it has met one with its key, a search only if it has met the node
itself. So a search of the same hierarchy looks at nodes that the walk never comes to. They do no
harm: the keys of what is reached from such a node are those of what was reached from the first
node with its key, and these stand before them in the queue. The first node of a key that the
search comes to is the one that the walk has met.
-/

set_option autoImplicit false

namespace DoubleColon

namespace Hierarchy

variable {α β κ : Type}

/-- Nodes of a walk and nodes of a search that stand for each other. What is reached from a node of
the search has keys that depend on the node's key only. -/
structure Corresponds (key : α → κ) (next : α → List α) (key' : β → κ) (next' : β → List β)
    (same : α → β → Prop) : Prop where
  key_eq : ∀ {a b}, same a b → key a = key' b
  next_same : ∀ {a b}, same a b → List.Forall₂ same (next a) (next' b)
  keys_next : ∀ {b c}, key' b = key' c → (next' b).map key' = (next' c).map key'

/-- The queue of a search next to the queue of a walk. The search may have further nodes in its
queue, whose keys are known or stand before them. -/
inductive Shadows (key' : β → κ) (same : α → β → Prop) : List κ → List α → List β → Prop where
  | nil (known : List κ) : Shadows key' same known [] []
  | both {known : List κ} {a : α} {b : β} {as : List α} {bs : List β} (h : same a b)
      (hs : Shadows key' same (key' b :: known) as bs) : Shadows key' same known (a :: as) (b :: bs)
  | extra {known : List κ} {b : β} {as : List α} {bs : List β} (h : key' b ∈ known)
      (hs : Shadows key' same known as bs) : Shadows key' same known as (b :: bs)

section

variable {key : α → κ} {next : α → List α} {key' : β → κ} {next' : β → List β}
  {same : α → β → Prop} {known : List κ} {as : List α} {bs : List β}

theorem Shadows.mono {known' : List κ} (h : Shadows key' same known as bs)
    (hk : ∀ k ∈ known, k ∈ known') : Shadows key' same known' as bs := by
  induction h generalizing known' with
  | nil => exact .nil known'
  | both h _ ih =>
    refine .both h (ih fun k hm => ?_)
    rcases List.mem_cons.mp hm with rfl | hm
    · exact List.mem_cons_self
    · exact List.mem_cons_of_mem _ (hk k hm)
  | extra h _ ih => exact .extra (hk _ h) (ih hk)

theorem Shadows.append {as' : List α} {bs' : List β} (h : Shadows key' same known as bs)
    (h' : Shadows key' same (bs.map key' ++ known) as' bs') :
    Shadows key' same known (as ++ as') (bs ++ bs') := by
  induction h with
  | nil => exact h'
  | both h _ ih =>
    refine .both h (ih (h'.mono fun k hk => ?_))
    simp only [List.map_cons, List.cons_append, List.mem_cons, List.mem_append] at hk ⊢
    tauto
  | extra h _ ih =>
    refine .extra h (ih (h'.mono fun k hk => ?_))
    rcases List.mem_cons.mp hk with rfl | hk
    · exact List.mem_append_right _ h
    · exact hk

theorem shadows_of_same (h : List.Forall₂ same as bs) : Shadows key' same known as bs := by
  induction h generalizing known with
  | nil => exact .nil known
  | cons h _ ih => exact .both h ih

theorem shadows_of_known (h : ∀ b ∈ bs, key' b ∈ known) : Shadows key' same known [] bs := by
  induction bs with
  | nil => exact .nil known
  | cons b bs ih =>
    exact .extra (h b List.mem_cons_self) (ih fun c hc => h c (List.mem_cons_of_mem _ hc))

/-- A walk and a search in step: the search has been at no key that the walk has not been at, and
what is reached from there has been visited or is still in the queue. -/
structure InStep (key' : β → κ) (next' : β → List β) (same : α → β → Prop) (seen : List κ)
    (as : List α) (seen' : List β) (bs : List β) : Prop where
  queues : Shadows key' same seen as bs
  visited : ∀ b ∈ seen', key' b ∈ seen
  closed : ∀ b, key' b ∈ seen → ∀ c ∈ next' b, key' c ∈ seen ∨ key' c ∈ bs.map key'

variable {seen : List κ} {seen' : List β} {a : α} {b : β}

theorem InStep.skip (h : InStep key' next' same seen as seen' (b :: bs))
    (hq : Shadows key' same seen as bs) (hb : key' b ∈ seen) :
    InStep key' next' same seen as seen' bs := by
  refine ⟨hq, h.visited, fun c hc d hd => ?_⟩
  rcases h.closed c hc d hd with hs | hs
  · exact .inl hs
  · rcases List.mem_cons.mp hs with hs | hs
    · exact .inl (hs ▸ hb)
    · exact .inr hs

/-- The search goes on from a node whose key is known. The walk does not follow it. -/
theorem InStep.stray (h : InStep key' next' same seen as seen' (b :: bs))
    (hq : Shadows key' same seen as bs) (hb : key' b ∈ seen) :
    InStep key' next' same seen as (b :: seen') (bs ++ next' b) := by
  have hskip := h.skip hq hb
  refine ⟨?_, List.forall_mem_cons.mpr ⟨hb, h.visited⟩, fun c hc d hd => ?_⟩
  · rw [← List.append_nil as]
    refine hq.append (shadows_of_known fun c hc => ?_)
    exact List.mem_append.mpr (hskip.closed b hb c hc).symm
  · refine (hskip.closed c hc d hd).imp_right fun hm => ?_
    rw [List.map_append]
    exact List.mem_append_left _ hm

theorem InStep.advance (hcor : Corresponds key next key' next' same)
    (h : InStep key' next' same seen (a :: as) seen' (b :: bs)) (hab : same a b)
    (hq : Shadows key' same (key' b :: seen) as bs) :
    InStep key' next' same (key a :: seen) (as ++ next a) (b :: seen') (bs ++ next' b) := by
  rw [hcor.key_eq hab]
  refine ⟨hq.append (shadows_of_same (hcor.next_same hab)), ?_, fun c hc d hd => ?_⟩
  · intro c hc
    rcases List.mem_cons.mp hc with rfl | hc
    · exact List.mem_cons_self
    · exact List.mem_cons_of_mem _ (h.visited c hc)
  · rw [List.map_append]
    rcases List.mem_cons.mp hc with hc | hc
    · refine .inr (List.mem_append_right _ ?_)
      rw [← hcor.keys_next hc]
      exact List.mem_map_of_mem hd
    · rcases h.closed c hc d hd with hs | hs
      · exact .inl (List.mem_cons_of_mem _ hs)
      · rcases List.mem_cons.mp hs with hs | hs
        · exact .inl (hs ▸ List.mem_cons_self)
        · exact .inr (List.mem_append_left _ hs)

end

def passed [DecidableEq β] (next' : β → List β) (seen' : List β) (b : β) (bs : List β) :
    List β × List β :=
  if b ∈ seen' then (seen', bs) else (b :: seen', bs ++ next' b)

theorem search_unwanted [DecidableEq β] (wanted : β → Bool) {next' : β → List β}
    {seen' bs : List β} {b : β} (hb : wanted b = false) (m : Nat) :
    search wanted next' (m + 1) seen' (b :: bs) =
      search wanted next' m (passed next' seen' b bs).1 (passed next' seen' b bs).2 := by
  unfold passed
  by_cases hm : b ∈ seen' <;> simp [search, hm, hb]

theorem search_passed [DecidableEq β] [DecidableEq κ] {key' : β → κ} {k : κ} {next' : β → List β}
    {seen' bs : List β} {b : β} (hb : key' b ≠ k) (m : Nat) :
    search (fun b => decide (key' b = k)) next' (m + 1) seen' (b :: bs) =
      search (fun b => decide (key' b = k)) next' m (passed next' seen' b bs).1
        (passed next' seen' b bs).2 :=
  search_unwanted (fun b => decide (key' b = k)) (decide_eq_false hb) m

theorem InStep.pass [DecidableEq β] {key' : β → κ} {next' : β → List β} {same : α → β → Prop}
    {seen : List κ} {as : List α} {seen' bs : List β} {b : β}
    (h : InStep key' next' same seen as seen' (b :: bs)) (hq : Shadows key' same seen as bs)
    (hb : key' b ∈ seen) : InStep key' next' same seen as (passed next' seen' b bs).1
      (passed next' seen' b bs).2 := by
  unfold passed
  split
  · exact h.skip hq hb
  · exact h.stray hq hb

theorem visits_nil [DecidableEq κ] (key : α → κ) (next : α → List α) (n : Nat) (seen : List κ) :
    visits key next n seen [] = some [] := by
  cases n <;> rfl

/-- What a walk meets under a key is what a search for the key finds, if the search ends. -/
theorem found_of_visited [DecidableEq β] [DecidableEq κ] {key : α → κ} {next : α → List α}
    {key' : β → κ} {next' : β → List β} {same : α → β → Prop}
    (hcor : Corresponds key next key' next' same) {n m : Nat} {seen : List κ} {as out : List α}
    {seen' bs : List β} {a : α} (hstep : InStep key' next' same seen as seen' bs)
    (hv : visits key next n seen as = some out) (ha : a ∈ out)
    (hs : search (fun b => decide (key' b = key a)) next' m seen' bs ≠ .exhausted) :
    ∃ b, search (fun b => decide (key' b = key a)) next' m seen' bs = .found b ∧ same a b := by
  -- The induction is on the steps of the search, which looks at every node the walk comes to.
  induction m generalizing n seen as out seen' bs with
  | zero =>
    cases hstep.queues with
    | nil =>
      rw [visits_nil] at hv
      cases hv
      cases ha
    | both h hq => exact absurd rfl hs
    | extra h hq => exact absurd rfl hs
  | succ m ih =>
    have hnew := (keys_visits hv).2 a ha
    -- What the walk has yet to meet has a new key.
    have hother : ∀ b, key' b ∈ seen → key' b ≠ key a := fun b hb he => hnew (he ▸ hb)
    have hqueues := hstep.queues
    cases hqueues with
    | nil =>
      rw [visits_nil] at hv
      cases hv
      cases ha
    | @extra _ b as bs hb hq =>
      rw [search_passed (hother b hb)] at hs ⊢
      exact ih (hstep.pass hq hb) hv ha hs
    | @both _ c b as bs hcb hq =>
      cases n with
      | zero => simp [visits] at hv
      | succ n =>
        have hkey : key c = key' b := hcor.key_eq hcb
        simp only [visits] at hv
        by_cases hc : key c ∈ seen
        · simp only [hc, if_true] at hv
          have hb : key' b ∈ seen := hkey ▸ hc
          have hrest : Shadows key' same seen as bs := hq.mono fun k hk =>
            (List.mem_cons.mp hk).elim (fun he => he ▸ hb) id
          have hextra : InStep key' next' same seen as seen' (b :: bs) :=
            ⟨.extra hb hrest, hstep.visited, hstep.closed⟩
          rw [search_passed (hother b hb)] at hs ⊢
          exact ih (hextra.pass hrest hb) hv ha hs
        · simp only [hc, if_false] at hv
          obtain ⟨rest, hrest, rfl⟩ := Option.map_eq_some_iff.mp hv
          have hm : b ∉ seen' := fun hm => hc (hkey ▸ hstep.visited b hm)
          rcases List.mem_cons.mp ha with rfl | ha
          · exact ⟨b, by simp [search, hm, hkey], hcb⟩
          · have hfresh : key a ≠ key c := fun he =>
              (keys_visits hrest).2 a ha (List.mem_cons.mpr (.inl he))
            have hb : key' b ≠ key a := fun he => hfresh (he.symm.trans hkey.symm)
            rw [search_passed hb, passed, if_neg hm] at hs ⊢
            exact ih (hstep.advance hcor hcb hq) hrest ha hs

/-! ## The end of a walk -/

section

variable [DecidableEq κ] (degree : κ → Nat)

def pending (seen : List κ) : List κ → Nat
  | [] => 0
  | k :: keys => (if k ∈ seen then 0 else degree k) + pending seen keys

variable {degree} {seen keys : List κ} {k : κ}

theorem pending_cons_le : pending degree (k :: seen) keys ≤ pending degree seen keys := by
  induction keys with
  | nil => exact Nat.le_refl _
  | cons j keys ih =>
    unfold pending
    by_cases hj : j ∈ seen
    · simp only [hj, List.mem_cons_of_mem k hj, if_true]
      omega
    · simp only [hj, if_false]
      split <;> omega

theorem pending_cons (hk : k ∈ keys) (hs : k ∉ seen) :
    pending degree (k :: seen) keys + degree k ≤ pending degree seen keys := by
  induction keys with
  | nil => cases hk
  | cons j keys ih =>
    have hle := @pending_cons_le κ _ degree seen keys k
    unfold pending
    rcases List.mem_cons.mp hk with rfl | hk
    · simp only [List.mem_cons_self, hs, if_true, if_false]
      omega
    · have ih := ih hk
      by_cases hj : j ∈ seen
      · simp only [hj, List.mem_cons_of_mem k hj, if_true]
        omega
      · simp only [hj, if_false]
        split <;> omega

/-- A walk ends if it stays among nodes of which those with finitely many keys lead on, each to so
many nodes at most. -/
theorem exists_visits_inside {key : α → κ} {next : α → List α} {inside : α → Prop}
    (hclosed : ∀ a, inside a → ∀ b ∈ next a, inside b)
    (hnext : ∀ a, inside a → (next a).length ≤ degree (key a))
    (hkeys : ∀ a, inside a → key a ∉ keys → next a = []) {n : Nat} {queue : List α}
    (hq : ∀ a ∈ queue, inside a) (hn : queue.length + pending degree seen keys ≤ n) :
    ∃ out, visits key next n seen queue = some out := by
  induction n generalizing seen queue with
  | zero =>
    have hq : queue = [] := List.eq_nil_of_length_eq_zero (by omega)
    exact ⟨[], by rw [hq]; rfl⟩
  | succ n ih =>
    cases queue with
    | nil => exact ⟨[], rfl⟩
    | cons a queue =>
      obtain ⟨hin, hqueue⟩ := List.forall_mem_cons.mp hq
      rw [List.length_cons] at hn
      unfold visits
      by_cases ha : key a ∈ seen
      · simp only [ha, if_true]
        exact ih hqueue (by omega)
      · -- A new key gives up its share of what is pending for the nodes it leads to.
        have hroom : (queue ++ next a).length + pending degree (key a :: seen) keys ≤ n := by
          rw [List.length_append]
          by_cases hk : key a ∈ keys
          · have hp := @pending_cons κ _ degree seen keys (key a) hk ha
            have hd := hnext a hin
            omega
          · have hp := @pending_cons_le κ _ degree seen keys (key a)
            rw [hkeys a hin hk, List.length_nil]
            omega
        have hstay : ∀ b ∈ queue ++ next a, inside b := fun b hb =>
          (List.mem_append.mp hb).elim (hqueue b) (hclosed a hin b)
        obtain ⟨out, hout⟩ := ih hstay hroom
        exact ⟨a :: out, by simp only [ha, if_false, hout, Option.map_some]⟩

theorem exists_visits {key : α → κ} {next : α → List α}
    (hnext : ∀ a, (next a).length ≤ degree (key a)) (hkeys : ∀ a, key a ∉ keys → next a = [])
    {n : Nat} {queue : List α} (hn : queue.length + pending degree seen keys ≤ n) :
    ∃ out, visits key next n seen queue = some out :=
  exists_visits_inside (fun _ _ _ _ => trivial) (fun a _ => hnext a) (fun a _ => hkeys a)
    (fun _ _ => trivial) hn

end

end Hierarchy

end DoubleColon
