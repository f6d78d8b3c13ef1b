import DoubleColon.Proofs.Inquiries
import DoubleColon.Proofs.Toggle
import Mathlib.Logic.Relation
import Mathlib.Order.Lattice.Nat

/-!
# Circuits

Wherever two sites depend on each other, there is a shortest way back from some site to one that
asks for it. With switches along this way, all of which copy the state of the next one, apart from
two that negate it, the site where a request begins decides which of these two are on.
-/

set_option autoImplicit false

namespace DoubleColon

open Relation

/-- A way along a relation from a site `head` to a second site, and by descending rank to the
first site again. -/
structure Circuit (R : SiteId → SiteId → Prop) where
  head : SiteId
  second : SiteId
  member : SiteId → Bool
  next : SiteId → SiteId
  rank : SiteId → Nat
  second_ne : second ≠ head
  member_head : member head
  member_second : member second
  next_head : next head = second
  along : ∀ i, member i → R i (next i)
  descends : ∀ i, member i → i ≠ head → member (next i) ∧ rank (next i) < rank i
  below : ∀ i, member i → i ≠ second → rank i < rank second

namespace Circuit

variable {R : SiteId → SiteId → Prop}

def InSteps (R : SiteId → SiteId → Prop) (goal : SiteId) : Nat → SiteId → Prop
  | 0, i => i = goal
  | n + 1, i => ∃ j, R i j ∧ InSteps R goal n j

theorem exists_steps {i goal : SiteId} (h : ReflTransGen R i goal) : ∃ n, InSteps R goal n i := by
  induction h using ReflTransGen.head_induction_on with
  | refl => exact ⟨0, rfl⟩
  | head hij _ ih =>
    obtain ⟨n, hn⟩ := ih
    exact ⟨n + 1, _, hij, hn⟩

theorem reaches_of_steps {goal : SiteId} (n : Nat) {i : SiteId} (h : InSteps R goal n i) :
    ReflTransGen R i goal := by
  induction n generalizing i with
  | zero => rw [show i = goal from h]
  | succ n ih =>
    obtain ⟨j, hij, hj⟩ := h
    exact (ih hj).head hij

/-- The distance to a site descends along some step from every other site that reaches it. -/
theorem exists_distance (R : SiteId → SiteId → Prop) (goal : SiteId) :
    ∃ rank : SiteId → Nat, rank goal = 0 ∧ ∀ i, ReflTransGen R i goal → i ≠ goal →
      ∃ j, R i j ∧ ReflTransGen R j goal ∧ rank j < rank i := by
  have least : ∀ n i, InSteps R goal n i → sInf { n | InSteps R goal n i } ≤ n :=
    fun n i h => Nat.sInf_le h
  refine ⟨fun i => sInf { n | InSteps R goal n i }, Nat.le_zero.mp (least 0 goal rfl), ?_⟩
  intro i hi hne
  have hs : InSteps R goal (sInf { n | InSteps R goal n i }) i := Nat.sInf_mem (exists_steps hi)
  cases hn : sInf { n | InSteps R goal n i } with
  | zero =>
    rw [hn] at hs
    exact absurd hs hne
  | succ n =>
    rw [hn] at hs
    obtain ⟨j, hij, hj⟩ := hs
    refine ⟨j, hij, reaches_of_steps n hj, ?_⟩
    change sInf { n | InSteps R goal n j } < sInf { n | InSteps R goal n i }
    rw [hn]
    exact Nat.lt_succ_of_le (least n j hj)

theorem exists_edge {i j : SiteId} (hij : ReflTransGen R i j) (hji : ReflTransGen R j i)
    (hne : i ≠ j) : ∃ s u, R s u ∧ u ≠ s ∧ ReflTransGen R u s := by
  induction hij using ReflTransGen.head_induction_on with
  | refl => exact absurd rfl hne
  | @head i k hik hkj ih =>
    by_cases hk : k = i
    · subst hk
      exact ih hji hne
    · exact ⟨i, k, hik, hk, hkj.trans hji⟩

theorem exists_circuit {i j : SiteId} (hij : TransGen R i j) (hji : TransGen R j i)
    (hne : i ≠ j) : Nonempty (Circuit R) := by
  classical
  obtain ⟨s, u, hsu, hus, hback⟩ := exists_edge hij.to_reflTransGen hji.to_reflTransGen hne
  obtain ⟨rank, hzero, hdesc⟩ := exists_distance R s
  choose! step hstep hreach hless using hdesc
  have hu := hless u hback hus
  refine ⟨⟨s, u, fun x => decide (ReflTransGen R x s ∧ (x = u ∨ rank x < rank u)),
    fun x => if x = s then u else step x, rank, hus, ?_, ?_, if_pos rfl, ?_, ?_, ?_⟩⟩
  · exact decide_eq_true ⟨.refl, .inr (by omega)⟩
  · exact decide_eq_true ⟨hback, .inl rfl⟩
  · intro x hx
    by_cases hxs : x = s
    · simpa [hxs] using hsu
    · simpa [hxs] using hstep x (of_decide_eq_true hx).1 hxs
  · intro x hx hxs
    obtain ⟨hr, htop⟩ := of_decide_eq_true hx
    have hlt := hless x hr hxs
    have hbelow : rank (step x) < rank u := by
      rcases htop with rfl | htop
      · exact hlt
      · omega
    rw [if_neg hxs]
    exact ⟨decide_eq_true ⟨hreach x hr hxs, .inr hbelow⟩, hlt⟩
  · intro x hx hxu
    exact (of_decide_eq_true hx).2.resolve_left hxu

/-! ## Switches around a circuit -/

/-- The first two sites of a circuit negate the state of the next one, the others copy it. -/
def flips (C : Circuit R) (i : SiteId) : Bool := i = C.head || i = C.second

def switches (ω : Type) (C : Circuit R) : Setting ω where
  base := {}
  env := Toggle.env
  lenient := false
  content := Toggle.site
  inquiry i :=
    if C.member i then .ask (C.next i) fun x =>
      .answer (if Toggle.isOn x = C.flips i then some Toggle.sink else none)
    else .answer none

variable {ω : Type} {C : Circuit R} {i : SiteId}

theorem switches_ask {p : SiteId → Prop} (h : C.member i → p (C.next i)) :
    ((C.switches ω).inquiry i).AsksOnly p := by
  by_cases hm : C.member i = true
  · simp [switches, hm, Inquiry.AsksOnly, h hm]
  · simp [switches, hm, Inquiry.AsksOnly]

def table (C : Circuit R) (on : Bool) (i : SiteId) : Except Interrupt Resolution :=
  Toggle.state (decide (i = C.second) == on)

theorem targeted_switch (on : Bool) :
    (C.switches ω).value i (if on then none else some Toggle.sink) = Toggle.state on := by
  cases on <;> rfl

theorem flip_next (on : Bool) (hm : C.member i) :
    ((decide (C.next i = C.second) == on) != C.flips i) = (decide (i = C.second) == on) := by
  by_cases hi : i = C.head
  · have hne : C.head ≠ C.second := C.second_ne.symm
    cases on <;> simp [flips, hi, C.next_head, hne]
  · have hr := (C.descends i hm hi).2
    have hnext : C.next i ≠ C.second := by
      intro hn
      rw [hn] at hr
      by_cases hs : i = C.second
      · rw [hs] at hr
        omega
      · have := C.below i hm hs
        omega
    by_cases hs : i = C.second
    · rw [hs] at hnext
      cases on <;> simp [flips, hs, hnext, C.second_ne]
    · cases on <;> simp [flips, hi, hs, hnext]

theorem switch_outcome (on : Bool) (hm : C.member i) :
    (C.switches ω).outcome i (C.table on) = C.table on i := by
  obtain ⟨x, hx, hon⟩ := Toggle.state_ok (decide (C.next i = C.second) == on)
  have hasks : (C.switches ω).env.asks ((C.switches ω).site i) = true := rfl
  have hinquiry : (C.switches ω).inquiry i = .ask (C.next i) fun x =>
      .answer (if Toggle.isOn x = C.flips i then some Toggle.sink else none) := if_pos hm
  have hvalue : (C.switches ω).value i
      (if Toggle.isOn x = C.flips i then some Toggle.sink else none) =
        Toggle.state (Toggle.isOn x != C.flips i) := by
    rw [← targeted_switch (C := C) (ω := ω) (i := i)]
    by_cases hf : Toggle.isOn x = C.flips i <;> simp [hf]
  rw [Setting.outcome, if_pos hasks, hinquiry, Inquiry.eval, table, hx]
  change (C.switches ω).value i _ = _
  rw [hvalue, hon, flip_next on hm]
  rfl

end Circuit

end DoubleColon
