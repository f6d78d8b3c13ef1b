import DoubleColon.Proofs.Circuits
import Mathlib.Data.Finset.Card
import Mathlib.Data.List.Perm.Subperm

/-!
# Results and the order of requests

A session that begins with an empty cache resolves sites that do not change, whose providers answer
from results. Whether a result may depend on what was resolved before is settled by the sites that
the providers ask for. Sites that ask for themselves do no harm. Along a longer cycle, though, a
request stores what its first site comes to, which another site of the cycle is told from then on,
while in a request of its own it is told what the first site comes to when it is told in turn what
the second one comes to without a target.
-/

set_option autoImplicit false

namespace DoubleColon

namespace Setting

open Relation

variable {ω : Type}

def resolve (S : Setting ω) (depth : Nat) (i : SiteId) (c : Caller) (w : World ω) :
    Except Interrupt Issued × World ω :=
  S.resolver.resolve (S.context c) depth (S.site i) w

def after (S : Setting ω) (depth : Nat) (history : List (SiteId × Caller)) (w : World ω) :
    World ω :=
  history.foldl (fun w q => (S.resolve depth q.1 q.2 w).2) w

/-- Every request for one of the sites has the same result after other such requests as it has with
an empty cache. -/
def OrderIndependent (S : Setting ω) (depth : Nat) (ids : List SiteId) : Prop :=
  ∀ w : World ω, w.cache = {} → ∀ history : List (SiteId × Caller),
    (∀ q ∈ history, q.1 ∈ ids ∧ w.tokens.IsLive q.2.token) →
    ∀ i ∈ ids, ∀ c : Caller, w.tokens.IsLive c.token →
      (S.resolve depth i c (S.after depth history w)).1.map (·.resolution) =
        (S.resolve depth i c w).1.map (·.resolution)

def Within (ids : List SiteId) (dep : SiteId → SiteId → Prop) (i j : SiteId) : Prop :=
  i ∈ ids ∧ j ∈ ids ∧ dep i j

def AsksAlong (S : Setting ω) (ids : List SiteId) (dep : SiteId → SiteId → Prop) : Prop :=
  ∀ i ∈ ids, (S.inquiry i).AsksOnly (Within ids dep i)

/-! ## Requests under a plan -/

variable {S : Setting ω} {T : Tokens} {c : Caller} {v : SiteId → Except Interrupt Resolution}
  {look : SiteId → SiteId → Except Interrupt Resolution} {known broken : SiteId → Prop}
  {Ok : List SiteId → SiteId → Prop} {depth : Nat} {ids : List SiteId} {i : SiteId} {w : World ω}

theorem steady_empty (v : SiteId → Except Interrupt Resolution) (broken : SiteId → Prop)
    (hw : w.cache = {}) : S.Steady w.tokens v (fun _ => False) broken [] [] (.start w) where
  assumed _ := rfl
  underway := rfl
  tokens := rfl
  wellFormed := by
    change w.cache.WellFormed
    rw [hw]
    exact Cache.well_formed_empty
  cells i := by
    change S.CellOk v _ [] i (w.cache.cell i S.lenient)
    rw [hw]
    exact id
  breaks _ hb := absurd hb List.not_mem_nil

theorem Steady.learned (h : S.Steady T v known broken [] [] (.start w)) (known' : SiteId → Prop)
    (broken' : SiteId → Prop)
    (hk : ∀ i, known' i → ∃ version x, w.cache.cell i S.lenient = .stored version x) :
    S.Steady T v known' broken' [] [] (.start w) where
  assumed := h.assumed
  underway := h.underway
  tokens := h.tokens
  wellFormed := h.wellFormed
  cells i := by
    have hc := h.cells i
    change S.CellOk v known [] i (w.cache.cell i S.lenient) at hc
    change S.CellOk v known' [] i (w.cache.cell i S.lenient)
    cases hx : w.cache.cell i S.lenient with
    | vacant =>
      intro hi
      obtain ⟨version, x, hs⟩ := hk i hi
      rw [hx] at hs
      cases hs
    | claimed version owner =>
      rw [hx] at hc
      exact absurd hc.1 List.not_mem_nil
    | stored version x => rwa [hx] at hc
  breaks _ hb := absurd hb List.not_mem_nil

theorem Plan.resolve (P : S.Plan v look known broken Ok depth) (hl : T.IsLive c.token) {n : Nat}
    (hok : known i ∨ Ok [] i) (hn : depth ≤ n)
    (h : S.Steady T v known broken [] [] (.start w)) :
    (S.resolve n i c w).1.map (·.resolution) = v i ∧
      S.Steady T v known broken [] [] (.start (S.resolve n i c w).2) ∧
      ((∀ b, broken b → b = i) → ∀ x, v i = .ok x →
        ∃ version y, (S.resolve n i c w).2.cache.cell i S.lenient = .stored version y) := by
  obtain ⟨out, t, he, hv, ht, hs⟩ := P.request hl n List.not_mem_nil hok hn h
  have hr : S.resolve n i c w = (out, t.world) := by
    unfold Setting.resolve Resolver.resolve
    change (let (result, s) := S.resolver.resolveWithin (S.context c) n (S.site i) (.start w);
      (result, s.world)) = _
    rw [he]
  rw [hr]
  refine ⟨hv, ⟨fun _ => rfl, rfl, ht.tokens, ht.wellFormed, ht.cells,
    fun _ hb => absurd hb List.not_mem_nil⟩, fun hb x hx => ?_⟩
  rw [← hv] at hx
  cases out with
  | error e => cases hx
  | ok y => exact hs hb y rfl

theorem Plan.after (P : S.Plan v look known broken Ok depth) {n : Nat} (hn : depth ≤ n)
    (history : List (SiteId × Caller))
    (hh : ∀ q ∈ history, (known q.1 ∨ Ok [] q.1) ∧ T.IsLive q.2.token)
    (h : S.Steady T v known broken [] [] (.start w)) :
    S.Steady T v known broken [] [] (.start (S.after n history w)) := by
  induction history generalizing w with
  | nil => exact h
  | cons q rest ih =>
    obtain ⟨hok, hl⟩ := hh q List.mem_cons_self
    obtain ⟨-, ht, -⟩ := P.resolve hl hok hn h
    exact ih (fun p hp => hh p (List.mem_cons_of_mem _ hp)) ht

/-! ## Plans along a rank -/

/-- The site is next when sites underway have been asked for in descending rank, among them those of
`first`. -/
structure Descending (M : SiteId → Prop) (rank : SiteId → Nat) (first U : List SiteId)
    (i : SiteId) : Prop where
  member : M i
  nodup : U.Nodup
  above : ∀ x ∈ U, M x ∧ rank i < rank x
  begun : first ⊆ i :: U

/-- A table is right for sites that ask for known sites, for sites of lower rank, for themselves and
for the first site. -/
theorem plan_descending {M : SiteId → Prop} (rank : SiteId → Nat) {first : List SiteId}
    (hids : ∀ i, M i → i ∈ ids) (hknown : ∀ i, known i → ¬ M i)
    (hsolve : ∀ i, M i → S.outcome i (look i) = v i)
    (hasks : ∀ i, M i → (S.inquiry i).AsksOnly fun j =>
      ((j = i ∨ j ∈ first) ∧ broken j ∧ look i j = S.value j none) ∨
      (look i j = v j ∧ (known j ∨ (M j ∧ rank j < rank i)))) :
    S.Plan v look known broken (Descending M rank first) ids.length := by
  have apart : ∀ {U i}, Descending M rank first U i → i ∉ U := fun h hi =>
    absurd (h.above _ hi).2 (Nat.lt_irrefl _)
  refine ⟨fun U i h => hsolve i h.member, fun U i => apart, fun U i h => ?_, fun U i h => ?_⟩
  · have hnodup : (i :: U).Nodup := List.nodup_cons.mpr ⟨apart h, h.nodup⟩
    have hsub : i :: U ⊆ ids := List.cons_subset.mpr
      ⟨hids i h.member, fun x hx => hids x (h.above x hx).1⟩
    exact (hnodup.subperm hsub).length_le
  · refine (hasks i h.member).mono fun j hj => ?_
    rcases hj with ⟨hm, hb, hv⟩ | ⟨hv, hj⟩
    · refine .inl ⟨?_, hb, hv⟩
      rcases hm with rfl | hm
      · exact List.mem_cons_self
      · exact h.begun hm
    · have members : ∀ x ∈ i :: U, M x ∧ rank i ≤ rank x := fun x hx => by
        rcases List.mem_cons.mp hx with rfl | hx
        · exact ⟨h.member, Nat.le_refl _⟩
        · exact ⟨(h.above x hx).1, Nat.le_of_lt (h.above x hx).2⟩
      rcases hj with hk | ⟨hm, hr⟩
      · exact .inr ⟨fun hx => hknown j hk (members j hx).1, hv, .inl hk⟩
      · refine .inr ⟨fun hx => absurd (members j hx).2 (by omega), hv, .inr ⟨hm, ?_, ?_, ?_⟩⟩
        · exact List.nodup_cons.mpr ⟨apart h, h.nodup⟩
        · exact fun x hx => ⟨(members x hx).1, Nat.lt_of_lt_of_le hr (members x hx).2⟩
        · exact fun x hx => List.mem_cons_of_mem _ (h.begun hx)

theorem descending_start {M : SiteId → Prop} (rank : SiteId → Nat) {first : List SiteId}
    (hi : M i) (hf : first ⊆ [i]) : Descending M rank first [] i :=
  ⟨hi, .nil, fun _ hx => absurd hx List.not_mem_nil, hf⟩

/-! ## Sites without a longer cycle -/

/-- What sites come to if each is told what sites of lower rank come to, and what the others come to
without a target. -/
theorem exists_table (S : Setting ω) (rank : SiteId → Nat) :
    ∃ v : SiteId → Except Interrupt Resolution, ∀ i,
      S.outcome i (fun j => if rank j < rank i then v j else S.value j none) = v i := by
  let told (i : SiteId) (v : ∀ j, rank j < rank i → Except Interrupt Resolution) :=
    S.outcome i fun j => if h : rank j < rank i then v j h else S.value j none
  refine ⟨(measure rank).wf.fix told, fun i => ?_⟩
  rw [(measure rank).wf.fix_eq told i]
  exact congrArg (S.outcome i) (funext fun j => (dite_eq_ite).symm)

/-- Without longer cycles, the number of other sites that a site depends on is a rank. -/
theorem exists_rank {dep : SiteId → SiteId → Prop}
    (h : ∀ i j, TransGen (Within ids dep) i j → TransGen (Within ids dep) j i → i = j) :
    ∃ rank : SiteId → Nat, ∀ i j, Within ids dep i j → j ≠ i → rank j < rank i := by
  classical
  let below (i : SiteId) := ids.toFinset.filter fun k => TransGen (Within ids dep) i k ∧ k ≠ i
  refine ⟨fun i => (below i).card, fun i j hij hne => Finset.card_lt_card ?_⟩
  rw [Finset.ssubset_iff_of_subset]
  · refine ⟨j, ?_, fun hj => (Finset.mem_filter.mp hj).2.2 rfl⟩
    exact Finset.mem_filter.mpr ⟨List.mem_toFinset.mpr hij.2.1, .single hij, hne⟩
  · intro k hk
    obtain ⟨hm, hjk, -⟩ := Finset.mem_filter.mp hk
    refine Finset.mem_filter.mpr ⟨hm, .head hij hjk, ?_⟩
    rintro rfl
    exact hne (h j k hjk (.single hij))

theorem order_independent_of_rank {dep : SiteId → SiteId → Prop} (hS : S.AsksAlong ids dep)
    {rank : SiteId → Nat} (hr : ∀ i j, Within ids dep i j → j ≠ i → rank j < rank i)
    (hd : ids.length ≤ depth) : S.OrderIndependent depth ids := by
  obtain ⟨v, hv⟩ := S.exists_table rank
  have P : S.Plan v (fun i j => if rank j < rank i then v j else S.value j none) (fun _ => False)
      (fun _ => True) (Descending (· ∈ ids) rank []) ids.length := by
    refine plan_descending rank (fun _ hi => hi) (fun _ hf => hf.elim) (fun i _ => hv i)
      fun i hi => (hS i hi).mono fun j hj => ?_
    by_cases hji : j = i
    · exact .inl ⟨.inl hji, trivial, by rw [if_neg (by rw [hji]; omega)]⟩
    · have hlt := hr i j hj hji
      exact .inr ⟨if_pos hlt, .inr ⟨hj.2.1, hlt⟩⟩
  intro w hw history hh i hi c hl
  have ok : ∀ j ∈ ids, Descending (· ∈ ids) rank [] [] j := fun j hj =>
    descending_start rank hj (List.nil_subset _)
  have hempty := steady_empty (S := S) v (fun _ => True) hw
  have hafter := P.after hd history (fun q hq => ⟨.inr (ok q.1 (hh q hq).1), (hh q hq).2⟩) hempty
  rw [(P.resolve hl (.inr (ok i hi)) hd hafter).1, (P.resolve hl (.inr (ok i hi)) hd hempty).1]

/-! ## Sites around a circuit

With an empty cache, the second site is on. A request for the first site, though, finds that site on
and the second one off, and where the first site is known, so does a request for the second one. -/

section Circuit

variable {dep : SiteId → SiteId → Prop} {C : Circuit (Within ids dep)}

theorem plan_circuit (on : Bool) {M : SiteId → Prop} (rank : SiteId → Nat) {first : List SiteId}
    (hM : ∀ i, M i → C.member i) (hknown : ∀ i, known i → ¬ M i)
    (hasks : ∀ i, M i →
      (C.next i ∈ first ∧ broken (C.next i) ∧ C.table on (C.next i) = Toggle.state true) ∨
      (known (C.next i) ∨ (M (C.next i) ∧ rank (C.next i) < rank i))) :
    (C.switches ω).Plan (C.table on) (fun _ => C.table on) known broken
      (Descending M rank first) ids.length := by
  refine plan_descending rank (fun i hi => (C.along i (hM i hi)).1) hknown
    (fun i hi => Circuit.switch_outcome on (hM i hi)) ?_
  intro i hi
  refine Circuit.switches_ask fun _ => ?_
  rcases hasks i hi with ⟨hm, hb, hv⟩ | hk
  · exact .inl ⟨.inr hm, hb, hv⟩
  · exact .inr ⟨rfl, hk⟩

theorem plan_alone : (C.switches ω).Plan (C.table true) (fun _ => C.table true) (fun _ => False)
    (· = C.second) (Descending (fun i => C.member i) C.rank [C.second]) ids.length := by
  refine plan_circuit true C.rank (fun _ hi => hi) (fun _ hf => hf.elim) fun i hi => ?_
  by_cases hs : C.next i = C.second
  · exact .inl ⟨by simp [hs], hs, by simp [Circuit.table, hs]⟩
  · refine .inr (.inr (C.descends i hi ?_))
    rintro rfl
    exact hs C.next_head

theorem plan_head : (C.switches ω).Plan (C.table false) (fun _ => C.table false) (fun _ => False)
    (· = C.head) (Descending (fun i => C.member i)
      (fun i => if i = C.head then C.rank C.second + 1 else C.rank i) [C.head]) ids.length := by
  refine plan_circuit false _ (fun _ hi => hi) (fun _ hf => hf.elim) fun i hm => ?_
  by_cases hh : C.next i = C.head
  · exact .inl ⟨by simp [hh], hh, by simp [Circuit.table, hh, C.second_ne.symm]⟩
  · refine .inr (.inr ?_)
    by_cases hi : i = C.head
    · have hnext : C.next i = C.second := by rw [hi, C.next_head]
      rw [hnext]
      exact ⟨C.member_second, by simp [hi, C.second_ne]⟩
    · obtain ⟨hn, hr⟩ := C.descends i hm hi
      exact ⟨hn, by simpa [hi, hh] using hr⟩

theorem plan_after : (C.switches ω).Plan (C.table false) (fun _ => C.table false) (· = C.head)
    (fun _ => False) (Descending (fun i => C.member i ∧ i ≠ C.head) C.rank []) ids.length := by
  refine plan_circuit false C.rank (fun _ hi => hi.1) (fun _ hi hf => hf.2 hi) fun i hi => ?_
  by_cases hh : C.next i = C.head
  · exact .inr (.inl hh)
  · obtain ⟨hm, hr⟩ := C.descends i hi.1 hi.2
    exact .inr (.inr ⟨⟨hm, hh⟩, hr⟩)

theorem order_dependent_of_circuit [Inhabited ω] (C : Circuit (Within ids dep)) :
    ¬ (C.switches ω).OrderIndependent ids.length ids := by
  intro h
  let w : World ω := ⟨{}, [{}], 0, default⟩
  let c : Caller := ⟨⟨0⟩, ⟨0⟩⟩
  have hl : w.tokens.IsLive c.token := by
    intro t ht
    obtain rfl := Option.some.inj ht
    exact ⟨rfl, rfl⟩
  have hhead : C.head ∈ ids := (C.along _ C.member_head).1
  have hsecond : C.second ∈ ids := (C.along _ C.member_second).1
  have halone := (plan_alone (C := C) (ω := ω)).resolve hl
    (.inr (descending_start _ C.member_second (List.Subset.refl _))) (Nat.le_refl _)
    (steady_empty _ _ rfl)
  obtain ⟨-, hsteady, hstored⟩ := (plan_head (C := C) (ω := ω)).resolve hl
    (.inr (descending_start _ C.member_head (List.Subset.refl _))) (Nat.le_refl _)
    (steady_empty _ _ rfl)
  obtain ⟨x, hx, -⟩ := Toggle.state_ok (decide (C.head = C.second) == false)
  have hknown := hsteady.learned (· = C.head) (fun _ => False) (by
    rintro i rfl
    exact hstored (fun _ hb => hb) x hx)
  have hafter := (plan_after (C := C) (ω := ω)).resolve hl
    (.inr (descending_start _ ⟨C.member_second, C.second_ne⟩ (List.nil_subset _))) (Nat.le_refl _)
    hknown
  have heq := h w rfl [(C.head, c)] (by simpa using ⟨hhead, hl⟩) C.second hsecond c hl
  have hstate : C.table false C.second = C.table true C.second :=
    hafter.1.symm.trans (heq.trans halone.1)
  exact Toggle.state_ne (by simpa [Circuit.table] using hstate)

end Circuit

/-- Results do not depend on what was resolved before, whatever the providers make of the results
that they ask for along the dependencies, if and only if no two sites depend on each other. -/
theorem order_independent_iff [Inhabited ω] (ids : List SiteId) (dep : SiteId → SiteId → Prop) :
    (∀ S : Setting ω, S.AsksAlong ids dep → ∀ depth, ids.length ≤ depth →
      S.OrderIndependent depth ids) ↔
    ∀ i j, TransGen (Within ids dep) i j → TransGen (Within ids dep) j i → i = j := by
  constructor
  · intro h i j hij hji
    by_contra hne
    obtain ⟨C⟩ := Circuit.exists_circuit hij hji hne
    have hasks : (C.switches ω).AsksAlong ids dep := fun i _ => Circuit.switches_ask (C.along i)
    exact order_dependent_of_circuit C (h _ hasks _ (Nat.le_refl _))
  · intro h S hS depth hd
    obtain ⟨rank, hr⟩ := exists_rank h
    exact order_independent_of_rank hS hr hd

end Setting

end DoubleColon
