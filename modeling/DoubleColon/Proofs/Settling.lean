import Mathlib.Data.List.Perm.Basic
import DoubleColon.Parts

/-!
# Settling values two at a time

Of a list of values two are settled at a time, from the left, and one of the two is kept, or the two
do not go together and there is no result. All orders of the list have the same result exactly if
none has any, or one value prevails: it is kept before and after every other one, and any two values
go together. Some order has a result exactly if some of the values stand in a row such that each
gives way to the next, and each of the other values is passed over for one of them.
-/

set_option autoImplicit false

namespace DoubleColon

section

variable {α : Type} (merge : α → α → Option α)

def settle : List α → Option α
  | [] => none
  | a :: rest => rest.foldlM merge a

structure Selective : Prop where
  same : ∀ a, merge a a = some a
  either : ∀ {a b c}, merge a b = some c → c = a ∨ c = b

/-- A value that is kept before and after every other one, where any two values go together. -/
structure Prevails (l : List α) (a : α) : Prop where
  mem : a ∈ l
  before : ∀ b ∈ l, merge a b = some a
  after : ∀ b ∈ l, merge b a = some a
  together : ∀ b ∈ l, ∀ c ∈ l, (merge b c).isSome

/-- Some of the values, in a row each of which gives way to the next, are such that each of the
others is passed over for one of them. -/
def SomeOrderSettles (l : List α) : Prop :=
  ∃ c cs rest, (c :: cs ++ rest).Perm l ∧
    (c :: cs).IsChain (fun a b => a ≠ b ∧ merge a b = some b) ∧
    ∀ b ∈ rest, ∃ a ∈ c :: cs, merge a b = some a

variable {merge} {l : List α} {a b c x : α}

theorem combine_some (l : List (Option α)) :
    combine merge (some a) l = (l.filterMap id).foldlM merge a := by
  induction l generalizing a with
  | nil => simp
  | cons o rest ih =>
    cases o with
    | none => simpa using ih
    | some b =>
      simp only [combine, List.filterMap_cons, id, List.foldlM_cons]
      cases merge a b with
      | none => rfl
      | some c => exact ih

theorem combine_eq_settle (l : List (Option α)) :
    combine merge none l = settle merge (l.filterMap id) := by
  induction l with
  | nil => rfl
  | cons o rest ih =>
    cases o with
    | none => simpa using ih
    | some b => simpa [combine, settle] using combine_some rest

theorem foldlM_of_kept {rest : List α} (h : ∀ b ∈ rest, merge x b = some x) :
    rest.foldlM merge x = some x := by
  induction rest with
  | nil => rfl
  | cons b rest ih =>
    obtain ⟨hb, hrest⟩ := List.forall_mem_cons.mp h
    rw [List.foldlM_cons, hb]
    exact ih hrest

theorem foldlM_replicate (h : merge x a = some x) (k : Nat) :
    (List.replicate k a).foldlM merge x = some x :=
  foldlM_of_kept fun _ hb => List.eq_of_mem_replicate hb ▸ h

namespace Selective

variable (hm : Selective merge)
include hm

theorem mem_of_foldlM {rest : List α} (h : rest.foldlM merge x = some a) : a = x ∨ a ∈ rest := by
  induction rest generalizing x with
  | nil => exact .inl (Option.some.inj h).symm
  | cons b rest ih =>
    obtain ⟨c, hc, hrest⟩ := Option.bind_eq_some_iff.mp h
    rcases ih hrest with rfl | ha
    · rcases hm.either hc with rfl | rfl
      · exact .inl rfl
      · exact .inr List.mem_cons_self
    · exact .inr (List.mem_cons_of_mem _ ha)

theorem foldlM_congr {merge' : α → α → Option α} {rest : List α}
    (h : ∀ a ∈ l, ∀ b ∈ l, merge' a b = merge a b) (hx : x ∈ l) (hrest : ∀ b ∈ rest, b ∈ l) :
    rest.foldlM merge' x = rest.foldlM merge x := by
  induction rest generalizing x with
  | nil => rfl
  | cons b rest ih =>
    obtain ⟨hb, hrest⟩ := List.forall_mem_cons.mp hrest
    rw [List.foldlM_cons, List.foldlM_cons, h x hx b hb]
    cases hc : merge x b with
    | none => rfl
    | some c => exact ih ((hm.either hc).elim (fun he => he ▸ hx) fun he => he ▸ hb) hrest

theorem settle_congr {merge' : α → α → Option α}
    (h : ∀ a ∈ l, ∀ b ∈ l, merge' a b = merge a b) : settle merge' l = settle merge l := by
  cases l with
  | nil => rfl
  | cons x rest =>
    exact hm.foldlM_congr h List.mem_cons_self fun b hb => List.mem_cons_of_mem x hb

theorem foldlM_of_prevails (h : Prevails merge l a) {rest : List α} (hx : x ∈ l)
    (hrest : ∀ b ∈ rest, b ∈ l) (ha : a = x ∨ a ∈ rest) : rest.foldlM merge x = some a := by
  induction rest generalizing x with
  | nil => exact congrArg some (ha.resolve_right List.not_mem_nil).symm
  | cons b rest ih =>
    obtain ⟨hb, hrest⟩ := List.forall_mem_cons.mp hrest
    obtain ⟨c, hc⟩ := Option.isSome_iff_exists.mp (h.together x hx b hb)
    have hcl : c ∈ l := (hm.either hc).elim (fun he => he ▸ hx) fun he => he ▸ hb
    rw [List.foldlM_cons, hc]
    refine ih hcl hrest ?_
    rcases ha with rfl | ha
    · exact .inl (Option.some.inj ((h.before b hb).symm.trans hc))
    · rcases List.mem_cons.mp ha with rfl | ha
      · exact .inl (Option.some.inj ((h.after x hx).symm.trans hc))
      · exact .inr ha

theorem settle_of_prevails (h : Prevails merge l a) {m : List α} (hperm : m.Perm l) :
    settle merge m = some a := by
  cases m with
  | nil =>
    have hmem := hperm.mem_iff.mpr h.mem
    cases hmem
  | cons x rest =>
    have hall : ∀ b ∈ x :: rest, b ∈ l := fun b hb => hperm.mem_iff.mp hb
    exact hm.foldlM_of_prevails h (hall x List.mem_cons_self)
      (fun b hb => hall b (List.mem_cons_of_mem _ hb)) (List.mem_cons.mp (hperm.mem_iff.mpr h.mem))

variable [DecidableEq α]

omit hm in
theorem exists_perm_front (ha : a ∈ l) (hb : b ∈ l) (hne : b ≠ a) : ∃ k cs,
    a ∉ cs ∧ (List.replicate (k + 1) a ++ b :: cs).Perm l := by
  have hbs : b ∈ l.filter fun c => !(c == a) := List.mem_filter.mpr ⟨hb, by simpa using hne⟩
  obtain ⟨k, hk⟩ := Nat.exists_eq_add_one_of_ne_zero (Nat.ne_of_gt (List.count_pos_iff.mpr ha))
  refine ⟨k, (l.filter fun c => !(c == a)).erase b, fun hmem => ?_, ?_⟩
  · simpa using (List.mem_filter.mp (List.mem_of_mem_erase hmem)).2
  · have hsplit := List.filter_append_perm (fun c => c == a) l
    rw [List.filter_beq, hk] at hsplit
    exact ((List.perm_cons_erase hbs).symm.append_left _).trans hsplit

/-- A value that every order settles on prevails. -/
theorem prevails_of_settle (h : ∀ m, m.Perm l → settle merge m = some a) : Prevails merge l a := by
  have hmem : a ∈ l := by
    have hl := h l (.refl l)
    cases l with
    | nil => cases hl
    | cons x rest => exact List.mem_cons.mpr (hm.mem_of_foldlM hl)
  refine ⟨hmem, fun b hb => ?_, fun b hb => ?_, fun b hb c hc => ?_⟩
  · by_cases hne : b = a
    · exact hne ▸ hm.same b
    · -- All occurrences of `a` come first. If `b` were kept now, `a` would not come back.
      obtain ⟨k, cs, hcs, hperm⟩ := exists_perm_front hmem hb hne
      have hfirst := h _ hperm
      rw [List.replicate_succ, List.cons_append, settle, List.foldlM_append,
        foldlM_replicate (hm.same a)] at hfirst
      change (b :: cs).foldlM merge a = some a at hfirst
      rw [List.foldlM_cons] at hfirst
      obtain ⟨c, hc, hrest⟩ := Option.bind_eq_some_iff.mp hfirst
      obtain rfl := (hm.mem_of_foldlM hrest).resolve_right hcs
      exact hc
  · by_cases hne : b = a
    · exact hne ▸ hm.same b
    · obtain ⟨k, cs, hcs, hperm⟩ := exists_perm_front hmem hb hne
      have hfirst := h (b :: (List.replicate (k + 1) a ++ cs)) (List.perm_middle.symm.trans hperm)
      obtain ⟨c, hc⟩ : ∃ c, merge b a = some c := by
        rw [settle, List.replicate_succ, List.cons_append, List.foldlM_cons] at hfirst
        exact (Option.bind_eq_some_iff.mp hfirst).imp fun _ hc => hc.1
      rcases hm.either hc with rfl | rfl
      · rw [settle, List.foldlM_append, foldlM_replicate hc] at hfirst
        rcases hm.mem_of_foldlM hfirst with rfl | ha
        · exact absurd rfl hne
        · exact absurd ha hcs
      · exact hc
  · by_cases hne : b = c
    · subst hne
      exact Option.isSome_of_eq_some (hm.same b)
    · have hc' : c ∈ l.erase b := (List.mem_erase_of_ne (Ne.symm hne)).mpr hc
      have hperm : (b :: c :: (l.erase b).erase c).Perm l :=
        ((List.perm_cons_erase hc').symm.cons b).trans (List.perm_cons_erase hb).symm
      have hfirst := h _ hperm
      rw [settle, List.foldlM_cons] at hfirst
      obtain ⟨x, hx, -⟩ := Option.bind_eq_some_iff.mp hfirst
      exact Option.isSome_of_eq_some hx

omit [DecidableEq α] in
/-- Where settling gets through, the values that it kept in turn are such a row. -/
theorem exists_row {rest : List α} (h : (rest.foldlM merge x).isSome) : ∃ cs others,
    (cs ++ others).Perm rest ∧ (x :: cs).IsChain (fun a b => a ≠ b ∧ merge a b = some b) ∧
      ∀ b ∈ others, ∃ a ∈ x :: cs, merge a b = some a := by
  induction rest generalizing x with
  | nil => exact ⟨[], [], .nil, .singleton x, List.forall_mem_nil _⟩
  | cons b rest ih =>
    obtain ⟨r, hr⟩ := Option.isSome_iff_exists.mp h
    obtain ⟨c, hc, hrest⟩ := Option.bind_eq_some_iff.mp hr
    obtain ⟨cs, others, hperm, hrow, hothers⟩ := ih (Option.isSome_of_eq_some hrest)
    -- The next value is passed over for `x`, or takes its place and begins the rest of the row.
    by_cases hx : c = x
    · subst hx
      refine ⟨cs, b :: others, List.perm_middle.trans (hperm.cons b), hrow, ?_⟩
      exact List.forall_mem_cons.mpr ⟨⟨c, List.mem_cons_self, hc⟩, hothers⟩
    · obtain rfl := (hm.either hc).resolve_left hx
      refine ⟨c :: cs, others, hperm.cons c, .cons_cons ⟨Ne.symm hx, hc⟩ hrow, fun d hd => ?_⟩
      obtain ⟨a, ha, hkeep⟩ := hothers d hd
      exact ⟨a, List.mem_cons_of_mem _ ha, hkeep⟩

omit hm [DecidableEq α] in
/-- Such a row can be gone through, with the others put behind those that they are passed over
for. -/
theorem exists_order {cs others : List α}
    (hrow : (x :: cs).IsChain (fun a b => a ≠ b ∧ merge a b = some b))
    (hothers : ∀ b ∈ others, ∃ a ∈ x :: cs, merge a b = some a) :
    ∃ m : List α, m.Perm (cs ++ others) ∧ (m.foldlM merge x).isSome := by
  classical
  induction cs generalizing x others with
  | nil =>
    refine ⟨others, .refl _, Option.isSome_of_eq_some (foldlM_of_kept fun b hb => ?_)⟩
    obtain ⟨a, ha, hkeep⟩ := hothers b hb
    obtain rfl := List.mem_singleton.mp ha
    exact hkeep
  | cons c cs ih =>
    obtain ⟨⟨-, hc⟩, hrow⟩ := List.isChain_cons_cons.mp hrow
    -- What `x` is kept against goes before `c`. The others have to wait for a later value.
    let passed : α → Bool := fun b => decide (merge x b = some x)
    have hlater : ∀ b ∈ others.filter (fun b => !passed b), ∃ a ∈ c :: cs, merge a b = some a := by
      intro b hb
      obtain ⟨hb, hp⟩ := List.mem_filter.mp hb
      obtain ⟨a, ha, hkeep⟩ := hothers b hb
      refine ⟨a, (List.mem_cons.mp ha).resolve_left fun he => ?_, hkeep⟩
      subst he
      simp [passed, hkeep] at hp
    obtain ⟨m, hperm, hsome⟩ := ih hrow hlater
    refine ⟨others.filter passed ++ c :: m, ?_, ?_⟩
    · have hsplit := (List.filter_append_perm passed others).append_left cs
      have hmoved := (hperm.append_left (others.filter passed)).trans
        ((List.perm_append_comm_assoc _ _ _).trans hsplit)
      exact List.perm_middle.trans (hmoved.cons c)
    · have hkept : (others.filter passed).foldlM merge x = some x :=
        foldlM_of_kept fun b hb => of_decide_eq_true (List.mem_filter.mp hb).2
      rw [List.foldlM_append, hkept]
      change ((c :: m).foldlM merge x).isSome
      rw [List.foldlM_cons, hc]
      exact hsome

omit [DecidableEq α] in
theorem someOrderSettles_iff :
    SomeOrderSettles merge l ↔ ∃ m, m.Perm l ∧ (settle merge m).isSome := by
  constructor
  · rintro ⟨c, cs, rest, hperm, hrow, hrest⟩
    obtain ⟨m, hm, hsome⟩ := exists_order hrow hrest
    exact ⟨c :: m, (hm.cons c).trans hperm, hsome⟩
  · rintro ⟨m, hperm, hsome⟩
    cases m with
    | nil => cases hsome
    | cons c m =>
      obtain ⟨cs, rest, hcs, hrow, hrest⟩ := hm.exists_row hsome
      exact ⟨c, cs, rest, (hcs.cons c).trans hperm, hrow, hrest⟩

/-- All orders settle alike exactly if none settles at all or one value prevails. -/
theorem order_irrelevant_iff : (∀ m, m.Perm l → settle merge m = settle merge l) ↔
    (SomeOrderSettles merge l → ∃ a, Prevails merge l a) := by
  rw [hm.someOrderSettles_iff]
  constructor
  · rintro hall ⟨m, hperm, hsome⟩
    obtain ⟨a, ha⟩ := Option.isSome_iff_exists.mp hsome
    exact ⟨a, hm.prevails_of_settle fun k hk => ((hall k hk).trans (hall m hperm).symm).trans ha⟩
  · intro hprevails m hperm
    by_cases hsome : ∃ m : List α, m.Perm l ∧ (settle merge m).isSome
    · obtain ⟨a, ha⟩ := hprevails hsome
      rw [hm.settle_of_prevails ha hperm, hm.settle_of_prevails ha (.refl l)]
    · have hnone : ∀ m : List α, m.Perm l → settle merge m = none := fun m hperm =>
        Option.not_isSome_iff_eq_none.mp fun h => hsome ⟨m, hperm, h⟩
      rw [hnone m hperm, hnone l (.refl l)]

end Selective

end

end DoubleColon
