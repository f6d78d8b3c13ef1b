import Mathlib.Data.List.Sort
import DoubleColon.Proofs.OverloadOrder
import DoubleColon.Proofs.MethodAnswers

/-!
# Positions of what is chosen

A choice speaks of candidates by their positions. The positions of the applicable ones ascend, and
a choice falls on one of them or on all of them. What it falls on depends on the applicable
readings in their order but not on where they stand, so that a choice follows its candidates when
they are moved apart.
-/

set_option autoImplicit false

namespace DoubleColon

theorem positions_ascend (rs : List Reading) :
    ((applicable rs).map (·.2)).Pairwise (· < ·) := by
  have h : (rs.zipIdx.map Prod.snd).Pairwise (· < ·) := by
    rw [List.zipIdx_map_snd]
    exact List.pairwise_lt_range'
  exact h.sublist (List.filter_sublist.map _)

theorem mem_positions {rs : List Reading} {i : Nat} : i ∈ (applicable rs).map (·.2) ↔
    ∃ r, rs[i]? = some r ∧ (r.direct = true ∨ r.receiver = true) := by
  constructor
  · intro h
    obtain ⟨⟨r, j⟩, hr, rfl⟩ := List.mem_map.mp h
    exact ⟨r, mem_applicable.mp hr⟩
  · rintro ⟨r, hr⟩
    exact List.mem_map.mpr ⟨(r, i), mem_applicable.mpr hr, rfl⟩

section

variable {env : Env} {pick : Picker} {rs : List Reading}

theorem choose_none_iff : choose env pick rs = .none ↔ applicable rs = [] := by
  unfold choose
  cases applicable rs with
  | nil => simp
  | cons e rest =>
    simp only [reduceCtorEq, iff_false]
    split
    · split <;> simp
    · simp

theorem positions_of_ambiguous {positions : List Nat}
    (h : choose env pick rs = .ambiguous positions) : positions = (applicable rs).map (·.2) := by
  unfold choose at h
  split at h
  · cases h
  · rename_i r i rest happ
    rw [happ]
    split at h
    · dsimp only at h
      split at h
      · cases h
      · exact (Choice.ambiguous.inj h).symm
    · cases h

/-- A choice is left open only by a comparison that names none of the applicable candidates. -/
theorem compared_of_ambiguous {positions : List Nat}
    (h : choose env pick rs = .ambiguous positions) : needsComparison rs = true ∧
      (pick env (overloads rs) (phase rs)).bind (((applicable rs).map (·.2))[·]?) = none := by
  unfold choose at h
  split at h
  · cases h
  · rename_i r i rest happ
    rw [happ]
    split at h
    · rename_i hneeds
      dsimp only at h
      split at h
      · cases h
      · rename_i hnone
        exact ⟨hneeds, hnone⟩
    · cases h

/-! ## Moving candidates apart -/

theorem countP_applicable (p : Reading → Bool) (hp : ∀ r, p r = true → (r.direct || r.receiver))
    (rs : List Reading) : (applicable rs).countP (fun e => p e.1) = rs.countP p := by
  have hmap : (applicable rs).map Prod.fst = rs.filter fun r => r.direct || r.receiver :=
    map_fst_filter_zipIdx (fun r : Reading => r.direct || r.receiver) rs
  have hcount : (applicable rs).countP (fun e => p e.1) =
      ((applicable rs).map Prod.fst).countP p := by
    rw [List.countP_map]
    rfl
  rw [hcount, hmap, List.countP_filter]
  refine List.countP_congr fun r _ => ?_
  simp only [Bool.and_eq_true, and_iff_left_iff_imp]
  exact hp r

theorem needsComparison_eq (rs : List Reading) : needsComparison rs =
    decide (1 < (applicable rs).countP (fun e => e.1.direct) +
      (applicable rs).countP (fun e => e.1.receiver)) := by
  rw [countP_applicable (·.direct) (fun r h => by simp [h]),
    countP_applicable (·.receiver) (fun r h => by simp [h])]
  rfl

theorem both_of_single {e : Reading × Nat} (happ : applicable rs = [e])
    (h : needsComparison rs = true) : e.1.direct = true ∧ e.1.receiver = true := by
  rw [needsComparison_eq, happ] at h
  cases hd : e.1.direct <;> cases hr : e.1.receiver <;> simp [hd, hr] at h ⊢

end

end DoubleColon
